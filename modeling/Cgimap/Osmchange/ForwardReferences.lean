/- path: Cgimap/Osmchange/ForwardReferences
   generality: I
   source: src/backend/apidb/changeset_upload/relation_updater.cpp
   digest: The check for forward references knows the placeholders of one batch only. -/

import Cgimap.Osmchange.DocumentRuns
import Mathlib.Data.List.DropRight

set_option autoImplicit false
set_option relaxedAutoImplicit false

namespace Cgimap.Osmchange.ForwardReferences

open Cgimap.Library.StatementProgram
open Cgimap.Library.StatementProgram.Prog
open Cgimap.Model.Types
open Cgimap.Model.Database
open Cgimap.Osmchange.UploadRecords
open Cgimap.Osmchange.UpdaterChecks
open Cgimap.Osmchange.UpdaterProcess
open Cgimap.Osmchange.Handler
open Cgimap.Osmchange.DocumentRuns

variable {env : Env}

def isNewRelation (el : Element) : Bool := decide (Element.state el = .create .relation)

/-- The element creates a relation with the placeholder. -/
def Creates (el : Element) (r : Int) : Prop := isNewRelation el = true ∧ el.object.id = r

def members (o : OsmObject .relation) : List RelationMember := o.body

/-- The relation has the placeholder of a relation among its members. -/
def Refers (o : OsmObject .relation) (r : Int) : Prop :=
  r < 0 ∧ ∃ m ∈ members o, m.memberType = .relation ∧ m.ref = r

/-- The relations created right before, with no other element in between. -/
def openBatch (pre : List Element) : List Element := pre.rtakeWhile isNewRelation

/-- The records that `check_forward_relation_placeholders` has looked at when it reaches the
element that follows. -/
def checkedBefore (env : Env) (pre : List Element) : List (Elem .relation) :=
  elemsIn env .relation (openBatch pre)

section Check

theorem checkForward_snoc (placeholders : List Int) (before : List (Elem .relation))
    (cr : Elem .relation) :
    checkForwardRelationPlaceholders placeholders (before ++ [cr]) = .ok () ↔
      checkForwardRelationPlaceholders placeholders before = .ok () ∧
        ∀ mbr ∈ cr.refs, mbr.oldId < 0 → mbr.ref.target.1 = .relation →
          mbr.oldId ∈ placeholders ∨ mbr.oldId ∈ before.map Elem.oldId := by
  induction before generalizing placeholders with
  | nil =>
      rw [List.nil_append, checkForwardRelationPlaceholders, checkForwardRelationPlaceholders]
      split
      · rename_i mbr found
        have bad := List.find?_some found
        simp only [decide_eq_true_eq] at bad
        constructor
        · intro failed
          cases failed
        · intro all
          have known := all.2 mbr (List.mem_of_find?_eq_some found) bad.1 bad.2.1
          simp [bad.2.2] at known
      · rename_i none
        rw [List.find?_eq_none] at none
        refine ⟨fun _ => ⟨rfl, fun mbr member negative relation => ?_⟩, fun _ => rfl⟩
        have good := none mbr member
        simp only [decide_eq_true_eq, not_and, not_not] at good
        exact .inl (good negative relation)
  | cons first before ih =>
      rw [List.cons_append, checkForwardRelationPlaceholders, checkForwardRelationPlaceholders]
      split
      · simp
      · rw [ih]
        refine and_congr_right fun _ => forall₂_congr fun mbr member => forall₂_congr fun neg rel => ?_
        by_cases placeholder : first.oldId < 0
        · rw [if_pos placeholder, List.mem_cons, List.map_cons, List.mem_cons]
          tauto
        · rw [if_neg placeholder, List.map_cons, List.mem_cons]
          have other : mbr.oldId ≠ first.oldId := by omega
          simp [other]

end Check

section Records

private theorem mem_oldIds {els : List Element} (news : ∀ el ∈ els, isNewRelation el = true)
    (r : Int) : r ∈ (elemsIn env .relation els).map Elem.oldId ↔ ∃ el ∈ els, Creates el r := by
  constructor
  · intro member
    obtain ⟨e, inside, rfl⟩ := List.mem_map.mp member
    obtain ⟨el, found, same⟩ := Batch.Executes.oldId_of_elemsIn inside
    exact ⟨el, found, news el found, same.symm⟩
  · rintro ⟨el, member, new, rfl⟩
    have typed : el.objType = .relation := (state_eq_create.mp (of_decide_eq_true new)).2
    obtain ⟨op, t, object, ifUnused⟩ := el
    cases typed
    refine List.mem_map.mpr ⟨elemOf env ⟨op, .relation, object, ifUnused⟩, ?_, elemOf_oldId _⟩
    exact List.mem_filterMap.mpr ⟨_, member, elemOf?_self _⟩

private theorem openBatch_news (pre : List Element) : ∀ el ∈ openBatch pre, isNewRelation el = true :=
  fun _ member => List.mem_rtakeWhile_imp member

private theorem refs_newElem (o : OsmObject .relation) (P : Int → Prop) :
    (∀ mbr ∈ (newElem env o).refs, mbr.oldId < 0 → mbr.ref.target.1 = .relation → P mbr.oldId) ↔
      ∀ r, Refers o r → P r := by
  have refs : (newElem env o).refs = (members o).zipIdx.map (fun p =>
      ⟨(⟨p.1.memberType, refId p.1.ref, p.1.role⟩ : Member), p.2 + 1, p.1.ref⟩) := rfl
  rw [refs]
  constructor
  · rintro all r ⟨negative, m, member, typed, rfl⟩
    obtain ⟨k, bound, rfl⟩ := List.mem_iff_getElem.mp member
    have inside : ((members o)[k], k) ∈ (members o).zipIdx :=
      List.mem_zipIdx_iff_getElem?.mpr (List.getElem?_eq_getElem bound)
    exact all _ (List.mem_map_of_mem inside) negative typed
  · intro all mbr member negative typed
    obtain ⟨⟨m, k⟩, inside, rfl⟩ := List.mem_map.mp member
    exact all m.ref ⟨negative, m, List.fst_mem_of_mem_zipIdx inside, typed, rfl⟩

end Records

section Document

variable {db db' : Db} {pre mid : List Element} {o : OsmObject .relation} {ifUnused : Bool}
  {st : Upload}

private theorem rtakeWhile_append {p : Element → Bool} {done pending : List Element}
    (inside : ∀ el ∈ pending, p el = true) (outside : ∀ el ∈ done.getLast?, p el = false) :
    (done ++ pending).rtakeWhile p = pending := by
  induction pending using List.reverseRecOn with
  | nil =>
      rw [List.append_nil, List.rtakeWhile_eq_nil_iff]
      intro nonempty
      rw [outside _ (List.getLast?_eq_getLast_of_ne_nil nonempty)]
      exact Bool.false_ne_true
  | append_singleton pending el ih =>
      rw [← List.append_assoc, List.rtakeWhile_concat_pos _ _ _ (inside el (by simp)),
        ih fun d member => inside d (List.mem_append_left _ member)]

private theorem openBatch_append (news : ∀ el ∈ mid, isNewRelation el = true) :
    openBatch (pre ++ mid) = openBatch pre ++ mid := by
  induction mid using List.reverseRecOn with
  | nil => rw [List.append_nil, List.append_nil]
  | append_singleton mid el ih =>
      rw [← List.append_assoc, openBatch, List.rtakeWhile_concat_pos _ _ _ (news el (by simp)),
        ← openBatch, ih fun d member => news d (List.mem_append_left _ member), List.append_assoc]

/-- The buffer of new relations holds the relations created since the last other element. -/
private theorem createBuf_eq {els : List Element}
    (run : (els.foldlM (processElement env) (Upload.empty env)).run db = .ok (st, db'))
    (state : st.state = .create .relation) :
    (st.updater .relation).createBuf = elemsIn env .relation (openBatch els) := by
  obtain ⟨done, pending, rfl, uniform, fresh, buffers⟩ := buffered_of_elements run
  rw [state] at uniform fresh
  have own : ∀ el ∈ pending, el.op = .create := fun el member =>
    (state_eq_create.mp (uniform el member)).1
  have all : pending.filter (fun el => decide (el.op = .create)) = pending :=
    List.filter_eq_self.mpr fun el member => decide_eq_true (own el member)
  have open' : openBatch (done ++ pending) = pending :=
    rtakeWhile_append (fun el member => decide_eq_true (uniform el member))
      fun el last => decide_eq_false (fresh el last)
  have here := buffers .create .relation
  rw [all] at here
  rw [open']
  exact here

private theorem mem_openBatch_iff {r : Int} : (∃ el ∈ openBatch pre, Creates el r) ↔
    ∃ pre₁ el pre₂, pre = pre₁ ++ el :: pre₂ ∧ Creates el r ∧
      ∀ d ∈ pre₂, isNewRelation d = true := by
  constructor
  · rintro ⟨el, member, creates⟩
    obtain ⟨before, after, split⟩ := List.append_of_mem member
    obtain ⟨done, whole⟩ := List.rtakeWhile_suffix isNewRelation pre
    refine ⟨done ++ before, el, after, ?_, creates, fun d inside => openBatch_news pre d ?_⟩
    · rw [List.append_assoc, ← split]
      exact whole.symm
    · rw [split]
      exact List.mem_append_right _ (List.mem_cons_of_mem el inside)
  · rintro ⟨pre₁, el, pre₂, rfl, creates, news⟩
    refine ⟨el, ?_, creates⟩
    rw [openBatch_append fun d member => ?_]
    · simp
    · rcases List.mem_cons.mp member with rfl | later
      · exact creates.1
      · exact news d later

private theorem state_of_processElement {st₁ : Upload} {el : Element}
    (run : (processElement env st₁ el).run db = .ok (st, db')) : st.state = Element.state el := by
  rw [processElement, run_bind_eq_ok] at run
  obtain ⟨_, db₁, -, run⟩ := run
  rw [run_bind_eq_ok] at run
  obtain ⟨st₂, db₂, handled, last⟩ := run
  obtain ⟨pushed, rfl⟩ := run_liftExcept_eq_ok.mp last
  rw [push_state pushed]
  unfold handleNewState at handled
  split at handled
  · rename_i same
    cases handled
    exact same.symm
  · rw [run_bind_eq_ok] at handled
    obtain ⟨st₃, db₃, -, rest⟩ := handled
    cases rest
    rfl

private theorem state_of_elements {els : List Element} (nonempty : els ≠ [])
    (run : (els.foldlM (processElement env) (Upload.empty env)).run db = .ok (st, db')) :
    st.state = Element.state (els.getLast nonempty) := by
  rw [← List.dropLast_append_getLast nonempty, List.foldlM_append, run_bind_eq_ok] at run
  obtain ⟨st₁, db₁, -, last⟩ := run
  rw [List.foldlM_cons, run_bind_eq_ok] at last
  obtain ⟨st₂, db₂, step, rest⟩ := last
  cases rest
  exact state_of_processElement step

/-- The check accepts the members of a new relation as the whole document asks for, exactly
when no other element separates it from the new relations that it refers to. -/
theorem checkForward_meets_document_iff
    (run : ((pre ++ ⟨.create, .relation, o, ifUnused⟩ :: mid).foldlM (processElement env)
      (Upload.empty env)).run db = .ok (st, db'))
    (news : ∀ el ∈ mid, isNewRelation el = true)
    (reached : checkForwardRelationPlaceholders [] (checkedBefore env pre) = .ok ()) :
    (st.updater .relation).createBuf =
        checkedBefore env pre ++ newElem env o :: elemsIn env .relation mid ∧
    ((checkForwardRelationPlaceholders [] (checkedBefore env pre ++ [newElem env o]) = .ok () ↔
        ∀ r, Refers o r → ∃ el ∈ pre, Creates el r) ↔
      ((∀ r, Refers o r → ∃ el ∈ pre, Creates el r) →
        ∀ r, Refers o r → ∃ pre₁ el pre₂, pre = pre₁ ++ el :: pre₂ ∧ Creates el r ∧
          ∀ d ∈ pre₂, isNewRelation d = true)) := by
  have here : isNewRelation ⟨.create, .relation, o, ifUnused⟩ = true := rfl
  have batch : ∀ d ∈ ⟨.create, .relation, o, ifUnused⟩ :: mid, isNewRelation d = true := by
    intro d member
    rcases List.mem_cons.mp member with rfl | later
    · exact here
    · exact news d later
  have state : st.state = .create .relation := by
    rw [state_of_elements (by simp) run, List.getLast_append_of_ne_nil _ (List.cons_ne_nil _ _)]
    exact of_decide_eq_true (batch _ (List.getLast_mem _))
  refine ⟨?_, ?_⟩
  · rw [createBuf_eq run state, openBatch_append batch, elemsIn, List.filterMap_append]
    exact congrArg (checkedBefore env pre ++ ·)
      (elemsIn_cons_self ⟨.create, .relation, o, ifUnused⟩ mid)
  · have passes : checkForwardRelationPlaceholders [] (checkedBefore env pre ++ [newElem env o]) =
        .ok () ↔ ∀ r, Refers o r → ∃ pre₁ el pre₂, pre = pre₁ ++ el :: pre₂ ∧ Creates el r ∧
          ∀ d ∈ pre₂, isNewRelation d = true := by
      rw [checkForward_snoc, and_iff_right reached]
      simp only [List.not_mem_nil, false_or]
      rw [refs_newElem o (fun r => r ∈ (checkedBefore env pre).map Elem.oldId)]
      refine forall₂_congr fun r _ => ?_
      rw [checkedBefore, mem_oldIds (openBatch_news pre), mem_openBatch_iff]
    rw [passes]
    refine ⟨fun same all => same.mpr all, fun enough => ⟨fun near r refers => ?_, enough⟩⟩
    obtain ⟨pre₁, el, pre₂, rfl, creates, -⟩ := near r refers
    exact ⟨el, by simp, creates⟩

def sampleParent : OsmObject .relation :=
  ⟨7, -2, 0, [], [(⟨.relation, -1, ""⟩ : RelationMember)], List.nodup_nil⟩

def sampleChild : Element := sampleRelation .create (-1) 0 false []

def sampleApart : List Element := [sampleChild, sampleNode .create (-5) 0 false]

/-- Next to its child the parent is accepted. -/
theorem checkForward_meets_document_samplePair : ∃ st db',
    (List.foldlM (processElement sampleEnv) (Upload.empty sampleEnv)
      ([sampleChild] ++ [⟨.create, .relation, sampleParent, false⟩])).run Db.empty = .ok (st, db') ∧
    (checkForwardRelationPlaceholders [] (checkedBefore sampleEnv [sampleChild] ++
        [newElem sampleEnv sampleParent]) = .ok () ↔
      ∀ r, Refers sampleParent r → ∃ el ∈ [sampleChild], Creates el r) := by
  obtain ⟨st, db', run, -⟩ := of_check (List.foldlM (processElement sampleEnv)
    (Upload.empty sampleEnv) ([sampleChild] ++ [⟨.create, .relation, sampleParent, false⟩]))
      Db.empty (fun _ _ => true) (by decide +kernel)
  have meets := checkForward_meets_document_iff run (by simp) rfl
  refine ⟨st, db', run, meets.2.mpr fun earlier r refers => ?_⟩
  obtain ⟨el, member, creates⟩ := earlier r refers
  exact ⟨[], el, [], by rw [List.mem_singleton.mp member]; rfl, creates, nofun⟩

/-- With a node in between the child is no longer known, and the document is rejected. -/
theorem checkForward_misses_sampleApart :
    (∀ r, Refers sampleParent r → ∃ el ∈ sampleApart, Creates el r) ∧
    checkForwardRelationPlaceholders [] (checkedBefore sampleEnv sampleApart) = .ok () ∧
    checkForwardRelationPlaceholders [] (checkedBefore sampleEnv sampleApart ++
      [newElem sampleEnv sampleParent]) ≠ .ok () ∧
    (processDocument sampleEnv (sampleApart ++ [⟨.create, .relation, sampleParent, false⟩])).run
      Db.empty = .error (.badRequest
        "Placeholder relation not found for reference -1 in relation -2") := by
  refine ⟨?_, rfl, nofun, of_failsWith (by decide +kernel)⟩
  rintro r ⟨-, m, member, -, rfl⟩
  rw [List.mem_singleton.mp member]
  exact ⟨_, List.mem_cons_self, rfl, rfl⟩

end Document

end Cgimap.Osmchange.ForwardReferences
