/- path: Cgimap/Osmchange/WrittenContent
   generality: I
   source: none
   digest: After an upload every written version holds what its element says. -/

import Cgimap.Osmchange.DiffResults
import Cgimap.Osmchange.ForwardReferences
import Cgimap.Osmchange.VersionHistory

set_option autoImplicit false
set_option relaxedAutoImplicit false

namespace Cgimap.Osmchange.WrittenContent

open Cgimap.Library.EventLog
open Cgimap.Library.ExceptLists
open Cgimap.Library.StatementProgram
open Cgimap.Library.StatementProgram.Prog
open Cgimap.Model.Types
open Cgimap.Model.Database
open Cgimap.Osmchange.DiffTracking
open Cgimap.Osmchange.UploadRecords
open Cgimap.Osmchange.SqlStatements
open Cgimap.Osmchange.UpdaterChecks
open Cgimap.Osmchange.UpdaterProcess
open Cgimap.Osmchange.Handler
open Cgimap.Osmchange.ObjectState
open Cgimap.Osmchange.Placeholders
open Cgimap.Osmchange.CreateEffects
open Cgimap.Osmchange.DocumentRuns
open Cgimap.Osmchange.ElementTrace
open Cgimap.Osmchange.Integrity
open Cgimap.Osmchange.VersionHistory
open Cgimap.Osmchange.DiffResults
open Cgimap.Osmchange.ForwardReferences (checkForward_snoc)

variable {t : ObjectType} {env : Env}

section Versions

def newVersion (ev : Event t) : Nat :=
  match ev.op with
  | .create => 1
  | .modify | .delete => ev.elem.version + 1

/-- The history of an object has the version `v` with the content of `e`, and so have
the current tables where `v` is the current version. -/
structure Holds (s : ObjState t) (v : Nat) (e : Elem t) : Prop where
  row : ∃ h, s.history v = some h ∧ h.changesetId = e.changesetId
  tags : s.historyTags v = e.tags
  refs : s.historyRefs v = ObjState.refsOfElem e
  current : ∀ r, s.row = some r → r.version = v → r.changesetId = e.changesetId ∧
    s.tags = e.tags ∧ s.refs = ObjState.refsOfElem e

variable {s : ObjState t} {now : Int} {id : Nat}

private theorem holds_archive {r : CurrentRow t} {e : Elem t} {tags : List (String × String)}
    {refs : List (Nat × Ref t)} (owned : Owned s) (free : s.history r.version = none)
    (changeset : r.changesetId = e.changesetId) (sameTags : tags = e.tags)
    (sameRefs : refs = ObjState.refsOfElem e) :
    Holds { s with row := some r, tags := tags, refs := refs : ObjState t }.archive r.version e := by
  obtain ⟨noTags, noRefs⟩ := owned.history r.version free
  subst sameTags sameRefs
  have version : ({ s with
      row := some r
      tags := e.tags
      refs := ObjState.refsOfElem e : ObjState t }).version? = some r.version := rfl
  refine ⟨⟨⟨r, none⟩, ?_, changeset⟩, ?_, ?_, ?_⟩
  · rw [ObjState.archive_history, free, Option.none_or, Option.filter_some_pos (by simp)]
    rfl
  · rw [ObjState.archive_historyTags, if_pos version]
    change s.historyTags r.version ++ e.tags = e.tags
    rw [noTags, List.nil_append]
  · rw [ObjState.archive_historyRefs, if_pos version]
    change s.historyRefs r.version ++ ObjState.refsOfElem e = ObjState.refsOfElem e
    rw [noRefs, List.nil_append]
  · intro r' found _
    cases found
    exact ⟨changeset, rfl, rfl⟩

variable (now id) in
theorem holds_act {ev : Event t} (owned : Owned s) (allowed : ev.Allowed s)
    (executed : ev.skipped = false) (writes : ev.op ≠ .delete) :
    Holds (ev.act now id s) (newVersion ev) ev.elem ∧ Owned (ev.act now id s) ∧
      Saved (ev.act now id s) ∧ (ev.act now id s).version? = some (newVersion ev) := by
  obtain ⟨op, e, skipped⟩ := ev
  obtain rfl : skipped = false := executed
  cases op with
  | delete => exact absurd rfl writes
  | create =>
      obtain ⟨fresh, free⟩ := allowed
      obtain ⟨noTags, noRefs⟩ := owned.current fresh
      have next : Owned (s.create now id e) := owned_create owned fresh id e
      change Holds (s.create now id e) 1 e ∧ Owned (s.create now id e) ∧ Saved (s.create now id e) ∧
        (s.create now id e).version? = some 1
      rw [ObjState.create_eq_archive s now e id noTags, noRefs, List.nil_append] at next ⊢
      exact ⟨holds_archive owned free rfl rfl rfl, next, saved_archive owned.history rfl free, rfl⟩
  | modify =>
      obtain ⟨version, -, free⟩ := allowed
      obtain ⟨r, found, old⟩ := Option.map_eq_some_iff.mp version
      have known : s.row.isSome := by
        rw [found]
        rfl
      have next : Owned (s.modify now e) := owned_modify owned known e
      have shape : s.modify now e = { s with
          row := some (setRow t now true r e)
          tags := e.tags
          refs := ObjState.refsOfElem e : ObjState t }.archive := by
        simp [ObjState.modify, ObjState.write, found]
      change Holds (s.modify now e) (e.version + 1) e ∧ Owned (s.modify now e) ∧
        Saved (s.modify now e) ∧ (s.modify now e).version? = some (e.version + 1)
      rw [shape] at next ⊢
      have free' : s.history (setRow t now true r e).version = none := free
      exact ⟨holds_archive owned free' rfl rfl rfl, next, saved_archive owned.history rfl free', rfl⟩

private theorem owned_act {ev : Event t} (owned : Owned s) (allowed : ev.Allowed s) :
    Owned (ev.act now id s) := by
  obtain ⟨op, e, skipped⟩ := ev
  cases skipped with
  | true => exact owned
  | false =>
      cases op with
      | create => exact (holds_act now id owned allowed rfl nofun).2.1
      | modify => exact (holds_act now id owned allowed rfl nofun).2.1
      | delete => exact owned_delete owned e

variable (now id) in
private theorem replayAt_of_skipped {evs : List (Event t)} (none : executedOf evs = []) :
    (machine now).replayAt (k := (t, id)) s evs = s := by
  induction evs with
  | nil => rfl
  | cons ev evs ih =>
      unfold executedOf at none
      rw [List.filter_cons] at none
      cases skipped : ev.skipped with
      | false => simp [skipped] at none
      | true =>
          rw [skipped] at none
          have act : (machine now).act (k := (t, id)) ev s = s := by
            change ev.act now id s = s
            rw [Event.act, if_pos skipped]
          rw [replayAt_cons, act]
          exact ih none

/-- What an event writes is still there after the events that follow. -/
theorem holds_replayAt {before after : List (Event t)} {ev : Event t} (owned : Owned s)
    (lawful : (machine now).LawfulAt (k := (t, id)) s (before ++ ev :: after))
    (executed : ev.skipped = false) (writes : ev.op ≠ .delete) :
    Holds ((machine now).replayAt (k := (t, id)) s (before ++ ev :: after)) (newVersion ev)
      ev.elem := by
  rw [lawfulAt_append] at lawful
  obtain ⟨first, allowed, rest⟩ := lawful
  have mid : Owned ((machine now).replayAt (k := (t, id)) s before) :=
    first.invariant owned fun _ _ => owned_act
  obtain ⟨holds, next, saved, version⟩ := holds_act now id mid allowed executed writes
  have kept := kept_replayAt next saved rest
  rw [replayAt_append, replayAt_cons]
  obtain ⟨h, found, changeset⟩ := holds.row
  obtain ⟨found', tags, refs⟩ := kept.history.kept _ h found
  refine ⟨⟨h, found', changeset⟩, tags.trans holds.tags, refs.trans holds.refs, ?_⟩
  intro r row same
  -- the current version is still this one only if nothing was executed since
  have count := kept.history.version
  have last : ((machine now).replayAt (k := (t, id)) (ev.act now id
      ((machine now).replayAt (k := (t, id)) s before)) after).version? = some (newVersion ev) := by
    rw [← same]
    exact congrArg (Option.map CurrentRow.version) row
  have none : executedOf after = [] := by
    apply List.eq_nil_of_length_eq_zero
    rw [last, version, Option.getD_some] at count
    omega
  have unchanged := replayAt_of_skipped now id none
    (s := (machine now).act (k := (t, id)) ev ((machine now).replayAt (k := (t, id)) s before))
  rw [unchanged] at row ⊢
  exact holds.current r row same

/-- After a processed document, every created or modified object holds the content of
the element that wrote the version. -/
theorem holds_of_executed {doc : List Element} {db db' : Db} {batches : List Batch} {st : Upload}
    (executed : Executed env doc db batches st db') (keys : ForeignKeys db) {b : Batch}
    (inside : b ∈ batches) {el : Element} (member : el ∈ b.els) (writes : el.op ≠ .delete) :
    Holds (object db' el.objType (recordOf env b el).id) (newVersion (eventOf env b el))
      (recordOf env b el) := by
  obtain ⟨own, final⟩ := object_refines executed (objectOf env b el).1 (objectOf env b el).2
  have listed : eventOf env b el ∈ eventsOf (documentTrace env batches) (objectOf env b el) :=
    mem_eventsOf.mpr (mem_documentTrace.mpr ⟨b, inside, el, member, rfl⟩)
  obtain ⟨before, after, split⟩ := List.append_of_mem listed
  rw [split] at own final
  have stays : (eventOf env b el).skipped = false := by
    change (decide (el.op = .delete) && _) = false
    rw [decide_eq_false writes, Bool.false_and]
  have holds := holds_replayAt (foreignKeys_iff.mp keys _ _) own stays writes
  exact (congrArg (fun s : ObjState el.objType => Holds s (newVersion (eventOf env b el))
    (recordOf env b el)) final).mp holds

end Versions

section Origins

/-- An element that creates the placeholder `r` of type `t`. -/
def Creates (t : ObjectType) (r : Int) (el : Element) : Prop :=
  el.op = .create ∧ el.objType = t ∧ el.object.id = r

/-- Where the created objects come from. -/
structure Origins (env : Env) (done : List Batch) (ct : Tracking) (db : Db) : Prop where
  created : ∀ t, ∀ m ∈ ct.created t, ∃ c ∈ done.flatMap Batch.els, Creates t m.oldId c
  bound : ∀ t, ∀ m ∈ ct.created t, m.newId < db.objectSeq t
  before : ∀ earlier b later, done = earlier ++ b :: later → ∀ pre el post,
    b.els = pre ++ el :: post → el.op ≠ .delete → ∀ r ∈ (elemOf env el).refs, r.oldId < 0 →
    ∃ c ∈ earlier.flatMap Batch.els ++ pre, Creates r.ref.target.1 r.oldId c

variable {b : Batch} {done : List Batch} {st : Upload}

private theorem lookup_of_resolved {ct : Tracking} {e e' : Elem t} (resolved : Resolved ct e e')
    {r : RefElem t} (member : r ∈ e.refs) (negative : r.oldId < 0) :
    ∃ m ∈ ct.created r.ref.target.1, m.oldId = r.oldId := by
  obtain ⟨r', -, replaced⟩ := exists_of_mem_left (mapM_eq_ok.mp resolved.refs) member
  unfold replaceOldIdInMember at replaced
  rw [if_neg (not_le.mpr negative)] at replaced
  cases found : lookup ct r.ref.target.1 r.oldId with
  | none =>
      rw [found] at replaced
      cases replaced
  | some id =>
      obtain ⟨m, first, -⟩ := Option.map_eq_some_iff.mp found
      exact ⟨m, List.mem_of_find?_eq_some first, by simpa using List.find?_some first⟩

private theorem checkForward_front {seen : List Int} {es es' : List (Elem .relation)}
    (checked : checkForwardRelationPlaceholders seen (es ++ es') = .ok ()) :
    checkForwardRelationPlaceholders seen es = .ok () := by
  induction es' using List.reverseRecOn with
  | nil => rwa [List.append_nil] at checked
  | append_singleton es' e ih =>
      rw [← List.append_assoc] at checked
      exact ih ((checkForward_snoc seen (es ++ es') e).mp checked).1

/-- Relations that a new relation refers to by placeholder stand before it in its own
batch. -/
private theorem forward_of_executes {es : List (Elem t)} (idle : Idle st)
    (executes : b.Executes env st) (batch : CreateBatch env b t es) {pre post : List Element}
    {el : Element} (split : b.els = pre ++ el :: post) {r : RefElem el.objType}
    (member : r ∈ (elemOf env el).refs) (negative : r.oldId < 0)
    (relation : r.ref.target.1 = .relation) : ∃ c ∈ pre, Creates .relation r.oldId c := by
  have inside : el ∈ b.els := by
    rw [split]
    exact List.mem_append_right pre List.mem_cons_self
  obtain ⟨create, type⟩ := batch.ops el inside
  subst type
  have owner : el.objType = .relation := Ref.target_relation r.ref relation
  have state : b.pushed.state = .create .relation := by
    rw [← executes.uniform el inside]
    exact state_eq_create.mpr ⟨create, owner⟩
  have run := executes.flushes
  unfold flush at run
  rw [state] at run
  change (processNew env .relation b.pushed).run b.before = _ at run
  rw [processNew, run_bind_eq_ok] at run
  obtain ⟨placeholders, db₁, first, run⟩ := run
  rw [run_bind_eq_ok] at run
  obtain ⟨_, db₂, second, -⟩ := run
  obtain ⟨checked, -⟩ := run_liftExcept_eq_ok.mp second
  change checkForwardRelationPlaceholders [] (buffer b.pushed .create .relation) = .ok () at checked
  have all : b.els.filter (fun el => decide (el.op = .create)) = b.els :=
    List.filter_eq_self.mpr fun d here => decide_eq_true (batch.ops d here).1
  rw [executes.buffer_eq idle, all, split] at checked
  obtain ⟨op, type, object, ifUnused⟩ := el
  obtain rfl : type = .relation := owner
  have records : elemsIn env .relation (pre ++ (⟨op, .relation, object, ifUnused⟩ : Element) :: post) =
      (elemsIn env .relation pre ++ [elemOf env ⟨op, .relation, object, ifUnused⟩]) ++
        elemsIn env .relation post := by
    simp [elemsIn, elemOf?]
  rw [records] at checked
  have here := (checkForward_snoc [] _ _).mp (checkForward_front checked)
  rcases here.2 r member negative relation with seen | earlier
  · cases seen
  · obtain ⟨e, listed, same⟩ := List.mem_map.mp earlier
    obtain ⟨c, found, old⟩ := Batch.Executes.oldId_of_elemsIn listed
    have there : c ∈ b.els := by
      rw [split]
      exact List.mem_append_left _ found
    exact ⟨c, found, (batch.ops c there).1, (batch.ops c there).2, by rw [← old, same]⟩

private theorem of_mem_createdEntries {db : Db} {es : List (Elem t)} {m : ObjectIdMapping}
    (member : m ∈ createdEntries db es) :
    (∃ e ∈ es, e.oldId = m.oldId) ∧ m.newId < db.objectSeq t + es.length := by
  obtain ⟨row, listed, rfl⟩ := List.mem_map.mp member
  obtain ⟨⟨e, i⟩, place, rfl⟩ := List.mem_map.mp listed
  have position := List.mem_zipIdx_iff_getElem?.mp place
  obtain ⟨bound, -⟩ := List.getElem?_eq_some_iff.mp position
  refine ⟨⟨e, List.fst_mem_of_mem_zipIdx place, rfl⟩, ?_⟩
  change db.objectSeq t + i < _
  omega

private theorem created_of_pushed (executes : b.Executes env st) :
    b.pushed.ct.created = st.ct.created := by
  rw [executes.pushed.tracking]

private theorem created_of_create {es : List (Elem t)} (executes : b.Executes env st)
    (batch : CreateBatch env b t es) (t' : ObjectType) :
    b.flushed.ct.created t' = st.ct.created t' ++
      if t' = t then createdEntries b.before (elemsIn env t b.els) else [] := by
  rw [batch.tracking]
  by_cases own : t' = t
  · subst own
    simp [created_of_pushed executes]
  · simp [created_of_pushed executes, own]

theorem created_of_executed {doc : List Element} {db db' : Db} {batches : List Batch}
    {st : Upload} (executed : Executed env doc db batches st db') :
    ∀ b ∈ batches, ∀ t, ∃ more, st.ct.created t = b.flushed.ct.created t ++ more := by
  obtain ⟨st₁, runs, rfl⟩ := executed.runs
  refine runs.invariant (I := fun done st _ => ∀ b ∈ done, ∀ t, ∃ more,
    st.ct.created t = b.flushed.ct.created t ++ more) (idle_empty env)
    (fun b member => (List.not_mem_nil member).elim) fun done st₂ b _ before executes effect => ?_
  have step : ∀ t, ∃ more, b.flushed.ct.created t = st₂.ct.created t ++ more := by
    intro t
    cases effect with
    | create t' es batch => exact ⟨_, created_of_create executes batch t⟩
    | modify es db₁ db₂ modified batch =>
        refine ⟨[], ?_⟩
        rw [List.append_nil, ← created_of_pushed executes, batch.tracking]
        rfl
    | delete t' es executed used deleted batch =>
        refine ⟨[], ?_⟩
        rw [List.append_nil, ← created_of_pushed executes, batch.tracking]
        rfl
  rw [List.forall_mem_append, List.forall_mem_singleton]
  refine ⟨fun c member t => ?_, fun t => ⟨[], (List.append_nil _).symm⟩⟩
  obtain ⟨more, now⟩ := step t
  obtain ⟨more', then'⟩ := before c member t
  exact ⟨more' ++ more, by rw [now, then', List.append_assoc]⟩

private theorem origins_same (origins : Origins env done st.ct b.before)
    (executes : b.Executes env st) (effect : BatchEffect env b)
    (same : b.flushed.ct.created = b.pushed.ct.created)
    (seq : b.after.objectSeq = b.before.objectSeq) :
    Origins env (done ++ [b]) b.flushed.ct b.after := by
  have created : b.flushed.ct.created = st.ct.created := same.trans (created_of_pushed executes)
  refine ⟨fun t m member => ?_, fun t m member => ?_, ?_⟩
  · rw [created] at member
    obtain ⟨c, found, creates⟩ := origins.created t m member
    refine ⟨c, ?_, creates⟩
    rw [List.flatMap_append]
    exact List.mem_append_left _ found
  · rw [created] at member
    rw [seq]
    exact origins.bound t m member
  · intro earlier b' later split pre el post inside writes r member negative
    rcases List.eq_nil_or_concat later with rfl | ⟨later', last, rfl⟩
    · obtain ⟨rfl, single⟩ := List.append_inj' split rfl
      cases single
      have here : el ∈ b.els := by
        rw [inside]
        exact List.mem_append_right pre List.mem_cons_self
      obtain ⟨m, found, old⟩ := lookup_of_resolved (recordOf_resolved effect here) member negative
      rw [created] at found
      obtain ⟨c, listed, creates⟩ := origins.created _ m found
      rw [old] at creates
      exact ⟨c, List.mem_append_left _ listed, creates⟩
    · have shorter : done = earlier ++ b' :: later' := by
        rw [List.concat_eq_append, ← List.cons_append, ← List.append_assoc] at split
        exact (List.append_inj' split rfl).1
      exact origins.before earlier b' later' shorter pre el post inside writes r member negative

private theorem origins_create {es : List (Elem t)} (idle : Idle st)
    (origins : Origins env done st.ct b.before) (executes : b.Executes env st)
    (batch : CreateBatch env b t es) : Origins env (done ++ [b]) b.flushed.ct b.after := by
  have length : (elemsIn env t b.els).length = es.length :=
    (replaceOldIds_eq_ok.mp batch.replaced).2.length_eq
  have seq : ∀ t', b.after.objectSeq t' =
      b.before.objectSeq t' + if t' = t then es.length else 0 := by
    intro t'
    rw [batch.effect.acts.rest.objectSeq]
    by_cases own : t' = t
    · subst own
      simp [bumped]
    · simp [bumped, own]
  have split : ∀ t' m, m ∈ b.flushed.ct.created t' → m ∈ st.ct.created t' ∨
      t' = t ∧ m ∈ createdEntries b.before (elemsIn env t b.els) := by
    intro t' m member
    rw [created_of_create executes batch] at member
    rcases List.mem_append.mp member with old | new
    · exact .inl old
    · split at new
      · rename_i own
        exact .inr ⟨own, new⟩
      · cases new
  refine ⟨fun t' m member => ?_, fun t' m member => ?_, ?_⟩
  · rw [List.flatMap_append]
    rcases split t' m member with old | ⟨rfl, new⟩
    · obtain ⟨c, found, creates⟩ := origins.created t' m old
      exact ⟨c, List.mem_append_left _ found, creates⟩
    · obtain ⟨⟨e, listed, same⟩, -⟩ := of_mem_createdEntries new
      obtain ⟨c, found, old⟩ := Batch.Executes.oldId_of_elemsIn listed
      refine ⟨c, List.mem_append_right _ (by simpa using found), ?_⟩
      exact ⟨(batch.ops c found).1, (batch.ops c found).2, by rw [← old, same]⟩
  · rw [seq]
    rcases split t' m member with old | ⟨rfl, new⟩
    · exact Nat.lt_of_lt_of_le (origins.bound t' m old) (Nat.le_add_right _ _)
    · rw [if_pos rfl, ← length]
      exact (of_mem_createdEntries new).2
  · intro earlier b' later whole pre el post inside writes r member negative
    rcases List.eq_nil_or_concat later with rfl | ⟨later', last, rfl⟩
    · obtain ⟨rfl, single⟩ := List.append_inj' whole rfl
      cases single
      have here : el ∈ b.els := by
        rw [inside]
        exact List.mem_append_right pre List.mem_cons_self
      have type := (batch.ops el here).2
      obtain ⟨m, found, old⟩ :=
        lookup_of_resolved (recordOf_resolved (.create t es batch) here) member negative
      rcases split _ m found with known | ⟨own, -⟩
      · obtain ⟨c, listed, creates⟩ := origins.created _ m known
        rw [old] at creates
        exact ⟨c, List.mem_append_left _ listed, creates⟩
      · -- only relations refer to objects of their own type
        have self : el.objType = .relation := Ref.target_own r.ref (own.trans type.symm)
        have target : r.ref.target.1 = .relation := (own.trans type.symm).trans self
        obtain ⟨c, listed, creates⟩ :=
          forward_of_executes idle executes batch inside member negative target
        rw [target]
        exact ⟨c, List.mem_append_right _ listed, creates⟩
    · have shorter : done = earlier ++ b' :: later' := by
        rw [List.concat_eq_append, ← List.cons_append, ← List.append_assoc] at whole
        exact (List.append_inj' whole rfl).1
      exact origins.before earlier b' later' shorter pre el post inside writes r member negative

theorem origins_of_executed {doc : List Element} {db db' : Db} {batches : List Batch}
    {st : Upload} (executed : Executed env doc db batches st db') :
    Origins env batches st.ct db' := by
  obtain ⟨st₁, runs, rfl⟩ := executed.runs
  have both := runs.invariant (I := fun done st db => Idle st ∧ Origins env done st.ct db)
    (idle_empty env) ⟨idle_empty env, ?_, ?_, ?_⟩ fun done st₂ b _ before executes effect => ?_
  · exact both.2
  · intro t m member
    cases member
  · intro t m member
    cases member
  · intro earlier b later split
    exact absurd split (by simp)
  · obtain ⟨idle, origins⟩ := before
    refine ⟨(executes.settled idle).2.1, ?_⟩
    cases effect with
    | create t es batch => exact origins_create idle origins executes batch
    | modify es db₁ db₂ modified batch =>
        refine origins_same origins executes (.modify es db₁ db₂ modified batch) ?_ ?_
        · rw [batch.tracking]
          rfl
        · rw [batch.relations.acts.rest.objectSeq, batch.ways.acts.rest.objectSeq,
            batch.nodes.acts.rest.objectSeq]
    | delete t es executed used deleted batch =>
        refine origins_same origins executes (.delete t es executed used deleted batch) ?_ ?_
        · rw [batch.tracking]
          rfl
        · exact batch.effect.acts.rest.objectSeq

end Origins

section Positions

theorem batch_of_split {batches : List Batch} {pre post : List Element} {el : Element}
    (split : batches.flatMap Batch.els = pre ++ el :: post) :
    ∃ earlier b later before after, batches = earlier ++ b :: later ∧
      b.els = before ++ el :: after ∧ pre = earlier.flatMap Batch.els ++ before := by
  induction batches generalizing pre with
  | nil => exact absurd split (by simp)
  | cons b batches ih =>
      rw [List.flatMap_cons] at split
      rcases List.append_eq_append_iff.mp split with ⟨rest, whole, tail⟩ | ⟨rest, whole, tail⟩
      · obtain ⟨earlier, c, later, before, after, rfl, inside, rfl⟩ := ih tail
        exact ⟨b :: earlier, c, later, before, after, rfl, inside, by simp [whole]⟩
      · cases rest with
        | nil =>
            obtain ⟨earlier, c, later, before, after, rfl, inside, none⟩ := ih (show _ = [] ++ el :: post from tail.symm)
            refine ⟨b :: earlier, c, later, before, after, rfl, inside, ?_⟩
            rw [List.flatMap_cons, List.append_assoc, ← none, whole, List.append_nil, List.append_nil]
        | cons first rest =>
            cases tail
            exact ⟨[], b, batches, pre, rest, rfl, whole, rfl⟩

end Positions

end Cgimap.Osmchange.WrittenContent
