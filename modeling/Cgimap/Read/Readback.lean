/- path: Cgimap/Read/Readback
   generality: I
   source: none
   digest: What an upload wrote is what the selection reads, up to the width of a version. -/

import Cgimap.Changeset.PayloadSizes
import Cgimap.Changeset.RowEffects
import Cgimap.Osmchange.WrittenContent
import Cgimap.Read.Extraction

set_option autoImplicit false
set_option relaxedAutoImplicit false

namespace Cgimap.Read.Readback

open Cgimap.Library.ExceptLists
open Cgimap.Library.KeyedTable
open Cgimap.Library.StatementProgram
open Cgimap.Library.StatementProgram.Prog
open Cgimap.Model.Types
open Cgimap.Model.Database
open Cgimap.Model.Users
open Cgimap.Osmchange.DiffTracking
open Cgimap.Osmchange.UploadRecords
open Cgimap.Osmchange.SqlStatements
open Cgimap.Osmchange.UpdaterChecks
open Cgimap.Osmchange.Handler
open Cgimap.Osmchange.ObjectState
open Cgimap.Osmchange.Placeholders
open Cgimap.Osmchange.DocumentRuns
open Cgimap.Osmchange.ElementTrace
open Cgimap.Osmchange.Integrity
open Cgimap.Osmchange.DiffResults
open Cgimap.Osmchange.WrittenContent
open Cgimap.Changeset.Updater
open Cgimap.Changeset.Responders
open Cgimap.Changeset.PayloadSizes (samplePayload)
open Cgimap.Changeset.RowEffects
open Cgimap.Read.DataSelection
open Cgimap.Read.Extraction

section Statement

/-- The references in the body of an object, with the type of their targets. -/
def documentRefs : (t : ObjectType) → Body t → List (ObjectType × Int)
  | .node, _ => []
  | .way, (nodes : List Int) => nodes.map (fun n => (.node, n))
  | .relation, (members : List RelationMember) => members.map (fun m => (m.memberType, m.ref))

/-- The id that a written reference stands for: itself, or the one that the response
gives for the placeholder of the same type. -/
def Denotes (rows : List DiffResult) (t : ObjectType) (ref : Int) (id : Nat) : Prop :=
  (0 ≤ ref → ref < 2 ^ 63 → (id : Int) = ref) ∧
    (ref < 0 → (∃ row ∈ rows, row.op = .create ∧ row.objType = t ∧ row.oldId = ref) ∧
      ∀ row ∈ rows, row.op = .create → row.objType = t → row.oldId = ref → row.newId = id)

/-- The node list or the member list of the document, in its order. -/
def BodyMatches (rows : List DiffResult) : (t : ObjectType) → Body t → Extra t → Prop
  | .node, _, _ => True
  | .way, (nodes : List Int), (ids : List Nat) => List.Forall₂ (Denotes rows .node) nodes ids
  | .relation, (members : List RelationMember), (read : List Member) =>
      List.Forall₂ (fun m r => r.memberType = m.memberType ∧ r.memberRole = m.role ∧
        Denotes rows m.memberType m.ref r.memberId) members read

/-- What is read of an object is what the document says. -/
structure Matches (rows : List DiffResult) {t : ObjectType} (o : OsmObject t) (w : Written t) :
    Prop where
  body : BodyMatches rows t o.body w.extra
  tags : w.tags.Perm o.tags

/-- Reading the version `v` of an object gives `P`: alone as an edition, alone as the
current object where it is the current version, and in every selection that is read
without an error. -/
structure Yields (store : Store) (t : ObjectType) (id v : Nat) (P : Written t → Prop) : Prop where
  edition : ∃ w, writeObjects store t (onlyEdition t id v) = ([w], none) ∧ w.elem.id = id ∧
    w.elem.version = v ∧ P w
  object : store.db.version? t id = some v → ∃ w,
    writeObjects store t (onlyObject t id) = ([w], none) ∧ w.elem.id = id ∧ w.elem.version = v ∧ P w
  selected : ∀ sel out, writeObjects store t sel = (out, none) →
    toLex (id, v) ∈ sel.historic t ∨ id ∈ sel.current t ∧ store.db.version? t id = some v →
    ∃ w ∈ out, w.elem.id = id ∧ w.elem.version = v ∧ P w

end Statement

section Records

variable {t : ObjectType} {env : Env}

private theorem sequence_refsOfBody (t : ObjectType) (body : Body t) :
    ((refsOfBody t body).map RefElem.sequenceId).Pairwise (· ≤ ·) := by
  have numbered : ∀ {α : Type} (l : List α), (l.zipIdx.map (fun p => p.2 + 1)).Pairwise (· ≤ ·) := by
    intro α l
    have split : l.zipIdx.map (fun p => p.2 + 1) = (List.range' 0 l.length).map (· + 1) := by
      rw [← List.zipIdx_map_snd 0 l, List.map_map]
      rfl
    rw [split, List.pairwise_map]
    exact (List.pairwise_le_range' 1).imp fun below => Nat.add_le_add_right below 1
  cases t with
  | node => exact List.Pairwise.nil
  | way =>
      change (List.map RefElem.sequenceId (List.map _ _)).Pairwise _
      rw [List.map_map]
      exact numbered (body : List Int)
  | relation =>
      change (List.map RefElem.sequenceId (List.map _ _)).Pairwise _
      rw [List.map_map]
      exact numbered (body : List RelationMember)

/-- Replacing a placeholder changes the id only. -/
structure Replaced (ct : Tracking) (r r' : RefElem t) : Prop where
  sequenceId : r'.sequenceId = r.sequenceId
  ref : (0 ≤ r.oldId ∧ r'.ref = r.ref) ∨
    (r.oldId < 0 ∧ ∃ id, lookup ct r.ref.target.1 r.oldId = some id ∧ r'.ref = r.ref.withId id)

private theorem replaced_of_ok {ct : Tracking} {owner : Int} {r r' : RefElem t}
    (done : replaceOldIdInMember ct owner r = .ok r') : Replaced ct r r' := by
  unfold replaceOldIdInMember at done
  split at done
  · rename_i nonneg
    cases done
    exact ⟨rfl, .inl ⟨nonneg, rfl⟩⟩
  · rename_i negative
    split at done
    · cases done
    · rename_i id found
      cases done
      exact ⟨rfl, .inr ⟨not_le.mp negative, id, found, rfl⟩⟩

private theorem replaced_of_resolved {ct : Tracking} {e e' : Elem t} (resolved : Resolved ct e e') :
    List.Forall₂ (Replaced ct) e.refs e'.refs :=
  (mapM_eq_ok.mp resolved.refs).imp fun _ _ => replaced_of_ok

private theorem orderBySequence_refsOfElem {e : Elem t}
    (ordered : (e.refs.map RefElem.sequenceId).Pairwise (· ≤ ·)) :
    orderBySequence (ObjState.refsOfElem e) = e.refs.map RefElem.ref := by
  unfold orderBySequence ObjState.refsOfElem
  rw [List.Pairwise.insertionSort_eq, List.map_map]
  · rfl
  · rw [List.pairwise_map] at ordered ⊢
    exact ordered

variable (env) in
private theorem elemOf_refs {el : Element} (writes : el.op ≠ .delete) :
    (elemOf env el).refs = refsOfBody el.objType el.object.body := by
  obtain ⟨op, t, object, ifUnused⟩ := el
  cases op with
  | create => rfl
  | modify => rfl
  | delete => exact absurd rfl writes

private theorem elemOf_tags {el : Element} (writes : el.op ≠ .delete) :
    (elemOf env el).tags = el.object.tags := by
  obtain ⟨op, t, object, ifUnused⟩ := el
  cases op with
  | create => rfl
  | modify => rfl
  | delete => exact absurd rfl writes

private theorem elemOf_changesetId (el : Element) : (elemOf env el).changesetId = env.changeset := by
  unfold elemOf
  split <;> rfl

end Records

section Responses

variable {env : Env} {doc : List Element} {db db' : Db} {batches : List Batch} {st : Upload}
  {rows : List DiffResult}

private theorem rows_of_executed (executed : Executed env doc db batches st db')
    (told : assembleDiffresult st.ct = .ok rows) :
    List.Forall₂ (fun el row => assembleRow st.ct (origOf env el) = .ok row) doc rows := by
  rw [assembleDiffresult, mapM_eq_ok, (tracked_of_executed executed).orig, executed.elements,
    List.forall₂_map_left_iff] at told
  exact told

private theorem assembleRow_op {ct : Tracking} {item : OsmChange} {row : DiffResult}
    (done : assembleRow ct item = .ok row) : row.op = item.op := by
  unfold assembleRow at done
  simp only at done
  repeat' split at done
  all_goals
    cases done
  all_goals
    rfl

private theorem row_of_written (tracked : Tracked env batches st.ct) {b : Batch}
    (inside : b ∈ batches) {el : Element} (member : el ∈ b.els) (writes : el.op ≠ .delete) :
    assembleRow st.ct (origOf env el) = .ok (rowFor env b el) := by
  cases op : el.op with
  | create => exact assembleRow_create tracked inside member op
  | modify => exact assembleRow_modify tracked inside member op
  | delete => exact absurd op writes

private theorem rowFor_written {b : Batch} (effect : BatchEffect env b) {el : Element}
    (member : el ∈ b.els) (writes : el.op ≠ .delete) :
    (rowFor env b el).oldId = el.object.id ∧ (rowFor env b el).newId = (recordOf env b el).id ∧
      (rowFor env b el).newVersion = newVersion (eventOf env b el) := by
  unfold rowFor
  cases op : el.op with
  | create =>
      refine ⟨rfl, rfl, ?_⟩
      simp [newVersion, eventOf, op]
  | modify =>
      have version := recordOf_version effect member (by rw [op]; nofun)
      refine ⟨rfl, rfl, ?_⟩
      simp [newVersion, eventOf, op, version]
  | delete => exact absurd op writes

/-- Every row of a creation gives the id that the upload resolves the placeholder to. -/
private theorem named_of_row (executed : Executed env doc db batches st db')
    (told : assembleDiffresult st.ct = .ok rows) {row : DiffResult} (member : row ∈ rows)
    (creates : row.op = .create) : Named st.ct row.objType row.oldId row.newId := by
  have tracked := tracked_of_executed executed
  obtain ⟨el, listed, assembled⟩ := exists_of_mem_right (rows_of_executed executed told) member
  have op : el.op = .create := by
    rw [← creates, assembleRow_op assembled]
    rfl
  rw [← executed.elements] at listed
  obtain ⟨b, inside, here⟩ := List.mem_flatMap.mp listed
  rw [assembleRow_create tracked inside here op] at assembled
  cases assembled
  have named := tracked.names b inside el here
  simp only [rowFor, op]
  exact named

private theorem row_of_creates (executed : Executed env doc db batches st db')
    (told : assembleDiffresult st.ct = .ok rows) {t : ObjectType} {ref : Int} {c : Element}
    (member : c ∈ doc) (creates : Creates t ref c) :
    ∃ row ∈ rows, row.op = .create ∧ row.objType = t ∧ row.oldId = ref := by
  obtain ⟨op, rfl, rfl⟩ := creates
  obtain ⟨row, listed, assembled⟩ := exists_of_mem_left (rows_of_executed executed told) member
  rw [← executed.elements] at member
  obtain ⟨b, inside, here⟩ := List.mem_flatMap.mp member
  rw [assembleRow_create (tracked_of_executed executed) inside here op] at assembled
  cases assembled
  refine ⟨_, listed, ?_⟩
  simp only [rowFor, op]
  exact ⟨trivial, trivial, trivial⟩

end Responses

section References

variable {env : Env} {doc : List Element} {db db' : Db} {batches : List Batch} {st : Upload}
  {rows : List DiffResult}

private theorem denotes_of_replaced (executed : Executed env doc db batches st db')
    (told : assembleDiffresult st.ct = .ok rows) {b : Batch} (grows : ∀ t, ∃ more,
      st.ct.created t = b.flushed.ct.created t ++ more) {t : ObjectType} {r r' : RefElem t}
    (replaced : Replaced b.flushed.ct r r') (own : r.ref.target.2 = refId r.oldId)
    (earlier : r.oldId < 0 → ∃ c ∈ doc, Creates r.ref.target.1 r.oldId c) :
    Denotes rows r.ref.target.1 r.oldId r'.ref.target.2 := by
  refine ⟨fun nonneg small => ?_, fun negative => ?_⟩
  · rcases replaced.ref with ⟨-, same⟩ | ⟨negative, -⟩
    · rw [same, own, refId, if_neg (not_lt.mpr nonneg)]
      exact toUnsigned_of_nonneg nonneg (small.trans (by decide))
    · exact absurd negative (not_lt.mpr nonneg)
  · rcases replaced.ref with ⟨nonneg, -⟩ | ⟨-, id, found, same⟩
    · exact absurd negative (not_lt.mpr nonneg)
    · obtain ⟨c, member, creates⟩ := earlier negative
      refine ⟨row_of_creates executed told member creates, ?_⟩
      rintro row listed op type old
      have named : Named st.ct r.ref.target.1 r.oldId id :=
        Named.mono (.inr ⟨negative, found⟩) (grows _)
      have given := named_of_row executed told listed op
      rw [type, old] at given
      rw [same, Ref.target_withId]
      exact given.unique named

private theorem small_of_replaced (origins : Origins env batches st.ct db')
    (bigint : ∀ t, db'.objectSeq t ≤ 2 ^ 63) {b : Batch} (grows : ∀ t, ∃ more,
      st.ct.created t = b.flushed.ct.created t ++ more) {t : ObjectType} {r r' : RefElem t}
    (replaced : Replaced b.flushed.ct r r') (own : r.ref.target.2 = refId r.oldId) :
    r'.ref.target.2 < 2 ^ 64 := by
  rcases replaced.ref with ⟨-, same⟩ | ⟨-, id, found, same⟩
  · rw [same, own, refId]
    split
    · decide
    · unfold toUnsigned
      omega
  · rw [same, Ref.target_withId]
    obtain ⟨m, first, rfl⟩ := Option.map_eq_some_iff.mp found
    obtain ⟨more, whole⟩ := grows r.ref.target.1
    have known : m ∈ st.ct.created r.ref.target.1 := by
      rw [whole]
      exact List.mem_append_left _ (List.mem_of_find?_eq_some first)
    have below := origins.bound _ m known
    have limit := bigint r.ref.target.1
    change m.newId < 2 ^ 64
    omega

private theorem refsOfBody_own (t : ObjectType) (body : Body t) :
    ∀ r ∈ refsOfBody t body, r.ref.target.2 = refId r.oldId := by
  intro r member
  cases t with
  | node => cases member
  | way =>
      obtain ⟨p, -, rfl⟩ := List.mem_map.mp member
      rfl
  | relation =>
      obtain ⟨p, -, rfl⟩ := List.mem_map.mp member
      rfl

private theorem mem_documentRefs (t : ObjectType) (body : Body t) {p : ObjectType × Int} :
    p ∈ documentRefs t body ↔ ∃ r ∈ refsOfBody t body, p = (r.ref.target.1, r.oldId) := by
  have indexed : ∀ {α : Type} (l : List α) (a : α), a ∈ l ↔ ∃ i, (a, i) ∈ l.zipIdx := by
    intro α l a
    constructor
    · intro member
      obtain ⟨i, bound, rfl⟩ := List.mem_iff_getElem.mp member
      exact ⟨i, List.mem_zipIdx_iff_getElem?.mpr (List.getElem?_eq_getElem bound)⟩
    · exact fun ⟨i, member⟩ => List.fst_mem_of_mem_zipIdx member
  cases t with
  | node =>
      constructor
      · exact fun member => (List.not_mem_nil member).elim
      · exact fun ⟨r, member, _⟩ => (List.not_mem_nil member).elim
  | way =>
      constructor
      · intro member
        obtain ⟨n, listed, rfl⟩ := List.mem_map.mp member
        obtain ⟨i, inside⟩ := (indexed _ n).mp listed
        exact ⟨_, List.mem_map_of_mem inside, rfl⟩
      · rintro ⟨r, member, rfl⟩
        obtain ⟨⟨n, i⟩, inside, rfl⟩ := List.mem_map.mp member
        exact List.mem_map.mpr ⟨n, List.fst_mem_of_mem_zipIdx inside, rfl⟩
  | relation =>
      constructor
      · intro member
        obtain ⟨m, listed, rfl⟩ := List.mem_map.mp member
        obtain ⟨i, inside⟩ := (indexed _ m).mp listed
        exact ⟨_, List.mem_map_of_mem inside, rfl⟩
      · rintro ⟨r, member, rfl⟩
        obtain ⟨⟨m, i⟩, inside, rfl⟩ := List.mem_map.mp member
        exact List.mem_map.mpr ⟨m, List.fst_mem_of_mem_zipIdx inside, rfl⟩

private theorem bodyMatches_of_refs {t : ObjectType} {body : Body t} {refs : List (RefElem t)}
    (row : CurrentRow t) {ct : Tracking}
    (all : List.Forall₂ (fun r r' => Replaced ct r r' ∧
      Denotes rows r.ref.target.1 r.oldId r'.ref.target.2) (refsOfBody t body) refs) :
    BodyMatches rows t body (content row (refs.map RefElem.ref)) := by
  have unindexed : ∀ {α β : Type} {R : α → β → Prop} {l : List α} {l' : List β},
      List.Forall₂ (fun p b => R p.1 b) l.zipIdx l' → List.Forall₂ R l l' := by
    intro α β R l l' related
    rw [← List.zipIdx_map_fst 0 l, List.forall₂_map_left_iff]
    exact related
  cases t with
  | node => trivial
  | way =>
      change List.Forall₂ _ (List.map _ _) _ at all
      rw [List.forall₂_map_left_iff] at all
      have related : List.Forall₂ (fun (p : Int × Nat) (r' : RefElem .way) =>
          Denotes rows .node p.1 (r'.ref : WayNode).nodeId) (List.zipIdx body) refs :=
        all.imp fun p r' both => both.2
      exact List.forall₂_map_right_iff.mpr (List.forall₂_map_right_iff.mpr
        (unindexed (R := fun n (r' : RefElem .way) => Denotes rows .node n (r'.ref : WayNode).nodeId)
          related))
  | relation =>
      change List.Forall₂ _ (List.map _ _) _ at all
      rw [List.forall₂_map_left_iff] at all
      have related : List.Forall₂ (fun (p : RelationMember × Nat) (r' : RefElem .relation) =>
          (r'.ref : Member).memberType = p.1.memberType ∧ (r'.ref : Member).memberRole = p.1.role ∧
            Denotes rows p.1.memberType p.1.ref (r'.ref : Member).memberId)
          (List.zipIdx body) refs := by
        refine all.imp fun p r' both => ?_
        obtain ⟨replaced, denotes⟩ := both
        rcases replaced.ref with ⟨-, same⟩ | ⟨-, id, -, same⟩
        · exact ⟨congrArg Member.memberType same, congrArg Member.memberRole same, denotes⟩
        · exact ⟨congrArg Member.memberType same, congrArg Member.memberRole same, denotes⟩
      exact List.forall₂_map_right_iff.mpr (unindexed (R := fun (m : RelationMember)
        (r' : RefElem .relation) => (r'.ref : Member).memberType = m.memberType ∧
          (r'.ref : Member).memberRole = m.role ∧
          Denotes rows m.memberType m.ref (r'.ref : Member).memberId) related)

end References

section Reading

variable {env : Env} {doc : List Element} {db db' : Db} {batches : List Batch} {st : Upload}
  {rows : List DiffResult} {b : Batch} {el : Element}

/-- A row with the tags and references of a written record. -/
structure Carries (x : Extracted el.objType) (e : Elem el.objType) : Prop where
  tags : x.tags = e.tags
  refs : x.refs = ObjState.refsOfElem e

private theorem matches_of_carries (executed : Executed env doc db batches st db')
    (told : assembleDiffresult st.ct = .ok rows) (bigint : ∀ t, db'.objectSeq t ≤ 2 ^ 63)
    (inside : b ∈ batches) (member : el ∈ b.els) (writes : el.op ≠ .delete)
    {x : Extracted el.objType} (carries : Carries x (recordOf env b el)) (store : Store) :
    (∀ r ∈ x.refs, r.2.target.2 < 2 ^ 64) ∧ Matches rows el.object (contentOf store x) := by
  have effect := effect_of_executed executed b inside
  have resolved := recordOf_resolved effect member
  have origins := origins_of_executed executed
  have grows := created_of_executed executed b inside
  have all := replaced_of_resolved resolved
  rw [elemOf_refs env writes] at all
  have own := refsOfBody_own el.objType el.object.body
  -- the creations of the placeholders stand somewhere in the document
  have earlier : ∀ r ∈ refsOfBody el.objType el.object.body, r.oldId < 0 →
      ∃ c ∈ doc, Creates r.ref.target.1 r.oldId c := by
    intro r listed negative
    obtain ⟨before, after, split⟩ := List.append_of_mem inside
    obtain ⟨pre, post, place⟩ := List.append_of_mem member
    rw [← elemOf_refs env writes] at listed
    obtain ⟨c, found, creates⟩ :=
      origins.before before b after split pre el post place writes r listed negative
    refine ⟨c, ?_, creates⟩
    rw [← executed.elements, split, List.flatMap_append, List.flatMap_cons, place]
    simp only [List.mem_append] at found ⊢
    tauto
  have sequence : (recordOf env b el).refs.map RefElem.sequenceId =
      (refsOfBody el.objType el.object.body).map RefElem.sequenceId := by
    rw [← List.forall₂_eq_eq_eq, List.forall₂_map_left_iff, List.forall₂_map_right_iff]
    exact all.flip.imp fun _ _ replaced => replaced.sequenceId
  have order : orderBySequence x.refs = (recordOf env b el).refs.map RefElem.ref := by
    rw [carries.refs]
    apply orderBySequence_refsOfElem
    rw [sequence]
    exact sequence_refsOfBody _ _
  have related : List.Forall₂ (fun r r' => Replaced b.flushed.ct r r' ∧
      Denotes rows r.ref.target.1 r.oldId r'.ref.target.2)
      (refsOfBody el.objType el.object.body) (recordOf env b el).refs := by
    rw [List.forall₂_iff_get] at all ⊢
    refine ⟨all.1, fun i left right => ?_⟩
    have replaced := all.2 i left right
    have listed := List.get_mem (refsOfBody el.objType el.object.body) ⟨i, left⟩
    exact ⟨replaced, denotes_of_replaced executed told grows replaced (own _ listed)
      (earlier _ listed)⟩
  refine ⟨?_, ?_, ?_⟩
  · intro p listed
    rw [carries.refs] at listed
    obtain ⟨r', there, rfl⟩ := List.mem_map.mp listed
    obtain ⟨r, here, replaced⟩ := exists_of_mem_right all there
    exact small_of_replaced origins bigint grows replaced (own r here)
  · change BodyMatches rows _ _ (content x.row (orderBySequence x.refs))
    rw [order]
    exact bodyMatches_of_refs x.row related
  · change (orderByKey x.tags).Perm el.object.tags
    rw [carries.tags, resolved.tags, elemOf_tags writes]
    exact List.perm_insertionSort _ _

private theorem carries_history {store : Store} {id v : Nat} {e : Elem el.objType}
    (holds : Holds (object store.db el.objType id) v e) {h : HistoryRow el.objType}
    (found : (store.db.history el.objType).find? (id, v) = some h) :
    Carries (historicRow el.objType store.db h) e := by
  obtain ⟨ownId, ownVersion⟩ := Prod.mk.inj (Table.find?_eq_some.mp found).2
  refine ⟨?_, ?_⟩
  · change store.db.historyTagsOf el.objType h.id h.version = _
    rw [ownId, ownVersion]
    exact holds.tags
  · change store.db.historyRefsOf el.objType h.id h.version = _
    rw [ownId, ownVersion]
    exact holds.refs

private theorem carries_current {store : Store} {id v : Nat} {e : Elem el.objType}
    (holds : Holds (object store.db el.objType id) v e) {r : CurrentRow el.objType}
    (row : (store.db.current el.objType).find? id = some r) (version : r.version = v) :
    r.id = id ∧ r.changesetId = e.changesetId ∧ Carries (currentRow el.objType store.db r) e := by
  have own : r.id = id := (Table.find?_eq_some.mp row).2
  obtain ⟨touched, tags, refs⟩ := holds.current r row version
  refine ⟨own, touched, ?_, ?_⟩
  · change store.db.tagsOf el.objType r.id = _
    rw [own]
    exact tags
  · change store.db.refsOf el.objType r.id = _
    rw [own]
    exact refs

/-- A row is read as the version `v` of an object, with the property `P`. -/
private structure ReadsAs {t : ObjectType} (store : Store) (id v : Nat) (P : Written t → Prop)
    (x : Extracted t) : Prop where
  read : extract store x = .ok (contentOf store x)
  id : (contentOf store x).elem.id = id
  version : (contentOf store x).elem.version = v
  content : P (contentOf store x)

private theorem yields_of_readable {store : Store} {t : ObjectType} {id v : Nat} {P : Written t → Prop}
    {h : HistoryRow t} (found : (store.db.history t).find? (id, v) = some h)
    (owner : (changesetUser store h.changesetId).isSome)
    (past : ReadsAs store id v P (historicRow t store.db h))
    (current : ∀ r, (store.db.current t).find? id = some r → r.version = v →
      (changesetUser store r.changesetId).isSome ∧ ReadsAs store id v P (currentRow t store.db r)) :
    Yields store t id v P := by
  have rowOf : store.db.version? t id = some v →
      ∃ r, (store.db.current t).find? id = some r ∧ r.version = v := fun version =>
    Option.map_eq_some_iff.mp version
  refine ⟨⟨_, ?_, past.id, past.version, past.content⟩, fun version => ?_,
    fun sel out complete selected => ?_⟩
  · rw [writeObjects_onlyEdition found, writeRows_singleton owner, untilError_eq, past.read]
    rfl
  · obtain ⟨r, row, isLast⟩ := rowOf version
    obtain ⟨user, now⟩ := current r row isLast
    refine ⟨_, ?_, now.id, now.version, now.content⟩
    rw [writeObjects_onlyObject row, writeRows_singleton user, untilError_eq, now.read]
    rfl
  · rcases selected with edition | ⟨object, version⟩
    · obtain ⟨w, listed, read⟩ := extracted_of_edition edition found complete
      obtain rfl := Except.ok.inj (past.read.symm.trans read)
      exact ⟨_, listed, past.id, past.version, past.content⟩
    · obtain ⟨r, row, isLast⟩ := rowOf version
      obtain ⟨-, now⟩ := current r row isLast
      have saved : (store.db.history t).find? (id, r.version) = some h := by
        rw [isLast]
        exact found
      obtain ⟨w, listed, live | old⟩ := extracted_of_object object row saved complete
      · obtain rfl := Except.ok.inj (now.read.symm.trans live)
        exact ⟨_, listed, now.id, now.version, now.content⟩
      · obtain rfl := Except.ok.inj (past.read.symm.trans old)
        exact ⟨_, listed, past.id, past.version, past.content⟩

private theorem yields_iff (executed : Executed env doc db batches st db')
    (told : assembleDiffresult st.ct = .ok rows) (keys : ForeignKeys db)
    (bigint : ∀ t, db'.objectSeq t ≤ 2 ^ 63) (inside : b ∈ batches) (member : el ∈ b.els)
    (writes : el.op ≠ .delete) {store : Store}
    (same : ∀ t id, object store.db t id = object db' t id)
    (user : (changesetUser store env.changeset).isSome) :
    Yields store el.objType (recordOf env b el).id (newVersion (eventOf env b el))
        (Matches rows el.object) ↔ newVersion (eventOf env b el) < 2 ^ 31 := by
  have effect := effect_of_executed executed b inside
  have changeset : (recordOf env b el).changesetId = env.changeset :=
    (recordOf_resolved effect member).changesetId.trans (elemOf_changesetId el)
  have holds := holds_of_executed executed keys inside member writes
  rw [← same] at holds
  obtain ⟨h, found, owner⟩ := holds.row
  have found : (store.db.history el.objType).find?
      ((recordOf env b el).id, newVersion (eventOf env b el)) = some h := found
  obtain ⟨ownId, ownVersion⟩ := Prod.mk.inj (Table.find?_eq_some.mp found).2
  obtain ⟨small, good⟩ := matches_of_carries executed told bigint inside member writes
    (carries_history holds found) store
  have known : (changesetUser store h.changesetId).isSome := by
    rw [owner, changeset]
    exact user
  constructor
  · intro yields
    obtain ⟨w, read, -⟩ := yields.edition
    rw [writeObjects_onlyEdition found, writeRows_singleton known, untilError_eq, List.map_singleton,
      List.cons.injEq] at read
    have fits := ((extract_eq_ok small).mp read.1).1
    change h.version < 2 ^ 31 at fits
    rwa [ownVersion] at fits
  · intro fits
    refine yields_of_readable found known ⟨?_, ownId, ownVersion, good⟩ fun r row version => ?_
    · refine (extract_eq_ok small).mpr ⟨?_, rfl⟩
      change h.version < 2 ^ 31
      rwa [ownVersion]
    · obtain ⟨own, touched, carries⟩ := carries_current holds row version
      obtain ⟨few, right⟩ :=
        matches_of_carries executed told bigint inside member writes carries store
      have readable : extract store (currentRow el.objType store.db r) =
          .ok (contentOf store (currentRow el.objType store.db r)) := by
        refine (extract_eq_ok few).mpr ⟨?_, rfl⟩
        change r.version < 2 ^ 31
        rwa [version]
      rw [touched, changeset]
      exact ⟨user, readable, own, version, right⟩

end Reading

/-- An accepted upload, read back: the elements of the document and the rows of the
response go together, every placeholder that an element refers to was created before
it, and what an element wrote is read back exactly when its version fits an `int`. -/
theorem readback_iff {tx : Transaction} {mt : MimeType} {c : Int} {payload : Payload}
    {reply : Reply} {db db' : Db} (accounts : Accounts)
    (done : (changesetUploadResponder tx mt c payload).run db = .ok (reply, db'))
    (xml : mt ≠ .applicationJson) (keys : ForeignKeys db)
    (users : ∀ cs ∈ db.changesets, (db.users.find? cs.userId).isSome)
    (bigint : ∀ t, db'.objectSeq t ≤ 2 ^ 63) :
    ∃ rows, reply = .diffResult rows ∧
      ∀ pre el post, payload.elements = pre ++ el :: post → el.op ≠ .delete →
        (∀ ref ∈ documentRefs el.objType el.object.body, ref.2 < 0 →
          ∃ c ∈ pre, Creates ref.1 ref.2 c) ∧
        ∃ row, rows[pre.length]? = some row ∧ row.op = el.op ∧ row.oldId = el.object.id ∧
          (Yields ⟨db', accounts⟩ el.objType row.newId row.newVersion (Matches rows el.object) ↔
            row.newVersion < 2 ^ 31) := by
  obtain ⟨r, st, db₁, up⟩ := uploads_of_responder done
  obtain ⟨rows, told, replied⟩ := up.rows
  refine ⟨rows, replied, fun pre el post split writes => ?_⟩
  rcases processPayload_eq_ok up.processed with ⟨json, -⟩ | ⟨-, document⟩
  · exact absurd json xml
  obtain ⟨batches, executed⟩ := executed_of_processDocument document
  obtain ⟨earlier, b, later, before, after, parts, place, front⟩ :=
    batch_of_split (executed.elements.trans split)
  have inside : b ∈ batches := by
    rw [parts]
    exact List.mem_append_right earlier List.mem_cons_self
  have member : el ∈ b.els := by
    rw [place]
    exact List.mem_append_right before List.mem_cons_self
  have effect := effect_of_executed executed b inside
  have assembled := row_of_written (tracked_of_executed executed) inside member writes
  obtain ⟨oldId, newId, version⟩ := rowFor_written effect member writes
  have object' : ∀ t id, object db' t id = object db₁ t id := by
    intro t id
    rw [up.sets.rest]
    rfl
  have sequences : ∀ t, db₁.objectSeq t ≤ 2 ^ 63 := by
    intro t
    have limit := bigint t
    rwa [up.sets.rest] at limit
  have user : (changesetUser ⟨db', accounts⟩ (tx.env c).changeset).isSome := by
    have owner : (db'.users.find? r.userId).isSome := by
      rw [up.sets.rest]
      change (db₁.users.find? r.userId).isSome
      rw [(processPayload_sameChangesets up.processed).users]
      exact users r (Table.find?_eq_some.mp up.found).1
    have changed : (uploadedRow tx c st r).userId = r.userId := rfl
    change ((db'.changesets.find? c).bind _).isSome
    rw [up.sets.self, Option.bind_some, Option.isSome_map, changed]
    exact owner
  refine ⟨fun ref listed negative => ?_, rowFor (tx.env c) b el, ?_, ?_, oldId, ?_⟩
  · obtain ⟨r', there, rfl⟩ := (mem_documentRefs _ _).mp listed
    rw [← elemOf_refs (tx.env c) writes] at there
    rw [front]
    exact (origins_of_executed executed).before earlier b later parts before el after place writes
      r' there negative
  · have all := rows_of_executed executed told
    rw [split] at all
    obtain ⟨left, right, first, rest, rfl⟩ := forall₂_append_left all
    cases rest with
    | cons here _ =>
        rw [assembled] at here
        cases here
        rw [first.length_eq, List.getElem?_append_right (Nat.le_refl _), Nat.sub_self]
        rfl
  · exact assembleRow_op assembled
  · rw [newId, version]
    exact yields_iff executed told keys sequences inside member writes object' user

section Samples

theorem keys_storedUser : ([⟨1, 0⟩].map UserRow.id).Nodup := List.nodup_singleton _

theorem keys_storedChangeset :
    ([⟨7, 1, 0, interval 3600, none, 0, UploadStats.zero⟩].map ChangesetRow.id).Nodup :=
  List.nodup_singleton _

theorem keys_storedNode :
    ([⟨1, 1, 7, true, 0, (⟨0, 0, 0⟩ : NodeCoord)⟩].map (CurrentRow.id (t := .node))).Nodup :=
  List.nodup_singleton _

theorem keys_storedWay (version : Nat) :
    ([⟨1, version, 7, true, 0, ()⟩].map (CurrentRow.id (t := .way))).Nodup := List.nodup_singleton _

/-- One user with an open changeset, a node, and a way at the given version. -/
def sampleStored (version : Nat) : Db :=
  { Db.empty with
    users := ⟨[⟨1, 0⟩], keys_storedUser⟩
    changesets := ⟨[⟨7, 1, 0, interval 3600, none, 0, UploadStats.zero⟩], keys_storedChangeset⟩
    current := fun
      | .node => ⟨[⟨1, 1, 7, true, 0, (⟨0, 0, 0⟩ : NodeCoord)⟩], keys_storedNode⟩
      | .way => ⟨[⟨1, version, 7, true, 0, ()⟩], keys_storedWay version⟩
      | .relation => .empty
    objectSeq := fun _ => 2 }

theorem foreignKeys_sampleStored (version : Nat) : ForeignKeys (sampleStored version) := by
  refine ⟨?_, ?_, ?_, ?_⟩
  all_goals exact fun t r member => (List.not_mem_nil member).elim

def sampleAccounts : Accounts := ⟨fun _ => ⟨true, "mapper", .active⟩, [], [], [], []⟩

def sampleUpload (elements : List Element) : DbProg Reply :=
  changesetUploadResponder (sampleTx 0 (.close 7)) .applicationXml 7 (samplePayload elements)

def sampleCreated : List Element :=
  [sampleNode .create (-1) 0 false, sampleWay .create (-1) 0 false [-1, 1, -1]]

theorem readback_sampleCreated :
    ∃ rows db', (sampleUpload sampleCreated).run (sampleStored 1) = .ok (.diffResult rows, db') ∧
      ∃ row, rows[1]? = some row ∧ row.newVersion < 2 ^ 31 ∧
        Yields ⟨db', sampleAccounts⟩ .way row.newId row.newVersion
          (Matches rows (sampleWay .create (-1) 0 false [-1, 1, -1]).object) := by
  obtain ⟨reply, db', run, passes⟩ := of_check (sampleUpload sampleCreated) (sampleStored 1)
    (fun reply db' => (decide (db'.objectSeq .node ≤ 2 ^ 63) && decide (db'.objectSeq .way ≤ 2 ^ 63) &&
      decide (db'.objectSeq .relation ≤ 2 ^ 63)) &&
      match reply with
      | .diffResult rows => rows.all (fun row => decide (row.newVersion < 2 ^ 31))
      | .text _ => false) (by decide +kernel)
  rw [Bool.and_eq_true, Bool.and_eq_true, Bool.and_eq_true] at passes
  obtain ⟨⟨⟨node, way⟩, relation⟩, versions⟩ := passes
  have bigint : ∀ t, db'.objectSeq t ≤ 2 ^ 63 := by
    intro t
    cases t with
    | node => exact of_decide_eq_true node
    | way => exact of_decide_eq_true way
    | relation => exact of_decide_eq_true relation
  obtain ⟨rows, rfl, all⟩ := readback_iff sampleAccounts run (by decide)
    (foreignKeys_sampleStored 1) (by decide) bigint
  obtain ⟨-, row, found, -, -, yields⟩ := all [sampleNode .create (-1) 0 false] _ [] rfl (by decide)
  have small := of_decide_eq_true (List.all_eq_true.mp versions row (List.mem_of_getElem? found))
  exact ⟨rows, db', run, row, found, small, yields.mpr small⟩

def sampleUnwritten (reply : Reply) (db' : Db) : Bool :=
  match reply with
  | .diffResult [row] => decide ((writeObjects ⟨db', sampleAccounts⟩ .way
      (onlyEdition .way row.newId row.newVersion)).2 ≠ none)
  | _ => false

/-- The version after the largest `int` is written and cannot be read. -/
theorem not_readback_largeVersion :
    ∃ rows db', (sampleUpload [sampleWay .modify 1 2147483647 false [1]]).run
        (sampleStored 2147483647) = .ok (.diffResult rows, db') ∧
      ∃ row, rows[0]? = some row ∧
        ¬ Yields ⟨db', sampleAccounts⟩ .way row.newId row.newVersion
          (Matches rows (sampleWay .modify 1 2147483647 false [1]).object) := by
  obtain ⟨reply, db', run, passes⟩ :=
    of_check (sampleUpload [sampleWay .modify 1 2147483647 false [1]]) (sampleStored 2147483647)
      sampleUnwritten (by decide +kernel)
  unfold sampleUnwritten at passes
  split at passes
  · rename_i row
    refine ⟨[row], db', run, row, rfl, fun yields => of_decide_eq_true passes ?_⟩
    obtain ⟨w, read, -⟩ := yields.edition
    rw [read]
  · cases passes

end Samples

end Cgimap.Read.Readback
