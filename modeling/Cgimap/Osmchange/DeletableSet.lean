/- path: Cgimap/Osmchange/DeletableSet
   generality: I
   source: src/backend/apidb/changeset_upload/relation_updater.cpp
   digest: Of relations that may stay if used, the largest deletable part is deleted. -/

import Cgimap.Library.UnsupportedSets
import Cgimap.Osmchange.DeletionProgress
import Mathlib.Data.Finset.Range

set_option autoImplicit false
set_option relaxedAutoImplicit false

namespace Cgimap.Osmchange.DeletableSet

open Cgimap.Library.ExceptLists
open Cgimap.Library.KeyedTable
open Cgimap.Library.StatementProgram
open Cgimap.Library.StatementProgram.Prog
open Cgimap.Library.UnsupportedSets
open Cgimap.Model.Types
open Cgimap.Model.Database
open Cgimap.Osmchange.DiffTracking
open Cgimap.Osmchange.UploadRecords
open Cgimap.Osmchange.SqlStatements
open Cgimap.Osmchange.UpdaterChecks
open Cgimap.Osmchange.ObjectState
open Cgimap.Osmchange.WriteEffects
open Cgimap.Osmchange.CheckEffects
open Cgimap.Osmchange.DeletionEffects
open Cgimap.Osmchange.Integrity
open Cgimap.Osmchange.DeletionProgress

variable {db db' : Db} {es kept : List (Elem .relation)} {skipped : List ObjectIdMapping}

/-- The relation `m` is a member of the relation `r`. -/
def HasMember (db : Db) (r m : Nat) : Prop := Refers db .relation r (.relation, m)

def visibleRelations (db : Db) : Set Nat := {r | db.visible (.relation, r) = true}

def idsOf (es : List (Elem .relation)) : Set Nat := {id | id ∈ es.map Elem.id}

/-- The entry that is recorded for an element whose deletion is skipped. -/
def skipEntry (db : Db) (e : Elem .relation) : ObjectIdMapping :=
  ⟨e.oldId, e.id, ((object db .relation e.id).version?).getD 0⟩

section Batch

private theorem used_iff_supported {id : Nat} : Used db .relation (es.map Elem.id) id ↔
    Supported (HasMember db) (visibleRelations db) (idsOf es) id := by
  constructor
  · rintro ⟨r, row, target, shown, outside⟩
    exact ⟨r.owner, shown, outside, r, row, rfl, target⟩
  · rintro ⟨owner, shown, outside, r, row, rfl, target⟩
    exact ⟨r, row, target, shown, outside⟩

private theorem child_path_iff
    (members : ∀ r ∈ visibleRelations db, ∀ m, HasMember db r m → m ∈ visibleRelations db)
    {a b : Nat} (shown : a ∈ visibleRelations db) :
    Relation.TransGen (Child db) a b ↔ Relation.TransGen (HasMember db) a b := by
  constructor
  · intro path
    have weaker : ∀ r m, Child db r m → HasMember db r m := fun r m child => child.2
    exact Relation.TransGen.mono weaker a b path
  · intro path
    induction path using Relation.TransGen.head_induction_on with
    | single step => exact .single (child_of_refers shown step)
    | head step _ ih =>
        exact .head (child_of_refers shown step) (ih (members _ shown _ step))

private theorem blocked_iff_held
    (members : ∀ r ∈ visibleRelations db, ∀ m, HasMember db r m → m ∈ visibleRelations db)
    (shown : idsOf es ⊆ visibleRelations db) (flagged : ∀ e ∈ es, e.ifUnused = true) {id : Nat} :
    Blocked db .relation es id ↔
      id ∈ idsOf es ∧ Held (HasMember db) (visibleRelations db) (idsOf es) id := by
  unfold Blocked Held
  refine and_congr_right fun inside => ?_
  have flag : id ∈ idsIfUnused es := by
    obtain ⟨e, member, rfl⟩ := List.mem_map.mp inside
    exact mem_idsIfUnused.mpr ⟨e, member, flagged e member, rfl⟩
  simp only [used_iff_supported, flag, true_and]
  refine or_congr_right (exists_congr fun a => and_congr_right fun batched => ?_)
  rw [child_path_iff members (shown batched)]

private theorem exists_bound (db : Db) : ∃ bound, ∀ a b, Child db a b → b < bound := by
  obtain ⟨bound, above⟩ := Finset.exists_nat_subset_range
    ((db.currentRefs .relation).rows.map (fun r => r.ref.target.2)).toFinset
  refine ⟨bound, ?_⟩
  rintro a b ⟨-, r, row, -, target⟩
  apply Finset.mem_range.mp
  apply above
  rw [List.mem_toFinset]
  exact List.mem_map.mpr ⟨r, row, by rw [target]⟩

private theorem skipped_nodup {fuel : Nat}
    (run : (isRelationStillReferenced fuel es).run db = .ok ((kept, skipped), db')) :
    (skipped.map ObjectIdMapping.newId).Nodup := by
  unfold isRelationStillReferenced at run
  split at run
  · cases run
    exact List.nodup_nil
  · simp only [run_bind_eq_ok] at run
    obtain ⟨rows, db₁, -, used, db₂, -, children, db₃, -, run⟩ := run
    unfold removeBlocked at run
    split at run
    · cases run
      exact List.nodup_nil
    · rw [run_bind, stillReferenced, run_query] at run
      dsimp only at run
      split at run
      · cases run
      · rw [run_bind_eq_ok] at run
        obtain ⟨read, db₄, first, rest⟩ := run
        obtain ⟨mapped, rfl⟩ := run_liftExcept_eq_ok.mp first
        cases rest
        obtain ⟨rfl, -⟩ := idMapping_mapM mapped
        rw [List.map_map, List.map_map]
        exact (db'.current .relation).nodup.sublist (List.filter_sublist.map _)

private theorem mem_kept_iff {excluded : List Nat} {e : Elem .relation} (inside : e ∈ es) :
    e.id ∈ (es.filter (fun e => decide (e.id ∉ excluded))).map Elem.id ↔ e.id ∉ excluded := by
  constructor
  · intro member
    obtain ⟨d, found, same⟩ := List.mem_map.mp member
    rw [← same]
    exact of_decide_eq_true (List.mem_filter.mp found).2
  · intro free
    exact List.mem_map_of_mem (List.mem_filter.mpr ⟨inside, decide_eq_true free⟩)

private theorem known_of_visible {e : Elem .relation}
    (shown : db.visible (.relation, e.id) = true) : (object db .relation e.id).row.isSome := by
  rw [visible_eq] at shown
  cases row : (object db .relation e.id).row with
  | none =>
      rw [row] at shown
      cases shown
  | some r => rfl

private theorem readable_of_known (known : ∀ e ∈ es, (object db .relation e.id).row.isSome)
    (versions : ∀ e ∈ es, ∀ v, (object db .relation e.id).version? = some v → v < versionBound) :
    Readable db .relation (es.map Elem.id) := by
  refine ⟨fun id member => ?_, fun id member => ?_⟩
  · obtain ⟨e, inside, rfl⟩ := List.mem_map.mp member
    exact known e inside
  · obtain ⟨e, inside, rfl⟩ := List.mem_map.mp member
    exact versions e inside

private theorem idsOf_kept
    (members : ∀ r ∈ visibleRelations db, ∀ m, HasMember db r m → m ∈ visibleRelations db)
    (batch : idsOf es ⊆ visibleRelations db) (flagged : ∀ e ∈ es, e.ifUnused = true)
    (part : kept.Sublist es)
    (rest : ∀ e ∈ es, (e.id ∉ kept.map Elem.id ↔ Blocked db .relation es e.id)) :
    idsOf kept = {id | id ∈ idsOf es ∧
      ¬ Held (HasMember db) (visibleRelations db) (idsOf es) id} := by
  ext id
  constructor
  · intro member
    obtain ⟨e, inside, rfl⟩ := List.mem_map.mp member
    have here : e ∈ es := part.subset inside
    refine ⟨List.mem_map_of_mem here, fun held => ?_⟩
    apply (rest e here).mpr _ member
    exact (blocked_iff_held members batch flagged).mpr ⟨List.mem_map_of_mem here, held⟩
  · rintro ⟨member, free⟩
    obtain ⟨e, inside, rfl⟩ := List.mem_map.mp member
    by_contra outside
    have held := (blocked_iff_held members batch flagged).mp ((rest e inside).mp outside)
    exact free held.2

private theorem skipped_perm {fuel : Nat} (distinct : (es.map Elem.id).Nodup)
    (known : ∀ e ∈ es, (object db .relation e.id).row.isSome)
    (run : (isRelationStillReferenced fuel es).run db = .ok ((kept, skipped), db'))
    (outcome : Kept db es kept skipped)
    (rest : ∀ e ∈ es, (e.id ∉ kept.map Elem.id ↔ Blocked db .relation es e.id)) :
    skipped.Perm
      ((es.filter (fun e => decide (e.id ∉ kept.map Elem.id))).map (skipEntry db)) := by
  have once : ((es.filter (fun e => decide (e.id ∉ kept.map Elem.id))).map
      (skipEntry db)).Nodup := by
    apply List.Nodup.of_map ObjectIdMapping.newId
    rw [List.map_map]
    exact distinct.sublist (List.filter_sublist.map _)
  apply (List.perm_ext_iff_of_nodup (skipped_nodup run).of_map once).mpr
  intro m
  rw [outcome.entries, List.mem_map]
  constructor
  · rintro ⟨id, v, held, version, rfl⟩
    obtain ⟨e, inside, rfl⟩ := List.mem_map.mp held.1
    refine ⟨e, List.mem_filter.mpr ⟨inside, decide_eq_true ((rest e inside).mpr held)⟩, ?_⟩
    rw [skipEntry, version, skippedEntry, idToOldId_of_mem distinct inside]
    rfl
  · rintro ⟨e, found, rfl⟩
    obtain ⟨inside, outside⟩ := List.mem_filter.mp found
    obtain ⟨r, row⟩ := Option.isSome_iff_exists.mp (known e inside)
    refine ⟨e.id, r.version, (rest e inside).mp (of_decide_eq_true outside), ?_, ?_⟩
    · rw [ObjState.version?, row]
      rfl
    · rw [skipEntry, ObjState.version?, row, skippedEntry, idToOldId_of_mem distinct inside]
      rfl

/-- Given enough fuel the check returns. Of a batch of visible relations with the if-unused
flag it keeps for deletion the largest part in which no other visible relation has a member,
in order, and records an entry for each of the others. -/
theorem isRelationStillReferenced_isGreatest (distinct : (es.map Elem.id).Nodup)
    (shown : ∀ e ∈ es, db.visible (.relation, e.id) = true)
    (flagged : ∀ e ∈ es, e.ifUnused = true)
    (members : ∀ r ∈ visibleRelations db, ∀ m, HasMember db r m → m ∈ visibleRelations db)
    (versions : ∀ e ∈ es, ∀ v, (object db .relation e.id).version? = some v → v < versionBound) :
    ∃ bound, ∀ fuel, bound < fuel → ∃ kept skipped,
      (isRelationStillReferenced fuel es).run db = .ok ((kept, skipped), db) ∧
      IsGreatest {S | S ⊆ idsOf es ∧ Unsupported (HasMember db) (visibleRelations db) S}
        (idsOf kept) ∧
      kept.Sublist es ∧
      skipped.Perm ((es.filter (fun e => decide (e.id ∉ kept.map Elem.id))).map (skipEntry db)) := by
  obtain ⟨bound, low⟩ := exists_bound db
  refine ⟨bound, fun fuel enough => ?_⟩
  have known : ∀ e ∈ es, (object db .relation e.id).row.isSome := fun e inside =>
    known_of_visible (shown e inside)
  obtain ⟨-, ⟨kept, skipped⟩, run⟩ | ⟨used, -⟩ :=
    isRelationStillReferenced_decides (readable_of_known known versions) low enough
  · obtain ⟨-, outcome⟩ := isRelationStillReferenced_ok run
    obtain ⟨excluded, blocked, same⟩ := outcome.elems
    have part : kept.Sublist es := by
      rw [same]
      exact List.filter_sublist
    have batch : idsOf es ⊆ visibleRelations db := by
      intro id member
      obtain ⟨e, inside, rfl⟩ := List.mem_map.mp member
      exact shown e inside
    have rest : ∀ e ∈ es, (e.id ∉ kept.map Elem.id ↔ Blocked db .relation es e.id) := by
      intro e inside
      rw [same, mem_kept_iff inside, not_not, blocked]
    refine ⟨kept, skipped, run, ?_, part, skipped_perm distinct known run outcome rest⟩
    rw [idsOf_kept members batch flagged part rest]
    exact isGreatest_unsupported batch members
  · exact absurd (fun e inside _ => flagged e inside) used

end Batch

section Closure

def memberIds (db : Db) : Finset Nat :=
  (((db.currentRefs .relation).rows.filter (fun r => r.ref.target.1 = .relation)).map
    (fun r => r.ref.target.2)).toFinset

private theorem mem_memberIds {a b : Nat} (step : Child db a b) : b ∈ memberIds db := by
  obtain ⟨-, r, row, -, target⟩ := step
  rw [memberIds, List.mem_toFinset]
  refine List.mem_map.mpr ⟨r, List.mem_filter.mpr ⟨row, ?_⟩, ?_⟩
  · rw [target]
    exact decide_eq_true rfl
  · rw [target]

/-- Whatever the members of the relations are, the closure is complete after one round more
than there are relations to be found. It holds what can be reached by at least one step. -/
theorem collectRecursiveRelationRelMemberIds_reaches (db : Db) (direct : List Nat) {fuel : Nat}
    (enough : (memberIds db).card < fuel) :
    ∃ result, (collectRecursiveRelationRelMemberIds fuel direct).run db = .ok (result, db) ∧
      result.Nodup ∧ ∀ b, b ∈ result ↔ ∃ a ∈ direct, Relation.TransGen (Child db) a b := by
  obtain ⟨result, run⟩ := collectRecursive_run (fun a b => mem_memberIds) enough direct
  exact ⟨result, run, (collectRecursive_ok run).2⟩

end Closure

section Sample

private def sampleRow (id : Nat) : CurrentRow .relation := ⟨id, 1, 7, true, 0, ()⟩

private def sampleMember (owner member : Nat) : RefRow .relation :=
  ⟨owner, 1, (⟨.relation, member, ""⟩ : Member)⟩

/-- The relations 1 and 2 are members of each other, 5 has 3 as a member, and 3 has 4. -/
def sampleGraph : Db :=
  (Db.empty.setCurrent .relation ⟨[1, 2, 3, 4, 5].map sampleRow, by decide⟩).setRefs .relation
    ⟨[sampleMember 1 2, sampleMember 2 1, sampleMember 5 3, sampleMember 3 4], by decide⟩

theorem collectRecursiveRelationRelMemberIds_sampleGraph : ∃ result,
    (collectRecursiveRelationRelMemberIds 5 [1, 5]).run sampleGraph = .ok (result, sampleGraph) ∧
      result.Nodup ∧
      ∀ b, b ∈ result ↔ ∃ a ∈ [1, 5], Relation.TransGen (Child sampleGraph) a b :=
  collectRecursiveRelationRelMemberIds_reaches sampleGraph [1, 5] (by decide)

def sampleDeletion (id : Nat) : Elem .relation := ⟨id, 1, 7, id, [], true, (), []⟩

/-- The cycle can go, the chain below relation 5 stays. -/
theorem isRelationStillReferenced_sampleGraph : ∃ fuel kept skipped,
    (isRelationStillReferenced fuel ([4, 1, 3, 2].map sampleDeletion)).run sampleGraph =
      .ok ((kept, skipped), sampleGraph) ∧
    IsGreatest {S | S ⊆ idsOf ([4, 1, 3, 2].map sampleDeletion) ∧
      Unsupported (HasMember sampleGraph) (visibleRelations sampleGraph) S} (idsOf kept) := by
  have members : ∀ r ∈ visibleRelations sampleGraph, ∀ m, HasMember sampleGraph r m →
      m ∈ visibleRelations sampleGraph := by
    rintro r - m ⟨row, inside, rfl, target⟩
    have known : ∀ row ∈ (sampleGraph.currentRefs .relation).rows,
        sampleGraph.visible row.ref.target = true := by decide
    have shown := known row inside
    rw [target] at shown
    exact shown
  have versions : ∀ e ∈ [4, 1, 3, 2].map sampleDeletion, ∀ v,
      (object sampleGraph .relation e.id).version? = some v → v < versionBound := by
    intro e inside v version
    obtain ⟨row, found, rfl⟩ := Option.map_eq_some_iff.mp version
    have first : ∀ row ∈ (sampleGraph.current .relation).rows, row.version < versionBound := by
      decide
    exact first row (Table.find?_eq_some.mp found).1
  have distinct : (([4, 1, 3, 2].map sampleDeletion).map Elem.id).Nodup := by decide
  obtain ⟨bound, returns⟩ := isRelationStillReferenced_isGreatest distinct (by decide) (by decide)
    members versions
  obtain ⟨kept, skipped, run, greatest, -⟩ := returns (bound + 1) (Nat.lt_succ_self bound)
  exact ⟨bound + 1, kept, skipped, run, greatest⟩

end Sample

end Cgimap.Osmchange.DeletableSet
