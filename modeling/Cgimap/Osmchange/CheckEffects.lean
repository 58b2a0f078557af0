/- path: Cgimap/Osmchange/CheckEffects
   generality: I
   source: none
   digest: When the checks of the updaters pass; they change nothing. -/

import Cgimap.Osmchange.WriteEffects

set_option autoImplicit false
set_option relaxedAutoImplicit false

namespace Cgimap.Osmchange.CheckEffects

open Cgimap.Library.ExceptLists
open Cgimap.Library.KeyedTable
open Cgimap.Library.StatementProgram
open Cgimap.Library.StatementProgram.Prog
open Cgimap.Model.Types
open Cgimap.Model.Database
open Cgimap.Osmchange.DiffTracking
open Cgimap.Osmchange.UploadRecords
open Cgimap.Osmchange.SqlStatements
open Cgimap.Osmchange.UpdaterChecks
open Cgimap.Osmchange.UpdaterProcess
open Cgimap.Osmchange.ObjectState
open Cgimap.Osmchange.WriteEffects

variable {t : ObjectType} {db db' : Db} {es : List (Elem t)} {ids : List Nat}

section Locks

/-- `lock_current_*` passes when every id is known, and fails with 404 otherwise. -/
theorem lockCurrent_cases (db : Db) (t : ObjectType) (ids : List Nat) :
    ((∀ id ∈ ids, (object db t id).row.isSome) ∧ (lockCurrent t ids).run db = .ok ((), db)) ∨
      ((∃ id ∈ ids, (object db t id).row = none) ∧
        ∃ message, (lockCurrent t ids).run db = .error (.notFound message)) := by
  unfold lockCurrent
  split
  · rename_i empty
    rw [List.isEmpty_iff] at empty
    subst empty
    exact .inl ⟨fun id member => (List.not_mem_nil member).elim, rfl⟩
  · rw [run_bind, run_perform, lockCurrentIds]
    dsimp only
    split
    · rename_i none
      rw [List.isEmpty_iff, List.filter_eq_nil_iff] at none
      refine .inl ⟨fun id member => ?_, rfl⟩
      have known := none id (mem_sortUnique.mpr member)
      rw [Option.isNone_iff_eq_none] at known
      exact Option.isSome_iff_ne_none.mpr known
    · rename_i some
      rw [List.isEmpty_iff] at some
      obtain ⟨id, member⟩ := List.exists_mem_of_ne_nil _ some
      obtain ⟨inside, unknown⟩ := List.mem_filter.mp member
      exact .inr ⟨⟨id, mem_sortUnique.mp inside, Option.isNone_iff_eq_none.mp unknown⟩, _, rfl⟩

theorem lockCurrent_ok {u : Unit} (done : (lockCurrent t ids).run db = .ok (u, db')) :
    db' = db ∧ ∀ id ∈ ids, (object db t id).row.isSome := by
  rcases lockCurrent_cases db t ids with ⟨known, run⟩ | ⟨-, message, run⟩
  · rw [run] at done
    cases done
    exact ⟨rfl, known⟩
  · rw [run] at done
    cases done

/-- The versions that `check_current_*_versions` accepts. -/
def VersionsMatch (db : Db) (es : List (Elem t)) : Prop :=
  ∀ e ∈ es, ∀ v, (object db t e.id).version? = some v → v = e.version

private theorem checkVersions_none :
    (es.map (fun e => (e.id, e.version))).findSome? (versionMismatch t db) = none ↔
      VersionsMatch db es := by
  rw [List.findSome?_eq_none_iff, List.forall_mem_map]
  refine forall₂_congr fun e _ => ?_
  simp only [versionMismatch, ObjState.version?, object]
  cases found : (db.current t).find? e.id with
  | none => simp
  | some r => simp [eq_comm]

/-- `check_current_*_versions` fails with 409, or while reading a version that is
out of range. -/
theorem checkCurrentVersions_cases (db : Db) (es : List (Elem t)) :
    (VersionsMatch db es ∧ (checkCurrentVersions t es).run db = .ok ((), db)) ∨
      (¬ VersionsMatch db es ∧ ∃ error, (checkCurrentVersions t es).run db = .error error ∧
        ((∃ message, error = .conflict message) ∨
          ∃ e ∈ es, versionBound ≤ e.version ∨
            ∃ v, (object db t e.id).version? = some v ∧ versionBound ≤ v)) := by
  unfold checkCurrentVersions
  split
  · rename_i empty
    rw [List.isEmpty_iff] at empty
    subst empty
    exact .inl ⟨fun e member => (List.not_mem_nil member).elim, rfl⟩
  · rw [checkVersions, run_bind, run_query]
    dsimp only
    split
    · rename_i same
      exact .inl ⟨checkVersions_none.mp same, rfl⟩
    · rename_i id expected actual found
      refine .inr ⟨fun pass => ?_, ?_⟩
      · rw [checkVersions_none.mpr pass] at found
        cases found
      · obtain ⟨p, member, hit⟩ := List.exists_of_findSome?_eq_some found
        obtain ⟨e, inside, rfl⟩ := List.mem_map.mp member
        have version : (object db t e.id).version? = some actual ∧ expected = e.version := by
          simp only [versionMismatch] at hit
          simp only [ObjState.version?, object]
          cases row : (db.current t).find? e.id with
          | none => simp [row] at hit
          | some r =>
              simp only [row, Option.ite_none_left_eq_some, Option.some.injEq,
                Prod.mk.injEq] at hit
              exact ⟨by simp [hit.2.2.2], hit.2.2.1.symm⟩
        by_cases small : expected < versionBound
        · by_cases small' : actual < versionBound
          · rw [asVersion_eq_ok.mpr ⟨small, rfl⟩, asVersion_eq_ok.mpr ⟨small', rfl⟩]
            exact ⟨_, rfl, .inl ⟨_, rfl⟩⟩
          · have large : asVersion actual = .error
                (.std "Could not convert string to osm_version_t: value out of range.") := by
              simp [asVersion, small']
            rw [asVersion_eq_ok.mpr ⟨small, rfl⟩, large]
            exact ⟨_, rfl, .inr ⟨e, inside, .inr ⟨actual, version.1, not_lt.mp small'⟩⟩⟩
        · have large : asVersion expected = .error
              (.std "Could not convert string to osm_version_t: value out of range.") := by
            simp [asVersion, small]
          rw [large]
          exact ⟨_, rfl, .inr ⟨e, inside, .inl (version.2 ▸ not_lt.mp small)⟩⟩

theorem checkCurrentVersions_ok {u : Unit}
    (done : (checkCurrentVersions t es).run db = .ok (u, db')) :
    db' = db ∧ VersionsMatch db es := by
  rcases checkCurrentVersions_cases db es with ⟨pass, run⟩ | ⟨-, error, run, -⟩
  · rw [run] at done
    cases done
    exact ⟨rfl, pass⟩
  · rw [run] at done
    cases done

end Locks

section Future

/-- What `lock_future_*` demands of the references of a list of elements. -/
def FutureVisible (db : Db) (es : List (Elem t)) (locked : List Nat) : Prop :=
  ∀ e ∈ es, ∀ r ∈ e.refs, db.visible r.ref.target = true ∨
    (r.ref.target.1 = .relation ∧ r.ref.target.2 ∈ locked)

/-- A reference that is visible after a change to the objects `ids` of type `t` was
visible before it, or is to one of those objects, which are relations then. -/
theorem FutureVisible.of_acts {f : Nat → ObjState t → ObjState t} {locked : List Nat}
    (future : FutureVisible db' es locked) (acts : Acts t f db db')
    (only : ∀ id, id ∉ ids → ∀ s, f id s = s) (sub : ∀ id, id ∈ locked → id ∈ ids) :
    FutureVisible db es ids := by
  intro e member r ref
  rcases future e member r ref with shown | ⟨relation, inside⟩
  · by_cases touched : r.ref.target.1 = t ∧ r.ref.target.2 ∈ ids
    · exact .inr ⟨touched.1.trans (r.ref.target_own touched.1), touched.2⟩
    · refine .inl ?_
      rw [← acts.visible_eq fun own s => only _ (fun inside => touched ⟨own, inside⟩) s]
      exact shown
  · exact .inr ⟨relation, sub _ inside⟩

private theorem mem_futureIds {ty : ObjectType} {id : Nat} :
    id ∈ futureIds ty es ↔ ∃ e ∈ es, ∃ r ∈ e.refs, r.ref.target = (ty, id) := by
  simp only [futureIds, List.mem_flatMap, List.mem_map, List.mem_filter, decide_eq_true_eq,
    Prod.ext_iff, and_assoc]

private theorem lockFutureOf_cases (db : Db) (ty : ObjectType) (ids : List Nat)
    (es : List (Elem t)) :
    ((∀ id ∈ ids, db.visible (ty, id) = true) ∧
        (lockFutureOf ty ids es).run db = .ok ((), db)) ∨
      ((∃ id ∈ ids, db.visible (ty, id) = false) ∧
        ∃ message, (lockFutureOf ty ids es).run db = .error (.preconditionFailed message)) := by
  unfold lockFutureOf
  split
  · rename_i empty
    rw [List.isEmpty_iff] at empty
    subst empty
    exact .inl ⟨fun id member => (List.not_mem_nil member).elim, rfl⟩
  · rw [run_bind, run_perform, lockFutureIds]
    dsimp only
    split
    · rename_i none
      rw [List.isEmpty_iff, List.filter_eq_nil_iff] at none
      refine .inl ⟨fun id member => ?_, rfl⟩
      simpa using none id (mem_sortUnique.mpr (mem_sortUnique.mpr member))
    · rename_i some
      rw [List.isEmpty_iff] at some
      obtain ⟨id, member⟩ := List.exists_mem_of_ne_nil _ some
      obtain ⟨inside, hidden⟩ := List.mem_filter.mp member
      exact .inr ⟨⟨id, mem_sortUnique.mp (mem_sortUnique.mp inside), by simpa using hidden⟩, _, rfl⟩

private theorem not_futureVisible {ty : ObjectType} (other : ty ≠ .relation) {locked : List Nat}
    (bad : ∃ id ∈ futureIds ty es, db.visible (ty, id) = false) : ¬ FutureVisible db es locked := by
  intro pass
  obtain ⟨id, member, hidden⟩ := bad
  obtain ⟨e, inside, r, ref, target⟩ := mem_futureIds.mp member
  rcases pass e inside r ref with shown | ⟨relation, -⟩
  · rw [target, hidden] at shown
    cases shown
  · rw [target] at relation
    exact other relation

private theorem lockFutureMembers_cases (db : Db) (es : List (Elem .relation))
    (locked : List Nat) :
    (FutureVisible db es locked ∧ (lockFutureMembers es locked).run db = .ok ((), db)) ∨
      (¬ FutureVisible db es locked ∧
        ∃ message, (lockFutureMembers es locked).run db = .error (.preconditionFailed message)) := by
  unfold lockFutureMembers
  rcases lockFutureOf_cases db .node (futureIds .node es) es with ⟨nodes, run⟩ | ⟨bad, m, run⟩
  · rw [run_bind, run]
    rcases lockFutureOf_cases db .way (futureIds .way es) es with ⟨ways, run⟩ | ⟨bad, m, run⟩
    · simp only [run_bind, run]
      rcases lockFutureOf_cases db .relation ((futureIds .relation es).filter
        (fun id => decide (id ∉ locked))) es with ⟨relations, run⟩ | ⟨bad, m, run⟩
      · refine .inl ⟨fun e inside r ref => ?_, run⟩
        obtain ⟨ty, id, target⟩ : ∃ ty id, r.ref.target = (ty, id) := ⟨_, _, rfl⟩
        have member : id ∈ futureIds ty es := mem_futureIds.mpr ⟨e, inside, r, ref, target⟩
        rw [target]
        cases ty with
        | node => exact .inl (nodes id member)
        | way => exact .inl (ways id member)
        | relation =>
            by_cases already : id ∈ locked
            · exact .inr ⟨rfl, already⟩
            · exact .inl (relations id (List.mem_filter.mpr ⟨member, by simp [already]⟩))
      · refine .inr ⟨fun pass => ?_, m, run⟩
        obtain ⟨id, filtered, hidden⟩ := bad
        obtain ⟨member, free⟩ := List.mem_filter.mp filtered
        obtain ⟨e, inside, r, ref, target⟩ := mem_futureIds.mp member
        rcases pass e inside r ref with shown | ⟨-, already⟩
        · rw [target, hidden] at shown
          cases shown
        · rw [target] at already
          simp [already] at free
    · simp only [run_bind, run]
      exact .inr ⟨not_futureVisible (by decide) bad, m, rfl⟩
  · rw [run_bind, run]
    exact .inr ⟨not_futureVisible (by decide) bad, m, rfl⟩

/-- `lock_future_nodes` and `lock_future_members` fail with 412 only. -/
theorem lockFuture_cases (db : Db) (es : List (Elem t)) (locked : List Nat) :
    (FutureVisible db es locked ∧ (lockFuture t es locked).run db = .ok ((), db)) ∨
      (¬ FutureVisible db es locked ∧
        ∃ message, (lockFuture t es locked).run db = .error (.preconditionFailed message)) := by
  cases t with
  | node => exact .inl ⟨fun e _ r _ => (nomatch r.ref), rfl⟩
  | way =>
      rcases lockFutureOf_cases db .node (futureIds .node es) es with ⟨nodes, run⟩ | ⟨bad, m, run⟩
      · refine .inl ⟨fun e inside r ref => .inl ?_, run⟩
        exact nodes _ (mem_futureIds.mpr ⟨e, inside, r, ref, rfl⟩)
      · exact .inr ⟨not_futureVisible (by decide) bad, m, run⟩
  | relation => exact lockFutureMembers_cases db es locked

theorem lockFuture_ok {locked : List Nat} {u : Unit}
    (done : (lockFuture t es locked).run db = .ok (u, db')) :
    db' = db ∧ FutureVisible db es locked := by
  rcases lockFuture_cases db es locked with ⟨pass, run⟩ | ⟨-, message, run⟩
  · rw [run] at done
    cases done
    exact ⟨rfl, pass⟩
  · rw [run] at done
    cases done

end Future

section AlreadyDeleted

/-- The rows that `already_deleted_*` returns. -/
def deletedRows (db : Db) (es : List (Elem t)) : List (Nat × Nat) :=
  ((db.current t).select (fun r => decide (r.id ∈ es.map Elem.id) && !r.visible)).map
    (fun r => (r.id, r.version))

theorem mem_deletedRows {id v : Nat} :
    (id, v) ∈ deletedRows db es ↔
      id ∈ es.map Elem.id ∧ db.visible (t, id) = false ∧ (object db t id).version? = some v := by
  simp only [deletedRows, List.mem_map, Table.mem_select, Bool.and_eq_true, decide_eq_true_eq,
    Prod.mk.injEq, visible_eq]
  constructor
  · rintro ⟨r, ⟨row, member, hidden⟩, rfl, rfl⟩
    have found : (object db t r.id).row = some r := Table.find?_key row
    refine ⟨member, ?_, ?_⟩
    · simpa [found] using hidden
    · simp [ObjState.version?, found]
  · rintro ⟨member, hidden, version⟩
    obtain ⟨r, found, same⟩ := Option.map_eq_some_iff.mp version
    obtain ⟨row, here⟩ := Table.find?_eq_some.mp found
    rw [found] at hidden
    exact ⟨r, ⟨row, here ▸ member, by simpa using hidden⟩, here, same⟩

def skippedEntry (es : List (Elem t)) (row : Nat × Nat) : ObjectIdMapping :=
  ⟨idToOldId es row.1, row.1, row.2⟩

theorem mem_idsWithoutIfUnused {id : Nat} :
    id ∈ idsWithoutIfUnused es ↔ ∃ e ∈ es, e.ifUnused = false ∧ e.id = id := by
  simp [idsWithoutIfUnused, and_assoc]

/-- When `determine_already_deleted_*` passes. -/
structure DeletedAllowed (db : Db) (es : List (Elem t)) : Prop where
  flagged : ∀ e ∈ es, e.id ∈ (deletedRows db es).map Prod.fst → e.ifUnused = true
  small : ∀ row ∈ deletedRows db es, row.2 < versionBound

/-- `determine_already_deleted_*` fails with 410, or while reading a version that
is out of range. -/
theorem determineAlreadyDeleted_cases (db : Db) (es : List (Elem t)) :
    (DeletedAllowed db es ∧ (determineAlreadyDeleted t es).run db =
        .ok (((deletedRows db es).map Prod.fst, (deletedRows db es).map (skippedEntry es)), db)) ∨
      (¬ DeletedAllowed db es ∧ ∃ error, (determineAlreadyDeleted t es).run db = .error error ∧
        ((∃ message, error = .gone message) ∨
          ∃ row ∈ deletedRows db es, versionBound ≤ row.2)) := by
  unfold determineAlreadyDeleted
  split
  · rename_i empty
    rw [List.isEmpty_iff] at empty
    subst empty
    have none : deletedRows db ([] : List (Elem t)) = [] := by
      simp [deletedRows, Table.select]
    rw [none]
    exact .inl ⟨⟨fun e member => (List.not_mem_nil member).elim, by simp [none]⟩, rfl⟩
  · rw [alreadyDeleted, run_bind, run_query]
    dsimp only
    rw [show ((db.current t).select (fun r => decide (r.id ∈ es.map Elem.id) && !r.visible)).map
      (fun r => (r.id, r.version)) = deletedRows db es from rfl, run_bind]
    by_cases allowed : DeletedAllowed db es
    · refine .inl ⟨allowed, ?_⟩
      rw [mapM_eq_map (g := skippedEntry es) fun row member => ?_]
      · rfl
      · have free : row.1 ∉ idsWithoutIfUnused es := by
          intro without
          obtain ⟨e, inside, plain, same⟩ := mem_idsWithoutIfUnused.mp without
          have flag := allowed.flagged e inside (same ▸ List.mem_map_of_mem member)
          rw [plain] at flag
          cases flag
        rw [if_neg free]
        exact idMapping_eq_ok.mpr ⟨allowed.small row member, rfl⟩
    · refine .inr ⟨allowed, ?_⟩
      cases result : (deletedRows db es).mapM (fun row =>
        if row.1 ∈ idsWithoutIfUnused es then
          .error (.gone s!"The {t.lowerName} with the id {row.1} has already been deleted")
        else idMapping es row) with
      | error error =>
          obtain ⟨row, member, failed⟩ := mapM_eq_error result
          refine ⟨error, rfl, ?_⟩
          split at failed
          · exact .inl ⟨_, (Except.error.inj failed).symm⟩
          · by_cases small : row.2 < versionBound
            · rw [idMapping_eq_ok.mpr ⟨small, rfl⟩] at failed
              cases failed
            · exact .inr ⟨row, member, not_lt.mp small⟩
      | ok skipped =>
          -- a passed loop would have found every flag and every version in order
          refine absurd ⟨fun e inside gone => ?_, fun row member => ?_⟩ allowed
          · obtain ⟨row, member, same⟩ := List.mem_map.mp gone
            obtain ⟨m, -, read⟩ := mem_of_mapM result member
            by_contra plain
            have without : row.1 ∈ idsWithoutIfUnused es :=
              mem_idsWithoutIfUnused.mpr ⟨e, inside, by simpa using plain, same.symm⟩
            rw [if_pos without] at read
            cases read
          · obtain ⟨m, -, read⟩ := mem_of_mapM result member
            split at read
            · cases read
            · exact (idMapping_eq_ok.mp read).1

end AlreadyDeleted

section Boxes

variable (env : Env)

theorem calcNodeBbox_reads (ids : List Nat) : (calcNodeBbox env ids).Reads := by
  unfold calcNodeBbox
  split
  · exact reads_pure _
  · exact reads_bind (reads_query _) fun _ => reads_pure _

theorem calcWayBbox_reads (ids : List Nat) : (calcWayBbox env ids).Reads := by
  unfold calcWayBbox
  split
  · exact reads_pure _
  · exact reads_bind (reads_query _) fun _ => reads_pure _

theorem calcRelationBbox_reads (ids : List Nat) : (calcRelationBbox env ids).Reads := by
  unfold calcRelationBbox
  split
  · exact reads_pure _
  · exact reads_bind (reads_query _) fun _ => reads_bind (reads_query _) fun _ => reads_pure _

theorem calcBbox_reads (t : ObjectType) (ids : List Nat) : (calcBbox env t ids).Reads := by
  cases t with
  | node => exact calcNodeBbox_reads env ids
  | way => exact calcWayBbox_reads env ids
  | relation => exact calcRelationBbox_reads env ids

theorem calcRelMemberDifferenceBbox_reads (diff : List RelMemberDifference) (processNew : Bool) :
    (calcRelMemberDifferenceBbox env diff processNew).Reads :=
  reads_bind (calcNodeBbox_reads env _) fun _ =>
    reads_bind (calcWayBbox_reads env _) fun _ => reads_pure _

theorem bboxBefore_reads (ids : List Nat) (es : List (Elem t)) :
    (bboxBefore env ids t es).Reads := by
  cases t with
  | node => exact reads_bind (calcNodeBbox_reads env _) fun _ => reads_pure _
  | way => exact reads_bind (calcWayBbox_reads env _) fun _ => reads_pure _
  | relation =>
      refine reads_bind ?_ fun newMembers => reads_bind ?_ fun changedTags =>
        reads_bind (calcRelationBbox_reads env _) fun box => reads_bind ?_ fun difference =>
          reads_bind (calcRelMemberDifferenceBbox_reads env _ _) fun _ => reads_pure _
      · unfold relationsWithNewRelationMembers
        split
        · exact reads_pure _
        · exact reads_query _
      · unfold relationsWithChangedRelationTags
        split
        · exact reads_pure _
        · exact reads_query _
      · unfold relationsWithChangedWayNodeMembers
        split
        · exact reads_pure _
        · exact reads_bind (reads_query _) fun _ => reads_bind (reads_query _) fun _ => reads_pure _

theorem bboxAfter_reads (t : ObjectType) (upd : BboxUpdate) : (bboxAfter env t upd).Reads := by
  refine reads_bind (calcBbox_reads env t _) fun box => ?_
  cases t with
  | node => exact reads_pure _
  | way => exact reads_pure _
  | relation =>
      exact reads_bind (calcRelMemberDifferenceBbox_reads env _ _) fun _ => reads_pure _

end Boxes

end Cgimap.Osmchange.CheckEffects
