/- path: Cgimap/Osmchange/DeletionEffects
   generality: I
   source: none
   digest: Which elements of a delete batch are kept back because they are in use. -/

import Cgimap.Library.Worklist
import Cgimap.Osmchange.CheckEffects

set_option autoImplicit false
set_option relaxedAutoImplicit false

namespace Cgimap.Osmchange.DeletionEffects

open Cgimap.Library.ExceptLists
open Cgimap.Library.KeyedTable
open Cgimap.Library.StatementProgram
open Cgimap.Library.StatementProgram.Prog
open Cgimap.Library.Worklist
open Cgimap.Model.Types
open Cgimap.Model.Database
open Cgimap.Osmchange.DiffTracking
open Cgimap.Osmchange.UploadRecords
open Cgimap.Osmchange.SqlStatements
open Cgimap.Osmchange.UpdaterChecks
open Cgimap.Osmchange.ObjectState
open Cgimap.Osmchange.WriteEffects
open Cgimap.Osmchange.CheckEffects

variable {t : ObjectType} {db db' : Db} {es : List (Elem t)}

/-- A reference that an updater holds against the deletion of `id`. For relations
only a visible relation outside the batch counts. -/
def Used (db : Db) : ObjectType → List Nat → Nat → Prop
  | .node, _, id => (∃ r ∈ db.currentRefs .way, r.ref.target = (.node, id)) ∨
      ∃ r ∈ db.currentRefs .relation, r.ref.target = (.node, id)
  | .way, _, id => ∃ r ∈ db.currentRefs .relation, r.ref.target = (.way, id)
  | .relation, ids, id => ∃ r ∈ db.currentRefs .relation, r.ref.target = (.relation, id) ∧
      db.visible (.relation, r.owner) = true ∧ r.owner ∉ ids

/-- One step of the closure: `b` is a relation member of the existing relation `a`. -/
def Child (db : Db) (a b : Nat) : Prop :=
  ((db.current .relation).find? a).isSome ∧
    ∃ r ∈ db.currentRefs .relation, r.owner = a ∧ r.ref.target = (.relation, b)

def Blocked (db : Db) (t : ObjectType) (es : List (Elem t)) (id : Nat) : Prop :=
  id ∈ es.map Elem.id ∧ (Used db t (es.map Elem.id) id ∨
    (t = .relation ∧ id ∈ idsIfUnused es ∧ ∃ a ∈ es.map Elem.id,
      Used db t (es.map Elem.id) a ∧ Relation.TransGen (Child db) a id))

/-- What `is_*_still_referenced` returns. -/
structure Kept (db : Db) (es kept : List (Elem t)) (skipped : List ObjectIdMapping) : Prop where
  elems : ∃ excluded : List Nat, (∀ id, id ∈ excluded ↔ Blocked db t es id) ∧
    kept = es.filter (fun e => decide (e.id ∉ excluded))
  flagged : ∀ e ∈ es, Used db t (es.map Elem.id) e.id → e.ifUnused = true
  entries : ∀ m, m ∈ skipped ↔ ∃ id v, Blocked db t es id ∧
    (object db t id).version? = some v ∧ m = skippedEntry es (id, v)

section Queries

theorem mem_groupBy {rows : List (Nat × Nat)} {id : Nat} :
    id ∈ (groupBy rows).map Prod.fst ↔ id ∈ rows.map Prod.fst := by
  simp [groupBy]

theorem mem_referencedBy {owner target : ObjectType} {ids : List Nat} {id : Nat} :
    id ∈ (groupBy (((db.currentRefs owner).select
      (fun r => decide (r.ref.target.1 = target ∧ r.ref.target.2 ∈ ids))).map
        (fun r => (r.ref.target.2, r.owner)))).map Prod.fst ↔
      id ∈ ids ∧ ∃ r ∈ db.currentRefs owner, r.ref.target = (target, id) := by
  rw [mem_groupBy, List.map_map]
  simp only [List.mem_map, Table.mem_select, decide_eq_true_eq, Function.comp_apply]
  constructor
  · rintro ⟨r, ⟨row, type, inside⟩, rfl⟩
    exact ⟨inside, r, row, Prod.ext type rfl⟩
  · rintro ⟨inside, r, row, same⟩
    refine ⟨r, ⟨row, ?_, ?_⟩, ?_⟩
    · rw [same]
    · rw [same]
      exact inside
    · rw [same]

theorem mem_relationReferenced {ids : List Nat} {id : Nat} :
    id ∈ (groupBy (((db.currentRefs .relation).select (fun m =>
      db.visible (.relation, m.owner) && decide (m.ref.target.1 = .relation) &&
        decide (m.ref.target.2 ∈ ids) && !decide (m.owner ∈ ids))).map
          (fun m => (m.ref.target.2, m.owner)))).map Prod.fst ↔
      id ∈ ids ∧ Used db .relation ids id := by
  rw [mem_groupBy, List.map_map]
  simp only [List.mem_map, Table.mem_select, Bool.and_eq_true, decide_eq_true_eq,
    Bool.not_eq_true', decide_eq_false_iff_not, Function.comp_apply, Used]
  constructor
  · rintro ⟨r, ⟨row, ⟨⟨shown, type⟩, inside⟩, outside⟩, rfl⟩
    exact ⟨inside, r, row, Prod.ext type rfl, shown, outside⟩
  · rintro ⟨inside, r, row, same, shown, outside⟩
    refine ⟨r, ⟨row, ⟨⟨shown, ?_⟩, ?_⟩, outside⟩, ?_⟩
    · rw [same]
    · rw [same]
      exact inside
    · rw [same]

theorem mem_childRelationIds {ids : List Nat} {b : Nat} :
    b ∈ (((db.currentRefs .relation).select (fun m =>
      decide (m.owner ∈ ids ∧ m.ref.target.1 = .relation) &&
        ((db.current .relation).find? m.owner).isSome)).map (fun m => m.ref.target.2)).dedup ↔
      ∃ a ∈ ids, Child db a b := by
  simp only [List.mem_dedup, List.mem_map, Table.mem_select, Bool.and_eq_true, decide_eq_true_eq,
    Child]
  constructor
  · rintro ⟨r, ⟨row, ⟨inside, type⟩, known⟩, rfl⟩
    exact ⟨r.owner, inside, known, r, row, rfl, Prod.ext type rfl⟩
  · rintro ⟨a, inside, known, r, row, rfl, same⟩
    refine ⟨r, ⟨row, ⟨inside, ?_⟩, known⟩, ?_⟩
    · rw [same]
    · rw [same]

end Queries

section Exclude

theorem excludeReferenced_cases (es : List (Elem t)) (message : Nat → List Nat → String)
    (rows : List (Nat × List Nat)) :
    ((∀ id ∈ rows.map Prod.fst, id ∉ idsWithoutIfUnused es) ∧
        excludeReferenced es message rows = .ok (rows.map Prod.fst)) ∨
      ((∃ id ∈ rows.map Prod.fst, id ∈ idsWithoutIfUnused es) ∧
        ∃ text, excludeReferenced es message rows = .error (.preconditionFailed text)) := by
  unfold excludeReferenced
  by_cases free : ∀ id ∈ rows.map Prod.fst, id ∉ idsWithoutIfUnused es
  · refine .inl ⟨free, mapM_eq_map fun row member => ?_⟩
    rw [if_neg (free row.1 (List.mem_map_of_mem member))]
  · refine .inr ⟨by simpa using free, ?_⟩
    cases result : (rows.mapM (fun row =>
      if row.1 ∈ idsWithoutIfUnused es then
        .error (.preconditionFailed (message row.1 row.2))
      else .ok row.1) : Except Exception (List Nat)) with
    | error error =>
        obtain ⟨row, member, failed⟩ := mapM_eq_error result
        split at failed
        · exact ⟨_, congrArg _ (Except.error.inj failed).symm⟩
        · cases failed
    | ok ids =>
        refine absurd (fun id member without => ?_) free
        obtain ⟨row, inside, rfl⟩ := List.mem_map.mp member
        obtain ⟨b, -, read⟩ := mem_of_mapM result inside
        rw [if_pos without] at read
        cases read

theorem excludeReferenced_ok {message : Nat → List Nat → String} {rows : List (Nat × List Nat)}
    {ids : List Nat} (done : excludeReferenced es message rows = .ok ids) :
    (∀ id ∈ rows.map Prod.fst, id ∉ idsWithoutIfUnused es) ∧ ids = rows.map Prod.fst := by
  rcases excludeReferenced_cases es message rows with ⟨free, run⟩ | ⟨-, text, run⟩
  · rw [run] at done
    exact ⟨free, (Except.ok.inj done).symm⟩
  · rw [run] at done
    cases done

theorem removeBlocked_ok {excluded : List Nat} {kept : List (Elem t)}
    {skipped : List ObjectIdMapping}
    (done : (removeBlocked t es excluded).run db = .ok ((kept, skipped), db')) :
    db' = db ∧ kept = es.filter (fun e => decide (e.id ∉ excluded)) ∧
      ∀ m, m ∈ skipped ↔ ∃ id ∈ excluded, ∃ v, (object db t id).version? = some v ∧
        m = skippedEntry es (id, v) := by
  unfold removeBlocked at done
  split at done
  · rename_i empty
    rw [List.isEmpty_iff] at empty
    subst empty
    cases done
    simp
  · rw [run_bind, stillReferenced, run_query] at done
    dsimp only at done
    split at done
    · cases done
    · rw [run_bind_eq_ok] at done
      obtain ⟨skipped', db₁, first, rest⟩ := done
      obtain ⟨read, same⟩ := run_liftExcept_eq_ok.mp first
      subst same
      cases rest
      obtain ⟨rfl, -⟩ := idMapping_mapM read
      refine ⟨rfl, rfl, fun m => ?_⟩
      simp only [List.mem_map, Table.mem_select, decide_eq_true_eq]
      constructor
      · rintro ⟨_, ⟨r, ⟨row, inside⟩, rfl⟩, rfl⟩
        refine ⟨r.id, inside, r.version, ?_, rfl⟩
        simp [ObjState.version?, object, Table.find?_key row]
      · rintro ⟨id, inside, v, version, rfl⟩
        obtain ⟨r, found, rfl⟩ := Option.map_eq_some_iff.mp version
        obtain ⟨row, rfl⟩ := Table.find?_eq_some.mp found
        exact ⟨_, ⟨r, ⟨row, inside⟩, rfl⟩, rfl⟩

end Exclude

section Closure

/-- The rows of the query for one round. -/
def childIds (db : Db) (ids : List Nat) : List Nat :=
  (((db.currentRefs .relation).select (fun m =>
    decide (m.owner ∈ ids ∧ m.ref.target.1 = .relation) &&
      ((db.current .relation).find? m.owner).isSome)).map (fun m => m.ref.target.2)).dedup

theorem lists_childIds (db : Db) : Lists (Child db) (childIds db) :=
  ⟨fun _ _ => mem_childRelationIds, fun _ => List.nodup_dedup _⟩

/-- The loop of `collect_recursive_relation_rel_member_ids` works off its list. -/
theorem collectChildren_run (db : Db) (fuel : Nat) (frontier found : List Nat) :
    (collectChildren fuel frontier found).run db =
      (follow (childIds db) fuel frontier found).elim (.error .outOfFuel)
        (fun result => .ok (result, db)) := by
  induction fuel generalizing frontier found with
  | zero => rfl
  | succ fuel ih =>
      rw [collectChildren, run_bind, childRelationIds, run_query, follow]
      dsimp only
      rw [← childIds]
      generalize (childIds db frontier).filter (fun b => decide (b ∉ found)) = next
      split
      · rfl
      · exact ih _ _

theorem collectRecursive_ok {fuel : Nat} {direct result : List Nat}
    (done : (collectRecursiveRelationRelMemberIds fuel direct).run db = .ok (result, db')) :
    db' = db ∧ result.Nodup ∧ ∀ b, b ∈ result ↔ ∃ a ∈ direct, Relation.TransGen (Child db) a b := by
  unfold collectRecursiveRelationRelMemberIds at done
  split at done
  · rename_i empty
    rw [List.isEmpty_iff] at empty
    subst empty
    cases done
    simp
  · rw [collectChildren_run] at done
    cases found : follow (childIds db) fuel direct [] with
    | none =>
        rw [found] at done
        cases done
    | some reached =>
        rw [found] at done
        cases done
        exact ⟨rfl, nodup_follow (lists_childIds db) List.nodup_nil found,
          mem_follow (lists_childIds db) found⟩

/-- With more fuel than there are ids to be found, the loop comes to its end. -/
theorem collectRecursive_run {bound : Finset Nat} (finite : ∀ a b, Child db a b → b ∈ bound)
    {fuel : Nat} (enough : bound.card < fuel) (direct : List Nat) :
    ∃ result, (collectRecursiveRelationRelMemberIds fuel direct).run db = .ok (result, db) := by
  unfold collectRecursiveRelationRelMemberIds
  split
  · exact ⟨[], rfl⟩
  · have ends : ∃ result, follow (childIds db) fuel direct [] = some result :=
      exists_follow (lists_childIds db) finite List.nodup_nil
        (fun b member => (List.not_mem_nil member).elim) enough
    obtain ⟨result, found⟩ := ends
    rw [collectChildren_run, found]
    exact ⟨result, rfl⟩

theorem mem_idsIfUnused {id : Nat} :
    id ∈ idsIfUnused es ↔ ∃ e ∈ es, e.ifUnused = true ∧ e.id = id := by
  simp [idsIfUnused, and_assoc]

theorem extendDeletionBlock_ok {fuel : Nat} {direct ifUnused result : List Nat}
    (done : (extendDeletionBlockToRelationChildren fuel direct ifUnused).run db =
      .ok (result, db')) :
    db' = db ∧ ∀ b, b ∈ result ↔
      b ∈ ifUnused ∧ ∃ a ∈ direct, Relation.TransGen (Child db) a b := by
  unfold extendDeletionBlockToRelationChildren at done
  split at done
  · rename_i nothing
    cases done
    refine ⟨rfl, fun b => ?_⟩
    rw [Bool.or_eq_true, List.isEmpty_iff, List.isEmpty_iff] at nothing
    rcases nothing with rfl | rfl
    · simp
    · simp
  · rw [run_bind_eq_ok] at done
    obtain ⟨children, db₁, first, rest⟩ := done
    obtain ⟨rfl, -, closure⟩ := collectRecursive_ok first
    cases rest
    refine ⟨rfl, fun b => ?_⟩
    rw [List.mem_filter, closure, decide_eq_true_eq, and_comm]

end Closure

section StillReferenced

theorem flagged_of_free {ids : List Nat}
    (free : ∀ id ∈ ids, id ∉ idsWithoutIfUnused es) {e : Elem t} (member : e ∈ es)
    (inside : e.id ∈ ids) : e.ifUnused = true := by
  by_contra plain
  exact free e.id inside (mem_idsWithoutIfUnused.mpr ⟨e, member, by simpa using plain, rfl⟩)

private theorem kept_of_excluded {excluded : List Nat} {kept : List (Elem t)}
    {skipped : List ObjectIdMapping}
    (blocked : ∀ id, id ∈ excluded ↔ Blocked db t es id)
    (flagged : ∀ e ∈ es, Used db t (es.map Elem.id) e.id → e.ifUnused = true)
    (done : (removeBlocked t es excluded).run db = .ok ((kept, skipped), db')) :
    db' = db ∧ Kept db es kept skipped := by
  obtain ⟨same, elems, entries⟩ := removeBlocked_ok done
  refine ⟨same, ⟨excluded, blocked, elems⟩, flagged, fun m => ?_⟩
  simp only [entries, blocked]
  exact ⟨fun ⟨id, b, v, version, entry⟩ => ⟨id, v, b, version, entry⟩,
    fun ⟨id, v, b, version, entry⟩ => ⟨id, b, v, version, entry⟩⟩

private theorem kept_of_isEmpty {kept : List (Elem t)} {skipped : List ObjectIdMapping}
    (empty : es.isEmpty = true)
    (done : (pure (es, []) : DbProg (List (Elem t) × List ObjectIdMapping)).run db =
      .ok ((kept, skipped), db')) : db' = db ∧ Kept db es kept skipped := by
  rw [List.isEmpty_iff] at empty
  subst empty
  cases done
  refine ⟨rfl, ⟨[], fun id => ?_, rfl⟩, fun e member => (List.not_mem_nil member).elim, fun m => ?_⟩
  · simp [Blocked]
  · simp [Blocked]

theorem isNodeStillReferenced_ok {es kept : List (Elem .node)} {skipped : List ObjectIdMapping}
    (done : (isNodeStillReferenced es).run db = .ok ((kept, skipped), db')) :
    db' = db ∧ Kept db es kept skipped := by
  unfold isNodeStillReferenced at done
  split at done
  · rename_i empty
    exact kept_of_isEmpty empty done
  · rw [run_bind, referencedBy, run_query] at done
    dsimp only at done
    rw [run_bind_eq_ok] at done
    obtain ⟨byWay, db₁, first, done⟩ := done
    obtain ⟨ways, rfl⟩ := run_liftExcept_eq_ok.mp first
    rw [run_bind, referencedBy, run_query] at done
    dsimp only at done
    rw [run_bind_eq_ok] at done
    obtain ⟨byRelation, db₂, second, done⟩ := done
    obtain ⟨relations, rfl⟩ := run_liftExcept_eq_ok.mp second
    obtain ⟨freeW, rfl⟩ := excludeReferenced_ok ways
    obtain ⟨freeR, rfl⟩ := excludeReferenced_ok relations
    refine kept_of_excluded (fun id => ?_) (fun e member used => ?_) done
    · rw [mem_sortUnique, List.mem_append, mem_referencedBy, mem_referencedBy, ← and_or_left]
      simp [Blocked, Used]
    · have inside := List.mem_map_of_mem (f := Elem.id) member
      rcases used with way | relation
      · exact flagged_of_free freeW member (mem_referencedBy.mpr ⟨inside, way⟩)
      · exact flagged_of_free freeR member (mem_referencedBy.mpr ⟨inside, relation⟩)

theorem isWayStillReferenced_ok {es kept : List (Elem .way)} {skipped : List ObjectIdMapping}
    (done : (isWayStillReferenced es).run db = .ok ((kept, skipped), db')) :
    db' = db ∧ Kept db es kept skipped := by
  unfold isWayStillReferenced at done
  split at done
  · rename_i empty
    exact kept_of_isEmpty empty done
  · rw [run_bind, referencedBy, run_query] at done
    dsimp only at done
    rw [run_bind_eq_ok] at done
    obtain ⟨used, db₁, first, done⟩ := done
    obtain ⟨relations, rfl⟩ := run_liftExcept_eq_ok.mp first
    obtain ⟨free, rfl⟩ := excludeReferenced_ok relations
    refine kept_of_excluded (fun id => ?_) (fun e member used => ?_) done
    · rw [mem_sortUnique, mem_referencedBy]
      simp [Blocked, Used]
    · exact flagged_of_free free member
        (mem_referencedBy.mpr ⟨List.mem_map_of_mem member, used⟩)

theorem isRelationStillReferenced_ok {fuel : Nat} {es kept : List (Elem .relation)}
    {skipped : List ObjectIdMapping}
    (done : (isRelationStillReferenced fuel es).run db = .ok ((kept, skipped), db')) :
    db' = db ∧ Kept db es kept skipped := by
  unfold isRelationStillReferenced at done
  split at done
  · rename_i empty
    exact kept_of_isEmpty empty done
  · rw [run_bind, relationStillReferencedByRelation, run_query] at done
    dsimp only at done
    rw [run_bind_eq_ok] at done
    obtain ⟨used, db₁, first, done⟩ := done
    obtain ⟨direct, rfl⟩ := run_liftExcept_eq_ok.mp first
    rw [run_bind_eq_ok] at done
    obtain ⟨children, db₂, second, done⟩ := done
    obtain ⟨rfl, closure⟩ := extendDeletionBlock_ok second
    obtain ⟨free, rfl⟩ := excludeReferenced_ok direct
    refine kept_of_excluded (fun id => ?_) (fun e member used => ?_) done
    · rw [mem_sortUnique, List.mem_append, mem_relationReferenced, closure, Blocked]
      simp only [mem_relationReferenced, true_and]
      constructor
      · rintro (⟨inside, used⟩ | ⟨flag, a, ⟨inside, used⟩, path⟩)
        · exact ⟨inside, .inl used⟩
        · obtain ⟨e, member, -, same⟩ := mem_idsIfUnused.mp flag
          exact ⟨same ▸ List.mem_map_of_mem member, .inr ⟨flag, a, inside, used, path⟩⟩
      · rintro ⟨inside, used | ⟨flag, a, inside', used, path⟩⟩
        · exact .inl ⟨inside, used⟩
        · exact .inr ⟨flag, a, ⟨inside', used⟩, path⟩
    · exact flagged_of_free free member
        (mem_relationReferenced.mpr ⟨List.mem_map_of_mem member, used⟩)

theorem isStillReferenced_ok {fuel : Nat} {kept : List (Elem t)} {skipped : List ObjectIdMapping}
    (done : (isStillReferenced fuel t es).run db = .ok ((kept, skipped), db')) :
    db' = db ∧ Kept db es kept skipped := by
  cases t with
  | node => exact isNodeStillReferenced_ok done
  | way => exact isWayStillReferenced_ok done
  | relation => exact isRelationStillReferenced_ok done

end StillReferenced

end Cgimap.Osmchange.DeletionEffects
