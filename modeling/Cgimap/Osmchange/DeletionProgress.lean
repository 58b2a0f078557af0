/- path: Cgimap/Osmchange/DeletionProgress
   generality: I
   source: none
   digest: When a delete batch is carried out, and when it fails. -/

import Cgimap.Osmchange.BatchProgress

set_option autoImplicit false
set_option relaxedAutoImplicit false

namespace Cgimap.Osmchange.DeletionProgress

open Cgimap.Library.ExceptLists
open Cgimap.Library.KeyedTable
open Cgimap.Library.StatementProgram
open Cgimap.Library.StatementProgram.Prog
open Cgimap.Model.Types
open Cgimap.Model.Database
open Cgimap.Osmchange.DiffTracking
open Cgimap.Osmchange.UploadRecords
open Cgimap.Osmchange.SqlStatements
open Cgimap.Osmchange.UpdaterChecks
open Cgimap.Osmchange.UpdaterProcess
open Cgimap.Osmchange.ObjectState
open Cgimap.Osmchange.WriteEffects
open Cgimap.Osmchange.CheckEffects
open Cgimap.Osmchange.DeletionEffects
open Cgimap.Osmchange.Placeholders
open Cgimap.Osmchange.DeleteEffects
open Cgimap.Osmchange.Integrity
open Cgimap.Osmchange.SoundDatabase
open Cgimap.Osmchange.WriteProgress
open Cgimap.Osmchange.BatchProgress

variable {t : ObjectType} {db : Db} {env : Env} {es : List (Elem t)}

section Use

/-- No element without the if-unused flag names an object that is in use. -/
def Unused (db : Db) (es : List (Elem t)) : Prop :=
  ∀ e ∈ es, Used db t (es.map Elem.id) e.id → e.ifUnused = true

/-- Rows that exist, in versions that can be read. -/
structure Readable (db : Db) (t : ObjectType) (ids : List Nat) : Prop where
  known : ∀ id ∈ ids, (object db t id).row.isSome
  small : ∀ id ∈ ids, ∀ v, (object db t id).version? = some v → v < versionBound

private theorem removeBlocked_run (es : List (Elem t)) {excluded : List Nat}
    (distinct : excluded.Nodup)
    (readable : Readable db t excluded) :
    ∃ result, (removeBlocked t es excluded).run db = .ok (result, db) := by
  unfold removeBlocked
  split
  · exact ⟨_, rfl⟩
  · have count := Table.length_select_keys (db.current t) distinct readable.known
    have read : (((db.current t).select (fun r => decide (r.id ∈ excluded))).map
        (fun r => (r.id, r.version))).mapM (idMapping es) =
          .ok ((((db.current t).select (fun r => decide (r.id ∈ excluded))).map
            (fun r => (r.id, r.version))).map (skippedEntry es)) := by
      apply mapM_eq_map
      intro row member
      obtain ⟨r, selected, rfl⟩ := List.mem_map.mp member
      obtain ⟨inside, named⟩ := (Table.mem_select _ _).mp selected
      refine idMapping_eq_ok.mpr ⟨readable.small r.id (of_decide_eq_true named) r.version ?_, rfl⟩
      simp [ObjState.version?, object, Table.find?_key inside]
    rw [run_bind, stillReferenced, run_query]
    dsimp only
    rw [if_neg (by simp [count]), read]
    exact ⟨_, rfl⟩

private theorem extendDeletionBlock_run {bound fuel : Nat}
    (low : ∀ a b, Child db a b → b < bound) (enough : bound < fuel) (direct ifUnused : List Nat) :
    ∃ result, (extendDeletionBlockToRelationChildren fuel direct ifUnused).run db =
      .ok (result, db) := by
  unfold extendDeletionBlockToRelationChildren
  split
  · exact ⟨[], rfl⟩
  · have finite : ∀ a b, Child db a b → b ∈ Finset.range bound := fun a b step =>
      Finset.mem_range.mpr (low a b step)
    obtain ⟨found, run⟩ := collectRecursive_run finite (by rwa [Finset.card_range]) direct
    exact ⟨_, run_bind_eq_ok.mpr ⟨found, db, run, rfl⟩⟩

private theorem exclude_cases (es : List (Elem t)) (message : Nat → List Nat → String)
    (rows : List (Nat × List Nat)) :
    (excludeReferenced es message rows = .ok (rows.map Prod.fst) ∧
        ∀ e ∈ es, e.id ∈ rows.map Prod.fst → e.ifUnused = true) ∨
      ((∃ text, excludeReferenced es message rows = .error (.preconditionFailed text)) ∧
        ∃ e ∈ es, e.id ∈ rows.map Prod.fst ∧ e.ifUnused = false) := by
  rcases excludeReferenced_cases es message rows with ⟨free, ok⟩ | ⟨⟨id, inside, without⟩, failed⟩
  · exact .inl ⟨ok, fun e member named => flagged_of_free free member named⟩
  · obtain ⟨e, member, plain, rfl⟩ := mem_idsWithoutIfUnused.mp without
    exact .inr ⟨failed, e, member, inside, plain⟩

/-- The outcome of a reference check. -/
def Decides (db : Db) (es : List (Elem t))
    (check : DbProg (List (Elem t) × List ObjectIdMapping)) : Prop :=
  (Unused db es ∧ ∃ result, check.run db = .ok (result, db)) ∨
    (¬ Unused db es ∧ ∃ text, check.run db = .error (.preconditionFailed text))

private theorem decides_empty (empty : es.isEmpty = true)
    (result : List (Elem t) × List ObjectIdMapping) : Decides db es (pure result) := by
  rw [List.isEmpty_iff] at empty
  subst empty
  exact .inl ⟨fun e member => (List.not_mem_nil member).elim, result, rfl⟩

private theorem not_unused {e : Elem t} (member : e ∈ es) (used : Used db t (es.map Elem.id) e.id)
    (plain : e.ifUnused = false) : ¬ Unused db es := by
  intro unused
  rw [unused e member used] at plain
  cases plain

private theorem readable_of_subset {ids : List Nat} (readable : Readable db t (es.map Elem.id))
    (sub : ∀ id ∈ ids, id ∈ es.map Elem.id) : Readable db t (sortUnique ids) :=
  ⟨fun id member => readable.known id (sub id (mem_sortUnique.mp member)),
    fun id member => readable.small id (sub id (mem_sortUnique.mp member))⟩

/-- The rows of a reference query. -/
private def referrers (db : Db) (owner target : ObjectType) (ids : List Nat) :
    List (Nat × List Nat) :=
  groupBy (((db.currentRefs owner).select
    (fun r => decide (r.ref.target.1 = target ∧ r.ref.target.2 ∈ ids))).map
      (fun r => (r.ref.target.2, r.owner)))

private theorem run_referencedBy (db : Db) (owner target : ObjectType) (ids : List Nat) :
    (perform (referencedBy owner target ids)).run db = .ok (referrers db owner target ids, db) :=
  run_query _ _

private theorem mem_referrers {owner target : ObjectType} {ids : List Nat} {id : Nat} :
    id ∈ (referrers db owner target ids).map Prod.fst ↔
      id ∈ ids ∧ ∃ r ∈ db.currentRefs owner, r.ref.target = (target, id) := mem_referencedBy

private theorem isNodeStillReferenced_decides {es : List (Elem .node)}
    (readable : Readable db .node (es.map Elem.id)) : Decides db es (isNodeStillReferenced es) := by
  unfold isNodeStillReferenced
  split
  · rename_i empty
    exact decides_empty empty _
  · rcases exclude_cases es (fun id ways =>
      s!"Node {id} is still used by ways {stringAggDistinct ways}.")
      (referrers db .way .node (es.map Elem.id))
      with ⟨okW, freeW⟩ | ⟨⟨text, failed⟩, e, member, named, plain⟩
    · rcases exclude_cases es (fun id relations =>
        s!"Node {id} is still used by relations {stringAggDistinct relations}.")
        (referrers db .relation .node (es.map Elem.id))
        with ⟨okR, freeR⟩ | ⟨⟨text, failed⟩, e, member, named, plain⟩
      · have unused : Unused db es := by
          intro e member used
          have inside : e.id ∈ es.map Elem.id := List.mem_map_of_mem member
          rcases used with way | relation
          · exact freeW e member (mem_referrers.mpr ⟨inside, way⟩)
          · exact freeR e member (mem_referrers.mpr ⟨inside, relation⟩)
        have sub : ∀ id ∈ (referrers db .way .node (es.map Elem.id)).map Prod.fst ++
            (referrers db .relation .node (es.map Elem.id)).map Prod.fst,
            id ∈ es.map Elem.id := by
          intro id member
          rcases List.mem_append.mp member with way | relation
          · exact (mem_referrers.mp way).1
          · exact (mem_referrers.mp relation).1
        obtain ⟨result, run⟩ := removeBlocked_run es (sortUnique_nodup _)
          (readable_of_subset readable sub)
        refine .inl ⟨unused, result, ?_⟩
        refine run_bind_eq_ok.mpr ⟨_, db, run_referencedBy .., ?_⟩
        refine run_bind_eq_ok.mpr ⟨_, db, run_liftExcept_eq_ok.mpr ⟨okW, rfl⟩, ?_⟩
        refine run_bind_eq_ok.mpr ⟨_, db, run_referencedBy .., ?_⟩
        exact run_bind_eq_ok.mpr ⟨_, db, run_liftExcept_eq_ok.mpr ⟨okR, rfl⟩, run⟩
      · refine .inr ⟨not_unused member (.inr (mem_referrers.mp named).2) plain, text, ?_⟩
        simp only [run_bind, run_referencedBy, okW, run_liftExcept_ok, failed,
          run_liftExcept_error]
    · refine .inr ⟨not_unused member (.inl (mem_referrers.mp named).2) plain, text, ?_⟩
      simp only [run_bind, run_referencedBy, failed, run_liftExcept_error]

private theorem isWayStillReferenced_decides {es : List (Elem .way)}
    (readable : Readable db .way (es.map Elem.id)) : Decides db es (isWayStillReferenced es) := by
  unfold isWayStillReferenced
  split
  · rename_i empty
    exact decides_empty empty _
  · rcases exclude_cases es (fun id relations =>
      s!"Way {id} is still used by relations {stringAggDistinct relations}.")
      (referrers db .relation .way (es.map Elem.id))
      with ⟨ok, free⟩ | ⟨⟨text, failed⟩, e, member, named, plain⟩
    · have unused : Unused db es := by
        intro e member used
        exact free e member (mem_referrers.mpr ⟨List.mem_map_of_mem member, used⟩)
      have sub : ∀ id ∈ (referrers db .relation .way (es.map Elem.id)).map Prod.fst,
          id ∈ es.map Elem.id := fun id member => (mem_referrers.mp member).1
      obtain ⟨result, run⟩ := removeBlocked_run es (sortUnique_nodup _)
        (readable_of_subset readable sub)
      refine .inl ⟨unused, result, ?_⟩
      refine run_bind_eq_ok.mpr ⟨_, db, run_referencedBy .., ?_⟩
      exact run_bind_eq_ok.mpr ⟨_, db, run_liftExcept_eq_ok.mpr ⟨ok, rfl⟩, run⟩
    · refine .inr ⟨not_unused member (mem_referrers.mp named).2 plain, text, ?_⟩
      simp only [run_bind, run_referencedBy, failed, run_liftExcept_error]

/-- The rows of `relation_still_referenced_by_relation`. -/
private def outsideReferrers (db : Db) (ids : List Nat) : List (Nat × List Nat) :=
  groupBy (((db.currentRefs .relation).select (fun m =>
    db.visible (.relation, m.owner) && decide (m.ref.target.1 = .relation) &&
      decide (m.ref.target.2 ∈ ids) && !decide (m.owner ∈ ids))).map
        (fun m => (m.ref.target.2, m.owner)))

private theorem mem_outsideReferrers {ids : List Nat} {id : Nat} :
    id ∈ (outsideReferrers db ids).map Prod.fst ↔ id ∈ ids ∧ Used db .relation ids id :=
  mem_relationReferenced

theorem isRelationStillReferenced_decides {bound fuel : Nat} {es : List (Elem .relation)}
    (readable : Readable db .relation (es.map Elem.id))
    (low : ∀ a b, Child db a b → b < bound) (enough : bound < fuel) :
    Decides db es (isRelationStillReferenced fuel es) := by
  unfold isRelationStillReferenced
  split
  · rename_i empty
    exact decides_empty empty _
  · have query : (perform (relationStillReferencedByRelation (es.map Elem.id))).run db =
        .ok (outsideReferrers db (es.map Elem.id), db) := run_query _ _
    rcases exclude_cases es (fun id relations =>
      s!"The relation {id} is used in relations {joinIds relations}.")
      (outsideReferrers db (es.map Elem.id))
      with ⟨ok, free⟩ | ⟨⟨text, failed⟩, e, member, named, plain⟩
    · have unused : Unused db es := by
        intro e member used
        exact free e member (mem_outsideReferrers.mpr ⟨List.mem_map_of_mem member, used⟩)
      obtain ⟨children, extend⟩ := extendDeletionBlock_run low enough
        ((outsideReferrers db (es.map Elem.id)).map Prod.fst) (idsIfUnused es)
      have closure := (extendDeletionBlock_ok extend).2
      have sub : ∀ id ∈ (outsideReferrers db (es.map Elem.id)).map Prod.fst ++ children,
          id ∈ es.map Elem.id := by
        intro id member
        rcases List.mem_append.mp member with direct | child
        · exact (mem_outsideReferrers.mp direct).1
        · obtain ⟨e, inside, -, rfl⟩ := mem_idsIfUnused.mp ((closure id).mp child).1
          exact List.mem_map_of_mem inside
      obtain ⟨result, run⟩ := removeBlocked_run es (sortUnique_nodup _)
        (readable_of_subset readable sub)
      refine .inl ⟨unused, result, ?_⟩
      refine run_bind_eq_ok.mpr ⟨_, db, query, ?_⟩
      refine run_bind_eq_ok.mpr ⟨_, db, run_liftExcept_eq_ok.mpr ⟨ok, rfl⟩, ?_⟩
      exact run_bind_eq_ok.mpr ⟨_, db, extend, run⟩
    · refine .inr ⟨not_unused member (mem_outsideReferrers.mp named).2 plain, text, ?_⟩
      simp only [run_bind, query, failed, run_liftExcept_error]

private theorem isStillReferenced_decides {bound fuel : Nat}
    (readable : Readable db t (es.map Elem.id)) (low : ∀ a b, Child db a b → b < bound)
    (enough : bound < fuel) : Decides db es (isStillReferenced fuel t es) := by
  cases t with
  | node => exact isNodeStillReferenced_decides readable
  | way => exact isWayStillReferenced_decides readable
  | relation => exact isRelationStillReferenced_decides readable low enough

end Use

/-- The checks of a delete batch: every object is known, those without the if-unused
flag are visible and not in use, and the versions are current. -/
structure Checked (db : Db) (es : List (Elem t)) : Prop where
  known : ∀ e ∈ es, (object db t e.id).row.isSome
  flagged : ∀ e ∈ es, db.visible (t, e.id) = false → e.ifUnused = true
  versions : VersionsMatch db (visibleElems db es)
  unused : Unused db (visibleElems db es)

/-- Two elements of one object only if it is deleted already or kept for its use. -/
def NamedOnce (db : Db) (es : List (Elem t)) : Prop :=
  es.Pairwise (fun d e => d.id = e.id → db.visible (t, e.id) = true →
    Blocked db t (visibleElems db es) e.id)

section Delete

private theorem namedOnce_iff {excluded : List Nat}
    (blocked : ∀ id, id ∈ excluded ↔ Blocked db t (visibleElems db es) id) :
    (((visibleElems db es).filter (fun e => decide (e.id ∉ excluded))).map Elem.id).Nodup ↔
      NamedOnce db es := by
  rw [List.Nodup, List.pairwise_map, visibleElems, List.filter_filter, List.pairwise_filter]
  unfold NamedOnce
  apply List.Pairwise.iff
  intro d e
  rw [← blocked e.id]
  constructor
  · intro apart same shown
    by_contra free
    apply apart _ _ same
    · rw [same]
      simp [free, shown]
    · simp [free, shown]
  · intro named _ there same
    rw [Bool.and_eq_true, decide_eq_true_eq] at there
    exact there.1 (named same there.2)

private theorem updateCurrent_cases (env : Env) (visible : Bool) (db : Db) (es : List (Elem t)) :
    (∃ rows db', (updateCurrent t env visible es).run db = .ok (rows, db')) ∨
      ∃ message, (updateCurrent t env visible es).run db = .error (.serverError message) := by
  unfold updateCurrent
  split
  · exact .inl ⟨_, _, rfl⟩
  · rw [run_bind, run_perform, updateCurrentRows]
    dsimp only
    split
    · exact .inr ⟨_, rfl⟩
    · exact .inl ⟨_, _, rfl⟩

private theorem deleteWrites_run (env : Env) {n : Nat} (m : Matches db es)
    (sound : ∀ e ∈ es, Sound n (object db t e.id)) :
    ∃ deleted db₁ db₂ db₃ db₄, (deleteCurrent t env es).run db = .ok (deleted, db₁) ∧
      (deleteCurrentTags t (es.map Elem.id)).run db₁ = .ok ((), db₂) ∧
      (deleteCurrentRefs t (es.map Elem.id)).run db₂ = .ok ((), db₃) ∧
      (saveCurrentToHistory t (es.map Elem.id)).run db₃ = .ok ((), db₄) := by
  obtain ⟨deleted, db₁, first⟩ := deleteCurrent_run env m
  obtain ⟨-, -, updated⟩ := deleteCurrent_ok first
  obtain ⟨db₂, second, tagsCleared⟩ := deleteCurrentTags_run db₁ t (es.map Elem.id)
  obtain ⟨db₃, third, refsCleared⟩ := deleteCurrentRefs_run db₂ t (es.map Elem.id)
  have save : ∃ db₄, (saveCurrentToHistory t (es.map Elem.id)).run db₃ = .ok ((), db₄) := by
    apply saveCurrentToHistory_run m.distinct
    intro id inside
    obtain ⟨e, member, rfl⟩ := List.mem_map.mp inside
    have version := m.version e member
    obtain ⟨r, found, -⟩ := Option.map_eq_some_iff.mp version
    have row := updateRow_object env false m e.id
    rw [elemsOf_eq_singleton m.distinct member, found] at row
    have written : object db₃ t e.id = (object db t e.id).write env.now false e [] [] := by
      rw [refsCleared.same, tagsCleared.same, updated.same, if_pos inside, if_pos inside, found,
        row]
      simp [ObjState.write, found]
    refine ⟨setRow t env.now false r e, ?_, ?_⟩
    · rw [written]
      simp [ObjState.write, found]
    · rw [written]
      exact (sound e member).unsaved version
  obtain ⟨db₄, fourth⟩ := save
  exact ⟨deleted, db₁, db₂, db₃, db₄, first, second, third, fourth⟩

private theorem matches_iff {executed : List (Elem t)}
    (known : ∀ e ∈ executed, (object db t e.id).row.isSome) (versions : VersionsMatch db executed) :
    Matches db executed ↔ (executed.map Elem.id).Nodup := by
  refine ⟨fun m => m.distinct, fun distinct => ⟨distinct, fun e member => ?_⟩⟩
  obtain ⟨r, found⟩ := Option.isSome_iff_exists.mp (known e member)
  have version : (object db t e.id).version? = some r.version := by simp [ObjState.version?, found]
  rw [version, versions e member r.version version]

private theorem child_lt {fuel n : Nat} (healthy : Healthy fuel n db) (a b : Nat)
    (child : Child db a b) : b < db.objectSeq .relation := by
  obtain ⟨-, r, row, rfl, target⟩ := child
  by_contra beyond
  have known := healthy.targets .relation r.owner _ ⟨r, row, rfl, target⟩
  rw [healthy.sequence .relation b (Nat.le_of_not_lt beyond)] at known
  cases known

private theorem flagged_of_determine {result : List Nat × List ObjectIdMapping}
    (known : ∀ e ∈ es, (object db t e.id).row.isSome)
    (determine : (determineAlreadyDeleted t es).run db = .ok (result, db)) :
    ∀ e ∈ es, db.visible (t, e.id) = false → e.ifUnused = true := by
  intro e member hidden
  rcases determineAlreadyDeleted_cases db es with ⟨allowed, -⟩ | ⟨-, error, failed, -⟩
  · apply allowed.flagged e member
    obtain ⟨r, found⟩ := Option.isSome_iff_exists.mp (known e member)
    have version : (object db t e.id).version? = some r.version := by
      simp [ObjState.version?, found]
    exact List.mem_map.mpr ⟨(e.id, r.version),
      mem_deletedRows.mpr ⟨List.mem_map_of_mem member, hidden, version⟩, rfl⟩
  · rw [failed] at determine
    cases determine

/-- After the checks the batch is written, unless it would delete one object through two
elements. -/
private theorem processDelete_checked {n : Nat} {st : Upload} {executed : List (Elem t)}
    {used : List ObjectIdMapping} (sound : ∀ id, Sound n (object db t id))
    (replaced : replaceOldIds st.ct (st.updater t).deleteBuf = .ok es)
    (known : ∀ e ∈ es, (object db t e.id).row.isSome)
    (versions : VersionsMatch db (visibleElems db es))
    (lock : (lockCurrent t (uniqueIds es)).run db = .ok ((), db))
    (determine : (determineAlreadyDeleted t es).run db =
      .ok (((deletedRows db es).map Prod.fst, (deletedRows db es).map (skippedEntry es)), db))
    (check : (checkCurrentVersions t (visibleElems db es)).run db = .ok ((), db))
    (referenced : (isStillReferenced env.fuel t (visibleElems db es)).run db =
      .ok ((executed, used), db)) :
    (NamedOnce db es ∧ ∃ st' db', (processDelete env t st).run db = .ok (st', db')) ∨
      ¬ NamedOnce db es ∧ ∃ message, (processDelete env t st).run db = .error (.serverError message) := by
  have shown := visible_of_deletedRows known
  obtain ⟨-, kept⟩ := isStillReferenced_ok referenced
  obtain ⟨excluded, blocked, rfl⟩ := kept.elems
  have once := namedOnce_iff blocked
  have sub : ∀ e ∈ (visibleElems db es).filter (fun e => decide (e.id ∉ excluded)),
      e ∈ visibleElems db es := fun e member => (List.mem_filter.mp member).1
  have matching := matches_iff
    (fun e member => known e (mem_visibleElems.mp (sub e member)).1)
    (fun e member => versions e (sub e member))
  obtain ⟨box, read⟩ := calcBbox_reads env t (uniqueIds es) db
  by_cases named : NamedOnce db es
  · left
    have m := matching.mpr (once.mpr named)
    obtain ⟨deleted, db₁, db₂, db₃, db₄, first, second, third, fourth⟩ :=
      deleteWrites_run env m fun e _ => sound e.id
    refine ⟨named, ?_⟩
    simp only [processDelete, run_bind, replaced, run_liftExcept_ok, lock, determine, shown,
      check, referenced, read, first, second, third, fourth]
    exact ⟨_, _, rfl⟩
  · right
    rcases updateCurrent_cases env false db
      ((visibleElems db es).filter (fun e => decide (e.id ∉ excluded))) with
      ⟨rows, db', run⟩ | ⟨message, run⟩
    · exact absurd (once.mp (matching.mp (updateCurrent_ok run).1)) named
    · refine ⟨named, message, ?_⟩
      simp only [processDelete, run_bind, replaced, run_liftExcept_ok, lock, determine,
        shown, check, referenced, read, deleteCurrent, run]

/-- `process_delete_*` blames the request when a check fails. When all pass it is
carried out, unless it would delete one object through two elements. -/
theorem processDelete_cases {n : Nat} {st : Upload}
    (replaced : replaceOldIds st.ct (st.updater t).deleteBuf = .ok es)
    (healthy : Healthy env.fuel n db) (small : ∀ e ∈ es, e.version < versionBound) :
    (¬ Checked db es ∧ ∃ error, (processDelete env t st).run db = .error error ∧
        isClientError error = true) ∨
      (Checked db es ∧ NamedOnce db es ∧
        ∃ st' db', (processDelete env t st).run db = .ok (st', db')) ∨
      (Checked db es ∧ ¬ NamedOnce db es ∧
        ∃ message, (processDelete env t st).run db = .error (.serverError message)) := by
  have versionSmall : ∀ id v, (object db t id).version? = some v → v < versionBound :=
    fun id v version => (healthy.sound t id).version_lt version
  rcases lockCurrent_cases db t (uniqueIds es) with
    ⟨locked, lock⟩ | ⟨⟨id, inside, unknown⟩, text, lock⟩
  · have known : ∀ e ∈ es, (object db t e.id).row.isSome := fun e member =>
      locked e.id (mem_uniqueIds.mpr (List.mem_map_of_mem member))
    rcases determineAlreadyDeleted_cases db es with
      ⟨-, determine⟩ | ⟨refused, error, determine, kind⟩
    · have shown := visible_of_deletedRows known
      rcases checkCurrentVersions_cases db (visibleElems db es) with
        ⟨versions, check⟩ | ⟨mismatch, error, check, kind⟩
      · have readable : Readable db t ((visibleElems db es).map Elem.id) := by
          refine ⟨fun id inside => ?_, fun id _ v version => versionSmall id v version⟩
          obtain ⟨e, member, rfl⟩ := List.mem_map.mp inside
          exact known e (mem_visibleElems.mp member).1
        have enough : db.objectSeq .relation < env.fuel := by
          have bound := healthy.fuel
          omega
        rcases isStillReferenced_decides readable (child_lt healthy) enough with
          ⟨unused, ⟨executed, used⟩, referenced⟩ | ⟨refused, text, referenced⟩
        · have checked : Checked db es :=
            ⟨known, flagged_of_determine known determine, versions, unused⟩
          right
          rcases processDelete_checked (healthy.sound t) replaced known versions lock determine check
            referenced with ⟨named, done⟩ | ⟨named, failed⟩
          · exact .inl ⟨checked, named, done⟩
          · exact .inr ⟨checked, named, failed⟩
        · refine .inl ⟨fun checked => refused checked.unused, .preconditionFailed text, ?_, rfl⟩
          simp only [processDelete, run_bind, replaced, run_liftExcept_ok, lock, determine, shown,
            check, referenced]
      · refine .inl ⟨fun checked => mismatch checked.versions, error, ?_, ?_⟩
        · simp only [processDelete, run_bind, replaced, run_liftExcept_ok, lock, determine, shown,
            check]
        · rcases kind with ⟨message, rfl⟩ | ⟨e, member, large | ⟨v, version, large⟩⟩
          · rfl
          · have bound := small e (mem_visibleElems.mp member).1
            omega
          · have bound := versionSmall e.id v version
            omega
    · refine .inl ⟨fun checked => refused ?_, error, ?_, ?_⟩
      · refine ⟨fun e member gone => ?_, fun row member => ?_⟩
        · obtain ⟨⟨id, v⟩, row, same⟩ := List.mem_map.mp gone
          have hidden := (mem_deletedRows.mp row).2.1
          rw [show id = e.id from same] at hidden
          exact checked.flagged e member hidden
        · exact versionSmall row.1 row.2 (mem_deletedRows.mp member).2.2
      · simp only [processDelete, run_bind, replaced, run_liftExcept_ok, lock, determine]
      · rcases kind with ⟨message, rfl⟩ | ⟨row, member, large⟩
        · rfl
        · have bound := versionSmall row.1 row.2 (mem_deletedRows.mp member).2.2
          omega
  · refine .inl ⟨fun checked => ?_, .notFound text, ?_, rfl⟩
    · obtain ⟨e, member, rfl⟩ := List.mem_map.mp (mem_uniqueIds.mp inside)
      have known := checked.known e member
      rw [unknown] at known
      cases known
    · simp only [processDelete, run_bind, replaced, run_liftExcept_ok, lock]

end Delete

end Cgimap.Osmchange.DeletionProgress
