/- path: Cgimap/Osmchange/ReferenceLocks
   generality: I
   source: none
   digest: The updaters own what they write, lock what they refer to, and delete what nobody
     refers to. -/

import Cgimap.Library.GuardedReferences
import Cgimap.Osmchange.Integrity
import Cgimap.Osmchange.ReadOnlyChecks

set_option autoImplicit false
set_option relaxedAutoImplicit false

namespace Cgimap.Osmchange.ReferenceLocks

open Cgimap.Library.KeyedTable
open Cgimap.Library.StatementProgram
open Cgimap.Library.StatementProgram.Prog
open Cgimap.Library.GuardedReferences
open Cgimap.Model.Types
open Cgimap.Model.Database
open Cgimap.Osmchange.DiffTracking
open Cgimap.Osmchange.UploadRecords
open Cgimap.Osmchange.SqlStatements
open Cgimap.Osmchange.UpdaterChecks
open Cgimap.Osmchange.UpdaterProcess
open Cgimap.Osmchange.ReadOnlyChecks
open Cgimap.Osmchange.Placeholders
open Cgimap.Osmchange.CreateEffects
open Cgimap.Osmchange.Integrity

/-- What is read of the database: whether a node or way is visible, and which object refers
to which node or way. -/
def dbReading : Reading Db Lockable where
  shows db x := ∀ o : Obj, x = .object o → o.1 ≠ .relation → db.visible o = true
  refers db x y := ∃ t id o, x = .object (t, id) ∧ y = .object o ∧ o.1 ≠ .relation ∧
    Refers db t id o

/-- The rows of some objects of one type. -/
def objects (t : ObjectType) (ids : List Nat) (x : Lockable) : Prop :=
  ∃ id ∈ ids, x = .object (t, id)

section Changes

variable {db db' : Db} {f : Known Lockable} {locks : List (Lockable × LockMode)}

private theorem visible_of_current (current : db'.current = db.current) (o : Obj) :
    db'.visible o = db.visible o := by
  unfold Db.visible
  rw [current]

private theorem refers_of_table (refs : db'.currentRefs = db.currentRefs) (t : ObjectType)
    (id : Nat) (o : Obj) : Refers db t id o ↔ Refers db' t id o := by
  unfold Refers
  rw [refs]

theorem shows_of_visible (grows : ∀ o, db.visible o = true → db'.visible o = true) {x : Lockable}
    (shown : dbReading.shows db x) : dbReading.shows db' x :=
  fun o same type => grows o (shown o same type)

theorem refers_of_refers (shrinks : ∀ t id o, Refers db' t id o → Refers db t id o)
    {x y : Lockable} (refers : dbReading.refers db' x y) : dbReading.refers db x y := by
  obtain ⟨t, id, o, owner, target, type, refers⟩ := refers
  exact ⟨t, id, o, owner, target, type, shrinks t id o refers⟩

theorem same_of_tables (current : db'.current = db.current)
    (refs : db'.currentRefs = db.currentRefs) : dbReading.Same db db' := by
  have visible := visible_of_current current
  have refers := refers_of_table refs
  refine ⟨fun x => ⟨shows_of_visible fun o shown => ?_, shows_of_visible fun o shown => ?_⟩,
    fun x y => ⟨refers_of_refers fun t id o => (refers t id o).mp,
      refers_of_refers fun t id o => (refers t id o).mpr⟩⟩
  · rwa [visible]
  · rwa [← visible]

private theorem allowed_of_visible (refs : db'.currentRefs = db.currentRefs)
    (changed : ∀ o, db'.visible o ≠ db.visible o → (.object o, .exclusive) ∈ locks)
    (hidden : ∀ o, o.1 ≠ .relation → db.visible o = true → db'.visible o = false →
      ∀ x, f.free (.object o) x) : Allowed dbReading f db db' locks := by
  have refers := refers_of_table refs
  have same : ∀ x y, dbReading.refers db x y ↔ dbReading.refers db' x y := fun x y =>
    ⟨refers_of_refers fun t id o => (refers t id o).mp,
      refers_of_refers fun t id o => (refers t id o).mpr⟩
  refine ⟨fun x free => ?_, fun x y _ => same x y, fun x shown gone => ?_,
    fun x y present absent => absurd ((same x y).mpr present) absent⟩
  · have visible : ∀ o, x = .object o → db'.visible o = db.visible o := by
      rintro o rfl
      by_contra other
      exact free (changed o other)
    refine forall₂_congr fun o here => ?_
    rw [visible o here]
  · simp only [dbReading, Classical.not_forall, Bool.not_eq_true] at gone
    obtain ⟨o, rfl, type, invisible⟩ := gone
    exact hidden o type (shown o rfl type) invisible

private theorem allowed_of_refers (current : db'.current = db.current)
    (changed : ∀ t id o, ¬ (Refers db t id o ↔ Refers db' t id o) →
      (.object (t, id), .exclusive) ∈ locks)
    (added : ∀ t id o, o.1 ≠ .relation → Refers db' t id o → ¬ Refers db t id o →
      f.shown (.object o) ∧ db.visible o = true) : Allowed dbReading f db db' locks := by
  have visible := visible_of_current current
  have same : ∀ x, dbReading.shows db x ↔ dbReading.shows db' x := by
    intro x
    refine forall₂_congr fun o _ => ?_
    rw [visible]
  refine ⟨fun x _ => same x, fun x y free => ?_,
    fun x shown gone => absurd ((same x).mp shown) gone, ?_⟩
  · have refers : ∀ t id o, x = .object (t, id) → (Refers db t id o ↔ Refers db' t id o) := by
      rintro t id o rfl
      by_contra other
      exact free (changed t id o other)
    constructor
    · rintro ⟨t, id, o, owner, target, type, old⟩
      exact ⟨t, id, o, owner, target, type, (refers t id o owner).mp old⟩
    · rintro ⟨t, id, o, owner, target, type, new⟩
      exact ⟨t, id, o, owner, target, type, (refers t id o owner).mpr new⟩
  · rintro x y ⟨t, id, o, rfl, rfl, type, new⟩ absent
    obtain ⟨known, shown⟩ := added t id o type new fun old =>
      absent ⟨t, id, o, rfl, rfl, type, old⟩
    refine ⟨known, fun o' here _ => ?_⟩
    cases here
    rw [visible, shown]

end Changes

section Locks

variable {t : ObjectType} {f : Known Lockable} {ids : List Nat}

private theorem mem_objectLocks {mode : LockMode} {id : Nat} (member : id ∈ ids) :
    (Lockable.object (t, id), mode) ∈ objectLocks t mode ids :=
  List.mem_map_of_mem member

private theorem not_objects_nil (x : Lockable) : ¬ objects t [] x :=
  fun ⟨_, member, _⟩ => nomatch member

theorem lockCurrent_careful (f : Known Lockable) (t : ObjectType) (ids : List Nat) :
    Careful dbReading (fun _ g => g = f.withOwn (objects t ids)) (lockCurrent t ids) f := by
  unfold lockCurrent
  split
  · rename_i empty
    rw [List.isEmpty_iff] at empty
    subst empty
    exact ⟨_, Known.withOwn_sub (.refl f) fun x none => absurd none (not_objects_nil x), rfl⟩
  · refine careful_bind (Q := fun missing g => missing = [] → g = f.withOwn (objects t ids)) ?_ ?_
    · refine careful_perform fun db locks missing db' hold _ done => ?_
      obtain ⟨rfl, rfl⟩ := Prod.mk.inj (Except.ok.inj done)
      refine ⟨.of_same (.refl db), ?_⟩
      by_cases all : (sortUnique ids).filter (fun id => ((db.current t).find? id).isNone) = []
      · have kept := hold.keep ((lockCurrentIds t ids).locks db) (fun _ h => h) fun _ _ h => h
        refine ⟨_, kept.withOwn ?_, fun _ => rfl⟩
        rintro x ⟨id, member, rfl⟩
        rw [List.filter_eq_nil_iff] at all
        have known := all id (mem_sortUnique.mpr member)
        refine List.mem_append_right _ (mem_objectLocks (List.mem_filter.mpr ⟨member, ?_⟩))
        rwa [Option.isNone_iff_eq_none, ← ne_eq, ← Option.isSome_iff_ne_none] at known
      · exact ⟨.nothing, Known.hold_nothing _ _, fun none => absurd none all⟩
    · intro missing g learnt
      split
      · rename_i none
        exact careful_pure (learnt (List.isEmpty_iff.mp none))
      · exact careful_throw _

private theorem lockFutureOf_careful (f : Known Lockable) (ty : ObjectType) (ids : List Nat)
    (es : List (Elem t)) :
    Careful dbReading (fun _ g => g = f.withShown (objects ty ids)) (lockFutureOf ty ids es) f := by
  unfold lockFutureOf
  split
  · rename_i empty
    rw [List.isEmpty_iff] at empty
    subst empty
    exact ⟨_, Known.withShown_sub (.refl f) fun x none => absurd none (not_objects_nil x), rfl⟩
  · refine careful_bind (Q := fun missing g => missing = [] → g = f.withShown (objects ty ids)) ?_ ?_
    · refine careful_perform fun db locks missing db' hold _ done => ?_
      obtain ⟨rfl, rfl⟩ := Prod.mk.inj (Except.ok.inj done)
      refine ⟨.of_same (.refl db), ?_⟩
      by_cases all : (sortUnique (sortUnique ids)).filter (fun id => !db.visible (ty, id)) = []
      · have kept := hold.keep ((lockFutureIds ty (sortUnique ids)).locks db) (fun _ h => h)
          fun _ _ h => h
        refine ⟨_, kept.withShown ?_, fun _ => rfl⟩
        rintro x ⟨id, member, rfl⟩
        rw [List.filter_eq_nil_iff] at all
        have sorted : id ∈ sortUnique ids := mem_sortUnique.mpr member
        have visible : db.visible (ty, id) = true := by
          simpa using all id (mem_sortUnique.mpr sorted)
        refine ⟨fun o same _ => ?_, .shared, List.mem_append_right _ (mem_objectLocks
          (List.mem_filter.mpr ⟨sorted, visible⟩))⟩
        cases same
        exact visible
      · exact ⟨.nothing, Known.hold_nothing _ _, fun none => absurd none all⟩
    · intro missing g learnt
      split
      · rename_i none
        exact careful_pure (learnt (List.isEmpty_iff.mp none))
      · exact careful_throw _

/-- The nodes and ways that some elements refer to. -/
def targets (es : List (Elem t)) (x : Lockable) : Prop :=
  ∃ e ∈ es, ∃ r ∈ e.refs, r.ref.target.1 ≠ .relation ∧ x = .object r.ref.target

/-- After `lock_future_*` every node and way that is referred to is visible and locked. -/
theorem lockFuture_careful (f : Known Lockable) (es : List (Elem t)) (alreadyLocked : List Nat) :
    Careful dbReading (fun _ g => g = f.withShown (targets es)) (lockFuture t es alreadyLocked) f := by
  have future : ∀ ty id, (∃ e ∈ es, ∃ r ∈ e.refs, r.ref.target = (ty, id)) →
      id ∈ futureIds ty es := by
    rintro ty id ⟨e, member, r, inside, target⟩
    refine List.mem_flatMap.mpr ⟨e, member, List.mem_map.mpr ⟨r, List.mem_filter.mpr ⟨inside, ?_⟩, ?_⟩⟩
    · exact decide_eq_true (congrArg Prod.fst target)
    · exact congrArg Prod.snd target
  cases t with
  | node =>
      refine ⟨_, Known.withShown_sub (.refl f) ?_, rfl⟩
      rintro x ⟨e, -, r, -⟩
      exact nomatch r.ref
  | way =>
      refine (lockFutureOf_careful f .node (futureIds .node es) es).mono ?_
      rintro _ g rfl
      refine ⟨f.withShown (targets es), Known.withShown_sub (Known.sub_withShown f _) ?_, rfl⟩
      rintro x ⟨e, member, r, inside, -, rfl⟩
      exact .inr ⟨r.ref.target.2, future .node _ ⟨e, member, r, inside, rfl⟩, rfl⟩
  | relation =>
      change Careful _ _ (lockFutureMembers es alreadyLocked) f
      refine careful_bind (lockFutureOf_careful f .node (futureIds .node es) es) ?_
      rintro _ _ rfl
      refine careful_bind (lockFutureOf_careful _ .way (futureIds .way es) es) ?_
      rintro _ _ rfl
      refine (lockFutureOf_careful _ .relation _ es).mono ?_
      rintro _ _ rfl
      refine ⟨f.withShown (targets es), Known.withShown_sub ?_ ?_, rfl⟩
      · exact ((Known.sub_withShown f _).trans (Known.sub_withShown _ _)).trans
          (Known.sub_withShown _ _)
      · rintro x ⟨e, member, r, inside, type, rfl⟩
        have listed := fun ty id target => future ty id ⟨e, member, r, inside, target⟩
        generalize r.ref.target = o at type listed
        obtain ⟨ty, id⟩ := o
        cases ty with
        | node => exact .inl (.inl (.inr ⟨id, listed .node id rfl, rfl⟩))
        | way => exact .inl (.inr ⟨id, listed .way id rfl, rfl⟩)
        | relation => exact absurd rfl type

end Locks

section Quiet

variable {t : ObjectType} {env : Env} {es : List (Elem t)} {ids : List Nat}

private theorem quiet_insertTagRows (rows : List TagRow) :
    Quiet dbReading (perform (insertTagRows t rows)) := by
  refine quiet_perform fun db r db' done => ?_
  unfold insertTagRows at done
  dsimp only at done
  split at done
  · cases done
  · cases done
    exact same_of_tables rfl rfl

private theorem quiet_deleteTagRows (ids : List Nat) :
    Quiet dbReading (perform (deleteTagRows t ids)) := by
  refine quiet_perform fun db r db' done => ?_
  obtain ⟨-, rfl⟩ := Prod.mk.inj (Except.ok.inj done)
  exact same_of_tables rfl rfl

private theorem quiet_currentToHistory (ids : List Nat) :
    Quiet dbReading (perform (currentToHistory t ids)) := by
  refine quiet_perform fun db r db' done => ?_
  unfold currentToHistory at done
  dsimp only at done
  split at done
  · cases done
  · cases done
    exact same_of_tables rfl rfl

private theorem quiet_currentTagsToHistory (ids : List Nat) :
    Quiet dbReading (perform (currentTagsToHistory t ids)) := by
  refine quiet_perform fun db r db' done => ?_
  unfold currentTagsToHistory at done
  dsimp only at done
  split at done
  · cases done
  · cases done
    exact same_of_tables rfl rfl

private theorem quiet_currentRefsToHistory (ids : List Nat) :
    Quiet dbReading (perform (currentRefsToHistory t ids)) := by
  refine quiet_perform fun db r db' done => ?_
  unfold currentRefsToHistory at done
  dsimp only at done
  split at done
  · cases done
  · cases done
    exact same_of_tables rfl rfl

theorem quiet_insertNewCurrentTags (es : List (Elem t)) :
    Quiet dbReading (insertNewCurrentTags t es) := by
  unfold insertNewCurrentTags
  split
  · exact quiet_pure _
  · exact quiet_bind (quiet_insertTagRows _) fun _ => quiet_pure _

theorem quiet_deleteCurrentTags (ids : List Nat) : Quiet dbReading (deleteCurrentTags t ids) := by
  unfold deleteCurrentTags
  split
  · exact quiet_pure _
  · exact quiet_deleteTagRows ids

theorem quiet_saveCurrentToHistory (ids : List Nat) :
    Quiet dbReading (saveCurrentToHistory t ids) := by
  unfold saveCurrentToHistory
  split
  · exact quiet_pure _
  · refine quiet_bind (quiet_currentToHistory ids) fun affected => ?_
    split
    · exact quiet_throw _
    · exact quiet_pure _

theorem quiet_saveCurrentTagsToHistory (ids : List Nat) :
    Quiet dbReading (saveCurrentTagsToHistory t ids) := by
  unfold saveCurrentTagsToHistory
  split
  · exact quiet_pure _
  · exact quiet_currentTagsToHistory ids

theorem quiet_saveCurrentRefsToHistory (ids : List Nat) :
    Quiet dbReading (saveCurrentRefsToHistory t ids) := by
  unfold saveCurrentRefsToHistory
  split
  · exact quiet_pure _
  · exact quiet_currentRefsToHistory ids

theorem quiet_checkCurrentVersions (es : List (Elem t)) :
    Quiet dbReading (checkCurrentVersions t es) :=
  quiet_of_readOnly (readOnly_checkCurrentVersions es)

theorem quiet_determineAlreadyDeleted (es : List (Elem t)) :
    Quiet dbReading (determineAlreadyDeleted t es) :=
  quiet_of_readOnly (readOnly_determineAlreadyDeleted es)

theorem quiet_extendDeletionBlock (fuel : Nat) (direct ifUnused : List Nat) :
    Quiet dbReading (extendDeletionBlockToRelationChildren fuel direct ifUnused) :=
  quiet_of_readOnly (readOnly_extendDeletionBlock fuel direct ifUnused)

theorem quiet_calcBbox (t : ObjectType) (ids : List Nat) : Quiet dbReading (calcBbox env t ids) :=
  quiet_of_readOnly (readOnly_calcBbox t ids)

theorem quiet_bboxBefore (ids : List Nat) (es : List (Elem t)) :
    Quiet dbReading (bboxBefore env ids t es) := quiet_of_readOnly (readOnly_bboxBefore ids es)

theorem quiet_bboxAfter (t : ObjectType) (upd : BboxUpdate) :
    Quiet dbReading (bboxAfter env t upd) := quiet_of_readOnly (readOnly_bboxAfter t upd)

end Quiet

section Writes

variable {t : ObjectType} {f : Known Lockable} {env : Env} {es : List (Elem t)}

section Current

variable {db db' : Db} {T : Table (CurrentRow.id (t := t))} {locks : List (Lockable × LockMode)}

private theorem visible_any (db : Db) (o : Obj) :
    db.visible o = ((db.current o.1).find? o.2).any CurrentRow.visible := by
  unfold Db.visible
  cases (db.current o.1).find? o.2 <;> rfl

private theorem visible_own (current : db'.current = Function.update db.current t T) (id : Nat) :
    db'.visible (t, id) = (T.find? id).any CurrentRow.visible := by
  rw [visible_any, current, Function.update_self]

private theorem visible_other (current : db'.current = Function.update db.current t T) {o : Obj}
    (ne : o.1 ≠ t) : db'.visible o = db.visible o := by
  rw [visible_any, visible_any, current, Function.update_of_ne ne]

private theorem visible_grows (current : db'.current = Function.update db.current t T)
    (rows : ∀ id r, (db.current t).find? id = some r → r.visible = true →
      (T.find? id).any CurrentRow.visible = true) :
    ∀ o, db.visible o = true → db'.visible o = true := by
  rintro ⟨t', id⟩ shown
  by_cases same : t' = t
  · subst same
    rw [visible_any, Option.any_eq_true] at shown
    obtain ⟨r, row, visible⟩ := shown
    rw [visible_own current]
    exact rows id r row visible
  · rwa [visible_other current same]

private theorem allowed_of_current (current : db'.current = Function.update db.current t T)
    (refs : db'.currentRefs = db.currentRefs)
    (changed : ∀ id, T.find? id ≠ (db.current t).find? id →
      (.object (t, id), .exclusive) ∈ locks)
    (hidden : t ≠ .relation → ∀ id, db.visible (t, id) = true → db'.visible (t, id) = false →
      ∀ x, f.free (.object (t, id)) x) : Allowed dbReading f db db' locks := by
  refine allowed_of_visible refs ?_ ?_
  · rintro ⟨t', id⟩ change
    by_cases same : t' = t
    · subst same
      refine changed id fun row => change ?_
      rw [visible_own current, row, ← visible_any db (t', id)]
    · exact absurd (visible_other current same) change
  · rintro ⟨t', id⟩ type shown gone
    by_cases same : t' = t
    · subst same
      exact hidden type id shown gone
    · rw [visible_other current same, shown] at gone
      cases gone

end Current

theorem insertNew_careful (f : Known Lockable) (es : List (Elem t)) :
    Careful dbReading (fun created g => (∃ db, created = createdEntries db es) ∧
      g = f.withOwn (objects t (created.map ObjectIdMapping.newId))) (insertNew t env es) f := by
  unfold insertNew
  refine careful_bind (Q := fun rows g => (∃ db, rows = idsMapping t db es) ∧
    g = f.withOwn (objects t (rows.map Prod.snd))) ?_ ?_
  · refine careful_perform fun db locks rows db' hold _ done => ?_
    have taken : ∀ id ∈ (idsMapping t db es).map Prod.snd,
        (Lockable.object (t, id), LockMode.exclusive) ∈
          locks ++ (insertNewToCurrentTable t env.now es).locks db := fun id member =>
      List.mem_append_right _ (mem_objectLocks member)
    have listed : ∀ r ∈ newCurrentRows t env.now db es, r.id ∈ (idsMapping t db es).map Prod.snd := by
      intro r member
      obtain ⟨e, -, row⟩ := List.mem_flatMap.mp member
      obtain ⟨m, inside, rfl⟩ := List.mem_map.mp row
      exact List.mem_map_of_mem (List.mem_filter.mp inside).1
    unfold insertNewToCurrentTable at done
    dsimp only at done
    split at done
    · cases done
    · rename_i T inserted
      obtain ⟨rfl, rfl⟩ := Prod.mk.inj (Except.ok.inj done)
      have found := Table.find?_insert inserted
      generalize same : ({ db.setCurrent t T with objectSeq := _ } : Db) = db'
      have current : db'.current = Function.update db.current t T := by
        rw [← same]
        rfl
      have refs : db'.currentRefs = db.currentRefs := by
        rw [← same]
        rfl
      have grows := visible_grows current fun id r row visible => by
        rw [found, row]
        exact visible
      refine ⟨allowed_of_current current refs (fun id change => ?_) fun _ id shown gone => ?_,
        _, (hold.keep _ (fun _ => shows_of_visible grows) fun _ _ => refers_of_refers
          fun t id o => (refers_of_table refs t id o).mpr).withOwn ?_, ⟨db, rfl⟩, rfl⟩
      · rw [found] at change
        cases new : (newCurrentRows t env.now db es).find? (fun r => decide (r.id = id)) with
        | none =>
            rw [new, Option.or_none] at change
            exact absurd rfl change
        | some r =>
            have hit : r.id = id := by simpa using List.find?_some new
            exact taken id (hit ▸ listed r (List.mem_of_find?_eq_some new))
      · rw [grows _ shown] at gone
        cases gone
      · rintro x ⟨id, member, rfl⟩
        exact taken id member
  · rintro rows g ⟨⟨db, rfl⟩, rfl⟩
    split
    · exact careful_throw _
    · refine careful_pure ⟨⟨db, rfl⟩, ?_⟩
      rw [List.map_map]
      rfl

section Update

variable {db : Db} {now : Int} {visible : Bool}

private theorem updateRow_cases (es : List (Elem t)) (now : Int) (visible : Bool)
    (r : CurrentRow t) :
    updateRow t now visible es r = r ∨
      ∃ e ∈ es, e.id = r.id ∧ (joined t es r).isSome ∧
        (updateRow t now visible es r).visible = visible := by
  unfold updateRow
  cases joins : joined t es r with
  | none => exact .inl rfl
  | some e =>
      have hit := List.find?_some joins
      exact .inr ⟨e, List.mem_of_find?_eq_some joins, (of_decide_eq_true hit).1, rfl, rfl⟩

private theorem updateCurrentRows_allowed (locks : List (Lockable × LockMode))
    (free : visible = false → t ≠ .relation → ∀ e ∈ es, ∀ x, f.free (.object (t, e.id)) x) :
    Allowed dbReading f db (db.setCurrent t ((db.current t).update (updateRow t now visible es)
      (updateRow_id t now visible es))) (locks ++ (updateCurrentRows t now visible es).locks db) := by
  have found := Table.find?_update (db.current t) (updateRow t now visible es)
    (updateRow_id t now visible es)
  have current : (db.setCurrent t ((db.current t).update (updateRow t now visible es)
      (updateRow_id t now visible es))).current = Function.update db.current t _ := rfl
  refine allowed_of_current current rfl (fun id change => ?_) fun type id shown gone => ?_
  · rw [found] at change
    cases here : (db.current t).find? id with
    | none =>
        rw [here] at change
        exact absurd rfl change
    | some r =>
        obtain ⟨member, rfl⟩ := Table.find?_eq_some.mp here
        rcases updateRow_cases es now visible r with same | ⟨e, -, -, joins, -⟩
        · rw [here, Option.map_some, same] at change
          exact absurd rfl change
        · refine List.mem_append_right _ (mem_objectLocks (List.mem_map_of_mem ?_))
          exact (Table.mem_select _ _).mpr ⟨member, joins⟩
  · rw [visible_own current, found] at gone
    have row : ((db.current t).find? id).any CurrentRow.visible = true :=
      (visible_any db (t, id)).symm.trans shown
    rw [Option.any_eq_true] at row
    obtain ⟨r, here, before⟩ := row
    obtain ⟨-, rfl⟩ := Table.find?_eq_some.mp here
    rw [here, Option.map_some, Option.any_some] at gone
    rcases updateRow_cases es now visible r with same | ⟨e, member, id, -, set⟩
    · rw [same, before] at gone
      cases gone
    · rw [set] at gone
      rw [← id]
      exact free gone type e member

theorem updateCurrent_careful (f : Known Lockable) (es : List (Elem t)) :
    Careful dbReading (fun _ g => g = f) (updateCurrent t env true es) f := by
  unfold updateCurrent
  split
  · exact careful_pure rfl
  · refine careful_bind (Q := fun _ g => g = f) ?_ ?_
    · refine careful_perform fun db locks rows db' hold _ done => ?_
      obtain ⟨-, rfl⟩ := Prod.mk.inj (Except.ok.inj done)
      refine ⟨updateCurrentRows_allowed locks nofun, f, hold.keep _ (fun _ => shows_of_visible ?_)
        fun _ _ => refers_of_refers fun _ _ _ h => h, rfl⟩
      refine visible_grows rfl fun id r row shown => ?_
      rw [Table.find?_update, row, Option.map_some, Option.any_some]
      rcases updateRow_cases es env.now true r with same | ⟨e, -, -, -, set⟩
      · rw [same, shown]
      · exact set
    · rintro rows g rfl
      split
      · exact careful_throw _
      · exact careful_pure rfl

theorem deleteCurrent_careful
    (free : t ≠ .relation → ∀ e ∈ es, ∀ x, f.free (.object (t, e.id)) x) :
    Careful dbReading (fun _ g => g = f.owned) (deleteCurrent t env es) f := by
  unfold deleteCurrent updateCurrent
  split
  · exact ⟨_, f.owned_sub, rfl⟩
  · rw [bind_assoc]
    refine careful_bind (Q := fun _ g => g = f.owned) ?_ ?_
    · refine careful_perform fun db locks rows db' hold _ done => ?_
      obtain ⟨-, rfl⟩ := Prod.mk.inj (Except.ok.inj done)
      exact ⟨updateCurrentRows_allowed locks fun _ => free, _, hold.owned _ _, rfl⟩
    · rintro rows g rfl
      split
      · exact careful_throw _
      · exact careful_pure rfl

end Update

section References

/-- `insert_new_current_*` for references writes to rows of its own, and what it refers to
is locked. -/
theorem insertNewCurrentRefs_careful (own : ∀ e ∈ es, f.own (.object (t, e.id)))
    (shown : ∀ x, targets es x → f.shown x) :
    Careful dbReading (fun _ g => g = f.owned) (insertNewCurrentRefs t es) f := by
  unfold insertNewCurrentRefs
  split
  · exact ⟨_, f.owned_sub, rfl⟩
  · refine careful_perform fun db locks r db' hold _ done => ?_
    have row : ∀ r ∈ refRows es, (∃ e ∈ es, r.owner = e.id) ∧
        (r.ref.target.1 ≠ .relation → targets es (.object r.ref.target)) := by
      intro r member
      obtain ⟨e, inside, there⟩ := List.mem_flatMap.mp member
      obtain ⟨m, ref, rfl⟩ := List.mem_map.mp there
      exact ⟨⟨e, inside, rfl⟩, fun type => ⟨e, inside, m, ref, type, rfl⟩⟩
    unfold insertRefRows at done
    dsimp only at done
    split at done
    · cases done
    · rename_i T inserted
      cases done
      -- a new reference comes from a row that has been inserted
      have new : ∀ t' id o, Refers (db.setRefs t T) t' id o → ¬ Refers db t' id o →
          t' = t ∧ ∃ r ∈ refRows es, r.owner = id ∧ r.ref.target = o := by
        rintro t' id o ⟨r, member, owner, target⟩ absent
        rw [Db.setRefs_currentRefs] at member
        by_cases same : t' = t
        · subst same
          rw [Function.update_self, Table.mem_insert inserted] at member
          rcases member with old | fresh
          · exact absurd ⟨r, old, owner, target⟩ absent
          · exact ⟨rfl, r, fresh, owner, target⟩
        · rw [Function.update_of_ne same] at member
          exact absurd ⟨r, member, owner, target⟩ absent
      have kept : ∀ t' id o, Refers db t' id o → Refers (db.setRefs t T) t' id o := by
        rintro t' id o ⟨r, member, owner, target⟩
        refine ⟨r, ?_, owner, target⟩
        rw [Db.setRefs_currentRefs]
        by_cases same : t' = t
        · subst same
          rw [Function.update_self, Table.mem_insert inserted]
          exact .inl member
        · rwa [Function.update_of_ne same]
      refine ⟨allowed_of_refers rfl (fun t' id o change => ?_) fun t' id o type present absent => ?_,
        _, hold.owned _ _, rfl⟩
      · have fresh : Refers (db.setRefs t T) t' id o ∧ ¬ Refers db t' id o := by
          by_contra same
          refine change ⟨kept t' id o, fun present => ?_⟩
          by_contra absent
          exact same ⟨present, absent⟩
        obtain ⟨rfl, r, member, rfl, -⟩ := new t' id o fresh.1 fresh.2
        obtain ⟨⟨e, inside, owner⟩, -⟩ := row r member
        rw [owner]
        exact List.mem_append_left _ (hold.own _ (own e inside))
      · obtain ⟨rfl, r, member, -, rfl⟩ := new t' id o present absent
        have known := shown _ ((row r member).2 type)
        exact ⟨known, (hold.shown _ known).1 _ rfl type⟩

theorem deleteCurrentRefs_careful {ids : List Nat} (own : ∀ id ∈ ids, f.own (.object (t, id))) :
    Careful dbReading (fun _ g => g = f) (deleteCurrentRefs t ids) f := by
  unfold deleteCurrentRefs
  split
  · exact careful_pure rfl
  · refine careful_perform fun db locks r db' hold _ done => ?_
    obtain ⟨-, rfl⟩ := Prod.mk.inj (Except.ok.inj done)
    generalize deleted : (db.currentRefs t).delete (fun r => decide (r.owner ∈ ids)) = T
    have gone : ∀ t' id o, Refers (db.setRefs t T) t' id o ↔
        Refers db t' id o ∧ ¬ (t' = t ∧ id ∈ ids) := by
      intro t' id o
      unfold Refers
      rw [Db.setRefs_currentRefs]
      by_cases same : t' = t
      · subst same
        rw [Function.update_self, ← deleted]
        simp only [Table.mem_delete, decide_eq_false_iff_not, true_and]
        constructor
        · rintro ⟨r, ⟨member, kept⟩, rfl, target⟩
          exact ⟨⟨r, member, rfl, target⟩, kept⟩
        · rintro ⟨⟨r, member, rfl, target⟩, kept⟩
          exact ⟨r, ⟨member, kept⟩, rfl, target⟩
      · rw [Function.update_of_ne same]
        simp only [same, false_and, not_false_eq_true, and_true]
    refine ⟨allowed_of_refers rfl (fun t' id o change => ?_) fun t' id o _ present absent => ?_,
      f, hold.keep _ (fun _ => shows_of_visible fun _ h => h) fun _ _ =>
        refers_of_refers fun t' id o present => ((gone t' id o).mp present).1, rfl⟩
    · rw [gone] at change
      have here : t' = t ∧ id ∈ ids := by
        by_contra away
        exact change ⟨fun old => ⟨old, away⟩, And.left⟩
      obtain ⟨rfl, member⟩ := here
      exact List.mem_append_left _ (hold.own _ (own id member))
    · exact absurd ((gone t' id o).mp present).1 absent

end References

end Writes

section Deletions

variable {t : ObjectType} {f : Known Lockable} {es : List (Elem t)}

def CanRefer (owner target : ObjectType) : Prop :=
  owner = .relation ∨ (owner = .way ∧ target = .node)

private theorem canRefer_of_refers {db : Db} {id : Nat} {o : Obj} (refers : Refers db t id o) :
    CanRefer t o.1 := by
  obtain ⟨notNode, wayNode⟩ := refers.owner_type
  cases t with
  | node => exact absurd rfl notNode
  | way => exact .inr ⟨rfl, wayNode rfl⟩
  | relation => exact .inl rfl

/-- An object that a reference query has not found, and a row that could only have been
found by it. -/
def Spared (owner target : ObjectType) (ids : List Nat) (rows : List (Nat × List Nat))
    (x y : Lockable) : Prop :=
  (∃ id ∈ ids, id ∉ rows.map Prod.fst ∧ x = .object (target, id)) ∧
    ∀ t' id', y = .object (t', id') → CanRefer t' target → t' = owner

private theorem referencedBy_careful {owner target : ObjectType} {ids : List Nat}
    (own : ∀ id ∈ ids, f.own (.object (target, id))) :
    Careful dbReading (fun rows g => g = f.withFree (Spared owner target ids rows))
      (perform (referencedBy owner target ids)) f := by
  refine careful_query fun db locks hold => ⟨_, hold.withFree ?_, rfl⟩
  rintro x y ⟨⟨id, member, absent, rfl⟩, only⟩
  refine ⟨hold.own _ (own id member), ?_⟩
  rintro ⟨t', id', o, rfl, same, -, refers⟩
  cases same
  obtain rfl := only t' id' rfl (canRefer_of_refers refers)
  obtain ⟨r, row, -, points⟩ := refers
  exact absent (DeletionEffects.mem_referencedBy.mpr ⟨member, r, row, points⟩)

private theorem removeBlocked_careful (f : Known Lockable) (es : List (Elem t))
    (excluded : List Nat) :
    Careful dbReading (fun result g => g = f ∧
      result.1 = es.filter (fun e => decide (e.id ∉ excluded))) (removeBlocked t es excluded) f := by
  unfold removeBlocked
  split
  · rename_i empty
    rw [List.isEmpty_iff] at empty
    subst empty
    exact careful_pure ⟨rfl, by simp⟩
  · refine (quiet_query _).careful_bind fun rows => ?_
    split
    · exact careful_throw _
    · exact (quiet_liftExcept _).careful_bind fun skipped => careful_pure ⟨rfl, rfl⟩

/-- What is left to be deleted after the reference checks: objects of the batch that
nothing refers to, unless they are relations. -/
structure Unreferenced (t : ObjectType) (f : Known Lockable) (es kept : List (Elem t))
    (g : Known Lockable) : Prop where
  inside : ∀ e ∈ kept, e ∈ es
  known : f.Sub g
  free : t ≠ .relation → ∀ e ∈ kept, ∀ x, g.free (.object (t, e.id)) x

private theorem unreferenced_nil {es : List (Elem t)} (empty : es.isEmpty = true) :
    Unreferenced t f es es f := by
  rw [List.isEmpty_iff] at empty
  subst empty
  exact ⟨fun _ h => h, .refl f, fun _ _ member => nomatch member⟩

private theorem isNodeStillReferenced_careful {es : List (Elem .node)}
    (own : ∀ id ∈ es.map Elem.id, f.own (.object (.node, id))) :
    Careful dbReading (fun result g => Unreferenced .node f es result.1 g)
      (isNodeStillReferenced es) f := by
  unfold isNodeStillReferenced
  split
  · rename_i empty
    exact careful_pure (unreferenced_nil empty)
  · refine careful_bind (referencedBy_careful own) ?_
    rintro byWay _ rfl
    refine careful_liftExcept_bind fun usedByWays ways => ?_
    obtain ⟨-, rfl⟩ := DeletionEffects.excludeReferenced_ok ways
    refine careful_bind (referencedBy_careful own) ?_
    rintro byRelation _ rfl
    refine careful_liftExcept_bind fun usedByRelations relations => ?_
    obtain ⟨-, rfl⟩ := DeletionEffects.excludeReferenced_ok relations
    refine (removeBlocked_careful _ es _).mono ?_
    rintro ⟨kept, skipped⟩ _ ⟨rfl, rfl⟩
    refine ⟨_, .refl _, fun e member => (List.mem_filter.mp member).1,
      (Known.sub_withFree f _).trans (Known.sub_withFree _ _), fun _ e member y => ?_⟩
    obtain ⟨inside, spared⟩ := List.mem_filter.mp member
    simp only [mem_sortUnique, List.mem_append, decide_eq_true_eq, not_or] at spared
    have here : e.id ∈ es.map Elem.id := List.mem_map_of_mem inside
    -- a relation would have been found by the second query, all others by the first one
    by_cases relation : ∃ id', y = .object (.relation, id')
    · obtain ⟨id', rfl⟩ := relation
      refine .inr ⟨⟨e.id, here, spared.2, rfl⟩, fun t' id'' same _ => ?_⟩
      cases same
      rfl
    · refine .inl (.inr ⟨⟨e.id, here, spared.1, rfl⟩, fun t' id' same can => ?_⟩)
      rcases can with rfl | ⟨rfl, -⟩
      · exact absurd ⟨id', same⟩ relation
      · rfl

private theorem isWayStillReferenced_careful {es : List (Elem .way)}
    (own : ∀ id ∈ es.map Elem.id, f.own (.object (.way, id))) :
    Careful dbReading (fun result g => Unreferenced .way f es result.1 g)
      (isWayStillReferenced es) f := by
  unfold isWayStillReferenced
  split
  · rename_i empty
    exact careful_pure (unreferenced_nil empty)
  · refine careful_bind (referencedBy_careful own) ?_
    rintro rows _ rfl
    refine careful_liftExcept_bind fun used relations => ?_
    obtain ⟨-, rfl⟩ := DeletionEffects.excludeReferenced_ok relations
    refine (removeBlocked_careful _ es _).mono ?_
    rintro ⟨kept, skipped⟩ _ ⟨rfl, rfl⟩
    refine ⟨_, .refl _, fun e member => (List.mem_filter.mp member).1,
      Known.sub_withFree f _, fun _ e member y => ?_⟩
    obtain ⟨inside, spared⟩ := List.mem_filter.mp member
    simp only [mem_sortUnique, decide_eq_true_eq] at spared
    refine .inr ⟨⟨e.id, List.mem_map_of_mem inside, spared, rfl⟩, fun t' id' _ can => ?_⟩
    rcases can with rfl | ⟨-, node⟩
    · rfl
    · cases node

theorem isStillReferenced_careful {fuel : Nat}
    (own : ∀ id ∈ es.map Elem.id, f.own (.object (t, id))) :
    Careful dbReading (fun result g => Unreferenced t f es result.1 g)
      (isStillReferenced fuel t es) f := by
  cases t with
  | node => exact isNodeStillReferenced_careful own
  | way => exact isWayStillReferenced_careful own
  | relation =>
      change Careful _ _ (isRelationStillReferenced fuel es) f
      unfold isRelationStillReferenced
      split
      · rename_i empty
        exact careful_pure (unreferenced_nil empty)
      · refine (quiet_query _).careful_bind fun rows => ?_
        refine (quiet_liftExcept _).careful_bind fun used => ?_
        refine (quiet_extendDeletionBlock fuel _ _).careful_bind fun children => ?_
        refine (removeBlocked_careful _ es _).mono ?_
        rintro ⟨kept, skipped⟩ _ ⟨rfl, rfl⟩
        exact ⟨_, .refl _, fun e member => (List.mem_filter.mp member).1, .refl _,
          fun flat => absurd rfl flat⟩

end Deletions

end Cgimap.Osmchange.ReferenceLocks
