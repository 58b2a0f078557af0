/- path: Cgimap/Osmchange/OwnedWrites
   generality: I
   source: src/backend/apidb/changeset_upload/{node,way,relation}_updater.cpp
   digest: What the updaters do to the objects they have locked, whatever others do. -/

import Cgimap.Library.OwnedRecords
import Cgimap.Osmchange.CreateEffects
import Cgimap.Osmchange.DeleteEffects
import Cgimap.Osmchange.ModifyEffects
import Cgimap.Osmchange.ReadOnlyChecks

set_option autoImplicit false
set_option relaxedAutoImplicit false

namespace Cgimap.Osmchange.OwnedWrites

open Cgimap.Library.ExceptLists
open Cgimap.Library.KeyedTable
open Cgimap.Library.StatementProgram
open Cgimap.Library.StatementProgram.Prog
open Cgimap.Library.OwnedRecords
open Cgimap.Model.Types
open Cgimap.Model.Database
open Cgimap.Osmchange.DiffTracking
open Cgimap.Osmchange.UploadRecords
open Cgimap.Osmchange.SqlStatements
open Cgimap.Osmchange.UpdaterChecks
open Cgimap.Osmchange.UpdaterProcess
open Cgimap.Osmchange.ReadOnlyChecks
open Cgimap.Osmchange.ObjectState
open Cgimap.Osmchange.WriteEffects
open Cgimap.Osmchange.CheckEffects
open Cgimap.Osmchange.Placeholders
open Cgimap.Osmchange.CreateEffects
open Cgimap.Osmchange.ModifyEffects
open Cgimap.Osmchange.DeleteEffects

/-- The database as one record for each row that can be locked. -/
def dbRecords : Records Db Lockable where
  Rec
    | .object o => ObjState o.1
    | .changeset _ => Option ChangesetRow
    | .user _ => Option UserRow
  read
    | .object o, db => object db o.1 o.2
    | .changeset c, db => db.changesets.find? c
    | .user u, db => db.users.find? u

def objectsOf (σ : dbRecords.Contents) (o : Obj) : ObjState o.1 := σ (.object o)

/-- Only objects of type `t` have changed, as `f` says. -/
structure Wrote (t : ObjectType) (f : Nat → ObjState t → ObjState t) (σ σ' : dbRecords.Contents) :
    Prop where
  same : ∀ id, objectsOf σ' (t, id) = f id (objectsOf σ (t, id))
  other : ∀ x, (∀ id, x ≠ .object (t, id)) → σ' x = σ x

/-- The locks that are held stay held. -/
def Keeps (locks locks' : List (Lockable × LockMode)) : Prop :=
  ∀ x, Held locks x → Held locks' x

variable {t : ObjectType} {env : Env} {f g : Nat → ObjState t → ObjState t}
  {locks : List (Lockable × LockMode)} {σ σ' σ'' : dbRecords.Contents}

namespace Wrote

theorem refl : Wrote t (fun _ s => s) σ σ := ⟨fun _ => rfl, fun _ _ => rfl⟩

theorem trans (first : Wrote t f σ σ') (next : Wrote t g σ' σ'') :
    Wrote t (fun id s => g id (f id s)) σ σ'' where
  same id := by rw [next.same, first.same]
  other x ne := (next.other x ne).trans (first.other x ne)

theorem congr (wrote : Wrote t f σ σ')
    (h : ∀ id, f id (objectsOf σ (t, id)) = g id (objectsOf σ (t, id))) : Wrote t g σ σ' where
  same id := by rw [wrote.same, h]
  other := wrote.other

theorem of_acts {db db' : Db} (acts : Acts t f db db') (knows : dbRecords.Knows locks db σ)
    (only : ∀ id, ¬ Held locks (.object (t, id)) → ∀ s, f id s = s) :
    Wrote t f σ (dbRecords.taken locks db' σ) where
  same id := by
    unfold objectsOf
    by_cases held : Held locks (.object (t, id))
    · rw [Records.taken_held held, ← knows _ held]
      exact acts.same id
    · rw [Records.taken_free held]
      exact (only id held _).symm
  other x ne := by
    by_cases held : Held locks x
    · rw [Records.taken_held held, ← knows x held]
      cases x with
      | object o =>
          obtain ⟨t', id⟩ := o
          refine acts.other t' (fun own => ne id ?_) id
          rw [own]
      | changeset c => exact congrArg (fun T => T.find? c) acts.rest.changesets
      | user u => exact congrArg (fun T => T.find? u) acts.rest.users
    · rw [Records.taken_free held]

end Wrote

theorem Keeps.trans {locks' locks'' : List (Lockable × LockMode)} (first : Keeps locks locks')
    (next : Keeps locks' locks'') : Keeps locks locks'' := fun x held => next x (first x held)

section Rules

variable {α β : Type} {Q : β → List (Lockable × LockMode) → dbRecords.Contents → Prop}
  {p : DbProg α} {k : α → DbProg β}

theorem acts_bind {P : α → Db → Prop} (single : Single p)
    (acts : ∀ db a db', p.run db = .ok (a, db') → Acts t f db db' ∧ P a db)
    (only : ∀ id, ¬ Held locks (.object (t, id)) → ∀ s, f id s = s)
    (rest : ∀ a db locks' σ', Keeps locks locks' → dbRecords.Knows locks' db σ → P a db →
      Wrote t f σ σ' → Safe dbRecords Q (k a) locks' σ') :
    Safe dbRecords Q (p >>= k) locks σ := by
  refine safe_bind (Q := fun a locks' σ' => ∃ db, Keeps locks locks' ∧ dbRecords.Knows locks' db σ ∧
    P a db ∧ Wrote t f σ σ') (safe_single single fun db a db' knows done => ?_) ?_
  · obtain ⟨does, facts⟩ := acts db a db' done
    refine ⟨db, fun x held => held.append _, knows, facts, .of_acts does knows ?_⟩
    exact fun id free => only id fun held => free (held.append _)
  · rintro a locks' σ' ⟨db, keeps, knows, facts, wrote⟩
    exact rest a db locks' σ' keeps knows facts wrote

theorem check_bind {P : α → Prop} (reads : p.ReadOnly P)
    (rest : ∀ a locks', Keeps locks locks' → P a → Safe dbRecords Q (k a) locks' σ) :
    Safe dbRecords Q (p >>= k) locks σ :=
  (still_of_readOnly reads).safe_bind fun a more result =>
    rest a _ (fun _ held => held.append more) result

end Rules

section Single

variable (es : List (Elem t)) (ids : List Nat)

private theorem single_insertNewCurrentTags : Single (insertNewCurrentTags t es) := by
  unfold insertNewCurrentTags
  split
  · trivial
  · exact single_bind (single_perform _) fun _ => trivial

private theorem single_insertNewCurrentRefs : Single (insertNewCurrentRefs t es) := by
  unfold insertNewCurrentRefs
  split
  · trivial
  · exact single_perform _

private theorem single_deleteCurrentTags : Single (deleteCurrentTags t ids) := by
  unfold deleteCurrentTags
  split
  · trivial
  · exact single_perform _

private theorem single_deleteCurrentRefs : Single (deleteCurrentRefs t ids) := by
  unfold deleteCurrentRefs
  split
  · trivial
  · exact single_perform _

private theorem single_saveCurrentToHistory : Single (saveCurrentToHistory t ids) := by
  unfold saveCurrentToHistory
  split
  · trivial
  · refine single_bind (single_perform _) fun affected => ?_
    split
    · trivial
    · trivial

private theorem single_saveCurrentTagsToHistory : Single (saveCurrentTagsToHistory t ids) := by
  unfold saveCurrentTagsToHistory
  split
  · trivial
  · exact single_perform _

private theorem single_saveCurrentRefsToHistory : Single (saveCurrentRefsToHistory t ids) := by
  unfold saveCurrentRefsToHistory
  split
  · trivial
  · exact single_perform _

private theorem single_updateCurrent (visible : Bool) : Single (updateCurrent t env visible es) := by
  unfold updateCurrent
  split
  · trivial
  · refine single_bind (single_perform _) fun rows => ?_
    split
    · trivial
    · trivial

private theorem single_modifyCurrent : Single (modifyCurrent t env es) :=
  single_bind (single_updateCurrent es true) fun _ => over_liftExcept _

private theorem single_deleteCurrent : Single (deleteCurrent t env es) :=
  single_bind (single_updateCurrent es false) fun _ => trivial

end Single

section Locks

variable {β : Type} {Q : β → List (Lockable × LockMode) → dbRecords.Contents → Prop}

/-- After `lock_current_*` the rows are held, and known to exist. -/
theorem lockCurrent_bind {ids : List Nat} {k : Unit → DbProg β}
    (rest : ∀ locks', Keeps locks locks' → (∀ id ∈ ids, Held locks' (.object (t, id)) ∧
      (objectsOf σ (t, id)).row.isSome) → Safe dbRecords Q (k ()) locks' σ) :
    Safe dbRecords Q (lockCurrent t ids >>= k) locks σ := by
  unfold lockCurrent
  split
  · rename_i empty
    rw [List.isEmpty_iff] at empty
    subst empty
    exact rest locks (fun _ held => held) nofun
  · rw [bind_assoc]
    refine safe_bind (Q := fun missing locks' σ' => σ' = σ ∧ Keeps locks locks' ∧
      (missing = [] → ∀ id ∈ ids, Held locks' (.object (t, id)) ∧
        (objectsOf σ (t, id)).row.isSome)) ?_ ?_
    · refine safe_single (single_perform _) fun db missing db' knows done => ?_
      rw [run_perform] at done
      obtain ⟨rfl, rfl⟩ := Prod.mk.inj (Except.ok.inj done)
      refine ⟨knows.taken_eq, fun x held => held.append _, fun none id member => ?_⟩
      rw [List.filter_eq_nil_iff] at none
      have known := none id (mem_sortUnique.mpr member)
      rw [Option.isNone_iff_eq_none, ← ne_eq, ← Option.isSome_iff_ne_none] at known
      have held : Held (locks ++ (lockCurrentIds t ids).locks db) (.object (t, id)) :=
        List.mem_append_right _ (List.mem_map_of_mem (List.mem_filter.mpr ⟨member, known⟩))
      refine ⟨held, ?_⟩
      rw [show objectsOf σ (t, id) = object db t id from (knows _ held).symm]
      exact known
    · rintro missing locks' _ ⟨rfl, keeps, held⟩
      split
      · rename_i none
        exact rest locks' keeps (held (List.isEmpty_iff.mp none))
      · trivial

end Locks

section Modifications

variable {es : List (Elem t)} {ids : List Nat}

/-- What a batch or a package of modifications does. -/
structure Modified (env : Env) (es : List (Elem t)) (σ σ' : dbRecords.Contents) : Prop where
  accepts : ∀ id, ObjState.Accepts env.now (objectsOf σ (t, id)) (elemsOf es id)
  wrote : Wrote t (fun id => ObjState.modifyAll env.now (elemsOf es id)) σ σ'

private theorem unsaved_of_steps (now : Int) (visible : Bool) {s s' : ObjState t} {e : Elem t}
    (version : s.version? = some e.version)
    (row : s'.row = s.row.map (fun r => setRow t now visible r e)) (history : s'.history = s.history)
    (unsaved : ∀ r, s'.row = some r → s'.history r.version = none) :
    s.history (e.version + 1) = none := by
  obtain ⟨r, found, -⟩ := Option.map_eq_some_iff.mp version
  rw [found] at row
  rw [← history]
  exact unsaved (setRow t now visible r e) row

theorem modifyPackage_safe (own : ∀ e ∈ es, Held locks (.object (t, e.id)))
    (acc : Tracking × Bbox) :
    Safe dbRecords (fun acc' locks' σ' => Keeps locks locks' ∧ Modified env es σ σ' ∧
      ∃ modified, modified.Perm (modifiedEntries es) ∧ acc'.1 = acc.1.addModified t modified)
      (modifyPackage env t ids acc es) locks σ := by
  have absent : ∀ {l}, Keeps locks l → ∀ id, ¬ Held l (.object (t, id)) → id ∉ es.map Elem.id := by
    intro l keeps id free named
    obtain ⟨e, member, rfl⟩ := List.mem_map.mp named
    exact free (keeps _ (own e member))
  unfold modifyPackage
  refine check_bind (readOnly_checkCurrentVersions es) fun _ l₁ k₁ _ => ?_
  refine check_bind (readOnly_lockFuture es ids) fun _ l₂ k₂ _ => ?_
  refine check_bind (readOnly_bboxBefore ids es) fun update l₃ k₃ _ => ?_
  have k₃ := k₁.trans (k₂.trans k₃)
  refine acts_bind (P := fun _ _ => True) (single_deleteCurrentTags _)
    (fun db _ db' done => ⟨deleteCurrentTags_ok done, trivial⟩) (fun id free s => ?_) ?_
  · rw [if_neg (mem_uniqueIds.not.mpr (absent k₃ id free))]
  intro _ _ l₄ σ₁ k₄ _ _ clearTags
  have k₄ := k₃.trans k₄
  refine acts_bind (P := fun _ _ => True) (single_deleteCurrentRefs _)
    (fun db _ db' done => ⟨deleteCurrentRefs_ok done, trivial⟩) (fun id free s => ?_) ?_
  · rw [if_neg (mem_uniqueIds.not.mpr (absent k₄ id free))]
  intro _ _ l₅ σ₂ k₅ _ _ clearRefs
  have k₅ := k₄.trans k₅
  refine acts_bind (f := fun id s => { s with
      row := (elemsOf es id).foldl (fun row e => row.map (fun r => setRow t env.now true r e)) s.row })
    (P := fun modified db => modified.Perm (modifiedEntries es) ∧
      (∀ e ∈ es, e.version + 1 < versionBound) ∧ Matches db es) (single_modifyCurrent _)
    (fun db modified db' done => ?_) (fun id free s => ?_) ?_
  · obtain ⟨matching, perm, small, updated⟩ := modifyCurrent_ok done
    exact ⟨updateRow_acts matching updated, perm, small, matching⟩
  · rw [elemsOf_eq_nil (absent k₅ id free)]
    rfl
  intro modified db l₆ σ₃ k₆ knows ⟨perm, small, matching⟩ updated
  have k₆ := k₅.trans k₆
  refine acts_bind (P := fun tagged _ => tagged = sortUnique ((tagRows es).map TagRow.owner))
    (single_insertNewCurrentTags _) (fun db tagged db' done => (insertNewCurrentTags_ok done).symm)
    (fun id free s => ?_) ?_
  · rw [elemsOf_eq_nil (absent k₆ id free)]
    simp
  rintro tagged _ l₇ σ₄ k₇ - rfl addTags
  have k₇ := k₆.trans k₇
  refine acts_bind (P := fun _ _ => True) (single_insertNewCurrentRefs _)
    (fun db _ db' done => ⟨insertNewCurrentRefs_ok done, trivial⟩) (fun id free s => ?_) ?_
  · rw [elemsOf_eq_nil (absent k₇ id free)]
    simp
  intro _ _ l₈ σ₅ k₈ _ _ addRefs
  have k₈ := k₇.trans k₈
  refine acts_bind (single_saveCurrentToHistory _)
    (fun db _ db' done => saveCurrentToHistory_ok done) (fun id free s => ?_) ?_
  · rw [if_neg (mem_uniqueIds.not.mpr (absent k₈ id free))]
  intro _ db' l₉ σ₆ k₉ knows' unsaved saveRow
  have k₉ := k₈.trans k₉
  refine acts_bind (P := fun _ _ => True) (single_saveCurrentTagsToHistory _)
    (fun db _ db' done => ⟨saveCurrentTagsToHistory_ok done, trivial⟩) (fun id free s => ?_) ?_
  · rw [if_neg (not_mem_idsWithTags (absent k₉ id free))]
  intro _ _ l₁₀ σ₇ k₁₀ _ _ saveTags
  have k₁₀ := k₉.trans k₁₀
  refine acts_bind (P := fun _ _ => True) (single_saveCurrentRefsToHistory _)
    (fun db _ db' done => ⟨saveCurrentRefsToHistory_ok done, trivial⟩) (fun id free s => ?_) ?_
  · rw [if_neg (mem_uniqueIds.not.mpr (absent k₁₀ id free))]
  intro _ _ l₁₁ σ₈ k₁₁ _ _ saveRefs
  refine check_bind (readOnly_bboxAfter t _) fun after l₁₂ k₁₂ _ => ?_
  refine safe_pure ⟨k₁₀.trans (k₁₁.trans k₁₂), ⟨fun id => ?_, ?_⟩, modified, perm, rfl⟩
  · by_cases present : id ∈ es.map Elem.id
    · obtain ⟨e, member, rfl⟩ := List.mem_map.mp present
      have cleared : (objectsOf σ₂ (t, e.id)).row = (objectsOf σ (t, e.id)).row ∧
          (objectsOf σ₂ (t, e.id)).history = (objectsOf σ (t, e.id)).history := by
        rw [clearRefs.same, clearTags.same]
        split <;> exact ⟨rfl, rfl⟩
      have version : (objectsOf σ (t, e.id)).version? = some e.version := by
        have same : object db t e.id = objectsOf σ₂ (t, e.id) :=
          knows _ (k₆ _ (own e member))
        rw [ObjState.version?, ← cleared.1, ← same]
        exact matching.version e member
      rw [elemsOf_eq_singleton matching.distinct member]
      have written : (objectsOf σ₅ (t, e.id)).row =
          (objectsOf σ (t, e.id)).row.map (fun r => setRow t env.now true r e) ∧
          (objectsOf σ₅ (t, e.id)).history = (objectsOf σ (t, e.id)).history := by
        rw [addRefs.same, addTags.same, updated.same, elemsOf_eq_singleton matching.distinct member]
        exact ⟨congrArg (Option.map fun r => setRow t env.now true r e) cleared.1, cleared.2⟩
      have same : object db' t e.id = objectsOf σ₅ (t, e.id) := knows' _ (k₉ _ (own e member))
      have free := unsaved e.id (mem_uniqueIds.mpr present)
      rw [same] at free
      exact ⟨version, small e member, unsaved_of_steps env.now true version written.1 written.2 free,
        trivial⟩
    · rw [elemsOf_eq_nil present]
      trivial
  · have all := clearTags.trans (clearRefs.trans (updated.trans (addTags.trans (addRefs.trans
      (saveRow.trans (saveTags.trans saveRefs))))))
    exact all.congr fun id => packageSteps_eq env.now matching.distinct id _

private structure Progress (env : Env) (ct : Tracking) (locks : List (Lockable × LockMode))
    (σ : dbRecords.Contents) (done : List (List (Elem t))) (acc : Tracking × Bbox)
    (locks' : List (Lockable × LockMode)) (σ' : dbRecords.Contents) : Prop where
  keeps : Keeps locks locks'
  accepts : ∀ id, ObjState.Accepts env.now (objectsOf σ (t, id)) (done.flatMap fun p => elemsOf p id)
  wrote : Wrote t (fun id => ObjState.modifyAll env.now (done.flatMap fun p => elemsOf p id)) σ σ'
  entries : ∃ modified, modified.Perm (done.flatMap modifiedEntries) ∧
    acc.1 = ct.addModified t modified

/-- What `process_modify_*` does, whatever happens to the objects of others. -/
theorem processModify_safe (st : Upload) :
    Safe dbRecords (fun st' locks' σ' => Keeps locks locks' ∧ ∃ es box modified,
      replaceOldIds st.ct (st.updater t).modifyBuf = .ok es ∧ Modified env es σ σ' ∧
        modified.Perm (modifiedEntries es) ∧
        st' = { st with ct := st.ct.addModified t modified }.setUpdater
          { st.updater t with bbox := box, modifyBuf := [] })
      (processModify env t st) locks σ := by
  unfold processModify
  refine safe_liftExcept_bind fun es replaced => lockCurrent_bind fun l₁ k₁ locked => ?_
  have own : ∀ e ∈ es, Held l₁ (.object (t, e.id)) := fun e member =>
    (locked e.id (mem_uniqueIds.mpr (List.mem_map_of_mem member))).1
  have start : Progress (t := t) env st.ct l₁ σ [] (st.ct, (st.updater t).bbox) l₁ σ :=
    ⟨fun _ held => held, fun _ => trivial, .refl, [], .nil, (Tracking.addModified_nil ..).symm⟩
  refine safe_bind (safe_foldlM (Progress env st.ct l₁ σ) (buildPackages es)
    (fun done p package acc l₂ σ₂ sofar => ?_) start) ?_
  · have inside : ∀ e ∈ p, Held l₂ (.object (t, e.id)) := fun e member =>
      sofar.keeps _ (own e (mem_buildPackages.mp ⟨p, package, member⟩))
    refine (modifyPackage_safe inside acc).mono fun acc' l₃ σ₃ ⟨k₃, one, modified, perm, tracked⟩ =>
      ⟨sofar.keeps.trans k₃, fun id => ?_, ?_, ?_⟩
    · rw [List.flatMap_append, ObjState.accepts_append, ← sofar.wrote.same]
      simpa using ⟨sofar.accepts id, one.accepts id⟩
    · refine (sofar.wrote.trans one.wrote).congr fun id => ?_
      rw [List.flatMap_append, ObjState.modifyAll_append]
      simp
    · obtain ⟨before, perm', tracked'⟩ := sofar.entries
      refine ⟨before ++ modified, ?_, ?_⟩
      · simpa using perm'.append perm
      · rw [tracked, tracked', Tracking.addModified_append]
  · rintro ⟨ct, box⟩ l₂ σ₂ all
    rw [List.nil_append] at all
    obtain ⟨modified, perm, tracked⟩ := all.entries
    dsimp only at tracked
    subst tracked
    refine safe_pure ⟨k₁.trans all.keeps, es, box, modified, replaced, ⟨fun id => ?_, ?_⟩,
      perm.trans (modifiedEntries_buildPackages es), rfl⟩
    · rw [← buildPackages_elemsOf]
      exact all.accepts id
    · refine all.wrote.congr fun id => ?_
      rw [buildPackages_elemsOf]

end Modifications

section Creations

variable {es : List (Elem t)}

/-- What a batch of creations does. -/
structure Created (env : Env) (es : List (Elem t)) (σ σ' : dbRecords.Contents) : Prop where
  distinct : (es.map Elem.id).Nodup
  fresh : ∀ e ∈ es, (objectsOf σ (t, e.id)).row = none
  unsaved : ∀ e ∈ es, (objectsOf σ (t, e.id)).history 1 = none
  wrote : Wrote t (fun id s => (elemsOf es id).foldl (fun s e => s.create env.now id e) s) σ σ'

private def inserted (db : Db) (T : Table (CurrentRow.id (t := t))) (n : Nat) : Db :=
  { db.setCurrent t T with objectSeq := Function.update db.objectSeq t (db.objectSeq t + n) }

private theorem insertNew_bind {β : Type} {Q : β → List (Lockable × LockMode) → dbRecords.Contents → Prop}
    {k : List ObjectIdMapping → DbProg β}
    (rest : ∀ db T locks', Keeps locks locks' → dbRecords.Knows locks' db σ →
      (∀ id ∈ (createdEntries db es).map ObjectIdMapping.newId, Held locks' (.object (t, id))) →
      (db.current t).insert (newCurrentRows t env.now db es) = some T →
      Safe dbRecords Q (k (createdEntries db es)) locks'
        (dbRecords.taken locks' (inserted db T es.length) σ)) :
    Safe dbRecords Q (insertNew t env es >>= k) locks σ := by
  have single : Single (insertNew t env es) := by
    refine single_bind (single_perform _) fun rows => ?_
    split
    · trivial
    · trivial
  refine safe_bind (Q := fun created locks' σ' => ∃ db T, created = createdEntries db es ∧
    Keeps locks locks' ∧ dbRecords.Knows locks' db σ ∧
    (∀ id ∈ (createdEntries db es).map ObjectIdMapping.newId, Held locks' (.object (t, id))) ∧
    (db.current t).insert (newCurrentRows t env.now db es) = some T ∧
    σ' = dbRecords.taken locks' (inserted db T es.length) σ)
    (safe_single single fun db created db' knows done => ?_) ?_
  · obtain ⟨rfl, T, rows, rfl⟩ := insertNew_ok done
    refine ⟨db, T, rfl, fun x held => held.append _, knows, fun id member => ?_, rows, rfl⟩
    refine List.mem_append_right _ (List.mem_map_of_mem ?_)
    rwa [createdEntries, List.map_map] at member
  · rintro _ locks' _ ⟨db, T, rfl, keeps, knows, held, rows, rfl⟩
    exact rest db T locks' keeps knows held rows

/-- What `process_new_*` does, whatever happens to the objects of others. -/
theorem processNew_safe (st : Upload) (negative : ∀ e ∈ (st.updater t).createBuf, e.oldId < 0) :
    Safe dbRecords (fun st' locks' σ' => Keeps locks locks' ∧ ∃ es db placeholders box,
      checkUniquePlaceholderIds (st.updater t).createPlaceholderIds
        ((st.updater t).createBuf.map Elem.oldId) = .ok placeholders ∧
      replaceOldIds (st.ct.addCreated t (createdEntries db (st.updater t).createBuf))
        (st.updater t).createBuf = .ok es ∧ Created env es σ σ' ∧
      st' = { st with
        ct := st.ct.addCreated t (createdEntries db (st.updater t).createBuf) : Upload }.setUpdater
        { st.updater t with bbox := box, createBuf := [], createPlaceholderIds := placeholders })
      (processNew env t st) locks σ := by
  unfold processNew
  refine safe_liftExcept_bind fun placeholders unique => ?_
  refine safe_liftExcept_bind fun _ forward => ?_
  refine insertNew_bind fun db T l₁ k₁ knows held rows => ?_
  refine safe_liftExcept_bind fun es replaced => ?_
  obtain ⟨maps, all⟩ := replaceOldIds_eq_ok.mp replaced
  have distinctOld : ((st.updater t).createBuf.map Elem.oldId).Nodup := by
    unfold checkUniquePlaceholderIds at unique
    split at unique
    · cases unique
    · rename_i none
      exact (firstDuplicate_eq_none.mp none).1
  have mapped : t ∈ mappedTypes t := by cases t <;> decide
  rw [newCurrentRows_resolved negative distinctOld (maps t mapped) all] at rows
  obtain ⟨distinct, fresh, acts⟩ := insert_acts env (st.updater t).createBuf.length rows
  have own : ∀ e ∈ es, Held l₁ (.object (t, e.id)) := fun e member =>
    held e.id (created_ids negative replaced e member)
  have absent : ∀ {l}, Keeps l₁ l → ∀ id, ¬ Held l (.object (t, id)) → id ∉ es.map Elem.id := by
    intro l keeps id free named
    obtain ⟨e, member, rfl⟩ := List.mem_map.mp named
    exact free (keeps _ (own e member))
  -- the sequence belongs to no record
  have knows' : dbRecords.Knows l₁ (bumped db t (st.updater t).createBuf.length) σ := by
    intro x inside
    rw [← knows x inside]
    cases x <;> rfl
  have insert : Wrote t (fun id s => (elemsOf es id).foldl
      (fun s e => { s with row := some (newRow env.now e) }) s) σ
      (dbRecords.taken l₁ (inserted db T (st.updater t).createBuf.length) σ) := by
    refine .of_acts acts knows' fun id free s => ?_
    rw [elemsOf_eq_nil (absent (fun _ held => held) id free)]
    rfl
  refine check_bind (readOnly_lockFuture es _) fun _ l₂ k₂ _ => ?_
  refine acts_bind (P := fun tagged _ => tagged = sortUnique ((tagRows es).map TagRow.owner))
    (single_insertNewCurrentTags _) (fun db tagged db' done => (insertNewCurrentTags_ok done).symm)
    (fun id free s => ?_) ?_
  · rw [elemsOf_eq_nil (absent k₂ id free)]
    simp
  rintro tagged _ l₃ σ₂ k₃ - rfl addTags
  have k₃ := k₂.trans k₃
  refine acts_bind (P := fun _ _ => True) (single_insertNewCurrentRefs _)
    (fun db _ db' done => ⟨insertNewCurrentRefs_ok done, trivial⟩) (fun id free s => ?_) ?_
  · rw [elemsOf_eq_nil (absent k₃ id free)]
    simp
  intro _ _ l₄ σ₃ k₄ _ _ addRefs
  have k₄ := k₃.trans k₄
  refine acts_bind (single_saveCurrentToHistory _)
    (fun db _ db' done => saveCurrentToHistory_ok done) (fun id free s => ?_) ?_
  · rw [if_neg (mem_uniqueIds.not.mpr (absent k₄ id free))]
  intro _ db' l₅ σ₄ k₅ saw unsaved saveRow
  have k₅ := k₄.trans k₅
  refine acts_bind (P := fun _ _ => True) (single_saveCurrentTagsToHistory _)
    (fun db _ db' done => ⟨saveCurrentTagsToHistory_ok done, trivial⟩) (fun id free s => ?_) ?_
  · rw [if_neg (not_mem_idsWithTags (absent k₅ id free))]
  intro _ _ l₆ σ₅ k₆ _ _ saveTags
  have k₆ := k₅.trans k₆
  refine acts_bind (P := fun _ _ => True) (single_saveCurrentRefsToHistory _)
    (fun db _ db' done => ⟨saveCurrentRefsToHistory_ok done, trivial⟩) (fun id free s => ?_) ?_
  · rw [if_neg (mem_uniqueIds.not.mpr (absent k₆ id free))]
  intro _ _ l₇ σ₆ k₇ _ _ saveRefs
  refine check_bind (readOnly_calcBbox t _) fun box l₈ k₈ _ => ?_
  refine safe_pure ⟨k₁.trans (k₆.trans (k₇.trans k₈)), es, db, placeholders, _, unique, replaced,
    ⟨distinct, fun e member => ?_, fun e member => ?_, ?_⟩, rfl⟩
  · rw [show objectsOf σ (t, e.id) = object db t e.id from (knows _ (own e member)).symm]
    exact fresh e member
  · have written : (objectsOf σ₃ (t, e.id)).row = some (newRow env.now e) ∧
        (objectsOf σ₃ (t, e.id)).history = (objectsOf σ (t, e.id)).history := by
      rw [addRefs.same, addTags.same, insert.same, elemsOf_eq_singleton distinct member]
      exact ⟨rfl, rfl⟩
    have same : object db' t e.id = objectsOf σ₃ (t, e.id) := saw _ (k₅ _ (own e member))
    have free := unsaved e.id (mem_uniqueIds.mpr (List.mem_map_of_mem member)) (newRow env.now e)
      (same ▸ written.1)
    rw [same] at free
    exact (congrFun written.2 1).symm.trans free
  · have all := insert.trans (addTags.trans (addRefs.trans (saveRow.trans (saveTags.trans saveRefs))))
    exact all.congr fun id => createSteps_eq env.now distinct id _

end Creations

section Deletions

variable {es executed : List (Elem t)}

/-- What a batch of deletions does: `executed` are the elements that it carries out, all
those of some visible objects. -/
structure Deleted (env : Env) (es executed : List (Elem t)) (σ σ' : dbRecords.Contents) : Prop where
  known : ∀ e ∈ es, (objectsOf σ (t, e.id)).row.isSome
  together : ∀ id ∈ executed.map Elem.id, elemsOf es id = elemsOf executed id
  shown : ∀ e ∈ executed, (objectsOf σ (t, e.id)).visible = true
  distinct : (executed.map Elem.id).Nodup
  version : ∀ e ∈ executed, (objectsOf σ (t, e.id)).version? = some e.version
  unsaved : ∀ e ∈ executed, (objectsOf σ (t, e.id)).history (e.version + 1) = none
  wrote : Wrote t (fun id s => (elemsOf executed id).foldl (fun s e => s.delete env.now e) s) σ σ'

private theorem determineAlreadyDeleted_bind {β : Type}
    {Q : β → List (Lockable × LockMode) → dbRecords.Contents → Prop}
    {k : List Nat × List ObjectIdMapping → DbProg β}
    (own : ∀ e ∈ es, Held locks (.object (t, e.id)))
    (known : ∀ e ∈ es, (objectsOf σ (t, e.id)).row.isSome)
    (rest : ∀ found locks', Keeps locks locks' →
      es.filter (fun e => decide (e.id ∉ found.1)) =
        es.filter (fun e => (objectsOf σ (t, e.id)).visible) →
      Safe dbRecords Q (k found) locks' σ) :
    Safe dbRecords Q (determineAlreadyDeleted t es >>= k) locks σ := by
  have single : Single (determineAlreadyDeleted t es) := by
    unfold determineAlreadyDeleted
    split
    · trivial
    · exact single_bind (single_perform _) fun _ => over_bind (over_liftExcept _) fun _ => trivial
  refine safe_bind (Q := fun found locks' σ' => σ' = σ ∧ Keeps locks locks' ∧
    es.filter (fun e => decide (e.id ∉ found.1)) =
      es.filter (fun e => (objectsOf σ (t, e.id)).visible))
    (safe_single single fun db found db' knows done => ?_) ?_
  · have here : ∀ e ∈ es, object db t e.id = objectsOf σ (t, e.id) := fun e member =>
      knows _ ((own e member).append _)
    rcases determineAlreadyDeleted_cases db es with ⟨-, run⟩ | ⟨-, error, run, -⟩
    · rw [run] at done
      cases done
      refine ⟨knows.taken_eq, fun x held => held.append _, ?_⟩
      rw [visible_of_deletedRows fun e member => by rw [here e member]; exact known e member]
      refine List.filter_congr fun e member => ?_
      rw [visible_eq, here e member]
      rfl
    · rw [run] at done
      cases done
  · rintro found locks' _ ⟨rfl, keeps, visible⟩
    exact rest found locks' keeps visible

/-- What `process_delete_*` does, whatever happens to the objects of others. -/
theorem processDelete_safe (st : Upload) :
    Safe dbRecords (fun st' locks' σ' => Keeps locks locks' ∧ ∃ es executed gone used box deleted,
      replaceOldIds st.ct (st.updater t).deleteBuf = .ok es ∧ Deleted env es executed σ σ' ∧
        deleted.Perm (executed.map Elem.oldId) ∧
        st' = { st with
          ct := ((st.ct.addSkipDeleted t gone).addSkipDeleted t used).addDeleted t deleted :
            Upload }.setUpdater { st.updater t with bbox := box, deleteBuf := [] })
      (processDelete env t st) locks σ := by
  unfold processDelete
  refine safe_liftExcept_bind fun es replaced => lockCurrent_bind fun l₁ k₁ locked => ?_
  have locked : ∀ e ∈ es, Held l₁ (.object (t, e.id)) ∧ (objectsOf σ (t, e.id)).row.isSome :=
    fun e member => locked e.id (mem_uniqueIds.mpr (List.mem_map_of_mem member))
  refine determineAlreadyDeleted_bind (fun e member => (locked e member).1)
    (fun e member => (locked e member).2) ?_
  rintro ⟨alreadyDeleted, gone⟩ l₂ k₂ visible
  dsimp only at visible ⊢
  rw [visible]
  refine check_bind (readOnly_checkCurrentVersions _) fun _ l₃ k₃ _ => ?_
  refine check_bind (readOnly_isStillReferenced env.fuel _) ?_
  rintro ⟨executed, used⟩ l₄ k₄ ⟨excluded, left⟩
  dsimp only at left ⊢
  refine check_bind (readOnly_calcBbox t _) fun box l₅ k₅ _ => ?_
  have k₅ := k₂.trans (k₃.trans (k₄.trans k₅))
  have inside : ∀ e ∈ executed, e ∈ es ∧ (objectsOf σ (t, e.id)).visible = true := by
    intro e member
    rw [left] at member
    exact List.mem_filter.mp (List.mem_filter.mp member).1
  have own : ∀ e ∈ executed, Held l₁ (.object (t, e.id)) := fun e member =>
    (locked e (inside e member).1).1
  have absent : ∀ {l}, Keeps l₁ l → ∀ id, ¬ Held l (.object (t, id)) → id ∉ executed.map Elem.id := by
    intro l keeps id free named
    obtain ⟨e, member, rfl⟩ := List.mem_map.mp named
    exact free (keeps _ (own e member))
  refine acts_bind (f := fun id s => { s with
      row := (elemsOf executed id).foldl
        (fun row e => row.map (fun r => setRow t env.now false r e)) s.row })
    (P := fun deleted db => deleted.Perm (executed.map Elem.oldId) ∧ Matches db executed)
    (single_deleteCurrent _) (fun db deleted db' done => ?_) (fun id free s => ?_) ?_
  · obtain ⟨matching, perm, updated⟩ := deleteCurrent_ok done
    exact ⟨updateRow_acts matching updated, perm, matching⟩
  · rw [elemsOf_eq_nil (absent k₅ id free)]
    rfl
  intro deleted db l₆ σ₁ k₆ knows ⟨perm, matching⟩ updated
  have k₆ := k₅.trans k₆
  refine acts_bind (P := fun _ _ => True) (single_deleteCurrentTags _)
    (fun db _ db' done => ⟨deleteCurrentTags_ok done, trivial⟩) (fun id free s => ?_) ?_
  · rw [if_neg (absent k₆ id free)]
  intro _ _ l₇ σ₂ k₇ _ _ clearTags
  have k₇ := k₆.trans k₇
  refine acts_bind (P := fun _ _ => True) (single_deleteCurrentRefs _)
    (fun db _ db' done => ⟨deleteCurrentRefs_ok done, trivial⟩) (fun id free s => ?_) ?_
  · rw [if_neg (absent k₇ id free)]
  intro _ _ l₈ σ₃ k₈ _ _ clearRefs
  have k₈ := k₇.trans k₈
  refine acts_bind (single_saveCurrentToHistory _)
    (fun db _ db' done => saveCurrentToHistory_ok done) (fun id free s => ?_) ?_
  · rw [if_neg (absent k₈ id free)]
  intro _ db' l₉ σ₄ k₉ knows' unsaved saveRow
  have version : ∀ e ∈ executed, (objectsOf σ (t, e.id)).version? = some e.version := by
    intro e member
    have same : object db t e.id = objectsOf σ (t, e.id) := knows _ (k₆ _ (own e member))
    rw [← same]
    exact matching.version e member
  refine safe_pure ⟨k₁.trans (k₈.trans k₉), es, executed, gone, used, _, deleted, replaced,
    ⟨fun e member => (locked e member).2, fun id member => ?_, fun e member => (inside e member).2,
      matching.distinct, version, fun e member => ?_, ?_⟩, perm, rfl⟩
  · obtain ⟨e, there, rfl⟩ := List.mem_map.mp member
    have shown := (inside e there).2
    rw [left] at there
    have free := of_decide_eq_true (List.mem_filter.mp there).2
    rw [left]
    simp only [elemsOf, List.filter_filter]
    refine List.filter_congr fun d _ => ?_
    by_cases same : d.id = e.id
    · have here : (objectsOf σ (t, d.id)).visible = true := by
        rw [same]
        exact shown
      simp [same, here, free]
    · simp [same]
  · have written : (objectsOf σ₃ (t, e.id)).row =
        (objectsOf σ (t, e.id)).row.map (fun r => setRow t env.now false r e) ∧
        (objectsOf σ₃ (t, e.id)).history = (objectsOf σ (t, e.id)).history := by
      rw [clearRefs.same, clearTags.same, updated.same, elemsOf_eq_singleton matching.distinct member]
      split <;> exact ⟨rfl, rfl⟩
    have same : object db' t e.id = objectsOf σ₃ (t, e.id) := knows' _ (k₉ _ (k₈ _ (own e member)))
    have free := unsaved e.id (List.mem_map_of_mem member)
    rw [same] at free
    exact unsaved_of_steps env.now false (version e member) written.1 written.2 free
  · have all := updated.trans (clearTags.trans (clearRefs.trans saveRow))
    exact all.congr fun id => deleteSteps_eq env.now matching.distinct id _

end Deletions

end Cgimap.Osmchange.OwnedWrites
