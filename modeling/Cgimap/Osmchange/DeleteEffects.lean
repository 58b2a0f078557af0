/- path: Cgimap/Osmchange/DeleteEffects
   generality: I
   source: none
   digest: A delete batch executes the elements that are visible and not in use. -/

import Cgimap.Osmchange.DeletionEffects

set_option autoImplicit false
set_option relaxedAutoImplicit false

namespace Cgimap.Osmchange.DeleteEffects

open Cgimap.Library.KeyedTable
open Cgimap.Library.StatementProgram
open Cgimap.Library.StatementProgram.Prog
open Cgimap.Model.Types
open Cgimap.Model.Database
open Cgimap.Osmchange.DiffTracking
open Cgimap.Osmchange.UploadRecords
open Cgimap.Osmchange.SqlStatements
open Cgimap.Osmchange.UpdaterChecks
open Cgimap.Osmchange.UpdaterProcess
open Cgimap.Osmchange.ObjectState
open Cgimap.Osmchange.WriteEffects
open Cgimap.Osmchange.CheckEffects
open Cgimap.Osmchange.DeletionEffects

variable {t : ObjectType} {db db' : Db} {env : Env} {es : List (Elem t)}

/-- The elements of a delete batch whose object is not deleted yet. -/
def visibleElems (db : Db) (es : List (Elem t)) : List (Elem t) :=
  es.filter (fun e => db.visible (t, e.id))

theorem mem_visibleElems {e : Elem t} :
    e ∈ visibleElems db es ↔ e ∈ es ∧ db.visible (t, e.id) = true := List.mem_filter

/-- What `process_delete_*` does: `executed` are the elements that it carries out,
`used` the entries for the others that are visible. -/
structure DeleteEffect (env : Env) (es executed : List (Elem t)) (used : List ObjectIdMapping)
    (db db' : Db) : Prop where
  known : ∀ e ∈ es, (object db t e.id).row.isSome
  flagged : ∀ e ∈ es, db.visible (t, e.id) = false → e.ifUnused = true
  versions : VersionsMatch db (visibleElems db es)
  kept : Kept db (visibleElems db es) executed used
  matching : Matches db executed
  unsaved : ∀ e ∈ executed, (object db t e.id).history (e.version + 1) = none
  acts : Acts t (fun id s => (elemsOf executed id).foldl (fun s e => s.delete env.now e) s) db db'

namespace DeleteEffect

variable {executed : List (Elem t)} {used : List ObjectIdMapping}

theorem mem_executed (effect : DeleteEffect env es executed used db db') {e : Elem t} :
    e ∈ executed ↔ e ∈ es ∧ db.visible (t, e.id) = true ∧
      ¬ Blocked db t (visibleElems db es) e.id := by
  obtain ⟨excluded, blocked, rfl⟩ := effect.kept.elems
  rw [List.mem_filter, mem_visibleElems, decide_eq_true_eq, blocked, and_assoc]

end DeleteEffect

theorem visible_of_deletedRows (known : ∀ e ∈ es, (object db t e.id).row.isSome) :
    es.filter (fun e => decide (e.id ∉ (deletedRows db es).map Prod.fst)) =
      visibleElems db es := by
  refine List.filter_congr fun e member => ?_
  have gone : e.id ∈ (deletedRows db es).map Prod.fst ↔ db.visible (t, e.id) = false := by
    constructor
    · intro inside
      obtain ⟨⟨id, v⟩, row, rfl⟩ := List.mem_map.mp inside
      exact (mem_deletedRows.mp row).2.1
    · intro hidden
      obtain ⟨r, found⟩ := Option.isSome_iff_exists.mp (known e member)
      have version : (object db t e.id).version? = some r.version := by
        simp [ObjState.version?, found]
      exact List.mem_map.mpr ⟨(e.id, r.version),
        mem_deletedRows.mpr ⟨List.mem_map_of_mem member, hidden, version⟩, rfl⟩
  rw [Bool.eq_iff_iff, decide_eq_true_eq, gone, Bool.not_eq_false]

/-- The writes of a delete batch to one object, statement after statement. -/
def deleteSteps (now : Int) (es : List (Elem t)) (id : Nat) (s : ObjState t) : ObjState t :=
  let s : ObjState t := { s with
    row := (elemsOf es id).foldl (fun row e => row.map (fun r => setRow t now false r e)) s.row }
  let s : ObjState t := if id ∈ es.map Elem.id then { s with tags := [] } else s
  let s : ObjState t := if id ∈ es.map Elem.id then { s with refs := [] } else s
  if id ∈ es.map Elem.id then s.saveRow else s

theorem deleteSteps_eq (now : Int) (distinct : (es.map Elem.id).Nodup) (id : Nat) (s : ObjState t) :
    deleteSteps now es id s = (elemsOf es id).foldl (fun s e => s.delete now e) s := by
  unfold deleteSteps
  by_cases present : id ∈ es.map Elem.id
  · obtain ⟨e, member, rfl⟩ := List.mem_map.mp present
    simp only [elemsOf_eq_singleton distinct member, List.foldl_cons, List.foldl_nil, present,
      if_true]
    rw [ObjState.delete, ObjState.archive, ObjState.saveTags_of_nil _ rfl,
      ObjState.saveRefs_of_nil _ rfl]
    rfl
  · simp only [present, if_false, elemsOf_eq_nil present, List.foldl_nil]

theorem processDelete_ok {st st' : Upload}
    (done : (processDelete env t st).run db = .ok (st', db')) :
    ∃ es executed used box deleted, replaceOldIds st.ct (st.updater t).deleteBuf = .ok es ∧
      DeleteEffect env es executed used db db' ∧ deleted.Perm (executed.map Elem.oldId) ∧
      st' = { st with
        ct := ((st.ct.addSkipDeleted t ((deletedRows db es).map (skippedEntry es))).addSkipDeleted
          t used).addDeleted t deleted : Upload }.setUpdater
        { st.updater t with bbox := box, deleteBuf := [] } := by
  rw [processDelete, run_bind_eq_ok] at done
  obtain ⟨es, _, first, done⟩ := done
  obtain ⟨replaced, rfl⟩ := run_liftExcept_eq_ok.mp first
  rw [run_bind_eq_ok] at done
  obtain ⟨_, _, lock, done⟩ := done
  obtain ⟨rfl, locked⟩ := lockCurrent_ok lock
  have known : ∀ e ∈ es, (object _ t e.id).row.isSome := fun e member =>
    locked e.id (mem_sortUnique.mpr (List.mem_map_of_mem member))
  rw [run_bind_eq_ok] at done
  obtain ⟨⟨alreadyDeleted, gone⟩, db₀, determine, done⟩ := done
  dsimp only at done
  rcases determineAlreadyDeleted_cases _ es with ⟨allowed, run⟩ | ⟨-, error, run, -⟩
  · rw [run] at determine
    cases determine
    rw [visible_of_deletedRows known, run_bind_eq_ok] at done
    obtain ⟨_, _, check, done⟩ := done
    obtain ⟨rfl, versions⟩ := checkCurrentVersions_ok check
    rw [run_bind_eq_ok] at done
    obtain ⟨⟨executed, used⟩, _, referenced, done⟩ := done
    obtain ⟨rfl, kept⟩ := isStillReferenced_ok referenced
    dsimp only at done
    rw [run_bind_eq_ok] at done
    obtain ⟨box, db₀, read, done⟩ := done
    obtain rfl := (calcBbox_reads env t _).run_eq_ok read
    rw [run_bind_eq_ok] at done
    obtain ⟨deleted, db₁, update, done⟩ := done
    rw [run_bind_eq_ok] at done
    obtain ⟨_, db₂, clearTags, done⟩ := done
    rw [run_bind_eq_ok] at done
    obtain ⟨_, db₃, clearRefs, done⟩ := done
    rw [run_bind_eq_ok] at done
    obtain ⟨_, db₄, saveRow, done⟩ := done
    cases done
    obtain ⟨matching, perm, updated⟩ := deleteCurrent_ok update
    have tagsCleared := deleteCurrentTags_ok clearTags
    have refsCleared := deleteCurrentRefs_ok clearRefs
    obtain ⟨rowSaved, unsaved⟩ := saveCurrentToHistory_ok saveRow
    refine ⟨es, executed, used, _, deleted, replaced, ⟨known, fun e member hidden => ?_, versions,
      kept, matching, fun e member => ?_, ?_⟩, perm, rfl⟩
    · refine allowed.flagged e member ?_
      obtain ⟨r, found⟩ := Option.isSome_iff_exists.mp (known e member)
      refine List.mem_map.mpr ⟨(e.id, r.version), mem_deletedRows.mpr
        ⟨List.mem_map_of_mem member, hidden, ?_⟩, rfl⟩
      simp [ObjState.version?, found]
    · refine unsaved_of_update env false matching (fun id => ?_) (fun id => ?_) (fun d inside => unsaved d.id
        (List.mem_map_of_mem inside)) member
      · rw [refsCleared.same, tagsCleared.same, updated.same]
        split <;> rfl
      · rw [refsCleared.same, tagsCleared.same, updated.same]
        split <;> rfl
    · have all := (updateRow_acts matching updated).trans (tagsCleared.trans (refsCleared.trans rowSaved))
      exact all.congr fun id => deleteSteps_eq env.now matching.distinct id _
  · rw [run] at determine
    cases determine

section Outcome

variable {executed : List (Elem t)} {used : List ObjectIdMapping}

theorem object_spared (effect : DeleteEffect env es executed used db db') {t' : ObjectType}
    {id : Nat} (free : ¬ (t' = t ∧ id ∈ executed.map Elem.id)) :
    object db' t' id = object db t' id := by
  by_cases own : t' = t
  · subst own
    rw [effect.acts.same, elemsOf_eq_nil fun inside => free ⟨rfl, inside⟩]
    rfl
  · exact effect.acts.other t' own id

theorem object_executed (effect : DeleteEffect env es executed used db db') {e : Elem t}
    (member : e ∈ executed) : object db' t e.id = (object db t e.id).delete env.now e := by
  rw [effect.acts.same, elemsOf_eq_singleton effect.matching.distinct member]
  rfl

theorem hidden_of_executed (effect : DeleteEffect env es executed used db db') {e : Elem t}
    (member : e ∈ executed) : db'.visible (t, e.id) = false := by
  rw [visible_eq, object_executed effect member, ObjState.delete_row]
  cases (object db t e.id).row <;> rfl

/-- The elements of one object are carried out together or not at all. -/
theorem elemsOf_executed (effect : DeleteEffect env es executed used db db') {id : Nat}
    (inside : id ∈ executed.map Elem.id) : elemsOf es id = elemsOf executed id := by
  obtain ⟨e, member, rfl⟩ := List.mem_map.mp inside
  obtain ⟨-, shown, free⟩ := effect.mem_executed.mp member
  obtain ⟨excluded, blocked, rfl⟩ := effect.kept.elems
  simp only [elemsOf, visibleElems, List.filter_filter]
  refine List.filter_congr fun d _ => ?_
  by_cases same : d.id = e.id
  · have out : e.id ∉ excluded := fun taken => free ((blocked e.id).mp taken)
    simp [same, shown, out]
  · simp [same]

theorem mem_executed_of_id (effect : DeleteEffect env es executed used db db') {e : Elem t}
    (member : e ∈ es) : e.id ∈ executed.map Elem.id ↔ e ∈ executed := by
  constructor
  · intro inside
    obtain ⟨d, there, same⟩ := List.mem_map.mp inside
    obtain ⟨-, shown, free⟩ := effect.mem_executed.mp there
    rw [same] at shown free
    exact effect.mem_executed.mpr ⟨member, shown, free⟩
  · exact fun there => List.mem_map_of_mem there

private theorem idToOldId_visibleElems {id : Nat} (shown : db.visible (t, id) = true) :
    idToOldId (visibleElems db es) id = idToOldId es id := by
  unfold idToOldId visibleElems
  rw [← List.filter_reverse, List.find?_filter]
  congr 3
  funext e
  by_cases same : e.id = id
  · simp [same, shown]
  · simp [same]

theorem mem_skippedEntries (effect : DeleteEffect env es executed used db db')
    {m : ObjectIdMapping} :
    m ∈ (deletedRows db es).map (skippedEntry es) ∨ m ∈ used ↔
      ∃ e ∈ es, e ∉ executed ∧ m = skippedEntry es (e.id, ((object db t e.id).version?).getD 0) := by
  have version : ∀ e ∈ es, ∀ v, (object db t e.id).version? = some v ↔
      v = ((object db t e.id).version?).getD 0 := by
    intro e member v
    obtain ⟨r, found⟩ := Option.isSome_iff_exists.mp (effect.known e member)
    simp [ObjState.version?, found, eq_comm]
  constructor
  · rintro (gone | blocked)
    · obtain ⟨⟨id, v⟩, row, rfl⟩ := List.mem_map.mp gone
      obtain ⟨inside, hidden, current⟩ := mem_deletedRows.mp row
      obtain ⟨e, member, rfl⟩ := List.mem_map.mp inside
      rw [(version e member v).mp current]
      refine ⟨e, member, fun done => ?_, rfl⟩
      rw [(effect.mem_executed.mp done).2.1] at hidden
      cases hidden
    · obtain ⟨id, v, block, current, rfl⟩ := (effect.kept.entries m).mp blocked
      obtain ⟨e, member, rfl⟩ := List.mem_map.mp block.1
      obtain ⟨inside, shown⟩ := mem_visibleElems.mp member
      rw [(version e inside v).mp current, skippedEntry, idToOldId_visibleElems shown]
      exact ⟨e, inside, fun done => (effect.mem_executed.mp done).2.2 block, rfl⟩
  · rintro ⟨e, member, skipped, rfl⟩
    have current := (version e member _).mpr rfl
    by_cases shown : db.visible (t, e.id) = true
    · right
      have block : Blocked db t (visibleElems db es) e.id := by
        by_contra free
        exact skipped (effect.mem_executed.mpr ⟨member, shown, free⟩)
      refine (effect.kept.entries _).mpr ⟨e.id, _, block, current, ?_⟩
      rw [skippedEntry, skippedEntry, idToOldId_visibleElems shown]
    · left
      exact List.mem_map_of_mem (mem_deletedRows.mpr
        ⟨List.mem_map_of_mem member, by simpa using shown, current⟩)

end Outcome

end Cgimap.Osmchange.DeleteEffects
