/- path: Cgimap/Osmchange/WriteEffects
   generality: I
   source: none
   digest: What each writing function of the updaters does to the objects. -/

import Cgimap.Library.ExceptLists
import Cgimap.Osmchange.ObjectState
import Cgimap.Osmchange.UpdaterProcess

set_option autoImplicit false
set_option relaxedAutoImplicit false

namespace Cgimap.Osmchange.WriteEffects

open Cgimap.Library.ExceptLists
open Cgimap.Library.KeyedTable
open Cgimap.Library.StatementProgram
open Cgimap.Library.StatementProgram.Prog
open Cgimap.Model.Types
open Cgimap.Model.Database
open Cgimap.Osmchange.DiffTracking
open Cgimap.Osmchange.UploadRecords
open Cgimap.Osmchange.SqlStatements
open Cgimap.Osmchange.UpdaterChecks
open Cgimap.Osmchange.UpdaterProcess
open Cgimap.Osmchange.ObjectState

variable {t : ObjectType} {db db' : Db}

section Statements

private theorem deleteTagRows_acts (ids : List Nat) :
    Acts t (fun id s => if id ∈ ids then { s with tags := [] } else s) db
      (db.setTags t ((db.currentTags t).delete (fun r => decide (r.owner ∈ ids)))) := by
  refine (acts_setTags db t _).congr fun id => ?_
  rw [Table.select_delete_owner]
  split <;> rfl

private theorem deleteRefRows_acts (ids : List Nat) :
    Acts t (fun id s => if id ∈ ids then { s with refs := [] } else s) db
      (db.setRefs t ((db.currentRefs t).delete (fun r => decide (r.owner ∈ ids)))) := by
  refine (acts_setRefs db t _).congr fun id => ?_
  rw [Table.select_delete_owner]
  split <;> rfl

private theorem insertTagRows_acts {rows : List TagRow} {T : Table TagRow.key}
    (done : (db.currentTags t).insert rows = some T) :
    Acts t (fun id s => { s with
      tags := s.tags ++ (rows.filter (fun r => decide (r.owner = id))).map (fun r => (r.k, r.v)) })
      db (db.setTags t T) := by
  refine (acts_setTags db t _).congr fun id => ?_
  rw [Table.select_insert _ done, List.map_append]
  rfl

private theorem insertRefRows_acts {rows : List (RefRow t)} {T : Table (RefRow.key (t := t))}
    (done : (db.currentRefs t).insert rows = some T) :
    Acts t (fun id s => { s with
      refs := s.refs ++
        (rows.filter (fun r => decide (r.owner = id))).map (fun r => (r.sequenceId, r.ref)) })
      db (db.setRefs t T) := by
  refine (acts_setRefs db t _).congr fun id => ?_
  rw [Table.select_insert _ done, List.map_append]
  rfl

private theorem updateCurrentRows_acts (now : Int) (visible : Bool) (es : List (Elem t)) :
    Acts t (fun _ s => { s with row := s.row.map (updateRow t now visible es) }) db
      (db.setCurrent t ((db.current t).update (updateRow t now visible es)
        (updateRow_id t now visible es))) := by
  refine (acts_setCurrent db t _).congr fun id => ?_
  rw [Table.find?_update]
  rfl

private theorem currentToHistory_acts {ids : List Nat} {T : Table (HistoryRow.key (t := t))}
    (done : (db.history t).insert (((db.current t).select (fun r => decide (r.id ∈ ids))).map
      (fun r => (⟨r, none⟩ : HistoryRow t))) = some T) :
    Acts t (fun id s => if id ∈ ids then s.saveRow else s) db (db.setHistory t T) := by
  refine (acts_setHistory db t _).congr fun id => ?_
  have saved : ∀ v, (((db.current t).select (fun r => decide (r.id ∈ ids))).map
      (fun r => (⟨r, none⟩ : HistoryRow t))).find? (fun h => decide (HistoryRow.key h = (id, v))) =
      (((db.current t).find? id).filter (fun r => decide (r.id ∈ ids) &&
        decide (r.version = v))).map (fun r => ⟨r, none⟩) := by
    intro v
    rw [← Table.find?_select, List.find?_map]
    congr 2
    funext r
    simp [HistoryRow.key, Prod.ext_iff]
  split
  · rename_i inside
    simp only [ObjState.saveRow, object, ObjState.mk.injEq, true_and, and_true]
    funext v
    rw [Table.find?_insert done, saved]
    congr 2
    cases found : (db.current t).find? id with
    | none => rfl
    | some r =>
        have here : r.id = id := (Table.find?_eq_some.mp found).2
        simp [Option.filter_some, here, inside]
  · rename_i outside
    simp only [object, ObjState.mk.injEq, true_and, and_true]
    funext v
    rw [Table.find?_insert done, saved]
    cases found : (db.current t).find? id with
    | none => simp
    | some r =>
        have here : r.id = id := (Table.find?_eq_some.mp found).2
        simp [Option.filter_some, here, outside]

private theorem currentTagsToHistory_acts {ids : List Nat} {T : Table HistoryTagRow.key}
    (done : (db.historyTags t).insert (((db.currentTags t).select
      (fun r => decide (r.owner ∈ ids))).filterMap
        (fun r => (db.version? t r.owner).map (fun v => (⟨r, v⟩ : HistoryTagRow)))) = some T) :
    Acts t (fun id s => if id ∈ ids then s.saveTags else s) db (db.setHistoryTags t T) := by
  refine (acts_setHistoryTags db t _).congr fun id => ?_
  have read : ∀ v, (T.select (fun r => decide (r.owner = id ∧ r.version = v))).map
      (fun r => (r.k, r.v)) = db.historyTagsOf t id v ++
        if id ∈ ids ∧ db.version? t id = some v then db.tagsOf t id else [] := by
    intro v
    rw [Table.select_insert _ done, List.map_append]
    congr 1
    rw [Table.select, filter_filterMap_owner TagRow.owner (db.version? t) (fun r v => ⟨r, v⟩)
      (fun r => r.owner) HistoryTagRow.version (fun _ _ => rfl) (fun _ _ => rfl)]
    split
    · rw [List.map_map]
      rfl
    · rfl
  split
  · rename_i inside
    refine ObjState.ext rfl rfl rfl rfl (funext fun v => ?_) rfl
    refine (read v).trans ?_
    by_cases current : (object db t id).version? = some v
    · rw [if_pos ⟨inside, current⟩]
      exact (congrArg _ (if_pos current)).symm
    · rw [if_neg (fun both => current both.2)]
      exact (congrArg _ (if_neg current)).symm
  · rename_i outside
    simp only [read, outside, false_and, if_false, List.append_nil]
    rfl

private theorem currentRefsToHistory_acts {ids : List Nat}
    {T : Table (HistoryRefRow.key (t := t))}
    (done : (db.historyRefs t).insert (((db.currentRefs t).select
      (fun r => decide (r.owner ∈ ids))).filterMap
        (fun r => (db.version? t r.owner).map (fun v => (⟨r, v⟩ : HistoryRefRow t)))) = some T) :
    Acts t (fun id s => if id ∈ ids then s.saveRefs else s) db (db.setHistoryRefs t T) := by
  refine (acts_setHistoryRefs db t _).congr fun id => ?_
  have read : ∀ v, (T.select (fun r => decide (r.owner = id ∧ r.version = v))).map
      (fun r => (r.sequenceId, r.ref)) = db.historyRefsOf t id v ++
        if id ∈ ids ∧ db.version? t id = some v then db.refsOf t id else [] := by
    intro v
    rw [Table.select_insert _ done, List.map_append]
    congr 1
    rw [Table.select, filter_filterMap_owner RefRow.owner (db.version? t) (fun r v => ⟨r, v⟩)
      (fun r => r.owner) HistoryRefRow.version (fun _ _ => rfl) (fun _ _ => rfl)]
    split
    · rw [List.map_map]
      rfl
    · rfl
  split
  · rename_i inside
    refine ObjState.ext rfl rfl rfl rfl rfl (funext fun v => ?_)
    refine (read v).trans ?_
    by_cases current : (object db t id).version? = some v
    · rw [if_pos ⟨inside, current⟩]
      exact (congrArg _ (if_pos current)).symm
    · rw [if_neg (fun both => current both.2)]
      exact (congrArg _ (if_neg current)).symm
  · rename_i outside
    simp only [read, outside, false_and, if_false, List.append_nil]
    rfl

end Statements

section Runs

variable {env : Env} {es : List (Elem t)} {ids : List Nat}

def elemsOf (es : List (Elem t)) (id : Nat) : List (Elem t) :=
  es.filter (fun e => decide (e.id = id))

theorem mem_elemsOf {id : Nat} {e : Elem t} : e ∈ elemsOf es id ↔ e ∈ es ∧ e.id = id := by
  simp [elemsOf]

theorem elemsOf_eq_nil {id : Nat} (absent : id ∉ es.map Elem.id) : elemsOf es id = [] := by
  refine List.filter_eq_nil_iff.mpr fun e member => ?_
  have other : e.id ≠ id := fun same => absent (same ▸ List.mem_map_of_mem member)
  simp [other]

theorem elemsOf_eq_singleton (distinct : (es.map Elem.id).Nodup) {e : Elem t} (member : e ∈ es) :
    elemsOf es e.id = [e] := filter_key_eq_singleton distinct member

theorem elemsOf_ne_nil {id : Nat} : elemsOf es id ≠ [] ↔ ∃ e ∈ es, e.id = id := by
  constructor
  · intro some
    obtain ⟨e, member⟩ := List.exists_mem_of_ne_nil _ some
    exact ⟨e, mem_elemsOf.mp member⟩
  · rintro ⟨e, member⟩
    exact List.ne_nil_of_mem (mem_elemsOf.mpr member)

theorem length_elemsOf_le_one (distinct : (es.map Elem.id).Nodup) (id : Nat) :
    (elemsOf es id).length ≤ 1 := by
  by_cases present : id ∈ es.map Elem.id
  · obtain ⟨e, member, rfl⟩ := List.mem_map.mp present
    rw [elemsOf_eq_singleton distinct member]
    exact le_refl 1
  · rw [elemsOf_eq_nil present]
    exact Nat.zero_le 1

theorem tagRows_owner (id : Nat) :
    ((tagRows es).filter (fun r => decide (r.owner = id))).map (fun r => (r.k, r.v)) =
      (elemsOf es id).flatMap Elem.tags := by
  induction es with
  | nil => rfl
  | cons e es ih =>
      simp only [tagRows, List.flatMap_cons, List.filter_append, List.map_append] at ih ⊢
      rw [ih]
      by_cases here : e.id = id
      · simp [elemsOf, here, List.filter_map, Function.comp_def]
      · simp [elemsOf, here, List.filter_map, Function.comp_def]

theorem refRows_owner (id : Nat) :
    ((refRows es).filter (fun r => decide (r.owner = id))).map (fun r => (r.sequenceId, r.ref)) =
      (elemsOf es id).flatMap ObjState.refsOfElem := by
  induction es with
  | nil => rfl
  | cons e es ih =>
      simp only [refRows, List.flatMap_cons, List.filter_append, List.map_append] at ih ⊢
      rw [ih]
      by_cases here : e.id = id
      · simp [elemsOf, here, List.filter_map, Function.comp_def, ObjState.refsOfElem]
      · simp [elemsOf, here, List.filter_map, Function.comp_def]

theorem mem_uniqueIds {id : Nat} : id ∈ uniqueIds es ↔ id ∈ es.map Elem.id := mem_sortUnique

theorem mem_idsWithTags (distinct : (es.map Elem.id).Nodup) {e : Elem t} (member : e ∈ es) :
    e.id ∈ sortUnique ((tagRows es).map TagRow.owner) ↔ e.tags ≠ [] := by
  rw [mem_sortUnique, List.mem_map]
  constructor
  · rintro ⟨row, inside, same⟩ none
    obtain ⟨d, member', tag⟩ := List.mem_flatMap.mp inside
    obtain ⟨kv, tagged, rfl⟩ := List.mem_map.mp tag
    rw [List.inj_on_of_nodup_map distinct member' member same, none] at tagged
    cases tagged
  · intro some
    obtain ⟨kv, tagged⟩ := List.exists_mem_of_ne_nil _ some
    exact ⟨⟨e.id, kv.1, kv.2⟩,
      List.mem_flatMap.mpr ⟨e, member, List.mem_map.mpr ⟨kv, tagged, rfl⟩⟩, rfl⟩

theorem not_mem_idsWithTags {id : Nat} (absent : id ∉ es.map Elem.id) :
    id ∉ sortUnique ((tagRows es).map TagRow.owner) := by
  rw [mem_sortUnique, List.mem_map]
  rintro ⟨row, inside, rfl⟩
  obtain ⟨d, member, tag⟩ := List.mem_flatMap.mp inside
  obtain ⟨kv, -, rfl⟩ := List.mem_map.mp tag
  exact absent (List.mem_map_of_mem member)

theorem refs_node (h : t = .node) (l : List (Nat × Ref t)) : l = [] := by
  subst h
  cases l with
  | nil => rfl
  | cons r l => exact nomatch r.2

theorem deleteCurrentTags_run (db : Db) (t : ObjectType) (ids : List Nat) :
    ∃ db', (deleteCurrentTags t ids).run db = .ok ((), db') ∧
      Acts t (fun id s => if id ∈ ids then { s with tags := [] } else s) db db' := by
  unfold deleteCurrentTags
  split
  · rename_i empty
    rw [List.isEmpty_iff] at empty
    subst empty
    exact ⟨db, rfl, by simpa using Acts.refl⟩
  · exact ⟨_, run_perform _ _, deleteTagRows_acts ids⟩

theorem deleteCurrentRefs_run (db : Db) (t : ObjectType) (ids : List Nat) :
    ∃ db', (deleteCurrentRefs t ids).run db = .ok ((), db') ∧
      Acts t (fun id s => if id ∈ ids then { s with refs := [] } else s) db db' := by
  unfold deleteCurrentRefs
  split
  · rename_i nothing
    refine ⟨db, rfl, Acts.refl.congr fun id => ?_⟩
    rw [Bool.or_eq_true, List.isEmpty_iff, decide_eq_true_eq] at nothing
    rcases nothing with rfl | node
    · simp
    · split
      · exact ObjState.ext rfl rfl (refs_node node _) rfl rfl rfl
      · rfl
  · exact ⟨_, run_perform _ _, deleteRefRows_acts ids⟩

theorem deleteCurrentTags_ok {u : Unit}
    (done : (deleteCurrentTags t ids).run db = .ok (u, db')) :
    Acts t (fun id s => if id ∈ ids then { s with tags := [] } else s) db db' := by
  obtain ⟨db₁, run, acts⟩ := deleteCurrentTags_run db t ids
  rw [run] at done
  cases done
  exact acts

theorem deleteCurrentRefs_ok {u : Unit}
    (done : (deleteCurrentRefs t ids).run db = .ok (u, db')) :
    Acts t (fun id s => if id ∈ ids then { s with refs := [] } else s) db db' := by
  obtain ⟨db₁, run, acts⟩ := deleteCurrentRefs_run db t ids
  rw [run] at done
  cases done
  exact acts

theorem insertNewCurrentTags_ok {idsWithTags : List Nat}
    (done : (insertNewCurrentTags t es).run db = .ok (idsWithTags, db')) :
    idsWithTags = sortUnique ((tagRows es).map TagRow.owner) ∧
      Acts t (fun id s => { s with tags := s.tags ++ (elemsOf es id).flatMap Elem.tags }) db db' := by
  unfold insertNewCurrentTags at done
  split at done
  · rename_i empty
    rw [List.isEmpty_iff] at empty
    subst empty
    cases done
    exact ⟨rfl, by simpa [elemsOf] using Acts.refl⟩
  · rw [run_bind_eq_ok] at done
    obtain ⟨_, _, first, rest⟩ := done
    cases rest
    rw [run_perform, insertTagRows] at first
    cases inserted : (db.currentTags t).insert (tagRows es) with
    | none => simp [inserted] at first
    | some T =>
        simp only [inserted, Except.ok.injEq, Prod.mk.injEq, true_and] at first
        subst first
        refine ⟨rfl, ?_⟩
        simpa only [tagRows_owner] using insertTagRows_acts inserted

theorem insertNewCurrentRefs_ok {u : Unit}
    (done : (insertNewCurrentRefs t es).run db = .ok (u, db')) :
    Acts t (fun id s => { s with refs := s.refs ++ (elemsOf es id).flatMap ObjState.refsOfElem })
      db db' := by
  unfold insertNewCurrentRefs at done
  split at done
  · rename_i nothing
    cases done
    refine Acts.refl.congr fun id => ?_
    rw [Bool.or_eq_true, List.isEmpty_iff, decide_eq_true_eq] at nothing
    rcases nothing with rfl | node
    · simp [elemsOf]
    · exact ObjState.ext rfl rfl ((refs_node node _).trans (refs_node node _).symm) rfl rfl rfl
  · rw [run_perform, insertRefRows] at done
    cases inserted : (db.currentRefs t).insert (refRows es) with
    | none => simp [inserted] at done
    | some T =>
        simp only [inserted, Except.ok.injEq, Prod.mk.injEq, true_and] at done
        obtain ⟨-, rfl⟩ := done
        simpa only [refRows_owner] using insertRefRows_acts inserted

theorem saveCurrentToHistory_ok {u : Unit}
    (done : (saveCurrentToHistory t ids).run db = .ok (u, db')) :
    Acts t (fun id s => if id ∈ ids then s.saveRow else s) db db' ∧
      ∀ id ∈ ids, ∀ r, (object db t id).row = some r →
        (object db t id).history r.version = none := by
  unfold saveCurrentToHistory at done
  split at done
  · rename_i empty
    rw [List.isEmpty_iff] at empty
    subst empty
    cases done
    exact ⟨by simpa using Acts.refl, nofun⟩
  · rw [run_bind_eq_ok] at done
    obtain ⟨affected, db₁, first, rest⟩ := done
    have same : db₁ = db' := by
      split at rest
      · cases rest
      · cases rest
        rfl
    subst same
    rw [run_perform, currentToHistory] at first
    cases inserted : (db.history t).insert (((db.current t).select
        (fun r => decide (r.id ∈ ids))).map (fun r => (⟨r, none⟩ : HistoryRow t))) with
    | none => simp [inserted] at first
    | some T =>
        simp only [inserted, Except.ok.injEq, Prod.mk.injEq] at first
        obtain ⟨-, rfl⟩ := first
        refine ⟨currentToHistory_acts inserted, fun id inside r found => ?_⟩
        obtain ⟨row, rfl⟩ := Table.find?_eq_some.mp found
        refine (Table.insert_eq_some inserted).2.2 ⟨r, none⟩ (List.mem_map_of_mem ?_)
        exact (Table.mem_select _ _).mpr ⟨row, decide_eq_true inside⟩

theorem saveCurrentTagsToHistory_ok {u : Unit}
    (done : (saveCurrentTagsToHistory t ids).run db = .ok (u, db')) :
    Acts t (fun id s => if id ∈ ids then s.saveTags else s) db db' := by
  unfold saveCurrentTagsToHistory at done
  split at done
  · rename_i empty
    rw [List.isEmpty_iff] at empty
    subst empty
    cases done
    simpa using Acts.refl
  · rw [run_perform, currentTagsToHistory] at done
    cases inserted : (db.historyTags t).insert (((db.currentTags t).select
        (fun r => decide (r.owner ∈ ids))).filterMap
          (fun r => (db.version? t r.owner).map (fun v => (⟨r, v⟩ : HistoryTagRow)))) with
    | none => simp [inserted] at done
    | some T =>
        simp only [inserted, Except.ok.injEq, Prod.mk.injEq] at done
        obtain ⟨-, rfl⟩ := done
        exact currentTagsToHistory_acts inserted

theorem saveCurrentRefsToHistory_ok {u : Unit}
    (done : (saveCurrentRefsToHistory t ids).run db = .ok (u, db')) :
    Acts t (fun id s => if id ∈ ids then s.saveRefs else s) db db' := by
  unfold saveCurrentRefsToHistory at done
  split at done
  · rename_i nothing
    cases done
    refine Acts.refl.congr fun id => ?_
    rw [Bool.or_eq_true, List.isEmpty_iff, decide_eq_true_eq] at nothing
    rcases nothing with rfl | node
    · simp
    · split
      · exact ObjState.ext rfl rfl rfl rfl rfl
          (funext fun v => (refs_node node _).trans (refs_node node _).symm)
      · rfl
  · rw [run_perform, currentRefsToHistory] at done
    cases inserted : (db.historyRefs t).insert (((db.currentRefs t).select
        (fun r => decide (r.owner ∈ ids))).filterMap
          (fun r => (db.version? t r.owner).map (fun v => (⟨r, v⟩ : HistoryRefRow t)))) with
    | none => simp [inserted] at done
    | some T =>
        simp only [inserted, Except.ok.injEq, Prod.mk.injEq] at done
        obtain ⟨-, rfl⟩ := done
        exact currentRefsToHistory_acts inserted

end Runs

section Update

variable {env : Env} {visible : Bool} {es : List (Elem t)}

/-- Every element names its own object, in the version that is current. -/
structure Matches (db : Db) (es : List (Elem t)) : Prop where
  distinct : (es.map Elem.id).Nodup
  version : ∀ e ∈ es, (object db t e.id).version? = some e.version

theorem Matches.row (m : Matches db es) {e : Elem t} (member : e ∈ es) :
    ∃ r ∈ db.current t, r.id = e.id ∧ r.version = e.version := by
  obtain ⟨r, found, same⟩ := Option.map_eq_some_iff.mp (m.version e member)
  obtain ⟨inside, here⟩ := Table.find?_eq_some.mp found
  exact ⟨r, inside, here, same⟩

theorem Matches.of_rows (m : Matches db es)
    (same : ∀ id, (object db' t id).row = (object db t id).row) : Matches db' es where
  distinct := m.distinct
  version e member := by
    rw [ObjState.version?, same]
    exact m.version e member

private theorem joined_spec {r : CurrentRow t} {e : Elem t} (found : joined t es r = some e) :
    e ∈ es ∧ e.id = r.id ∧ e.version = r.version :=
  ⟨List.mem_of_find?_eq_some found, by simpa using List.find?_some found⟩

private theorem joined_ids_nodup (db : Db) (es : List (Elem t)) :
    (((db.current t).select (fun r => (joined t es r).isSome)).map CurrentRow.id).Nodup :=
  (db.current t).nodup.sublist (List.filter_sublist.map _)

private theorem joined_ids_subset (db : Db) (es : List (Elem t)) :
    ((db.current t).select (fun r => (joined t es r).isSome)).map CurrentRow.id ⊆
      es.map Elem.id := by
  intro id member
  obtain ⟨r, selected, rfl⟩ := List.mem_map.mp member
  obtain ⟨e, found⟩ := Option.isSome_iff_exists.mp ((Table.mem_select _ _).mp selected).2
  obtain ⟨inside, same, -⟩ := joined_spec found
  exact same ▸ List.mem_map_of_mem inside

private theorem matches_of_length
    (count : ((db.current t).select (fun r => (joined t es r).isSome)).length = es.length) :
    Matches db es ∧
      (((db.current t).select (fun r => (joined t es r).isSome)).map CurrentRow.id).Perm
        (es.map Elem.id) := by
  have perm : (((db.current t).select (fun r => (joined t es r).isSome)).map CurrentRow.id).Perm
      (es.map Elem.id) := by
    refine List.Subperm.perm_of_length_le
      ((joined_ids_nodup db es).subperm (joined_ids_subset db es)) ?_
    simp [count]
  have distinct : (es.map Elem.id).Nodup := perm.nodup_iff.mp (joined_ids_nodup db es)
  refine ⟨⟨distinct, fun e member => ?_⟩, perm⟩
  obtain ⟨r, selected, here⟩ := List.mem_map.mp (perm.mem_iff.mpr (List.mem_map_of_mem member))
  obtain ⟨inside, hit⟩ := (Table.mem_select _ _).mp selected
  obtain ⟨e', found⟩ := Option.isSome_iff_exists.mp hit
  obtain ⟨member', same, version⟩ := joined_spec found
  have equal : e' = e := List.inj_on_of_nodup_map distinct member' member (same.trans here)
  subst equal
  have row : (db.current t).find? e'.id = some r := Table.find?_eq_some.mpr ⟨inside, here⟩
  simp [ObjState.version?, object, row, version]

private theorem length_of_matches (m : Matches db es) :
    ((db.current t).select (fun r => (joined t es r).isSome)).length = es.length := by
  have perm : (((db.current t).select (fun r => (joined t es r).isSome)).map CurrentRow.id).Perm
      (es.map Elem.id) := by
    refine (List.perm_ext_iff_of_nodup (joined_ids_nodup db es) m.distinct).mpr fun id => ?_
    refine ⟨fun member => joined_ids_subset db es member, fun member => ?_⟩
    obtain ⟨e, inside, rfl⟩ := List.mem_map.mp member
    obtain ⟨r, row, here, version⟩ := m.row inside
    refine List.mem_map.mpr ⟨r, (Table.mem_select _ _).mpr ⟨row, ?_⟩, here⟩
    rw [joined, List.find?_isSome]
    exact ⟨e, inside, by simp [here, version]⟩
  simpa using perm.length_eq

theorem updateCurrent_ok {rows : List (Nat × Nat)}
    (done : (updateCurrent t env visible es).run db = .ok (rows, db')) :
    Matches db es ∧ rows.Perm (es.map (fun e => (e.id, e.version + 1))) ∧
      Acts t (fun _ s => { s with row := s.row.map (updateRow t env.now visible es) }) db db' := by
  unfold updateCurrent at done
  split at done
  · rename_i empty
    rw [List.isEmpty_iff] at empty
    subst empty
    cases done
    refine ⟨⟨List.nodup_nil, fun e member => nomatch member⟩, List.Perm.nil,
      Acts.refl.congr fun id => ?_⟩
    have same : ∀ r, updateRow t env.now visible [] r = r := fun r => rfl
    simp only [funext same, Option.map_id']
  · rw [run_bind_eq_ok] at done
    obtain ⟨rows₁, db₁, first, rest⟩ := done
    rw [run_perform, updateCurrentRows] at first
    simp only [Except.ok.injEq, Prod.mk.injEq] at first
    obtain ⟨rfl, rfl⟩ := first
    split at rest
    · cases rest
    · rename_i count
      cases rest
      rw [not_not, List.length_map] at count
      obtain ⟨m, perm⟩ := matches_of_length count
      refine ⟨m, ?_, updateCurrentRows_acts env.now visible es⟩
      -- both sides are the image of the ids under one function of the old table
      have image := perm.map (fun id => (id, ((object db t id).version?).getD 0 + 1))
      rw [List.map_map, List.map_map] at image
      refine (List.Perm.of_eq ?_).trans (image.trans (List.Perm.of_eq ?_))
      · refine List.map_congr_left fun r selected => ?_
        have row := Table.find?_key ((Table.mem_select _ _).mp selected).1
        simp [ObjState.version?, object, row]
      · refine List.map_congr_left fun e member => ?_
        simp [m.version e member]

theorem updateCurrent_run (env : Env) (visible : Bool) (m : Matches db es) :
    ∃ rows db', (updateCurrent t env visible es).run db = .ok (rows, db') := by
  unfold updateCurrent
  split
  · exact ⟨_, _, rfl⟩
  · rw [run_bind, run_perform, updateCurrentRows]
    simp only [List.length_map, length_of_matches m, ne_eq, not_true_eq_false, if_false]
    exact ⟨_, _, rfl⟩

/-- With matching elements the update writes each of them to its own object. -/
theorem updateRow_object (env : Env) (visible : Bool) (m : Matches db es) (id : Nat) :
    (object db t id).row.map (updateRow t env.now visible es) =
      (elemsOf es id).foldl (fun row e => row.map (fun r => setRow t env.now visible r e))
        (object db t id).row := by
  by_cases present : id ∈ es.map Elem.id
  · obtain ⟨e, member, rfl⟩ := List.mem_map.mp present
    obtain ⟨r, found, version⟩ := Option.map_eq_some_iff.mp (m.version e member)
    obtain ⟨-, here⟩ := Table.find?_eq_some.mp found
    have join : joined t es r = some e := by
      have hit : (joined t es r).isSome := by
        rw [joined, List.find?_isSome]
        exact ⟨e, member, by simp [here, version]⟩
      obtain ⟨e', found'⟩ := Option.isSome_iff_exists.mp hit
      obtain ⟨member', same, -⟩ := joined_spec found'
      rw [found', List.inj_on_of_nodup_map m.distinct member' member (same.trans here)]
    rw [elemsOf_eq_singleton m.distinct member, found]
    simp [updateRow, join]
  · rw [elemsOf_eq_nil present, List.foldl_nil]
    cases found : (object db t id).row with
    | none => rfl
    | some r =>
        obtain ⟨-, here⟩ := Table.find?_eq_some.mp found
        have join : joined t es r = none := by
          refine List.find?_eq_none.mpr fun e member hit => present ?_
          rw [decide_eq_true_eq] at hit
          exact (hit.1.trans here) ▸ List.mem_map_of_mem member
        simp [updateRow, join]

/-- With matching elements the update is one write to each of their objects. -/
theorem updateRow_acts (m : Matches db es)
    (update : Acts t (fun _ s => { s with row := s.row.map (updateRow t env.now visible es) }) db db') :
    Acts t (fun id s => { s with
      row := (elemsOf es id).foldl (fun row e => row.map (fun r => setRow t env.now visible r e))
        s.row }) db db' := by
  refine update.congr fun id => ?_
  rw [updateRow_object env visible m]

/-- A version that could be saved after the update was not saved before it. -/
theorem unsaved_of_update (env : Env) (visible : Bool) {db₁ : Db} (m : Matches db es)
    (row : ∀ id, (object db₁ t id).row = (object db t id).row.map (updateRow t env.now visible es))
    (history : ∀ id, (object db₁ t id).history = (object db t id).history)
    (unsaved : ∀ e ∈ es, ∀ r, (object db₁ t e.id).row = some r →
      (object db₁ t e.id).history r.version = none) {e : Elem t} (member : e ∈ es) :
    (object db t e.id).history (e.version + 1) = none := by
  obtain ⟨r, found, version⟩ := Option.map_eq_some_iff.mp (m.version e member)
  have written : (object db₁ t e.id).row = some (setRow t env.now visible r e) := by
    rw [row, updateRow_object env visible m, elemsOf_eq_singleton m.distinct member, found]
    rfl
  rw [← history]
  exact unsaved e member _ written

theorem idToOldId_of_mem (distinct : (es.map Elem.id).Nodup) {e : Elem t} (member : e ∈ es) :
    idToOldId es e.id = e.oldId := by
  have once : (es.reverse.map Elem.id).Nodup := by
    rw [List.map_reverse]
    exact List.nodup_reverse.mpr distinct
  have found := find?_key_eq_some once (List.mem_reverse.mpr member)
  rw [idToOldId, found]
  rfl

theorem asVersion_eq_ok {v w : Nat} : asVersion v = .ok w ↔ v < versionBound ∧ w = v := by
  unfold asVersion
  split
  · rename_i small
    simp [small, eq_comm]
  · rename_i large
    simp [large]

theorem idMapping_eq_ok {row : Nat × Nat} {m : ObjectIdMapping} :
    idMapping es row = .ok m ↔
      row.2 < versionBound ∧ m = ⟨idToOldId es row.1, row.1, row.2⟩ := by
  unfold idMapping
  rw [bind_eq_ok]
  constructor
  · rintro ⟨version, read, same⟩
    obtain ⟨small, rfl⟩ := asVersion_eq_ok.mp read
    exact ⟨small, (Except.ok.inj same).symm⟩
  · rintro ⟨small, rfl⟩
    exact ⟨row.2, asVersion_eq_ok.mpr ⟨small, rfl⟩, rfl⟩

theorem idMapping_mapM {rows : List (Nat × Nat)} {ms : List ObjectIdMapping}
    (done : rows.mapM (idMapping es) = .ok ms) :
    ms = rows.map (fun row => ⟨idToOldId es row.1, row.1, row.2⟩) ∧
      ∀ row ∈ rows, row.2 < versionBound := by
  have small : ∀ row ∈ rows, row.2 < versionBound := by
    intro row member
    obtain ⟨m, -, read⟩ := mem_of_mapM done member
    exact (idMapping_eq_ok.mp read).1
  refine ⟨?_, small⟩
  have total := mapM_eq_map (fun row member => idMapping_eq_ok.mpr ⟨small row member, rfl⟩)
    (l := rows) (f := idMapping es) (g := fun row => ⟨idToOldId es row.1, row.1, row.2⟩)
  rw [total] at done
  exact (Except.ok.inj done).symm

/-- The entries that a successful update adds to `modified_*_ids`. -/
def modifiedEntries (es : List (Elem t)) : List ObjectIdMapping :=
  es.map (fun e => ⟨e.oldId, e.id, e.version + 1⟩)

theorem modifyCurrent_ok {modified : List ObjectIdMapping}
    (done : (modifyCurrent t env es).run db = .ok (modified, db')) :
    Matches db es ∧ modified.Perm (modifiedEntries es) ∧
      (∀ e ∈ es, e.version + 1 < versionBound) ∧
      Acts t (fun _ s => { s with row := s.row.map (updateRow t env.now true es) }) db db' := by
  rw [modifyCurrent, run_bind_eq_ok] at done
  obtain ⟨rows, db₁, first, rest⟩ := done
  obtain ⟨m, perm, acts⟩ := updateCurrent_ok first
  obtain ⟨read, rfl⟩ := run_liftExcept_eq_ok.mp rest
  obtain ⟨rfl, small⟩ := idMapping_mapM read
  refine ⟨m, ?_, fun e member => ?_, acts⟩
  · refine (perm.map _).trans (List.Perm.of_eq ?_)
    rw [List.map_map, modifiedEntries]
    refine List.map_congr_left fun e member => ?_
    simp [idToOldId_of_mem m.distinct member]
  · have inside : (e.id, e.version + 1) ∈ rows :=
      perm.mem_iff.mpr (List.mem_map_of_mem (f := fun e => (e.id, e.version + 1)) member)
    exact small _ inside

theorem modifyCurrent_run (env : Env) (m : Matches db es)
    (small : ∀ e ∈ es, e.version + 1 < versionBound) :
    ∃ modified db', (modifyCurrent t env es).run db = .ok (modified, db') := by
  obtain ⟨rows, db', done⟩ := updateCurrent_run env true m
  obtain ⟨-, perm, -⟩ := updateCurrent_ok done
  have read := mapM_eq_map (l := rows) (f := idMapping es)
    (g := fun row => ⟨idToOldId es row.1, row.1, row.2⟩) (fun row member => by
      obtain ⟨e, inside, rfl⟩ := List.mem_map.mp (perm.mem_iff.mp member)
      exact idMapping_eq_ok.mpr ⟨small e inside, rfl⟩)
  exact ⟨_, db', run_bind_eq_ok.mpr ⟨rows, db', done, run_liftExcept_eq_ok.mpr ⟨read, rfl⟩⟩⟩

theorem deleteCurrent_ok {deleted : List Int}
    (done : (deleteCurrent t env es).run db = .ok (deleted, db')) :
    Matches db es ∧ deleted.Perm (es.map Elem.oldId) ∧
      Acts t (fun _ s => { s with row := s.row.map (updateRow t env.now false es) }) db db' := by
  rw [deleteCurrent, run_bind_eq_ok] at done
  obtain ⟨rows, db₁, first, rest⟩ := done
  obtain ⟨m, perm, acts⟩ := updateCurrent_ok first
  cases rest
  refine ⟨m, ?_, acts⟩
  refine (perm.map _).trans (List.Perm.of_eq ?_)
  rw [List.map_map]
  refine List.map_congr_left fun e member => ?_
  simp [idToOldId_of_mem m.distinct member]

theorem deleteCurrent_run (env : Env) (m : Matches db es) :
    ∃ deleted db', (deleteCurrent t env es).run db = .ok (deleted, db') := by
  obtain ⟨rows, db', done⟩ := updateCurrent_run env false m
  exact ⟨_, db', run_bind_eq_ok.mpr ⟨rows, db', done, rfl⟩⟩

end Update

end Cgimap.Osmchange.WriteEffects
