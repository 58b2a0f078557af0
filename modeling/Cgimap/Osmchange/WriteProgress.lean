/- path: Cgimap/Osmchange/WriteProgress
   generality: I
   source: none
   digest: When the writing functions of the updaters cannot fail. -/

import Cgimap.Osmchange.CheckEffects
import Cgimap.Osmchange.Handler

/-! A write fails on a primary key that is taken, or on a row count that differs from
    the number of elements. Both are excluded object by object. -/

set_option autoImplicit false
set_option relaxedAutoImplicit false

namespace Cgimap.Osmchange.WriteProgress

open Cgimap.Library.ExceptLists
open Cgimap.Library.KeyedTable
open Cgimap.Library.StatementProgram
open Cgimap.Library.StatementProgram.Prog
open Cgimap.Model.Types
open Cgimap.Model.Database
open Cgimap.Osmchange.UploadRecords
open Cgimap.Osmchange.SqlStatements
open Cgimap.Osmchange.UpdaterChecks
open Cgimap.Osmchange.UpdaterProcess
open Cgimap.Osmchange.Handler
open Cgimap.Osmchange.ObjectState
open Cgimap.Osmchange.WriteEffects

variable {t : ObjectType} {es : List (Elem t)} {ids : List Nat}

/-- No tag key and no sequence number occurs twice in an element. -/
structure WellFormed (e : Elem t) : Prop where
  tags : (e.tags.map Prod.fst).Nodup
  refs : (e.refs.map RefElem.sequenceId).Nodup

section Elements

private theorem nodup_sequence {α : Type} (l : List α) (f : α × Nat → RefElem t)
    (number : ∀ p, (f p).sequenceId = p.2 + 1) :
    ((l.zipIdx.map f).map RefElem.sequenceId).Nodup := by
  have numbers : (l.zipIdx.map f).map RefElem.sequenceId =
      (l.zipIdx.map Prod.snd).map (fun k => k + 1) := by
    rw [List.map_map, List.map_map]
    apply List.map_congr_left
    intro p _
    exact number p
  rw [numbers, List.zipIdx_map_snd]
  apply List.Nodup.map
  · intro a b same
    have shifted : a + 1 = b + 1 := same
    omega
  · exact List.nodup_range'

theorem refsOfBody_nodup (body : Body t) :
    ((refsOfBody t body).map RefElem.sequenceId).Nodup := by
  cases t with
  | node => exact List.nodup_nil
  | way => exact nodup_sequence _ _ fun p => rfl
  | relation => exact nodup_sequence _ _ fun p => rfl

theorem wellFormed_newElem (env : Env) (o : OsmObject t) : WellFormed (newElem env o) :=
  ⟨o.tags_nodup, refsOfBody_nodup o.body⟩

theorem wellFormed_modifiedElem (env : Env) (o : OsmObject t) : WellFormed (modifiedElem env o) :=
  ⟨o.tags_nodup, refsOfBody_nodup o.body⟩

end Elements

section Insertions

private theorem tagRows_keys (distinct : (es.map Elem.id).Nodup)
    (formed : ∀ e ∈ es, WellFormed e) : ((tagRows es).map TagRow.key).Nodup := by
  have keys : (tagRows es).map TagRow.key =
      es.flatMap (fun e => e.tags.map (fun tag => (e.id, tag.1))) := by
    rw [tagRows, List.map_flatMap]
    apply List.flatMap_congr
    intro e _
    rw [List.map_map]
    rfl
  rw [keys]
  exact nodup_flatMap_pair distinct fun e member => (formed e member).tags

private theorem refRows_keys (distinct : (es.map Elem.id).Nodup)
    (formed : ∀ e ∈ es, WellFormed e) : ((refRows es).map RefRow.key).Nodup := by
  have keys : (refRows es).map RefRow.key =
      es.flatMap (fun e => e.refs.map (fun r => (e.id, r.sequenceId))) := by
    rw [refRows, List.map_flatMap]
    apply List.flatMap_congr
    intro e _
    rw [List.map_map]
    rfl
  rw [keys]
  exact nodup_flatMap_pair distinct fun e member => (formed e member).refs

theorem insertNewCurrentTags_run (db : Db) (distinct : (es.map Elem.id).Nodup)
    (formed : ∀ e ∈ es, WellFormed e) (free : ∀ e ∈ es, (object db t e.id).tags = []) :
    ∃ db', (insertNewCurrentTags t es).run db =
      .ok (sortUnique ((tagRows es).map TagRow.owner), db') := by
  unfold insertNewCurrentTags
  split
  · rename_i empty
    rw [List.isEmpty_iff] at empty
    subst empty
    exact ⟨db, rfl⟩
  · have fresh : ∀ r ∈ tagRows es, (db.currentTags t).find? (TagRow.key r) = none := by
      intro r member
      obtain ⟨e, inside, tag⟩ := List.mem_flatMap.mp member
      obtain ⟨kv, -, rfl⟩ := List.mem_map.mp tag
      apply Table.find?_eq_none_of_select _ _ (List.map_eq_nil_iff.mp (free e inside))
      intro row same
      exact decide_eq_true (congrArg Prod.fst same)
    obtain ⟨T, inserted, -⟩ := Table.insert_isSome (tagRows_keys distinct formed) fresh
    refine ⟨db.setTags t T, ?_⟩
    rw [run_bind, run_perform, insertTagRows]
    simp only [inserted]
    rfl

theorem insertNewCurrentRefs_run (db : Db) (distinct : (es.map Elem.id).Nodup)
    (formed : ∀ e ∈ es, WellFormed e) (free : ∀ e ∈ es, (object db t e.id).refs = []) :
    ∃ db', (insertNewCurrentRefs t es).run db = .ok ((), db') := by
  unfold insertNewCurrentRefs
  split
  · exact ⟨db, rfl⟩
  · have fresh : ∀ r ∈ refRows es, (db.currentRefs t).find? (RefRow.key r) = none := by
      intro r member
      obtain ⟨e, inside, ref⟩ := List.mem_flatMap.mp member
      obtain ⟨d, -, rfl⟩ := List.mem_map.mp ref
      apply Table.find?_eq_none_of_select _ _ (List.map_eq_nil_iff.mp (free e inside))
      intro row same
      exact decide_eq_true (congrArg Prod.fst same)
    obtain ⟨T, inserted, -⟩ := Table.insert_isSome (refRows_keys distinct formed) fresh
    refine ⟨db.setRefs t T, ?_⟩
    rw [run_perform, insertRefRows]
    simp only [inserted]

end Insertions

section Copies

/-- Versions that the history does not have yet can be saved, one row for each id. -/
theorem saveCurrentToHistory_run {db : Db} (distinct : ids.Nodup)
    (unsaved : ∀ id ∈ ids, ∃ r, (object db t id).row = some r ∧
      (object db t id).history r.version = none) :
    ∃ db', (saveCurrentToHistory t ids).run db = .ok ((), db') := by
  unfold saveCurrentToHistory
  split
  · exact ⟨db, rfl⟩
  · have known : ∀ id ∈ ids, ((db.current t).find? id).isSome := by
      intro id member
      obtain ⟨r, found, -⟩ := unsaved id member
      exact Option.isSome_iff_exists.mpr ⟨r, found⟩
    have count := Table.length_select_keys (db.current t) distinct known
    have keys : ((((db.current t).select (fun r => decide (r.id ∈ ids))).map
        (fun r => (⟨r, none⟩ : HistoryRow t))).map HistoryRow.key).Nodup := by
      apply List.Nodup.of_map Prod.fst
      rw [List.map_map, List.map_map]
      exact (db.current t).nodup.sublist (List.filter_sublist.map _)
    have fresh : ∀ h ∈ ((db.current t).select (fun r => decide (r.id ∈ ids))).map
        (fun r => (⟨r, none⟩ : HistoryRow t)), (db.history t).find? (HistoryRow.key h) = none := by
      intro h member
      obtain ⟨r, selected, rfl⟩ := List.mem_map.mp member
      obtain ⟨row, inside⟩ := (Table.mem_select _ _).mp selected
      obtain ⟨r', found, free⟩ := unsaved r.id (of_decide_eq_true inside)
      have same : r' = r := Option.some.inj (found.symm.trans (Table.find?_key row))
      subst same
      exact free
    obtain ⟨T, inserted, -⟩ := Table.insert_isSome keys fresh
    refine ⟨db.setHistory t T, ?_⟩
    rw [run_bind, run_perform, currentToHistory]
    simp only [inserted, List.length_map, count, ne_eq, not_true_eq_false, if_false]
    rfl

section HistoryRows

variable {db : Db} {id v : Nat}

private theorem historyTags_free {k : String} : (db.historyTags t).find? (id, v, k) = none ↔
    k ∉ ((object db t id).historyTags v).map Prod.fst := by
  have keys : ((object db t id).historyTags v).map Prod.fst =
      ((db.historyTags t).select (fun r => decide (r.owner = id ∧ r.version = v))).map
        (fun r => r.k) := List.map_map
  rw [keys]
  refine Table.find?_eq_none_iff_select _ _ fun r => ?_
  simp [HistoryTagRow.key, and_assoc]

private theorem historyRefs_free {n : Nat} : (db.historyRefs t).find? (id, v, n) = none ↔
    n ∉ ((object db t id).historyRefs v).map Prod.fst := by
  have keys : ((object db t id).historyRefs v).map Prod.fst =
      ((db.historyRefs t).select (fun r => decide (r.owner = id ∧ r.version = v))).map
        (fun r => r.sequenceId) := List.map_map
  rw [keys]
  refine Table.find?_eq_none_iff_select _ _ fun r => ?_
  simp [HistoryRefRow.key, and_assoc]

end HistoryRows

/-- The tags of the current versions are copied exactly if the history has none of them. -/
theorem saveCurrentTagsToHistory_run {db : Db} :
    (∃ db', (saveCurrentTagsToHistory t ids).run db = .ok ((), db')) ↔
      ∀ id ∈ ids, ∀ v, (object db t id).version? = some v →
        ∀ tag ∈ (object db t id).tags, tag.1 ∉ ((object db t id).historyTags v).map Prod.fst := by
  unfold saveCurrentTagsToHistory
  split
  · rename_i empty
    rw [List.isEmpty_iff] at empty
    subst empty
    exact ⟨fun _ _ member => (List.not_mem_nil member).elim, fun _ => ⟨db, rfl⟩⟩
  · rw [run_perform, currentTagsToHistory]
    have copies := insert_copies_iff (db.currentTags t) (db.historyTags t)
      (fun r v => ⟨r, v⟩) (fun _ _ => rfl) TagRow.owner (db.version? t) ids
    constructor
    · rintro ⟨db', done⟩ id inside v version tag member
      cases inserted : (db.historyTags t).insert (((db.currentTags t).select
          (fun r => decide (r.owner ∈ ids))).filterMap
            (fun r => (db.version? t r.owner).map (fun v => (⟨r, v⟩ : HistoryTagRow)))) with
      | none => simp [inserted] at done
      | some T =>
          have free := copies.mp ⟨T, inserted⟩
          exact historyTags_free.mp (free _ (mem_tags_object.mp member) inside v version)
    · intro free
      obtain ⟨T, inserted⟩ := copies.mpr fun r row inside v version =>
        historyTags_free.mpr (free r.owner inside v version (r.k, r.v) (mem_tags_object.mpr row))
      refine ⟨db.setHistoryTags t T, ?_⟩
      simp only [inserted]

theorem saveCurrentRefsToHistory_run {db : Db} :
    (∃ db', (saveCurrentRefsToHistory t ids).run db = .ok ((), db')) ↔
      ∀ id ∈ ids, ∀ v, (object db t id).version? = some v →
        ∀ ref ∈ (object db t id).refs, ref.1 ∉ ((object db t id).historyRefs v).map Prod.fst := by
  unfold saveCurrentRefsToHistory
  split
  · rename_i nothing
    rw [Bool.or_eq_true, List.isEmpty_iff, decide_eq_true_eq] at nothing
    refine ⟨fun _ id inside v _ ref member => ?_, fun _ => ⟨db, rfl⟩⟩
    rcases nothing with rfl | node
    · cases inside
    · rw [refs_node node (object db t id).refs] at member
      cases member
  · rw [run_perform, currentRefsToHistory]
    have copies := insert_copies_iff (db.currentRefs t) (db.historyRefs t)
      (fun r v => ⟨r, v⟩) (fun _ _ => rfl) RefRow.owner (db.version? t) ids
    constructor
    · rintro ⟨db', done⟩ id inside v version ref member
      cases inserted : (db.historyRefs t).insert (((db.currentRefs t).select
          (fun r => decide (r.owner ∈ ids))).filterMap
            (fun r => (db.version? t r.owner).map (fun v => (⟨r, v⟩ : HistoryRefRow t)))) with
      | none => simp [inserted] at done
      | some T =>
          have free := copies.mp ⟨T, inserted⟩
          exact historyRefs_free.mp (free _ (mem_refs_object.mp member) inside v version)
    · intro free
      obtain ⟨T, inserted⟩ := copies.mpr fun r row inside v version =>
        historyRefs_free.mpr
          (free r.owner inside v version (r.sequenceId, r.ref) (mem_refs_object.mpr row))
      refine ⟨db.setHistoryRefs t T, ?_⟩
      simp only [inserted]

end Copies

end Cgimap.Osmchange.WriteProgress
