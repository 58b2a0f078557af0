/- path: Cgimap/Osmchange/CreateEffects
   generality: I
   source: none
   digest: A create batch makes one new object of each of its elements. -/

import Cgimap.Osmchange.CheckEffects
import Cgimap.Osmchange.Placeholders

set_option autoImplicit false
set_option relaxedAutoImplicit false

namespace Cgimap.Osmchange.CreateEffects

open Cgimap.Library.KeyedTable
open Cgimap.Library.StatementProgram
open Cgimap.Library.StatementProgram.Prog
open Cgimap.Model.Types
open Cgimap.Model.Database
open Cgimap.Osmchange.DiffTracking
open Cgimap.Osmchange.UploadRecords
open Cgimap.Osmchange.SqlStatements
open Cgimap.Osmchange.UpdaterChecks
open Cgimap.Osmchange.UpdaterProcess
open Cgimap.Osmchange.ObjectState
open Cgimap.Osmchange.WriteEffects
open Cgimap.Osmchange.CheckEffects
open Cgimap.Osmchange.Placeholders

variable {t : ObjectType} {db db' : Db} {env : Env} {es es' : List (Elem t)} {ct : Tracking}

/-- `db` after `n` calls of `nextval`. -/
def bumped (db : Db) (t : ObjectType) (n : Nat) : Db :=
  { db with objectSeq := Function.update db.objectSeq t (db.objectSeq t + n) }

theorem object_bumped (n : Nat) (t' : ObjectType) (id : Nat) :
    object (bumped db t n) t' id = object db t' id := rfl

/-- The entries of `created_*_ids` for the elements of a batch. -/
def createdEntries (db : Db) (es : List (Elem t)) : List ObjectIdMapping :=
  (idsMapping t db es).map (fun row => ⟨row.1, row.2, 1⟩)

def newRow (now : Int) (e : Elem t) : CurrentRow t :=
  ⟨e.id, 1, e.changesetId, true, now, e.coord⟩

section Rows

private theorem idsMapping_filter (distinct : (es.map Elem.oldId).Nodup) {i : Nat}
    (inside : i < es.length) :
    (idsMapping t db es).filter (fun m => decide (m.1 = es[i].oldId)) =
      [(es[i].oldId, db.objectSeq t + i)] := by
  have keys : ((idsMapping t db es).map Prod.fst).Nodup := by
    have same : (idsMapping t db es).map Prod.fst = es.map Elem.oldId := by
      rw [idsMapping, List.map_map]
      conv_rhs => rw [← List.zipIdx_map_fst 0 es, List.map_map]
      rfl
    rwa [same]
  have member : (es[i].oldId, db.objectSeq t + i) ∈ idsMapping t db es := by
    refine List.mem_map.mpr ⟨(es[i], i), ?_, rfl⟩
    rw [List.mem_zipIdx_iff_getElem?]
    simp [inside]
  exact filter_key_eq_singleton keys member

theorem newCurrentRows_eq (distinct : (es.map Elem.oldId).Nodup) (now : Int) :
    newCurrentRows t now db es = es.zipIdx.map (fun p =>
      ⟨db.objectSeq t + p.2, 1, p.1.changesetId, true, now, p.1.coord⟩) := by
  have split : newCurrentRows t now db es = es.zipIdx.flatMap (fun p =>
      ((idsMapping t db es).filter (fun m => decide (m.1 = p.1.oldId))).map
        (fun m => ⟨m.2, 1, p.1.changesetId, true, now, p.1.coord⟩)) := by
    rw [newCurrentRows]
    conv_lhs => rw [← List.zipIdx_map_fst 0 es, List.flatMap_map]
    simp
  rw [split, List.map_eq_flatMap]
  refine List.flatMap_congr fun p member => ?_
  obtain ⟨e, i⟩ := p
  rw [List.mem_zipIdx_iff_getElem?] at member
  dsimp only at member ⊢
  obtain ⟨inside, rfl⟩ := List.getElem?_eq_some_iff.mp member
  rw [idsMapping_filter distinct inside]
  rfl

private theorem lookup_created
    (unique : (((ct.addCreated t (createdEntries db es)).created t).map ObjectIdMapping.oldId).Nodup)
    {i : Nat} (inside : i < es.length) :
    lookup (ct.addCreated t (createdEntries db es)) t es[i].oldId = some (db.objectSeq t + i) := by
  have member : (⟨es[i].oldId, db.objectSeq t + i, 1⟩ : ObjectIdMapping) ∈
      (ct.addCreated t (createdEntries db es)).created t := by
    simp only [Tracking.addCreated_created, Function.update_self]
    refine List.mem_append_right _ (List.mem_map.mpr ⟨(es[i].oldId, db.objectSeq t + i), ?_, rfl⟩)
    refine List.mem_map.mpr ⟨(es[i], i), ?_, rfl⟩
    rw [List.mem_zipIdx_iff_getElem?]
    simp [inside]
  have found := find?_key_eq_some unique member
  rw [lookup, found]
  rfl

theorem resolved_id (negative : ∀ e ∈ es, e.oldId < 0)
    (unique : (((ct.addCreated t (createdEntries db es)).created t).map ObjectIdMapping.oldId).Nodup)
    (all : List.Forall₂ (Resolved (ct.addCreated t (createdEntries db es))) es es') {i : Nat}
    (left : i < es.length) (right : i < es'.length) : es'[i].id = db.objectSeq t + i := by
  have r : Resolved (ct.addCreated t (createdEntries db es)) es[i] es'[i] := all.get left right
  rcases r.id with ⟨nonneg, -⟩ | ⟨-, found⟩
  · exact absurd (negative es[i] (List.getElem_mem left)) (not_lt.mpr nonneg)
  · rw [lookup_created unique left] at found
    exact (Option.some.inj found).symm

theorem newCurrentRows_resolved (negative : ∀ e ∈ es, e.oldId < 0)
    (distinct : (es.map Elem.oldId).Nodup)
    (unique : (((ct.addCreated t (createdEntries db es)).created t).map ObjectIdMapping.oldId).Nodup)
    (all : List.Forall₂ (Resolved (ct.addCreated t (createdEntries db es))) es es') (now : Int) :
    newCurrentRows t now db es = es'.map (newRow now) := by
  rw [newCurrentRows_eq distinct]
  refine List.ext_getElem (by simpa using all.length_eq) fun i left right => ?_
  rw [List.length_map, List.length_zipIdx] at left
  rw [List.length_map] at right
  have r : Resolved (ct.addCreated t (createdEntries db es)) es[i] es'[i] := all.get left right
  have own := resolved_id negative unique all left right
  simp [newRow, own, r.changesetId, r.coord]

theorem created_ids (negative : ∀ e ∈ es, e.oldId < 0)
    (replaced : replaceOldIds (ct.addCreated t (createdEntries db es)) es = .ok es') :
    ∀ e ∈ es', e.id ∈ (createdEntries db es).map ObjectIdMapping.newId := by
  intro e member
  obtain ⟨maps, all⟩ := replaceOldIds_eq_ok.mp replaced
  have mapped : t ∈ mappedTypes t := by cases t <;> decide
  obtain ⟨i, inside, rfl⟩ := List.mem_iff_getElem.mp member
  have left : i < es.length := all.length_eq ▸ inside
  rw [resolved_id negative (maps t mapped) all left inside]
  refine List.mem_map.mpr ⟨⟨es[i].oldId, db.objectSeq t + i, 1⟩, ?_, rfl⟩
  refine List.mem_map.mpr ⟨(es[i].oldId, db.objectSeq t + i), ?_, rfl⟩
  refine List.mem_map.mpr ⟨(es[i], i), ?_, rfl⟩
  rw [List.mem_zipIdx_iff_getElem?]
  simp [left]

end Rows

/-- What `process_new_*` does with the elements of its buffer, after resolution. -/
structure CreateEffect (env : Env) (es : List (Elem t)) (db db' : Db) : Prop where
  distinct : (es.map Elem.id).Nodup
  sequence : ∀ e ∈ es, e.id < db.objectSeq t + es.length
  fresh : ∀ e ∈ es, (object db t e.id).row = none
  unsaved : ∀ e ∈ es, (object db t e.id).history 1 = none
  future : FutureVisible db es (es.map Elem.id)
  acts : Acts t (fun id s => (elemsOf es id).foldl (fun s e => s.create env.now id e) s)
    (bumped db t es.length) db'

theorem insert_acts (env : Env) (n : Nat) {T : Table (CurrentRow.id (t := t))}
    (done : (db.current t).insert (es.map (newRow env.now)) = some T) :
    (es.map Elem.id).Nodup ∧ (∀ e ∈ es, (object db t e.id).row = none) ∧
      Acts t (fun id s => (elemsOf es id).foldl
        (fun s e => { s with row := some (newRow env.now e) }) s)
        (bumped db t n) { db.setCurrent t T with
          objectSeq := Function.update db.objectSeq t (db.objectSeq t + n) } := by
  obtain ⟨-, distinct, fresh⟩ := Table.insert_eq_some done
  rw [List.map_map] at distinct
  have distinct : (es.map Elem.id).Nodup := distinct
  have absent : ∀ e ∈ es, (object db t e.id).row = none := fun e member =>
    fresh (newRow env.now e) (List.mem_map_of_mem member)
  have acts := acts_setCurrent (bumped db t n) t T
  refine ⟨distinct, absent, acts.congr fun id => ?_⟩
  rw [object_bumped, Table.find?_insert done]
  by_cases present : id ∈ es.map Elem.id
  · obtain ⟨e, member, rfl⟩ := List.mem_map.mp present
    have none : (db.current t).find? e.id = none := absent e member
    have keys : ((es.map (newRow env.now)).map CurrentRow.id).Nodup := by
      rw [List.map_map]
      exact distinct
    have found := find?_key_eq_some keys (List.mem_map_of_mem member)
    rw [elemsOf_eq_singleton distinct member, none, Option.none_or]
    change _ = ({ object db t e.id with row := some (newRow env.now e) } : ObjState t)
    rw [← found]
    rfl
  · rw [elemsOf_eq_nil present]
    have none : (es.map (newRow env.now)).find? (fun r => decide (r.id = id)) = none := by
      refine List.find?_eq_none.mpr fun r member same => present ?_
      obtain ⟨e, inside, rfl⟩ := List.mem_map.mp member
      rw [decide_eq_true_eq] at same
      exact same ▸ List.mem_map_of_mem inside
    rw [none, Option.or_none]
    rfl

/-- The writes of a create batch to one object, statement after statement. -/
def createSteps (now : Int) (es : List (Elem t)) (id : Nat) (s : ObjState t) : ObjState t :=
  let s : ObjState t := (elemsOf es id).foldl (fun s e => { s with row := some (newRow now e) }) s
  let s : ObjState t := { s with tags := s.tags ++ (elemsOf es id).flatMap Elem.tags }
  let s : ObjState t := { s with refs := s.refs ++ (elemsOf es id).flatMap ObjState.refsOfElem }
  let s : ObjState t := if id ∈ uniqueIds es then s.saveRow else s
  let s : ObjState t := if id ∈ sortUnique ((tagRows es).map TagRow.owner) then s.saveTags else s
  if id ∈ uniqueIds es then s.saveRefs else s

theorem createSteps_eq (now : Int) (distinct : (es.map Elem.id).Nodup) (id : Nat) (s : ObjState t) :
    createSteps now es id s = (elemsOf es id).foldl (fun s e => s.create now id e) s := by
  unfold createSteps
  by_cases present : id ∈ es.map Elem.id
  · obtain ⟨e, member, rfl⟩ := List.mem_map.mp present
    simp only [mem_uniqueIds.mpr present, if_true, elemsOf_eq_singleton distinct member,
      List.flatMap_cons, List.flatMap_nil, List.append_nil, List.foldl_cons, List.foldl_nil]
    unfold ObjState.create
    by_cases tagged : e.tags = []
    · rw [if_neg (fun inside => (mem_idsWithTags distinct member).mp inside tagged),
        if_pos tagged]
      rfl
    · rw [if_pos ((mem_idsWithTags distinct member).mpr tagged), if_neg tagged]
      rfl
  · simp only [mem_uniqueIds.not.mpr present, if_false, elemsOf_eq_nil present,
      not_mem_idsWithTags present, List.flatMap_nil, List.append_nil, List.foldl_nil]

theorem insertNew_ok {created : List ObjectIdMapping}
    (done : (insertNew t env es).run db = .ok (created, db')) :
    created = createdEntries db es ∧ ∃ T, (db.current t).insert (newCurrentRows t env.now db es) =
      some T ∧ db' = { db.setCurrent t T with
        objectSeq := Function.update db.objectSeq t (db.objectSeq t + es.length) } := by
  rw [insertNew, run_bind_eq_ok] at done
  obtain ⟨rows, db₁, first, rest⟩ := done
  rw [run_perform, insertNewToCurrentTable] at first
  cases inserted : (db.current t).insert (newCurrentRows t env.now db es) with
  | none => simp [inserted] at first
  | some T =>
      simp only [inserted, Except.ok.injEq, Prod.mk.injEq] at first
      obtain ⟨rfl, rfl⟩ := first
      split at rest
      · cases rest
      · cases rest
        exact ⟨rfl, T, rfl, rfl⟩

theorem processNew_ok {st st' : Upload}
    (negative : ∀ e ∈ (st.updater t).createBuf, e.oldId < 0)
    (done : (processNew env t st).run db = .ok (st', db')) :
    ∃ es placeholders box,
      checkUniquePlaceholderIds (st.updater t).createPlaceholderIds
        ((st.updater t).createBuf.map Elem.oldId) = .ok placeholders ∧
      replaceOldIds (st.ct.addCreated t (createdEntries db (st.updater t).createBuf))
        (st.updater t).createBuf = .ok es ∧
      CreateEffect env es db db' ∧
      st' = { st with
        ct := st.ct.addCreated t (createdEntries db (st.updater t).createBuf) : Upload }.setUpdater
        { st.updater t with bbox := box, createBuf := [], createPlaceholderIds := placeholders } := by
  rw [processNew, run_bind_eq_ok] at done
  obtain ⟨placeholders, _, first, done⟩ := done
  obtain ⟨unique, rfl⟩ := run_liftExcept_eq_ok.mp first
  rw [run_bind_eq_ok] at done
  obtain ⟨_, db₀, first, done⟩ := done
  obtain ⟨forward, rfl⟩ := run_liftExcept_eq_ok.mp first
  rw [run_bind_eq_ok] at done
  obtain ⟨created, db₁, insert, done⟩ := done
  obtain ⟨rfl, T, inserted, rfl⟩ := insertNew_ok insert
  rw [run_bind_eq_ok] at done
  obtain ⟨es, _, first, done⟩ := done
  obtain ⟨replaced, rfl⟩ := run_liftExcept_eq_ok.mp first
  rw [run_bind_eq_ok] at done
  obtain ⟨_, db₁, lock, done⟩ := done
  obtain ⟨same, future⟩ := lockFuture_ok lock
  rw [run_bind_eq_ok] at done
  obtain ⟨idsWithTags, db₂, addTags, done⟩ := done
  rw [run_bind_eq_ok] at done
  obtain ⟨_, db₃, addRefs, done⟩ := done
  rw [run_bind_eq_ok] at done
  obtain ⟨_, db₄, saveRow, done⟩ := done
  rw [run_bind_eq_ok] at done
  obtain ⟨_, db₅, saveTags, done⟩ := done
  rw [run_bind_eq_ok] at done
  obtain ⟨_, db₆, saveRefs, done⟩ := done
  rw [run_bind_eq_ok] at done
  obtain ⟨box, _, read, done⟩ := done
  obtain rfl := (calcBbox_reads env t _).run_eq_ok read
  cases done
  obtain ⟨rfl, tagsAdded⟩ := insertNewCurrentTags_ok addTags
  obtain ⟨maps, all⟩ := replaceOldIds_eq_ok.mp replaced
  have distinctOld : ((st.updater t).createBuf.map Elem.oldId).Nodup := by
    unfold checkUniquePlaceholderIds at unique
    split at unique
    · cases unique
    · rename_i none
      exact (firstDuplicate_eq_none.mp none).1
  have mapped : t ∈ mappedTypes t := by cases t <;> decide
  rw [newCurrentRows_resolved negative distinctOld (maps t mapped) all] at inserted
  obtain ⟨distinct, fresh, acts⟩ := insert_acts env (st.updater t).createBuf.length inserted
  have count : (st.updater t).createBuf.length = es.length := all.length_eq
  subst same
  have refsAdded := insertNewCurrentRefs_ok addRefs
  obtain ⟨rowSaved, unsaved⟩ := saveCurrentToHistory_ok saveRow
  refine ⟨es, placeholders, _, unique, replaced,
    ⟨distinct, fun e member => ?_, fresh, fun e member => ?_, ?_, ?_⟩, rfl⟩
  · obtain ⟨i, inside, rfl⟩ := List.mem_iff_getElem.mp member
    have own := resolved_id negative (maps t mapped) all (count ▸ inside) inside
    omega
  · have created : object db₃ t e.id = { object db₀ t e.id with
        row := some (newRow env.now e)
        tags := (object db₀ t e.id).tags ++ e.tags
        refs := (object db₀ t e.id).refs ++ ObjState.refsOfElem e } := by
      rw [refsAdded.same, tagsAdded.same, acts.same, elemsOf_eq_singleton distinct member]
      simp [object_bumped]
    have free := unsaved e.id (mem_uniqueIds.mpr (List.mem_map_of_mem member)) (newRow env.now e)
      (by rw [created])
    rwa [created] at free
  · change FutureVisible (bumped db₀ t (st.updater t).createBuf.length) es (es.map Elem.id)
    refine future.of_acts acts (fun id absent s => ?_) fun id => mem_uniqueIds.mp
    rw [elemsOf_eq_nil absent]
    rfl
  · rw [← count]
    have all := acts.trans (tagsAdded.trans (refsAdded.trans (rowSaved.trans
      ((saveCurrentTagsToHistory_ok saveTags).trans (saveCurrentRefsToHistory_ok saveRefs)))))
    exact all.congr fun id => createSteps_eq env.now distinct id _

end Cgimap.Osmchange.CreateEffects
