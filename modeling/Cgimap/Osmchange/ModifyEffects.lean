/- path: Cgimap/Osmchange/ModifyEffects
   generality: I
   source: none
   digest: A modify batch applies the elements of each object in document order. -/

import Cgimap.Library.Occurrences
import Cgimap.Osmchange.CheckEffects
import Mathlib.Data.List.Induction

set_option autoImplicit false
set_option relaxedAutoImplicit false

namespace Cgimap.Osmchange.ModifyEffects

open Cgimap.Library.KeyedTable
open Cgimap.Library.Occurrences
open Cgimap.Library.StatementProgram
open Cgimap.Library.StatementProgram.Prog
open Cgimap.Model.Types
open Cgimap.Model.Database
open Cgimap.Osmchange.DiffTracking
open Cgimap.Osmchange.UploadRecords
open Cgimap.Osmchange.SqlStatements
open Cgimap.Osmchange.UpdaterChecks
open Cgimap.Osmchange.UpdaterProcess
open Cgimap.Osmchange.ObjectState
open Cgimap.Osmchange.WriteEffects
open Cgimap.Osmchange.CheckEffects

variable {t : ObjectType} {db db' : Db} {env : Env} {es : List (Elem t)} {ids : List Nat}

structure PackageEffect (env : Env) (locked : List Nat) (es : List (Elem t)) (db db' : Db) :
    Prop where
  matching : Matches db es
  small : ∀ e ∈ es, e.version + 1 < versionBound
  unsaved : ∀ e ∈ es, (object db t e.id).history (e.version + 1) = none
  future : FutureVisible db es locked
  acts : Acts t (fun id => ObjState.modifyAll env.now (elemsOf es id)) db db'

/-- The writes of a package to one object, statement after statement. -/
def packageSteps (now : Int) (es : List (Elem t)) (id : Nat) (s : ObjState t) : ObjState t :=
  let s : ObjState t := if id ∈ uniqueIds es then { s with tags := [] } else s
  let s : ObjState t := if id ∈ uniqueIds es then { s with refs := [] } else s
  let s : ObjState t := { s with
    row := (elemsOf es id).foldl (fun row e => row.map (fun r => setRow t now true r e)) s.row }
  let s : ObjState t := { s with tags := s.tags ++ (elemsOf es id).flatMap Elem.tags }
  let s : ObjState t := { s with refs := s.refs ++ (elemsOf es id).flatMap ObjState.refsOfElem }
  let s : ObjState t := if id ∈ uniqueIds es then s.saveRow else s
  let s : ObjState t := if id ∈ sortUnique ((tagRows es).map TagRow.owner) then s.saveTags else s
  if id ∈ uniqueIds es then s.saveRefs else s

theorem packageSteps_eq (now : Int) (distinct : (es.map Elem.id).Nodup) (id : Nat) (s : ObjState t) :
    packageSteps now es id s = ObjState.modifyAll now (elemsOf es id) s := by
  unfold packageSteps
  by_cases present : id ∈ es.map Elem.id
  · obtain ⟨e, member, rfl⟩ := List.mem_map.mp present
    simp only [mem_uniqueIds.mpr present, if_true, elemsOf_eq_singleton distinct member,
      List.flatMap_cons, List.flatMap_nil, List.append_nil, List.nil_append, ObjState.modifyAll,
      List.foldl_cons, List.foldl_nil]
    by_cases tagged : e.tags = []
    · rw [if_neg (fun inside => (mem_idsWithTags distinct member).mp inside tagged),
        ObjState.modify, ObjState.archive, ObjState.saveTags_of_nil _ (by simp [ObjState.write, tagged])]
      rfl
    · rw [if_pos ((mem_idsWithTags distinct member).mpr tagged)]
      rfl
  · simp only [mem_uniqueIds.not.mpr present, if_false, elemsOf_eq_nil present,
      not_mem_idsWithTags present, List.flatMap_nil, List.append_nil, ObjState.modifyAll,
      List.foldl_nil]

theorem modifyPackage_ok {acc acc' : Tracking × Bbox}
    (done : (modifyPackage env t ids acc es).run db = .ok (acc', db')) :
    PackageEffect env ids es db db' ∧
      ∃ modified, modified.Perm (modifiedEntries es) ∧ acc'.1 = acc.1.addModified t modified := by
  rw [modifyPackage, run_bind_eq_ok] at done
  obtain ⟨_, _, versions, done⟩ := done
  obtain ⟨rfl, -⟩ := checkCurrentVersions_ok versions
  rw [run_bind_eq_ok] at done
  obtain ⟨_, _, future, done⟩ := done
  obtain ⟨rfl, visible⟩ := lockFuture_ok future
  rw [run_bind_eq_ok] at done
  obtain ⟨⟨upd, before⟩, db₀, read, done⟩ := done
  obtain rfl := (bboxBefore_reads env ids es).run_eq_ok read
  dsimp only at done
  rw [run_bind_eq_ok] at done
  obtain ⟨_, db₁, clearTags, done⟩ := done
  rw [run_bind_eq_ok] at done
  obtain ⟨_, db₂, clearRefs, done⟩ := done
  rw [run_bind_eq_ok] at done
  obtain ⟨modified, db₃, update, done⟩ := done
  rw [run_bind_eq_ok] at done
  obtain ⟨idsWithTags, db₄, addTags, done⟩ := done
  rw [run_bind_eq_ok] at done
  obtain ⟨_, db₅, addRefs, done⟩ := done
  rw [run_bind_eq_ok] at done
  obtain ⟨_, db₆, saveRow, done⟩ := done
  rw [run_bind_eq_ok] at done
  obtain ⟨_, db₇, saveTags, done⟩ := done
  rw [run_bind_eq_ok] at done
  obtain ⟨_, db₈, saveRefs, done⟩ := done
  rw [run_bind_eq_ok] at done
  obtain ⟨after, _, readAfter, done⟩ := done
  obtain rfl := (bboxAfter_reads env t upd).run_eq_ok readAfter
  cases done
  have tagsCleared := deleteCurrentTags_ok clearTags
  have refsCleared := deleteCurrentRefs_ok clearRefs
  obtain ⟨matching, perm, small, updated⟩ := modifyCurrent_ok update
  obtain ⟨rfl, tagsAdded⟩ := insertNewCurrentTags_ok addTags
  have rows : ∀ id, (object db₀ t id).row = (object db₂ t id).row := by
    intro id
    rw [refsCleared.same, tagsCleared.same]
    split <;> rfl
  have refsAdded := insertNewCurrentRefs_ok addRefs
  obtain ⟨rowSaved, unsaved⟩ := saveCurrentToHistory_ok saveRow
  have written := updateRow_acts matching updated
  have matching := matching.of_rows rows
  refine ⟨⟨matching, small, fun e member => ?_, visible, ?_⟩, modified, perm, rfl⟩
  · refine unsaved_of_update env true matching (fun id => ?_) (fun id => ?_) (fun d inside => unsaved d.id
      (mem_uniqueIds.mpr (List.mem_map_of_mem inside))) member
    · rw [refsAdded.same, tagsAdded.same, updated.same, rows]
    · rw [refsAdded.same, tagsAdded.same, updated.same, refsCleared.same, tagsCleared.same]
      split <;> rfl
  · have all := tagsCleared.trans (refsCleared.trans (written.trans (tagsAdded.trans
      (refsAdded.trans (rowSaved.trans ((saveCurrentTagsToHistory_ok saveTags).trans
        (saveCurrentRefsToHistory_ok saveRefs)))))))
    exact all.congr fun id => packageSteps_eq env.now matching.distinct id _

section Packages

private theorem foldl_addToPackages (es : List (Elem t)) :
    es.foldl addToPackages ([], []) = (es.map Elem.id, layers Elem.id es) := by
  induction es using List.reverseRecOn with
  | nil => rfl
  | append_singleton es e ih =>
      rw [List.foldl_append, ih, layers_concat, List.map_append]
      rfl

/-- The packages are the first, second and further occurrences of the ids. -/
theorem buildPackages_eq (es : List (Elem t)) : buildPackages es = layers Elem.id es := by
  rw [buildPackages, foldl_addToPackages]

theorem buildPackages_elemsOf (es : List (Elem t)) (id : Nat) :
    (buildPackages es).flatMap (fun p => elemsOf p id) = elemsOf es id := by
  have all := @filter_flatten_layers _ _ _ Elem.id es id
  rwa [List.filter_flatten, ← List.flatMap_def, ← buildPackages_eq] at all

theorem mem_buildPackages {e : Elem t} : (∃ p ∈ buildPackages es, e ∈ p) ↔ e ∈ es := by
  have here : e ∈ elemsOf es e.id ↔ e ∈ es := by simp [mem_elemsOf]
  rw [← here, ← buildPackages_elemsOf, List.mem_flatMap]
  simp [mem_elemsOf]

theorem buildPackages_perm (es : List (Elem t)) : (buildPackages es).flatten.Perm es := by
  classical
  rw [buildPackages_eq]
  exact perm_flatten_layers es

theorem modifiedEntries_buildPackages (es : List (Elem t)) :
    ((buildPackages es).flatMap modifiedEntries).Perm (modifiedEntries es) := by
  have flat : (buildPackages es).flatMap modifiedEntries =
      modifiedEntries (buildPackages es).flatten := by
    rw [modifiedEntries, List.map_flatten, List.flatMap_def]
    rfl
  rw [flat]
  exact (buildPackages_perm es).map _

theorem length_buildPackages_le (es : List (Elem t)) : (buildPackages es).length ≤ es.length := by
  rw [buildPackages_eq, length_layers, depth_le_iff]
  exact fun id => occurrences_le_length Elem.id es id

theorem buildPackages_distinct {p : List (Elem t)} (member : p ∈ buildPackages es) :
    (p.map Elem.id).Nodup := by
  rw [buildPackages_eq, mem_layers] at member
  obtain ⟨k, -, rfl⟩ := member
  exact nodup_layer k es

end Packages

section Batch

/-- What `process_modify_*` does with the elements of its buffer. -/
structure ModifyEffect (env : Env) (es : List (Elem t)) (db db' : Db) : Prop where
  accepts : ∀ id, ObjState.Accepts env.now (object db t id) (elemsOf es id)
  future : FutureVisible db es (es.map Elem.id)
  acts : Acts t (fun id => ObjState.modifyAll env.now (elemsOf es id)) db db'

private structure Progress (env : Env) (es : List (Elem t)) (ct : Tracking) (db₀ : Db)
    (done : List (List (Elem t))) (acc : Tracking × Bbox) (db : Db) : Prop where
  accepts : ∀ id, ObjState.Accepts env.now (object db₀ t id)
    (done.flatMap (fun p => elemsOf p id))
  inside : ∀ p ∈ done, ∀ e ∈ p, e ∈ es
  future : ∀ p ∈ done, FutureVisible db₀ p (es.map Elem.id)
  acts : Acts t (fun id => ObjState.modifyAll env.now (done.flatMap (fun p => elemsOf p id))) db₀ db
  entries : ∃ modified, modified.Perm (done.flatMap modifiedEntries) ∧
    acc.1 = ct.addModified t modified

theorem PackageEffect.accepts {locked : List Nat}
    (effect : PackageEffect env locked es db db') (id : Nat) :
    ObjState.Accepts env.now (object db t id) (elemsOf es id) := by
  by_cases present : id ∈ es.map Elem.id
  · obtain ⟨e, member, rfl⟩ := List.mem_map.mp present
    rw [elemsOf_eq_singleton effect.matching.distinct member]
    exact ⟨effect.matching.version e member, effect.small e member, effect.unsaved e member, trivial⟩
  · rw [elemsOf_eq_nil present]
    trivial

private theorem progress_step {ct : Tracking} {db₀ : Db} {done : List (List (Elem t))}
    {acc acc' : Tracking × Bbox} {p : List (Elem t)}
    (progress : Progress env es ct db₀ done acc db) (member : p ∈ buildPackages es)
    (run : (modifyPackage env t (uniqueIds es) acc p).run db = .ok (acc', db')) :
    Progress env es ct db₀ (done ++ [p]) acc' db' := by
  obtain ⟨effect, modified, perm, tracked⟩ := modifyPackage_ok run
  have own : ∀ e ∈ p, e ∈ es := fun e here => mem_buildPackages.mp ⟨p, member, here⟩
  refine ⟨fun id => ?_, ?_, ?_, ?_, ?_⟩
  · rw [List.flatMap_append, ObjState.accepts_append, ← progress.acts.same]
    simpa using ⟨progress.accepts id, effect.accepts id⟩
  · intro q inside
    rcases List.mem_append.mp inside with before | here
    · exact progress.inside q before
    · rw [List.mem_singleton.mp here]
      exact own
  · intro q inside
    rcases List.mem_append.mp inside with before | here
    · exact progress.future q before
    · rw [List.mem_singleton.mp here]
      refine effect.future.of_acts progress.acts (fun id absent s => ?_) fun id => mem_uniqueIds.mp
      have none : done.flatMap (fun p => elemsOf p id) = [] := by
        refine List.flatMap_eq_nil_iff.mpr fun q inside => elemsOf_eq_nil fun named => absent ?_
        obtain ⟨d, here, rfl⟩ := List.mem_map.mp named
        exact List.mem_map_of_mem (progress.inside q inside d here)
      rw [none]
      rfl
  · refine (progress.acts.trans effect.acts).congr fun id => ?_
    rw [List.flatMap_append, ObjState.modifyAll_append]
    simp
  · obtain ⟨before, perm', tracked'⟩ := progress.entries
    refine ⟨before ++ modified, ?_, ?_⟩
    · simpa using perm'.append perm
    · rw [tracked, tracked', Tracking.addModified_append]

theorem processModify_ok {st st' : Upload}
    (done : (processModify env t st).run db = .ok (st', db')) :
    ∃ es box modified, replaceOldIds st.ct (st.updater t).modifyBuf = .ok es ∧
      ModifyEffect env es db db' ∧ modified.Perm (modifiedEntries es) ∧
      st' = { st with ct := st.ct.addModified t modified }.setUpdater
        { st.updater t with bbox := box, modifyBuf := [] } := by
  rw [processModify, run_bind_eq_ok] at done
  obtain ⟨es, _, first, done⟩ := done
  obtain ⟨replaced, rfl⟩ := run_liftExcept_eq_ok.mp first
  rw [run_bind_eq_ok] at done
  obtain ⟨_, db₀, lock, done⟩ := done
  obtain ⟨rfl, -⟩ := lockCurrent_ok lock
  rw [run_bind_eq_ok] at done
  obtain ⟨⟨ct, box⟩, db₁, packages, done⟩ := done
  cases done
  have start : Progress env es st.ct db₀ [] (st.ct, (st.updater t).bbox) db₀ := by
    refine ⟨fun id => trivial, by simp, by simp, Acts.refl, [], List.Perm.nil, ?_⟩
    rw [Tracking.addModified_nil]
  have all := run_foldlM_invariant (Progress env es st.ct db₀) (buildPackages es)
    (fun done p member acc db acc' db' progress run => progress_step progress member run)
    start packages
  rw [List.nil_append] at all
  obtain ⟨modified, perm, tracked⟩ := all.entries
  refine ⟨es, box, modified, replaced, ⟨fun id => ?_, ?_, ?_⟩, ?_, ?_⟩
  · rw [← buildPackages_elemsOf]
    exact all.accepts id
  · intro e member
    obtain ⟨p, inside, here⟩ := mem_buildPackages.mpr member
    exact all.future p inside e here
  · refine all.acts.congr fun id => ?_
    rw [buildPackages_elemsOf]
  · exact perm.trans (modifiedEntries_buildPackages es)
  · rw [← tracked]

end Batch

end Cgimap.Osmchange.ModifyEffects
