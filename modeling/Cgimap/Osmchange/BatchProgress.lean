/- path: Cgimap/Osmchange/BatchProgress
   generality: I
   source: none
   digest: A batch whose checks pass is carried out. -/

import Cgimap.Osmchange.SoundDatabase
import Cgimap.Osmchange.WriteProgress

set_option autoImplicit false
set_option relaxedAutoImplicit false

namespace Cgimap.Osmchange.BatchProgress

open Cgimap.Library.ExceptLists
open Cgimap.Library.KeyedTable
open Cgimap.Library.StatementProgram
open Cgimap.Library.StatementProgram.Prog
open Cgimap.Model.Types
open Cgimap.Model.Database
open Cgimap.Osmchange.DiffTracking
open Cgimap.Osmchange.UploadRecords
open Cgimap.Osmchange.SqlStatements
open Cgimap.Osmchange.UpdaterChecks
open Cgimap.Osmchange.UpdaterProcess
open Cgimap.Osmchange.ObjectState
open Cgimap.Osmchange.WriteEffects
open Cgimap.Osmchange.CheckEffects
open Cgimap.Osmchange.DeletionEffects
open Cgimap.Osmchange.Placeholders
open Cgimap.Osmchange.CreateEffects
open Cgimap.Osmchange.ModifyEffects
open Cgimap.Osmchange.DeleteEffects
open Cgimap.Osmchange.Integrity
open Cgimap.Osmchange.SoundDatabase
open Cgimap.Osmchange.WriteProgress

variable {t : ObjectType} {env : Env} {es : List (Elem t)} {ids : List Nat}

/-- The errors that blame the request: bad request, not found, conflict, gone and
precondition failed. -/
def isClientError : Exception → Bool
  | .http code _ => decide (code ∈ [400, 404, 409, 410, 412])
  | _ => false

section Archive

/-- The history has nothing yet under the number of the current version, as far as the
version has it. -/
structure Saveable (s : ObjState t) : Prop where
  row : ∀ v, s.version? = some v → s.history v = none
  tags : ∀ v, s.version? = some v → ∀ tag ∈ s.tags, tag.1 ∉ (s.historyTags v).map Prod.fst
  refs : ∀ v, s.version? = some v → ∀ ref ∈ s.refs, ref.1 ∉ (s.historyRefs v).map Prod.fst

theorem saveable_of_empty {s : ObjState t} {v : Nat} (version : s.version? = some v)
    (row : s.history v = none) (tags : s.historyTags v = []) (refs : s.historyRefs v = []) :
    Saveable s := by
  refine ⟨fun w same => ?_, fun w same tag _ => ?_, fun w same ref _ => ?_⟩
  all_goals
    rw [version, Option.some.injEq] at same
    subst same
  · exact row
  · simp [tags]
  · simp [refs]

private theorem archive_run {db : Db} (known : ∀ e ∈ es, (object db t e.id).row.isSome)
    (saveable : ∀ e ∈ es, Saveable (object db t e.id)) :
    ∃ db₁ db₂ db₃, (saveCurrentToHistory t (uniqueIds es)).run db = .ok ((), db₁) ∧
      (saveCurrentTagsToHistory t (sortUnique ((tagRows es).map TagRow.owner))).run db₁ =
        .ok ((), db₂) ∧
      (saveCurrentRefsToHistory t (uniqueIds es)).run db₂ = .ok ((), db₃) := by
  have member : ∀ {id}, id ∈ uniqueIds es → ∃ e ∈ es, e.id = id := by
    intro id inside
    exact List.mem_map.mp (mem_uniqueIds.mp inside)
  have tagged : ∀ {id}, id ∈ sortUnique ((tagRows es).map TagRow.owner) → ∃ e ∈ es, e.id = id := by
    intro id inside
    by_contra absent
    apply not_mem_idsWithTags _ inside
    intro present
    exact absent (List.mem_map.mp present)
  have saveRow : ∃ db₁, (saveCurrentToHistory t (uniqueIds es)).run db = .ok ((), db₁) := by
    apply saveCurrentToHistory_run (sortUnique_nodup _)
    intro id inside
    obtain ⟨e, here, rfl⟩ := member inside
    obtain ⟨r, found⟩ := Option.isSome_iff_exists.mp (known e here)
    exact ⟨r, found, (saveable e here).row r.version (by simp [ObjState.version?, found])⟩
  obtain ⟨db₁, first⟩ := saveRow
  have rowSaved := (saveCurrentToHistory_ok first).1
  have saveTags : ∃ db₂, (saveCurrentTagsToHistory t
      (sortUnique ((tagRows es).map TagRow.owner))).run db₁ = .ok ((), db₂) := by
    apply saveCurrentTagsToHistory_run.mpr
    intro id inside
    obtain ⟨e, here, rfl⟩ := tagged inside
    rw [rowSaved.same, if_pos (mem_uniqueIds.mpr (List.mem_map_of_mem here))]
    exact (saveable e here).tags
  obtain ⟨db₂, second⟩ := saveTags
  have tagsSaved := saveCurrentTagsToHistory_ok second
  have saveRefs : ∃ db₃, (saveCurrentRefsToHistory t (uniqueIds es)).run db₂ = .ok ((), db₃) := by
    apply saveCurrentRefsToHistory_run.mpr
    intro id inside
    obtain ⟨e, here, rfl⟩ := member inside
    rw [tagsSaved.same, rowSaved.same, if_pos inside]
    split <;> exact (saveable e here).refs
  obtain ⟨db₃, third⟩ := saveRefs
  exact ⟨db₁, db₂, db₃, first, second, third⟩

private theorem saveable_of_archive {db db₁ db₂ db₃ : Db} {u₁ u₂ u₃ : Unit}
    (saveRow : (saveCurrentToHistory t (uniqueIds es)).run db = .ok (u₁, db₁))
    (saveTags : (saveCurrentTagsToHistory t (sortUnique ((tagRows es).map TagRow.owner))).run db₁ =
      .ok (u₂, db₂))
    (saveRefs : (saveCurrentRefsToHistory t (uniqueIds es)).run db₂ = .ok (u₃, db₃))
    (distinct : (es.map Elem.id).Nodup) (tags : ∀ e ∈ es, (object db t e.id).tags = e.tags) :
    ∀ e ∈ es, Saveable (object db t e.id) := by
  intro e member
  have inside : e.id ∈ uniqueIds es := mem_uniqueIds.mpr (List.mem_map_of_mem member)
  obtain ⟨rowSaved, unsaved⟩ := saveCurrentToHistory_ok saveRow
  have tagsSaved := saveCurrentTagsToHistory_ok saveTags
  refine ⟨fun v version => ?_, fun v version tag written => ?_, fun v version ref written => ?_⟩
  · obtain ⟨r, found, rfl⟩ := Option.map_eq_some_iff.mp version
    exact unsaved e.id inside r found
  · have nonempty : e.tags ≠ [] := by
      rw [← tags e member]
      exact List.ne_nil_of_mem written
    have free := saveCurrentTagsToHistory_run.mp ⟨db₂, saveTags⟩ e.id
      ((mem_idsWithTags distinct member).mpr nonempty)
    rw [rowSaved.same, if_pos inside] at free
    exact free v version tag written
  · have free := saveCurrentRefsToHistory_run.mp ⟨db₃, saveRefs⟩ e.id inside
    rw [tagsSaved.same, rowSaved.same, if_pos inside] at free
    split at free
    · exact free v version ref written
    · exact free v version ref written

end Archive

section Modify

/-- What a package needs from the tables, apart from its checks. -/
structure Writable (db : Db) (es : List (Elem t)) : Prop where
  formed : ∀ e ∈ es, WellFormed e
  owned : ∀ e ∈ es, Owned (object db t e.id)
  unsaved : ∀ e ∈ es, (object db t e.id).version? = some e.version →
    (object db t e.id).history (e.version + 1) = none
  small : ∀ e ∈ es, (object db t e.id).version? = some e.version → e.version + 1 < versionBound

/-- The next version of an object fits, and can be saved. -/
structure Ready (now : Int) (s : ObjState t) (e : Elem t) : Prop where
  version : s.version? = some e.version
  small : e.version + 1 < versionBound
  saveable : Saveable (s.write now true e e.tags (ObjState.refsOfElem e))

private theorem Writable.ready {db : Db} (w : Writable db es) (m : Matches db es) {e : Elem t}
    (member : e ∈ es) : Ready env.now (object db t e.id) e := by
  have version := m.version e member
  have free := w.unsaved e member version
  obtain ⟨tags, refs⟩ := (w.owned e member).history (e.version + 1) free
  obtain ⟨r, found, -⟩ := Option.map_eq_some_iff.mp version
  refine ⟨version, w.small e member version, saveable_of_empty ?_ free tags refs⟩
  simp [ObjState.version?, ObjState.write, found, setRow]

private theorem writes_run (env : Env) {db : Db} (m : Matches db es)
    (formed : ∀ e ∈ es, WellFormed e) (ready : ∀ e ∈ es, Ready env.now (object db t e.id) e) :
    ∃ modified db₁ db₂ db₃ db₄ db₅ db₆ db₇ db₈,
      (deleteCurrentTags t (uniqueIds es)).run db = .ok ((), db₁) ∧
      (deleteCurrentRefs t (uniqueIds es)).run db₁ = .ok ((), db₂) ∧
      (modifyCurrent t env es).run db₂ = .ok (modified, db₃) ∧
      (insertNewCurrentTags t es).run db₃ =
        .ok (sortUnique ((tagRows es).map TagRow.owner), db₄) ∧
      (insertNewCurrentRefs t es).run db₄ = .ok ((), db₅) ∧
      (saveCurrentToHistory t (uniqueIds es)).run db₅ = .ok ((), db₆) ∧
      (saveCurrentTagsToHistory t (sortUnique ((tagRows es).map TagRow.owner))).run db₆ =
        .ok ((), db₇) ∧
      (saveCurrentRefsToHistory t (uniqueIds es)).run db₇ = .ok ((), db₈) := by
  obtain ⟨db₁, first, tagsCleared⟩ := deleteCurrentTags_run db t (uniqueIds es)
  obtain ⟨db₂, second, refsCleared⟩ := deleteCurrentRefs_run db₁ t (uniqueIds es)
  have named : ∀ e ∈ es, e.id ∈ uniqueIds es := fun e member =>
    mem_uniqueIds.mpr (List.mem_map_of_mem member)
  have cleared : ∀ e ∈ es, object db₂ t e.id =
      { object db t e.id with tags := [], refs := [] } := by
    intro e member
    rw [refsCleared.same, tagsCleared.same, if_pos (named e member), if_pos (named e member)]
  have matching : Matches db₂ es := by
    apply m.of_rows
    intro id
    rw [refsCleared.same, tagsCleared.same]
    split <;> rfl
  have small : ∀ e ∈ es, e.version + 1 < versionBound := fun e member => (ready e member).small
  obtain ⟨modified, db₃, third⟩ := modifyCurrent_run env matching small
  obtain ⟨-, -, -, updated⟩ := modifyCurrent_ok third
  have written : ∀ e ∈ es, object db₃ t e.id =
      (object db t e.id).write env.now true e [] [] := by
    intro e member
    have row := updateRow_object env true matching e.id
    rw [elemsOf_eq_singleton m.distinct member] at row
    rw [updated.same, row, cleared e member]
    rfl
  obtain ⟨db₄, fourth⟩ := insertNewCurrentTags_run db₃ m.distinct formed (by
    intro e member
    rw [written e member]
    rfl)
  obtain ⟨-, tagsAdded⟩ := insertNewCurrentTags_ok fourth
  have tagged : ∀ e ∈ es, object db₄ t e.id =
      (object db t e.id).write env.now true e e.tags [] := by
    intro e member
    rw [tagsAdded.same, written e member, elemsOf_eq_singleton m.distinct member]
    simp [ObjState.write]
  obtain ⟨db₅, fifth⟩ := insertNewCurrentRefs_run db₄ m.distinct formed (by
    intro e member
    rw [tagged e member]
    rfl)
  have refsAdded := insertNewCurrentRefs_ok fifth
  have complete : ∀ e ∈ es, object db₅ t e.id =
      (object db t e.id).write env.now true e e.tags (ObjState.refsOfElem e) := by
    intro e member
    rw [refsAdded.same, tagged e member, elemsOf_eq_singleton m.distinct member]
    simp [ObjState.write]
  have known : ∀ e ∈ es, (object db₅ t e.id).row.isSome := by
    intro e member
    obtain ⟨r, found, -⟩ := Option.map_eq_some_iff.mp (m.version e member)
    rw [complete e member]
    simp [ObjState.write, found]
  have saveable : ∀ e ∈ es, Saveable (object db₅ t e.id) := by
    intro e member
    rw [complete e member]
    exact (ready e member).saveable
  obtain ⟨db₆, db₇, db₈, sixth, seventh, eighth⟩ := archive_run known saveable
  exact ⟨modified, db₁, db₂, db₃, db₄, db₅, db₆, db₇, db₈, first, second, third, fourth, fifth,
    sixth, seventh, eighth⟩

theorem modifyPackage_run {db : Db} (acc : Tracking × Bbox) (distinct : (es.map Elem.id).Nodup)
    (formed : ∀ e ∈ es, WellFormed e) (ready : ∀ e ∈ es, Ready env.now (object db t e.id) e)
    (future : FutureVisible db es ids) :
    ∃ acc' db', (modifyPackage env t ids acc es).run db = .ok (acc', db') := by
  have m : Matches db es := ⟨distinct, fun e member => (ready e member).version⟩
  have versions : (checkCurrentVersions t es).run db = .ok ((), db) := by
    rcases checkCurrentVersions_cases db es with ⟨-, run⟩ | ⟨mismatch, -⟩
    · exact run
    · exfalso
      apply mismatch
      intro e member v version
      rw [m.version e member] at version
      exact (Option.some.inj version).symm
  have lock : (lockFuture t es ids).run db = .ok ((), db) := by
    rcases lockFuture_cases db es ids with ⟨-, run⟩ | ⟨absent, -⟩
    · exact run
    · exact absurd future absent
  obtain ⟨⟨upd, before⟩, read⟩ := bboxBefore_reads env ids es db
  obtain ⟨modified, db₁, db₂, db₃, db₄, db₅, db₆, db₇, db₈, first, second, third, fourth, fifth,
    sixth, seventh, eighth⟩ := writes_run env m formed ready
  obtain ⟨after, readAfter⟩ := bboxAfter_reads env t upd db₈
  refine ⟨(acc.1.addModified t modified, (acc.2.expand before).expand after), db₈, ?_⟩
  unfold modifyPackage
  refine run_bind_eq_ok.mpr ⟨(), db, versions, ?_⟩
  refine run_bind_eq_ok.mpr ⟨(), db, lock, ?_⟩
  refine run_bind_eq_ok.mpr ⟨(upd, before), db, read, ?_⟩
  refine run_bind_eq_ok.mpr ⟨(), db₁, first, ?_⟩
  refine run_bind_eq_ok.mpr ⟨(), db₂, second, ?_⟩
  refine run_bind_eq_ok.mpr ⟨modified, db₃, third, ?_⟩
  refine run_bind_eq_ok.mpr ⟨_, db₄, fourth, ?_⟩
  refine run_bind_eq_ok.mpr ⟨(), db₅, fifth, ?_⟩
  refine run_bind_eq_ok.mpr ⟨(), db₆, sixth, ?_⟩
  refine run_bind_eq_ok.mpr ⟨(), db₇, seventh, ?_⟩
  refine run_bind_eq_ok.mpr ⟨(), db₈, eighth, ?_⟩
  exact run_bind_eq_ok.mpr ⟨after, db₈, readAfter, rfl⟩

theorem modifyPackage_ready {db db' : Db} {acc acc' : Tracking × Bbox}
    (done : (modifyPackage env t ids acc es).run db = .ok (acc', db')) :
    ∀ e ∈ es, Ready env.now (object db t e.id) e := by
  have effect := (modifyPackage_ok done).1
  simp only [modifyPackage, run_bind_eq_ok] at done
  obtain ⟨_, _, versions, _, _, future, ⟨upd, before⟩, db₀, read, _, db₁, clearTags, _, db₂, clearRefs,
    modified, db₃, update, withTags, db₄, addTags, _, db₅, addRefs, _, db₆, saveRow, _, db₇, saveTags,
    _, db₈, saveRefs, -⟩ := done
  obtain ⟨rfl, -⟩ := checkCurrentVersions_ok versions
  obtain ⟨rfl, -⟩ := lockFuture_ok future
  obtain rfl := (bboxBefore_reads env ids es).run_eq_ok read
  have tagsCleared := deleteCurrentTags_ok clearTags
  have refsCleared := deleteCurrentRefs_ok clearRefs
  obtain ⟨matching, -, -, updated⟩ := modifyCurrent_ok update
  obtain ⟨rfl, tagsAdded⟩ := insertNewCurrentTags_ok addTags
  have refsAdded := insertNewCurrentRefs_ok addRefs
  have complete : ∀ e ∈ es, object db₅ t e.id =
      (object db₀ t e.id).write env.now true e e.tags (ObjState.refsOfElem e) := by
    intro e member
    have inside : e.id ∈ uniqueIds es := mem_uniqueIds.mpr (List.mem_map_of_mem member)
    have row := updateRow_object env true matching e.id
    rw [elemsOf_eq_singleton effect.matching.distinct member] at row
    rw [refsAdded.same, tagsAdded.same, updated.same, row, refsCleared.same, tagsCleared.same,
      if_pos inside, if_pos inside, elemsOf_eq_singleton effect.matching.distinct member]
    simp [ObjState.write]
  have saveable := saveable_of_archive saveRow saveTags saveRefs effect.matching.distinct
    (fun e member => by rw [complete e member]; rfl)
  intro e member
  refine ⟨effect.matching.version e member, effect.small e member, ?_⟩
  rw [← complete e member]
  exact saveable e member

/-- A package goes through, or a check of it blames the request. -/
theorem modifyPackage_returns {db : Db} {acc : Tracking × Bbox} {n : Nat}
    (distinct : (es.map Elem.id).Nodup) (known : ∀ e ∈ es, (object db t e.id).row.isSome)
    (formed : ∀ e ∈ es, WellFormed e) (small : ∀ e ∈ es, e.version < versionBound)
    (sound : ∀ e ∈ es, Sound (n + 1) (object db t e.id)) :
    (modifyPackage env t ids acc es).Returns db
      (fun _ db' => PackageEffect env ids es db db') (fun e => isClientError e = true) := by
  rcases checkCurrentVersions_cases db es with ⟨pass, check⟩ | ⟨-, error, check, kind⟩
  · have m : Matches db es := by
      refine ⟨distinct, fun e member => ?_⟩
      obtain ⟨r, found⟩ := Option.isSome_iff_exists.mp (known e member)
      have version : (object db t e.id).version? = some r.version := by
        simp [ObjState.version?, found]
      rw [version, pass e member r.version version]
    rcases lockFuture_cases db es ids with ⟨future, -⟩ | ⟨-, message, lock⟩
    · have w : Writable db es := by
        refine ⟨formed, fun e member => (sound e member).owned, fun e member version => ?_,
          fun e member version => ?_⟩
        · exact (sound e member).unsaved version
        · have room := (sound e member).room
          rw [version] at room
          have bound : e.version + (n + 1) < versionBound := room
          omega
      obtain ⟨acc', db', run⟩ := modifyPackage_run acc distinct formed
        (fun e member => w.ready m member) future
      exact returns_of_ok run (modifyPackage_ok run).1
    · exact returns_bind (returns_of_ok check (returns_bind (returns_of_error lock rfl)))
  · refine returns_bind (returns_of_error check ?_)
    rcases kind with ⟨message, rfl⟩ | ⟨e, member, large | ⟨v, version, large⟩⟩
    · rfl
    · have bound := small e member
      omega
    · have bound := (sound e member).version_lt version
      omega

theorem wellFormed_of_resolved {ct : Tracking} {e e' : Elem t} (r : Resolved ct e e')
    (formed : WellFormed e) : WellFormed e' := by
  refine ⟨?_, ?_⟩
  · rw [r.tags]
    exact formed.tags
  · have numbers : e'.refs.map RefElem.sequenceId = e.refs.map RefElem.sequenceId := by
      have pairs := mapM_eq_ok.mp r.refs
      generalize e.refs = before at pairs
      generalize e'.refs = after at pairs
      induction pairs with
      | nil => rfl
      | cons head _ ih =>
          rw [List.map_cons, List.map_cons, ih]
          congr 1
          unfold replaceOldIdInMember at head
          split at head
          · cases head
            rfl
          · split at head
            · cases head
            · cases head
              rfl
    rw [numbers]
    exact formed.refs

private theorem resolved_all {ct : Tracking} {buf : List (Elem t)}
    (all : List.Forall₂ (Resolved ct) buf es) (formed : ∀ e ∈ buf, WellFormed e)
    (small : ∀ e ∈ buf, e.version < versionBound) :
    (∀ e ∈ es, WellFormed e) ∧ ∀ e ∈ es, e.version < versionBound := by
  constructor
  · intro e member
    obtain ⟨d, inside, r⟩ := exists_of_mem_right all member
    exact wellFormed_of_resolved r (formed d inside)
  · intro e member
    obtain ⟨d, inside, r⟩ := exists_of_mem_right all member
    rw [r.version]
    exact small d inside

theorem processModify_returns {db : Db} {fuel n : Nat} {st : Upload}
    (healthy : Healthy fuel (n + (st.updater t).modifyBuf.length) db)
    (formed : ∀ e ∈ (st.updater t).modifyBuf, WellFormed e)
    (small : ∀ e ∈ (st.updater t).modifyBuf, e.version < versionBound) :
    (processModify env t st).Returns db (fun _ _ => True) (fun e => isClientError e = true) := by
  unfold processModify
  refine returns_bind (returns_liftExcept (fun es replaced => ?_) fun e failed => ?_)
  · obtain ⟨-, all⟩ := replaceOldIds_eq_ok.mp replaced
    obtain ⟨formed, small⟩ := resolved_all all formed small
    rcases lockCurrent_cases db t (uniqueIds es) with ⟨known, lock⟩ | ⟨-, message, lock⟩
    · refine returns_bind (returns_of_ok lock ?_)
      have packages := length_buildPackages_le es
      have count := all.length_eq
      refine returns_bind (returns_mono (returns_foldlM
        (fun done _ db' => (∀ id, Sound ((buildPackages es).length - done.length)
          (object db' t id)) ∧ ∀ e ∈ es, (object db' t e.id).row.isSome)
        (buildPackages es) ?_ (buildPackages es) [] _ db rfl ?_)
        (fun _ _ _ => trivial) fun _ failed => failed)
      · intro done p rest acc db' split inv
        have inside : p ∈ buildPackages es := by
          rw [← split]
          exact List.mem_append_right _ List.mem_cons_self
        have own : ∀ e ∈ p, e ∈ es := fun e here => mem_buildPackages.mp ⟨p, inside, here⟩
        have length : (buildPackages es).length - done.length = rest.length + 1 := by
          rw [← split, List.length_append, List.length_cons]
          omega
        obtain ⟨sound, known⟩ := inv
        rw [length] at sound
        refine returns_mono (modifyPackage_returns (buildPackages_distinct inside)
          (fun e here => known e (own e here)) (fun e here => formed e (own e here))
          (fun e here => small e (own e here)) fun e here => sound e.id) ?_ fun _ failed => failed
        intro acc' db'' effect
        have next : (buildPackages es).length - (done ++ [p]).length = rest.length := by
          rw [List.length_append, List.length_singleton]
          omega
        rw [next]
        constructor
        · intro id
          rw [effect.acts.same]
          apply Sound.modifyAll _ (effect.accepts id)
          apply (sound id).mono
          have once := length_elemsOf_le_one effect.matching.distinct id
          omega
        · intro e member
          rw [effect.acts.same, modifyAll_row]
          exact known e member
      · constructor
        · intro id
          apply (healthy.sound t id).mono
          simp only [List.length_nil]
          omega
        · intro e member
          exact known e.id (mem_uniqueIds.mpr (List.mem_map_of_mem member))
    · exact returns_bind (returns_of_error lock rfl)
  · obtain ⟨message, rfl⟩ := replaceOldIds_error failed
    rfl

end Modify

section Create

private theorem checkForward_error {error : Exception} :
    ∀ {seen : List Int} {rs : List (Elem .relation)},
      checkForwardRelationPlaceholders seen rs = .error error → isClientError error = true := by
  intro seen rs failed
  induction rs generalizing seen with
  | nil => cases failed
  | cons r rs ih =>
      unfold checkForwardRelationPlaceholders at failed
      split at failed
      · cases failed
        rfl
      · exact ih failed

private theorem checkForwardPlaceholders_error {error : Exception}
    (failed : checkForwardPlaceholders t es = .error error) : isClientError error = true := by
  cases t with
  | node => cases failed
  | way => cases failed
  | relation => exact checkForward_error failed

private theorem insertNew_run (env : Env) {db : Db} (distinct : (es.map Elem.oldId).Nodup)
    (beyond : ∀ id, db.objectSeq t ≤ id → (object db t id).row = none) :
    ∃ db', (insertNew t env es).run db = .ok (createdEntries db es, db') := by
  have keys : ((newCurrentRows t env.now db es).map CurrentRow.id).Nodup := by
    rw [newCurrentRows_eq distinct, List.map_map]
    have ids : es.zipIdx.map (CurrentRow.id ∘ fun p =>
        (⟨db.objectSeq t + p.2, 1, p.1.changesetId, true, env.now, p.1.coord⟩ : CurrentRow t)) =
        (es.zipIdx.map Prod.snd).map (fun i => db.objectSeq t + i) := by
      rw [List.map_map]
      rfl
    rw [ids, List.zipIdx_map_snd]
    apply List.Nodup.map
    · intro a b same
      have shifted : db.objectSeq t + a = db.objectSeq t + b := same
      omega
    · exact List.nodup_range'
  have fresh : ∀ r ∈ newCurrentRows t env.now db es, (db.current t).find? r.id = none := by
    intro r member
    rw [newCurrentRows_eq distinct] at member
    obtain ⟨p, -, rfl⟩ := List.mem_map.mp member
    exact beyond _ (Nat.le_add_right _ _)
  obtain ⟨T, inserted, -⟩ := Table.insert_isSome keys fresh
  have count : (idsMapping t db es).length = es.length := by
    rw [idsMapping, List.length_map, List.length_zipIdx]
  let db' : Db := { db.setCurrent t T with
    objectSeq := Function.update db.objectSeq t (db.objectSeq t + es.length) }
  refine ⟨db', run_bind_eq_ok.mpr ⟨idsMapping t db es, db', ?_, ?_⟩⟩
  · rw [run_perform, insertNewToCurrentTable]
    simp only [inserted]
    rfl
  · rw [if_neg (by simp [count])]
    rfl

private theorem newWrites_run (env : Env) {db db₁ : Db} {n : Nat}
    (distinct : (es.map Elem.id).Nodup) (formed : ∀ e ∈ es, WellFormed e)
    (fresh : ∀ e ∈ es, (object db t e.id).row = none)
    (sound : ∀ e ∈ es, Sound n (object db t e.id))
    (new : ∀ e ∈ es, object db₁ t e.id =
      { object db t e.id with row := some (newRow env.now e) }) :
    ∃ db₂ db₃ db₄ db₅ db₆,
      (insertNewCurrentTags t es).run db₁ =
        .ok (sortUnique ((tagRows es).map TagRow.owner), db₂) ∧
      (insertNewCurrentRefs t es).run db₂ = .ok ((), db₃) ∧
      (saveCurrentToHistory t (uniqueIds es)).run db₃ = .ok ((), db₄) ∧
      (saveCurrentTagsToHistory t (sortUnique ((tagRows es).map TagRow.owner))).run db₄ =
        .ok ((), db₅) ∧
      (saveCurrentRefsToHistory t (uniqueIds es)).run db₅ = .ok ((), db₆) := by
  have clear : ∀ e ∈ es, (object db t e.id).tags = [] ∧ (object db t e.id).refs = [] :=
    fun e member => (sound e member).owned.current (fresh e member)
  obtain ⟨db₂, addTags⟩ := insertNewCurrentTags_run db₁ distinct formed (by
    intro e member
    rw [new e member]
    exact (clear e member).1)
  have tagsAdded := (insertNewCurrentTags_ok addTags).2
  obtain ⟨db₃, addRefs⟩ := insertNewCurrentRefs_run db₂ distinct formed (by
    intro e member
    rw [tagsAdded.same, new e member]
    exact (clear e member).2)
  have refsAdded := insertNewCurrentRefs_ok addRefs
  have saveable : ∀ e ∈ es, Saveable (object db₃ t e.id) := by
    intro e member
    have free : (object db t e.id).history 1 = none := by
      apply (sound e member).ahead
      simp [ObjState.version?, fresh e member]
    have empty := (sound e member).owned.history 1 free
    rw [refsAdded.same, tagsAdded.same, new e member]
    exact saveable_of_empty rfl free empty.1 empty.2
  have known : ∀ e ∈ es, (object db₃ t e.id).row.isSome := by
    intro e member
    rw [refsAdded.same, tagsAdded.same, new e member]
    rfl
  obtain ⟨db₄, db₅, db₆, saveRow, saveTags, saveRefs⟩ := archive_run known saveable
  exact ⟨db₂, db₃, db₄, db₅, db₆, addTags, addRefs, saveRow, saveTags, saveRefs⟩

theorem processNew_returns {db : Db} {fuel n : Nat} {st : Upload}
    (healthy : Healthy fuel n db)
    (negative : ∀ e ∈ (st.updater t).createBuf, e.oldId < 0)
    (formed : ∀ e ∈ (st.updater t).createBuf, WellFormed e) :
    (processNew env t st).Returns db (fun _ _ => True) (fun e => isClientError e = true) := by
  unfold processNew
  refine returns_bind (returns_liftExcept (fun placeholders unique => ?_) fun e failed => ?_)
  · have distinctOld : ((st.updater t).createBuf.map Elem.oldId).Nodup := by
      unfold checkUniquePlaceholderIds at unique
      split at unique
      · cases unique
      · rename_i none
        exact (firstDuplicate_eq_none.mp none).1
    refine returns_bind (returns_liftExcept (fun _ forward => ?_) fun e failed => ?_)
    · obtain ⟨db₁, insert⟩ := insertNew_run env distinctOld (healthy.sequence t)
      refine returns_bind (returns_of_ok insert ?_)
      obtain ⟨-, T, inserted, rfl⟩ := insertNew_ok insert
      refine returns_bind (returns_liftExcept (fun es replaced => ?_) fun e failed => ?_)
      · obtain ⟨maps, all⟩ := replaceOldIds_eq_ok.mp replaced
        have mapped : t ∈ mappedTypes t := by cases t <;> decide
        rw [newCurrentRows_resolved negative distinctOld (maps t mapped) all] at inserted
        obtain ⟨distinct, fresh, acts⟩ := insert_acts env (st.updater t).createBuf.length inserted
        have formed : ∀ e ∈ es, WellFormed e := by
          intro e member
          obtain ⟨d, inside, r⟩ := exists_of_mem_right all member
          exact wellFormed_of_resolved r (formed d inside)
        rcases lockFuture_cases _ es (uniqueIds es) with ⟨-, lock⟩ | ⟨-, message, lock⟩
        · refine returns_bind (returns_of_ok lock ?_)
          obtain ⟨db₂, db₃, db₄, db₅, db₆, addTags, addRefs, saveRow, saveTags, saveRefs⟩ :=
            newWrites_run env distinct formed fresh (fun e _ => healthy.sound t e.id) (by
              intro e member
              rw [acts.same, elemsOf_eq_singleton distinct member]
              rfl)
          obtain ⟨box, read⟩ := calcBbox_reads env t (uniqueIds es) db₆
          refine returns_bind (returns_of_ok addTags ?_)
          refine returns_bind (returns_of_ok addRefs ?_)
          refine returns_bind (returns_of_ok saveRow ?_)
          refine returns_bind (returns_of_ok saveTags ?_)
          refine returns_bind (returns_of_ok saveRefs ?_)
          exact returns_bind (returns_of_ok read trivial)
        · exact returns_bind (returns_of_error lock rfl)
      · obtain ⟨message, rfl⟩ := replaceOldIds_error failed
        rfl
    · exact checkForwardPlaceholders_error failed
  · unfold checkUniquePlaceholderIds at failed
    split at failed
    · cases failed
      rfl
    · cases failed

end Create

end Cgimap.Osmchange.BatchProgress
