/- path: Cgimap/Osmchange/VersionHistory
   generality: I
   source: none
   digest: The history keeps every version, and an upload adds one per executed element. -/

import Cgimap.Osmchange.ElementTrace
import Cgimap.Osmchange.Integrity

set_option autoImplicit false
set_option relaxedAutoImplicit false

namespace Cgimap.Osmchange.VersionHistory

open Cgimap.Library.EventLog
open Cgimap.Library.KeyedTable
open Cgimap.Library.StatementProgram
open Cgimap.Library.StatementProgram.Prog
open Cgimap.Model.Types
open Cgimap.Model.Database
open Cgimap.Osmchange.UploadRecords
open Cgimap.Osmchange.SqlStatements
open Cgimap.Osmchange.Handler
open Cgimap.Osmchange.ObjectState
open Cgimap.Osmchange.DocumentRuns
open Cgimap.Osmchange.ElementTrace
open Cgimap.Osmchange.Integrity

variable {t : ObjectType} {db db' : Db} {env : Env}

structure SameContent (r : CurrentRow t) (h : HistoryRow t) : Prop where
  visible : h.visible = r.visible
  changesetId : h.changesetId = r.changesetId
  coord : h.coord = r.coord

/-- The history has exactly one row for the current version of every object, and the
same tags and references. -/
structure HistoryInvariant (db : Db) : Prop where
  unique : ∀ t, ∀ r ∈ db.current t, ∃! h, h ∈ db.history t ∧ h.id = r.id ∧ h.version = r.version
  content : ∀ t, ∀ r ∈ db.current t, ∀ h ∈ db.history t, h.id = r.id → h.version = r.version →
    SameContent r h
  tags : ∀ t, ∀ r ∈ db.current t, (db.historyTagsOf t r.id r.version).Perm (db.tagsOf t r.id)
  refs : ∀ t, ∀ r ∈ db.current t, (db.historyRefsOf t r.id r.version).Perm (db.refsOf t r.id)

/-- The invariant, read at one object. -/
def Saved (s : ObjState t) : Prop :=
  ∀ r, s.row = some r → ∃ h, s.history r.version = some h ∧ SameContent r h ∧
    (s.historyTags r.version).Perm s.tags ∧ (s.historyRefs r.version).Perm s.refs

private theorem find?_history {id v : Nat} {h : HistoryRow t} :
    (db.history t).find? (id, v) = some h ↔ h ∈ db.history t ∧ h.id = id ∧ h.version = v := by
  rw [Table.find?_eq_some, HistoryRow.key, Prod.mk.injEq]

theorem historyInvariant_iff : HistoryInvariant db ↔ ∀ t id, Saved (object db t id) := by
  constructor
  · intro inv t id r found
    obtain ⟨row, rfl⟩ := Table.find?_eq_some.mp found
    obtain ⟨h, ⟨inside, own, version⟩, -⟩ := inv.unique t r row
    exact ⟨h, find?_history.mpr ⟨inside, own, version⟩, inv.content t r row h inside own version,
      inv.tags t r row, inv.refs t r row⟩
  · intro saved
    have at' : ∀ t, ∀ r ∈ db.current t, ∃ h, (db.history t).find? (r.id, r.version) = some h ∧
        SameContent r h ∧ (db.historyTagsOf t r.id r.version).Perm (db.tagsOf t r.id) ∧
        (db.historyRefsOf t r.id r.version).Perm (db.refsOf t r.id) := fun t r row =>
      saved t r.id r (Table.find?_key row)
    refine ⟨fun t r row => ?_, fun t r row h inside own version => ?_, fun t r row => ?_,
      fun t r row => ?_⟩
    · obtain ⟨h, found, -⟩ := at' t r row
      refine ⟨h, find?_history.mp found, fun h' member => ?_⟩
      exact Option.some.inj ((find?_history.mpr member).symm.trans found)
    · obtain ⟨h', found, same, -⟩ := at' t r row
      rw [find?_history.mpr ⟨inside, own, version⟩] at found
      cases found
      exact same
    · exact (at' t r row).choose_spec.2.2.1
    · exact (at' t r row).choose_spec.2.2.2

/-- `s'` is `s` with `n` more versions, in the history too. -/
structure Extends (s : ObjState t) (n : Nat) (s' : ObjState t) : Prop where
  version : s'.version?.getD 0 = s.version?.getD 0 + n
  kept : ∀ w h, s.history w = some h → s'.history w = some h ∧
    s'.historyTags w = s.historyTags w ∧ s'.historyRefs w = s.historyRefs w
  added : ∀ w, s.history w = none ∧ s'.history w ≠ none ↔
    s.version?.getD 0 < w ∧ w ≤ s.version?.getD 0 + n

theorem Extends.refl (s : ObjState t) : Extends s 0 s :=
  ⟨rfl, fun _ _ found => ⟨found, rfl, rfl⟩, fun w => by
    constructor
    · exact fun ⟨absent, present⟩ => absurd absent present
    · omega⟩

theorem Extends.trans {s s' s'' : ObjState t} {m n : Nat} (first : Extends s m s')
    (next : Extends s' n s'') : Extends s (m + n) s'' := by
  refine ⟨by rw [next.version, first.version, Nat.add_assoc], fun w h found => ?_, fun w => ?_⟩
  · obtain ⟨found', tags, refs⟩ := first.kept w h found
    obtain ⟨found'', tags', refs'⟩ := next.kept w h found'
    exact ⟨found'', tags'.trans tags, refs'.trans refs⟩
  · have low := first.added w
    have high := next.added w
    rw [first.version] at high
    constructor
    · rintro ⟨none, some⟩
      by_cases between : s'.history w = .none
      · have := high.mp ⟨between, some⟩
        omega
      · have := low.mp ⟨none, between⟩
        omega
    · intro range
      by_cases early : w ≤ s.version?.getD 0 + m
      · obtain ⟨none, some⟩ := low.mpr ⟨range.1, early⟩
        obtain ⟨h, found⟩ := Option.ne_none_iff_exists'.mp some
        exact ⟨none, by rw [(next.kept w h found).1]; simp⟩
      · obtain ⟨none, some⟩ := high.mpr ⟨by omega, by omega⟩
        refine ⟨?_, some⟩
        cases before : s.history w with
        | none => rfl
        | some h =>
            rw [(first.kept w h before).1] at none
            cases none

/-- The versions in the history are numbered from 1 to the current one. -/
def Numbered (s : ObjState t) : Prop := ∀ w, s.history w ≠ none ↔ 1 ≤ w ∧ w ≤ s.version?.getD 0

theorem numbered_of_extends {s s' : ObjState t} {n : Nat} (numbered : Numbered s)
    (later : Extends s n s') : Numbered s' := by
  intro w
  have added := later.added w
  rw [later.version]
  by_cases before : s.history w = none
  · have outside : ¬(1 ≤ w ∧ w ≤ s.version?.getD 0) := fun inside => (numbered w).mpr inside before
    constructor
    · intro present
      have := added.mp ⟨before, present⟩
      omega
    · intro range
      exact (added.mpr (by omega)).2
  · obtain ⟨h, found⟩ := Option.ne_none_iff_exists'.mp before
    have inside := (numbered w).mp before
    refine iff_of_true ?_ (by omega)
    rw [(later.kept w h found).1]
    simp

section Archive

variable {s : ObjState t} {r : CurrentRow t}

private theorem archive_history_self (row : s.row = some r) (free : s.history r.version = none) :
    s.archive.history r.version = some ⟨r, none⟩ := by
  rw [ObjState.archive_history, free, row, Option.none_or, Option.filter_some_pos (by simp)]
  rfl

private theorem archive_history_other (row : s.row = some r) {w : Nat} (other : w ≠ r.version) :
    s.archive.history w = s.history w := by
  rw [ObjState.archive_history, row, Option.filter_some_neg (by simpa using Ne.symm other),
    Option.map_none, Option.or_none]

private theorem version_of_row (row : s.row = some r) : s.version? = some r.version := by
  rw [ObjState.version?, row]
  rfl

theorem saved_archive (owned : ∀ v, s.history v = none → s.historyTags v = [] ∧ s.historyRefs v = [])
    (row : s.row = some r) (free : s.history r.version = none) : Saved s.archive := by
  intro r' found
  obtain rfl : r = r' := Option.some.inj (row.symm.trans found)
  obtain ⟨tags, refs⟩ := owned r.version free
  refine ⟨⟨r, none⟩, archive_history_self row free, ⟨rfl, rfl, rfl⟩, ?_, ?_⟩
  · rw [ObjState.archive_historyTags, if_pos (version_of_row row), tags]
    exact List.Perm.refl _
  · rw [ObjState.archive_historyRefs, if_pos (version_of_row row), refs]
    exact List.Perm.refl _

/-- The next version of an object is one more row in the history. -/
theorem extends_archive {s₀ : ObjState t} (history : s.history = s₀.history)
    (historyTags : s.historyTags = s₀.historyTags) (historyRefs : s.historyRefs = s₀.historyRefs)
    (row : s.row = some r) (version : r.version = s₀.version?.getD 0 + 1)
    (free : s₀.history r.version = none) : Extends s₀ 1 s.archive := by
  have here : s.archive.history r.version = some ⟨r, none⟩ :=
    archive_history_self row (by rw [history, free])
  refine ⟨?_, fun w h found => ?_, fun w => ?_⟩
  · rw [← version]
    change (s.version?).getD 0 = _
    rw [version_of_row row]
    rfl
  · have other : w ≠ r.version := by
      rintro rfl
      rw [free] at found
      cases found
    have different : s.version? ≠ some w := by
      rw [version_of_row row]
      exact fun same => other (Option.some.inj same).symm
    refine ⟨by rw [archive_history_other row other, history, found], ?_, ?_⟩
    · rw [ObjState.archive_historyTags, if_neg different, historyTags, List.append_nil]
    · rw [ObjState.archive_historyRefs, if_neg different, historyRefs, List.append_nil]
  · by_cases same : w = r.version
    · subst same
      rw [here, free]
      simp only [ne_eq, reduceCtorEq, not_false_eq_true, and_self, true_iff]
      omega
    · rw [archive_history_other row same, history]
      constructor
      · exact fun ⟨absent, present⟩ => absurd absent present
      · omega

end Archive

section Steps

variable {s : ObjState t} {now : Int} {id : Nat}

/-- What holds along the versions of one object. -/
structure Kept (s₀ : ObjState t) (n : Nat) (s : ObjState t) : Prop where
  owned : Owned s
  saved : Saved s
  history : Extends s₀ n s

private theorem kept_write {visible : Bool} {e : Elem t} {tags : List (String × String)}
    {refs : List (Nat × Ref t)} (owned : Owned s) (version : s.version? = some e.version)
    (free : s.history (e.version + 1) = none)
    (next : Owned (s.write now visible e tags refs).archive) :
    Kept s 1 (s.write now visible e tags refs).archive := by
  obtain ⟨r, found, -⟩ := Option.map_eq_some_iff.mp version
  have row : (s.write now visible e tags refs).row = some (setRow t now visible r e) := by
    simp [ObjState.write, found]
  refine ⟨next, saved_archive owned.history row free, extends_archive rfl rfl rfl row ?_ free⟩
  rw [version]
  rfl

theorem kept_act {ev : Event t} (owned : Owned s) (saved : Saved s) (allowed : ev.Allowed s) :
    Kept s (if ev.skipped then 0 else 1) (ev.act now id s) := by
  obtain ⟨op, e, skipped⟩ := ev
  cases skipped with
  | true => exact ⟨owned, saved, Extends.refl s⟩
  | false =>
      cases op with
      | create =>
          obtain ⟨fresh, free⟩ := allowed
          have next : Owned (s.create now id e) := owned_create owned fresh id e
          change Kept s 1 (s.create now id e)
          rw [ObjState.create_eq_archive s now e id (owned.current fresh).1] at next ⊢
          refine ⟨next, saved_archive owned.history rfl free, extends_archive rfl rfl rfl rfl ?_ free⟩
          simp [ObjState.version?, fresh]
      | modify =>
          obtain ⟨version, -, free⟩ := allowed
          refine kept_write owned version free (owned_modify owned ?_ e)
          obtain ⟨r, found, -⟩ := Option.map_eq_some_iff.mp version
          rw [found]
          rfl
      | delete =>
          obtain ⟨version, -, free⟩ := allowed
          exact kept_write owned version free (owned_delete owned e)

/-- The events of a list that were executed. -/
def executedOf (evs : List (Event t)) : List (Event t) := evs.filter (fun ev => !ev.skipped)

theorem kept_replayAt {evs : List (Event t)} (owned : Owned s) (saved : Saved s)
    (lawful : (machine now).LawfulAt (k := (t, id)) s evs) :
    Kept s (executedOf evs).length ((machine now).replayAt (k := (t, id)) s evs) := by
  induction evs generalizing s with
  | nil => exact ⟨owned, saved, Extends.refl s⟩
  | cons ev evs ih =>
      have first : Kept s (if ev.skipped then 0 else 1) (ev.act now id s) :=
        kept_act owned saved lawful.1
      have rest := ih first.owned first.saved lawful.2
      have count : (executedOf (ev :: evs)).length =
          (if ev.skipped then 0 else 1) + (executedOf evs).length := by
        unfold executedOf
        cases skipped : ev.skipped
        · simp [skipped, Nat.add_comm]
        · simp [skipped]
      rw [count]
      exact ⟨rest.owned, rest.saved, first.history.trans rest.history⟩

end Steps

/-- The history invariant, kept by every processed document. No saved version changes,
and each object gets the versions after its last one, one per executed element. -/
theorem historyInvariant_of_processDocument {doc : List Element} {st : Upload}
    (done : (processDocument env doc).run db = .ok (st, db')) (keys : ForeignKeys db)
    (inv : HistoryInvariant db) :
    HistoryInvariant db' ∧
      (∀ t, ∀ h ∈ db.history t, h ∈ db'.history t ∧
        db'.historyTagsOf t h.id h.version = db.historyTagsOf t h.id h.version ∧
        db'.historyRefsOf t h.id h.version = db.historyRefsOf t h.id h.version) ∧
      (∃ batches, Executed env doc db batches st db') ∧
      ∀ batches, Executed env doc db batches st db' → ∀ t id w,
        ((∀ h ∈ db.history t, ¬ (h.id = id ∧ h.version = w)) ∧
            ∃ h ∈ db'.history t, h.id = id ∧ h.version = w) ↔
          (db.version? t id).getD 0 < w ∧ w ≤ (db.version? t id).getD 0 +
            (executedOf (eventsOf (documentTrace env batches) (t, id))).length := by
  have all : ∀ batches, Executed env doc db batches st db' → ∀ t id, Kept (object db t id)
      (executedOf (eventsOf (documentTrace env batches) (t, id))).length (object db' t id) := by
    intro batches executed t id
    obtain ⟨lawful, final⟩ := object_refines executed t id
    rw [← final]
    exact kept_replayAt (foreignKeys_iff.mp keys t id) (historyInvariant_iff.mp inv t id) lawful
  obtain ⟨batches, executed⟩ := executed_of_processDocument done
  refine ⟨historyInvariant_iff.mpr fun t id => (all batches executed t id).saved, ?_,
    ⟨batches, executed⟩, ?_⟩
  · intro t h member
    have found : (object db t h.id).history h.version = some h :=
      find?_history.mpr ⟨member, rfl, rfl⟩
    obtain ⟨found', tags, refs⟩ := (all batches executed t h.id).history.kept h.version h found
    exact ⟨(find?_history.mp found').1, tags, refs⟩
  · intro batches executed t id w
    refine Iff.trans (and_congr ?_ ?_) ((all batches executed t id).history.added w)
    · change _ ↔ (db.history t).find? (id, w) = none
      rw [Option.eq_none_iff_forall_ne_some]
      simp only [ne_eq, find?_history, not_and]
    · change _ ↔ (db'.history t).find? (id, w) ≠ none
      rw [Option.ne_none_iff_exists']
      simp only [find?_history]

theorem historyInvariant_sampleUse : HistoryInvariant Db.empty ∧ ∃ st db',
    (processDocument sampleEnv (sampleUse false)).run Db.empty = .ok (st, db') ∧ HistoryInvariant db' := by
  have empty : HistoryInvariant Db.empty := ⟨nofun, nofun, nofun, nofun⟩
  obtain ⟨st, db', run, -⟩ := of_check (processDocument sampleEnv (sampleUse false)) Db.empty
    (fun _ _ => true) (by decide +kernel)
  exact ⟨empty, st, db', run,
    (historyInvariant_of_processDocument run foreignKeys_empty empty).1⟩

end Cgimap.Osmchange.VersionHistory
