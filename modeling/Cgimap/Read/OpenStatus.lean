/- path: Cgimap/Read/OpenStatus
   generality: I
   source: src/output_formatter.cpp, include/cgimap/output_formatter.hpp
   digest: When a changeset is shown as open, and when an upload to it is accepted. -/

import Cgimap.Changeset.RowEffects
import Cgimap.Read.Endpoints
import Cgimap.Read.ParseTime

set_option autoImplicit false
set_option relaxedAutoImplicit false

namespace Cgimap.Read.OpenStatus

open Cgimap.Library.ExceptLists
open Cgimap.Library.KeyedTable
open Cgimap.Library.StatementProgram
open Cgimap.Model.Types
open Cgimap.Model.Database
open Cgimap.Model.Users
open Cgimap.Changeset.Updater
open Cgimap.Changeset.RowEffects
open Cgimap.Read.DataSelection
open Cgimap.Read.Endpoints
open Cgimap.Read.ParseTime

/-- `changeset_info::is_open_at`; the time counts nanoseconds. -/
def isOpenAt (cfg : Settings) (info : ChangesetInfo) (now : Int) : Except Exception Bool := do
  let closedAtTime ← parseTime info.closedAt
  .ok (decide (closedAtTime > now) && decide (info.numChanges ≤ cfg.changesetMaxElements))

/-- `lock_current_changeset(true)` lets the user go on. -/
def AcceptsUpload (s : Session) (u : ChangesetUpdater) (db : Db) : Prop :=
  ∃ u' db', (lockCurrentChangeset s true u).run db = .ok (u', db')

section Agreement

variable {s : Session} {u : ChangesetUpdater} {store : Store} {sel : Selection} {r : ChangesetRow}
  {info : ChangesetInfo} {tags : List (String × String)} {withComments : Bool}
  {comments : List CommentInfo} {t t' seconds : Int}

theorem extractChangeset_info
    (read : extractChangeset store sel t r = .ok (.writeChangeset info tags withComments comments t')) :
    info.closedAt = toCharIso r.closedAt ∧ info.numChanges = r.numChanges := by
  unfold extractChangeset at read
  obtain ⟨tags', -, read⟩ := bind_eq_ok.mp read
  obtain ⟨comments', -, read⟩ := bind_eq_ok.mp read
  cases read
  exact ⟨rfl, rfl⟩

theorem isOpenAt_of_read (inClock : InClock (r.closedAt / 1000000))
    (read : extractChangeset store sel t r = .ok (.writeChangeset info tags withComments comments t')) :
    isOpenAt s.cfg info (seconds * 1000000000) =
      .ok (decide (seconds < r.closedAt / 1000000 ∧ r.numChanges ≤ s.cfg.changesetMaxElements)) := by
  obtain ⟨closedAt, numChanges⟩ := extractChangeset_info read
  have later : r.closedAt / 1000000 * 1000000000 > seconds * 1000000000 ↔
      seconds < r.closedAt / 1000000 := by omega
  unfold isOpenAt
  rw [closedAt, parseTime_toCharIso inClock, numChanges]
  change Except.ok (decide _ && decide _) = _
  rw [Bool.decide_and, decide_eq_decide.mpr later]

theorem acceptsUpload_iff (found : store.db.changesets.find? u.changeset = some r)
    (owner : r.userId = s.userId) (column : r.numChanges < 2 ^ 31) :
    AcceptsUpload s u store.db ↔
      s.now ≤ r.closedAt ∧ r.numChanges < s.cfg.changesetMaxElements := by
  have whole : wrap32 r.numChanges = r.numChanges := wrap32_of_lt (by omega)
  unfold AcceptsUpload
  rw [lockCurrentChangeset_run found owner, whole]
  constructor
  · rintro ⟨u', db', accepted⟩
    split at accepted
    · cases accepted
    · rename_i notClosed
      split at accepted
      · cases accepted
      · rename_i notFull
        exact ⟨Int.not_lt.mp notClosed, Nat.lt_of_not_le fun full => notFull ⟨rfl, full⟩⟩
  · rintro ⟨notClosed, notFull⟩
    rw [if_neg (Int.not_lt.mpr notClosed), if_neg fun full => Nat.not_le_of_lt notFull full.2]
    exact ⟨_, _, rfl⟩

/-- A changeset that is shown as open accepts uploads of its owner, unless it holds
just as many changes as it may; outside of its last second it also is shown as open
when it accepts them. -/
theorem isOpenAt_agrees (found : store.db.changesets.find? u.changeset = some r)
    (owner : r.userId = s.userId) (time : s.now = interval seconds)
    (column : r.numChanges < 2 ^ 31) (inClock : InClock (r.closedAt / 1000000))
    (read : extractChangeset store sel t r = .ok (.writeChangeset info tags withComments comments t'))
    (apart : ¬ (r.closedAt / 1000000 = seconds ∧ r.numChanges < s.cfg.changesetMaxElements)) :
    ∃ isOpen, isOpenAt s.cfg info (seconds * 1000000000) = .ok isOpen ∧
      (isOpen = true ↔ AcceptsUpload s u store.db ∨
        (r.numChanges = s.cfg.changesetMaxElements ∧ seconds < r.closedAt / 1000000)) := by
  refine ⟨_, isOpenAt_of_read inClock read, ?_⟩
  rw [decide_eq_true_eq, acceptsUpload_iff found owner column, time]
  unfold interval
  constructor
  · rintro ⟨before, within⟩
    rcases Nat.lt_or_eq_of_le within with below | full
    · exact .inl ⟨by omega, below⟩
    · exact .inr ⟨full, before⟩
  · rintro (⟨notClosed, below⟩ | ⟨full, before⟩)
    · have other : r.closedAt / 1000000 ≠ seconds := fun same => apart ⟨same, below⟩
      exact ⟨by omega, Nat.le_of_lt below⟩
    · exact ⟨before, Nat.le_of_eq full⟩

end Agreement

section Samples

/-- A changeset of the first user, with its numbers of seconds and changes. -/
def sampleRow (closedAt : Int) (numChanges : Nat) : ChangesetRow :=
  ⟨7, 1, 0, interval closedAt, none, numChanges, UploadStats.zero⟩

def sampleRowStore (r : ChangesetRow) : Store where
  db := { Db.empty with changesets := ⟨[r], by simp⟩ }
  accounts := ⟨fun _ => ⟨true, "mapper", .active⟩, [], [], [], []⟩

def sampleInfo (r : ChangesetRow) : ChangesetInfo :=
  ⟨7, toCharIso r.createdAt, toCharIso r.closedAt, none, none, none, r.numChanges, 0⟩

theorem extractChangeset_sampleRow (closedAt : Int) (numChanges : Nat) :
    extractChangeset (sampleRowStore (sampleRow closedAt numChanges)) .empty 0
      (sampleRow closedAt numChanges) =
        .ok (.writeChangeset (sampleInfo (sampleRow closedAt numChanges)) [] false [] 0) := rfl

theorem isOpenAt_agrees_sampleRow :
    ∃ isOpen, isOpenAt .default (sampleInfo (sampleRow 3600 5)) (60 * 1000000000) = .ok isOpen ∧
      (isOpen = true ↔
        AcceptsUpload ⟨.default, interval 60, 1⟩ ⟨7, 0, Bbox.undefined .default⟩
          (sampleRowStore (sampleRow 3600 5)).db ∨ (5 = 10000 ∧ 60 < interval 3600 / 1000000)) :=
  isOpenAt_agrees (s := ⟨.default, interval 60, 1⟩) rfl rfl rfl (by decide) (by decide)
    (extractChangeset_sampleRow 3600 5) (by decide)

/-- A full changeset is shown as open, and accepts no upload; in the second in which
it is closed a changeset is shown as closed, and accepts one. So does a changeset to
be closed in the year 2300, which the clock cannot hold. -/
theorem not_isOpenAt_agrees_sampleRow :
    (isOpenAt .default (sampleInfo (sampleRow 3600 10000)) (60 * 1000000000) = .ok true ∧
      ¬ AcceptsUpload ⟨.default, interval 60, 1⟩ ⟨7, 0, Bbox.undefined .default⟩
        (sampleRowStore (sampleRow 3600 10000)).db) ∧
    (isOpenAt .default (sampleInfo (sampleRow 60 5)) (60 * 1000000000) = .ok false ∧
      AcceptsUpload ⟨.default, interval 60, 1⟩ ⟨7, 0, Bbox.undefined .default⟩
        (sampleRowStore (sampleRow 60 5)).db) ∧
    (isOpenAt .default (sampleInfo (sampleRow 10413792000 5)) (60 * 1000000000) = .ok false ∧
      AcceptsUpload ⟨.default, interval 60, 1⟩ ⟨7, 0, Bbox.undefined .default⟩
        (sampleRowStore (sampleRow 10413792000 5)).db) := by
  refine ⟨⟨by decide +kernel, fun accepts => ?_⟩, ⟨by decide +kernel, ?_⟩, by decide +kernel, ?_⟩
  · have full := (acceptsUpload_iff (r := sampleRow 3600 10000) rfl rfl (by decide)).mp accepts
    exact absurd full.2 (by decide)
  · exact (acceptsUpload_iff (r := sampleRow 60 5) rfl rfl (by decide)).mpr ⟨by decide, by decide⟩
  · exact (acceptsUpload_iff (r := sampleRow 10413792000 5) rfl rfl (by decide)).mpr
      ⟨by decide, by decide⟩

end Samples

end Cgimap.Read.OpenStatus
