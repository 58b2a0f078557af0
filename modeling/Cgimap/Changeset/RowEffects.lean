/- path: Cgimap/Changeset/RowEffects
   generality: I
   source: none
   digest: What each function of the changeset updater does to the row of its changeset. -/

import Cgimap.Changeset.Responders
import Cgimap.Osmchange.DocumentRuns

set_option autoImplicit false
set_option relaxedAutoImplicit false

namespace Cgimap.Changeset.RowEffects

open Cgimap.Library.KeyedTable
open Cgimap.Library.StatementProgram
open Cgimap.Library.StatementProgram.Prog
open Cgimap.Model.Types
open Cgimap.Model.Database
open Cgimap.Osmchange.UploadRecords
open Cgimap.Osmchange.SqlStatements
open Cgimap.Osmchange.Handler
open Cgimap.Osmchange.ObjectState
open Cgimap.Osmchange.CreateEffects
open Cgimap.Osmchange.DocumentRuns
open Cgimap.Osmchange.DiffTracking
open Cgimap.Changeset.Updater
open Cgimap.Changeset.Responders

structure SetsRow (c : Int) (r : ChangesetRow) (db db' : Db) : Prop where
  find : ∀ c', db'.changesets.find? c' = if c' = c then some r else db.changesets.find? c'
  rest : db' = { db with changesets := db'.changesets }

namespace SetsRow

variable {c : Int} {r r' : ChangesetRow} {db db₁ db₂ : Db}

theorem self (sets : SetsRow c r db db₁) : db₁.changesets.find? c = some r := by
  rw [sets.find, if_pos rfl]

theorem other (sets : SetsRow c r db db₁) {c' : Int} (ne : c' ≠ c) :
    db₁.changesets.find? c' = db.changesets.find? c' := by
  rw [sets.find, if_neg ne]

theorem trans (first : SetsRow c r db db₁) (next : SetsRow c r' db₁ db₂) :
    SetsRow c r' db db₂ where
  find c' := by
    rw [next.find]
    split
    · rfl
    · rename_i ne
      exact first.other ne
  rest := by
    rw [next.rest, first.rest]

end SetsRow

section Statements

variable {hits : ChangesetRow → Bool} {c : Int} {r : ChangesetRow} {db : Db}

/-- An update whose condition names the id of a known row affects that row. -/
theorem updateChangesets_exec (set : ChangesetRow → ChangesetRow)
    (keeps : ∀ r, (set r).id = r.id) (found : db.changesets.find? c = some r) (hit : hits r = true)
    (only : ∀ x, hits x = true → x.id = c) :
    ∃ db', (updateChangesets hits set keeps).exec db = .ok (1, db') ∧ SetsRow c (set r) db db' := by
  obtain ⟨row, own⟩ := Table.find?_eq_some.mp found
  have one : db.changesets.select hits = [r] := by
    have same : db.changesets.select hits =
        db.changesets.rows.filter (fun x => decide (x.id = r.id)) := by
      refine List.filter_congr fun x member => ?_
      by_cases here : x.id = r.id
      · obtain rfl := Table.eq_of_key (T := db.changesets) member row here
        rw [hit, decide_eq_true rfl]
      · have miss : hits x = false := by
          rw [Bool.eq_false_iff]
          exact fun yes => here ((only x yes).trans own.symm)
        rw [miss, decide_eq_false here]
    rw [same]
    exact filter_key_eq_singleton db.changesets.nodup row
  refine ⟨{ db with
    changesets := db.changesets.update (setWhere hits set) (setWhere_id keeps) }, ?_,
    fun c' => ?_, rfl⟩
  · simp only [updateChangesets, one, List.length_singleton]
  rw [Table.find?_update]
  split
  · rename_i here
    rw [here, found, Option.map_some, setWhere, if_pos hit]
  · rename_i ne
    cases other : db.changesets.find? c' with
    | none => rfl
    | some x =>
        have id := (Table.find?_eq_some.mp other).2
        have miss : ¬ hits x = true := fun yes => ne (id.symm.trans (only x yes))
        rw [Option.map_some, setWhere, if_neg miss]

end Statements

section Lock

variable {s : Session} {u u' : ChangesetUpdater} {check : Bool} {db db' : Db}

private theorem checkUserOwnsChangeset_run {r : ChangesetRow}
    (found : db.changesets.find? u.changeset = some r) (own : r.userId = s.userId) :
    (checkUserOwnsChangeset s u).run db = .ok ((), db) := by
  unfold checkUserOwnsChangeset changesetExists
  rw [run_bind, run_query]
  simp only [found, Option.map_some, own, if_true, run_pure]

private theorem checkUserOwnsChangeset_eq_ok {x : Unit}
    (done : (checkUserOwnsChangeset s u).run db = .ok (x, db')) :
    ∃ r, db.changesets.find? u.changeset = some r ∧ r.userId = s.userId ∧ db' = db := by
  unfold checkUserOwnsChangeset changesetExists at done
  rw [run_bind, run_query] at done
  cases found : db.changesets.find? u.changeset with
  | none =>
      rw [found] at done
      cases done
  | some r =>
      simp only [found, Option.map_some] at done
      split at done
      · rename_i own
        cases done
        exact ⟨r, rfl, own, rfl⟩
      · cases done

private theorem lockCs_run {r : ChangesetRow} (found : db.changesets.find? u.changeset = some r)
    (own : r.userId = s.userId) :
    (lockCs s u).run db = .ok ((lockedRow s.now r, u.load r.numChanges r.bbox), db) := by
  have row : ownRow u.changeset s.userId db = some r := by
    rw [ownRow, found]
    exact Option.filter_some_pos (decide_eq_true own)
  unfold lockCs
  rw [run_bind, run_perform]
  simp only [changesetCurrentLock, row, Option.map_some, run_pure]
  rfl

/-- Locking, decided by the row: owned, not closed before now, and not full when
that is checked. -/
theorem lockCurrentChangeset_run {r : ChangesetRow}
    (found : db.changesets.find? u.changeset = some r) (own : r.userId = s.userId) :
    (lockCurrentChangeset s check u).run db =
      if r.closedAt < s.now then .error (closedAtMessage u.changeset (toChar r.closedAt))
      else if check = true ∧ s.cfg.changesetMaxElements ≤ wrap32 r.numChanges then
        .error (closedAtMessage u.changeset (toChar s.now))
      else .ok (u.load r.numChanges r.bbox, db) := by
  unfold lockCurrentChangeset
  simp only [run_bind, checkUserOwnsChangeset_run found own, lockCs_run found own, lockedRow,
    ChangesetUpdater.load, decide_eq_true_eq]
  split
  · rfl
  · split
    · rfl
    · rfl

theorem lockCurrentChangeset_eq_ok
    (done : (lockCurrentChangeset s check u).run db = .ok (u', db')) :
    ∃ r, db.changesets.find? u.changeset = some r ∧ r.userId = s.userId ∧ s.now ≤ r.closedAt ∧
      (check = true → wrap32 r.numChanges < s.cfg.changesetMaxElements) ∧
      u' = u.load r.numChanges r.bbox ∧ db' = db := by
  have first := done
  unfold lockCurrentChangeset at first
  rw [run_bind_eq_ok] at first
  obtain ⟨_, _, checked, -⟩ := first
  obtain ⟨r, found, own, -⟩ := checkUserOwnsChangeset_eq_ok checked
  rw [lockCurrentChangeset_run found own] at done
  split at done
  · cases done
  · rename_i notClosed
    split at done
    · cases done
    · rename_i notFull
      cases done
      refine ⟨r, found, own, Int.not_lt.mp notClosed, fun checks => ?_, rfl, rfl⟩
      exact Nat.lt_of_not_le fun full => notFull ⟨checks, full⟩

end Lock

section Update

variable (s : Session) (new : UploadStats) (bbox : Bbox) {u : ChangesetUpdater} {db : Db}
  {r : ChangesetRow}

def updatedRow (s : Session) (new : UploadStats) (u : ChangesetUpdater) (r : ChangesetRow) :
    ChangesetRow :=
  { r with
    numChanges := u.csNumChanges
    bbox := if u.csBbox = Bbox.undefined s.cfg then r.bbox else some u.csBbox
    closedAt := extendedClosedAt s r
    stats := if s.cfg.changesetEnhancedStats = true ∧ 0 < new.total then r.stats.add new
      else r.stats }

theorem updateChangeset_full
    (beyond : s.cfg.changesetMaxElements < wrap32 (u.csNumChanges + wrap32 new.total)) :
    (updateChangeset s new bbox u).run db =
      .error (closedAtMessage u.changeset (toChar s.now)) := by
  unfold updateChangeset
  rw [if_pos beyond]
  rfl

private theorem hasId_self {c : Int} (found : db.changesets.find? c = some r) :
    hasId c r = true := decide_eq_true (Table.find?_eq_some.mp found).2

private theorem hasId_only {c : Int} (x : ChangesetRow) (hit : hasId c x = true) : x.id = c :=
  of_decide_eq_true hit

theorem changesetUpdate_run (found : db.changesets.find? u.changeset = some r) :
    ∃ db', (if u.csBbox = Bbox.undefined s.cfg then changesetUpdate s u
        else changesetUpdateWBbox s u).exec db = .ok (1, db') ∧
      SetsRow u.changeset { updatedRow s new u r with stats := r.stats } db db' := by
  unfold updatedRow
  split
  · exact updateChangesets_exec _ _ found (hasId_self found) hasId_only
  · exact updateChangesets_exec _ _ found (hasId_self found) hasId_only

theorem changesetUpdateEnhancedStats_run
    (found : db.changesets.find? u.changeset = some r) :
    ∃ db', (changesetUpdateEnhancedStats s new u).run db = .ok ((), db') ∧
      SetsRow u.changeset { r with
        stats := if s.cfg.changesetEnhancedStats = true ∧ 0 < new.total then r.stats.add new
          else r.stats } db db' := by
  unfold changesetUpdateEnhancedStats
  split
  · obtain ⟨db', run, sets⟩ := updateChangesets_exec
      (fun r => { r with stats := r.stats.add new }) (fun _ => rfl) found
      (hasId_self found) hasId_only
    refine ⟨db', ?_, sets⟩
    rw [run_bind, run_perform, addStats, run]
    rfl
  · refine ⟨db, rfl, fun c' => ?_, rfl⟩
    split
    · rename_i here
      rw [here, found]
    · rfl

theorem saveChangeset_run (found : db.changesets.find? u.changeset = some r) :
    ∃ db', (saveChangeset s new u).run db = .ok (u, db') ∧
      SetsRow u.changeset (updatedRow s new u r) db db' := by
  obtain ⟨db₁, first, sets₁⟩ := changesetUpdate_run s new found
  obtain ⟨db₂, second, sets₂⟩ :=
    changesetUpdateEnhancedStats_run s new sets₁.self
  refine ⟨db₂, ?_, sets₁.trans sets₂⟩
  unfold saveChangeset
  simp only [run_bind, run_perform, first, expectRows, if_true, run_pure, second]

theorem updateChangeset_fits
    (fits : wrap32 (u.csNumChanges + wrap32 new.total) ≤ s.cfg.changesetMaxElements) :
    updateChangeset s new bbox u = saveChangeset s new (u.count (wrap32 new.total) bbox) := by
  unfold updateChangeset
  rw [if_neg (Nat.not_lt.mpr fits)]

theorem updateChangeset_run (found : db.changesets.find? u.changeset = some r)
    (fits : wrap32 (u.csNumChanges + wrap32 new.total) ≤ s.cfg.changesetMaxElements) :
    ∃ db', (updateChangeset s new bbox u).run db = .ok (u.count (wrap32 new.total) bbox, db') ∧
      SetsRow u.changeset (updatedRow s new (u.count (wrap32 new.total) bbox) r) db db' := by
  rw [updateChangeset_fits s new bbox fits]
  exact saveChangeset_run s new found

theorem updateChangeset_eq_ok {u' : ChangesetUpdater} {db' : Db}
    (found : db.changesets.find? u.changeset = some r)
    (done : (updateChangeset s new bbox u).run db = .ok (u', db')) :
    wrap32 (u.csNumChanges + wrap32 new.total) ≤ s.cfg.changesetMaxElements ∧
      u' = u.count (wrap32 new.total) bbox ∧
      SetsRow u.changeset (updatedRow s new (u.count (wrap32 new.total) bbox) r) db db' := by
  by_cases fits : wrap32 (u.csNumChanges + wrap32 new.total) ≤ s.cfg.changesetMaxElements
  · obtain ⟨db₁, run, sets⟩ := updateChangeset_run s new bbox found fits
    obtain ⟨rfl, rfl⟩ := Prod.mk.inj (Except.ok.inj (done.symm.trans run))
    exact ⟨fits, rfl, sets⟩
  · have full := done.symm.trans (updateChangeset_full s new bbox (Nat.lt_of_not_le fits))
    cases full

end Update

section Frame

/-- The tables that an osmChange document leaves alone. -/
structure SameChangesets (db db' : Db) : Prop where
  changesets : db'.changesets = db.changesets
  changesetTags : db'.changesetTags = db.changesetTags
  subscribers : db'.subscribers = db.subscribers
  users : db'.users = db.users
  changesetSeq : db'.changesetSeq = db.changesetSeq

theorem SameChangesets.refl (db : Db) : SameChangesets db db := ⟨rfl, rfl, rfl, rfl, rfl⟩

theorem SameChangesets.trans {db db₁ db₂ : Db} (first : SameChangesets db db₁)
    (next : SameChangesets db₁ db₂) : SameChangesets db db₂ where
  changesets := next.changesets.trans first.changesets
  changesetTags := next.changesetTags.trans first.changesetTags
  subscribers := next.subscribers.trans first.subscribers
  users := next.users.trans first.users
  changesetSeq := next.changesetSeq.trans first.changesetSeq

private theorem sameChangesets_of_rest {db db' : Db} (rest : SameRest db db') :
    SameChangesets db db' :=
  ⟨rest.changesets, rest.changesetTags, rest.subscribers, rest.users, rest.changesetSeq⟩

private theorem batch_sameChangesets {env : Env} {b : Batch} (effect : BatchEffect env b) :
    SameChangesets b.before b.after := by
  cases effect with
  | create t es batch =>
      have bump : SameChangesets b.before (bumped b.before t es.length) := ⟨rfl, rfl, rfl, rfl, rfl⟩
      exact bump.trans (sameChangesets_of_rest batch.effect.acts.rest)
  | modify es db₁ db₂ modified batch =>
      have nodes := sameChangesets_of_rest batch.nodes.acts.rest
      have ways := sameChangesets_of_rest batch.ways.acts.rest
      exact (nodes.trans ways).trans (sameChangesets_of_rest batch.relations.acts.rest)
  | delete t es executed used deleted batch => exact sameChangesets_of_rest batch.effect.acts.rest

theorem processDocument_sameChangesets {env : Env} {doc : List Element} {db db' : Db} {st : Upload}
    (done : (processDocument env doc).run db = .ok (st, db')) : SameChangesets db db' := by
  obtain ⟨batches, executed⟩ := executed_of_processDocument done
  obtain ⟨st₁, runs, -⟩ := executed.runs
  refine runs.invariant (I := fun _ _ db' => SameChangesets db db') (idle_empty env)
    (SameChangesets.refl db) fun _ _ b _ before _ effect => ?_
  exact before.trans (batch_sameChangesets effect)

/-- A processed payload is a processed document, or was not parsed. -/
theorem processPayload_eq_ok {env : Env} {mt : MimeType} {payload : Payload} {db db' : Db}
    {st : Upload} (done : (processPayload env mt payload).run db = .ok (st, db')) :
    (mt = .applicationJson ∧ st = Upload.empty env ∧ db' = db) ∨
      (mt ≠ .applicationJson ∧ (processDocument env payload.elements).run db = .ok (st, db')) := by
  unfold processPayload at done
  split at done
  · rename_i xml
    refine .inr ⟨xml, ?_⟩
    cases parsed : payload.failure with
    | none =>
        rw [processMessage_eq env payload parsed] at done
        exact done
    | some e =>
        unfold processMessage at done
        rw [run_bind_eq_ok] at done
        obtain ⟨st₁, db₁, -, last⟩ := done
        rw [parsed] at last
        cases last
  · rename_i json
    cases done
    exact .inl ⟨not_not.mp json, rfl, rfl⟩

theorem processPayload_sameChangesets {env : Env} {mt : MimeType} {payload : Payload} {db db' : Db}
    {st : Upload} (done : (processPayload env mt payload).run db = .ok (st, db')) :
    SameChangesets db db' := by
  rcases processPayload_eq_ok done with ⟨-, -, rfl⟩ | ⟨-, document⟩
  · exact SameChangesets.refl _
  · exact processDocument_sameChangesets document

end Frame

section Responders

variable {tx : Transaction} {c : Int} {db db' : Db} {reply : Reply}

def sessionOf (tx : Transaction) (userId : Nat) : Session := ⟨tx.cfg, tx.now, userId⟩

def freshUpdater (tx : Transaction) (c : Int) : ChangesetUpdater := ⟨c, 0, Bbox.undefined tx.cfg⟩

/-- A committed transaction on an existing changeset: the owner's, on a row that is
not closed, which becomes `r'`. -/
structure Touches (tx : Transaction) (c : Int) (r r' : ChangesetRow) (db db' : Db) : Prop where
  found : db.changesets.find? c = some r
  user : tx.user = some r.userId
  notClosed : tx.now ≤ r.closedAt
  find : ∀ c', db'.changesets.find? c' = if c' = c then some r' else db.changesets.find? c'

private theorem newUpdater_eq_ok {x : Session × ChangesetUpdater} {db' : Db}
    (done : (liftExcept (newUpdater tx.cfg tx.now tx.user c) : DbProg _).run db = .ok (x, db')) :
    ∃ userId, tx.user = some userId ∧ x = (sessionOf tx userId, freshUpdater tx c) ∧ db' = db := by
  obtain ⟨built, rfl⟩ := run_liftExcept_eq_ok.mp done
  unfold newUpdater at built
  split at built
  · cases built
  · rename_i userId user
    cases built
    exact ⟨userId, user, rfl, rfl⟩

private theorem changesetInsertTags_eq_ok {tags : List (String × String)} {u : ChangesetUpdater}
    {x : Unit} (done : (changesetInsertTags tags u).run db = .ok (x, db')) :
    db' = { db with changesetTags := db'.changesetTags } := by
  unfold changesetInsertTags at done
  split at done
  · cases done
    rfl
  · rw [run_bind_eq_ok] at done
    obtain ⟨n, db₁, inserted, rows⟩ := done
    have same : db' = db₁ := by
      unfold expectRows at rows
      split at rows
      · cases rows
        rfl
      · cases rows
    subst same
    rw [run_perform] at inserted
    unfold insertChangesetTags at inserted
    simp only at inserted
    split at inserted
    · cases inserted
    · cases inserted
      rfl

private theorem expectRows_eq_ok {n m : Nat} {e : Exception} {x : Unit}
    (done : (expectRows n m e).run db = .ok (x, db')) : n = m ∧ db' = db := by
  unfold expectRows at done
  split at done
  · rename_i same
    cases done
    exact ⟨same, rfl⟩
  · cases done

/-- A committed close: `closed_at` is the time of the transaction. -/
theorem changesetCloseResponder_eq_ok
    (done : (changesetCloseResponder tx c).run db = .ok (reply, db')) :
    ∃ r, Touches tx c r { r with closedAt := tx.now } db db' ∧ db'.history = db.history := by
  unfold changesetCloseResponder apiCloseChangeset at done
  simp only [run_bind_eq_ok] at done
  obtain ⟨_, db₁, built, _, db₂, ⟨u, db₃, lock, n, db₄, closed, rows⟩, last⟩ := done
  obtain ⟨userId, user, rfl, rfl⟩ := newUpdater_eq_ok built
  obtain ⟨r, found, own, notClosed, -, rfl, rfl⟩ := lockCurrentChangeset_eq_ok lock
  obtain ⟨-, rfl⟩ := expectRows_eq_ok rows
  cases last
  have hit : decide (r.id = c ∧ r.userId = userId) = true :=
    decide_eq_true ⟨(Table.find?_eq_some.mp found).2, own⟩
  have only : ∀ x : ChangesetRow, decide (x.id = c ∧ x.userId = userId) = true → x.id = c :=
    fun x named => (of_decide_eq_true named).1
  obtain ⟨db₅, run, sets⟩ := updateChangesets_exec
    (fun r => { r with closedAt := tx.now }) (fun _ => rfl) found hit only
  rw [run_perform] at closed
  obtain ⟨rfl, rfl⟩ := Prod.mk.inj (Except.ok.inj (closed.symm.trans run))
  refine ⟨r, ⟨found, user.trans (congrArg some own.symm), notClosed, sets.find⟩, ?_⟩
  rw [sets.rest]

/-- A committed tag update: nothing is counted, the time of closing is extended. -/
theorem changesetUpdateResponder_eq_ok {tags : Except Exception Tags}
    (done : (changesetUpdateResponder tx c tags).run db = .ok (reply, db')) :
    ∃ r, Touches tx c r (updatedRow (sessionOf tx r.userId) UploadStats.zero
        (((freshUpdater tx c).load r.numChanges r.bbox).count 0 (Bbox.undefined tx.cfg)) r) db db' ∧
      wrap32 (wrap32 r.numChanges) ≤ tx.cfg.changesetMaxElements ∧ db'.history = db.history := by
  unfold changesetUpdateResponder apiUpdateChangeset at done
  simp only [run_bind_eq_ok] at done
  obtain ⟨_, db₁, built, tags, db₂, parsed, _, db₃, ⟨u, db₄, lock, _, db₅, dropped, _, db₆, added,
    updated⟩, last⟩ := done
  obtain ⟨userId, user, rfl, rfl⟩ := newUpdater_eq_ok built
  obtain ⟨-, rfl⟩ := run_liftExcept_eq_ok.mp parsed
  obtain ⟨r, found, rfl, notClosed, -, rfl, rfl⟩ := lockCurrentChangeset_eq_ok lock
  cases last
  rw [run_perform] at dropped
  cases dropped
  have tagged := changesetInsertTags_eq_ok added
  have found₆ : db₆.changesets.find? c = some r := by
    rw [tagged]
    exact found
  obtain ⟨fits, -, sets⟩ := updateChangeset_eq_ok _ _ _ found₆ updated
  refine ⟨r, ⟨found, user, notClosed, fun c' => ?_⟩, fits, ?_⟩
  · rw [sets.find, tagged]
    rfl
  · rw [sets.rest, tagged]

private theorem checkRateLimit_eq_ok {env : Env} {limits : Limits} {userId n : Nat} {x : Unit}
    (done : (checkRateLimit env limits userId n).run db = .ok (x, db')) : db' = db := by
  unfold checkRateLimit getRateLimit at done
  split at done
  · simp only [run_bind_eq_ok, run_query] at done
    obtain ⟨limit, db₁, ⟨answer, db₂, asked, got⟩, last⟩ := done
    cases asked
    split at got
    · cases got
    · cases got
      split at last
      · cases last
      · cases last
        rfl
  · cases done
    rfl

private theorem checkBboxSize_eq_ok {env : Env} {limits : Limits} {userId : Nat} {csBbox : Bbox}
    {x : Unit} (done : (checkBboxSize env limits userId csBbox).run db = .ok (x, db')) :
    db' = db := by
  unfold checkBboxSize getBboxSizeLimit at done
  split at done
  · simp only [run_bind_eq_ok, run_query] at done
    obtain ⟨limit, db₁, ⟨answer, db₂, asked, got⟩, last⟩ := done
    cases asked
    split at got
    · cases got
    · cases got
      split at last
      · cases last
      · cases last
        rfl
  · cases done
    rfl

def uploadedRow (tx : Transaction) (c : Int) (st : Upload) (r : ChangesetRow) : ChangesetRow :=
  updatedRow (sessionOf tx r.userId) (getStats st)
    (((freshUpdater tx c).load r.numChanges r.bbox).count (wrap32 (getStats st).total)
      (getBbox (tx.env c) st)) r

/-- A committed upload, part by part: the payload was processed, the response is the
diff result, and only the row of the changeset was written after that. -/
structure Uploads (tx : Transaction) (mt : MimeType) (c : Int) (payload : Payload) (db : Db)
    (reply : Reply) (r : ChangesetRow) (st : Upload) (db₁ db' : Db) : Prop where
  processed : (processPayload (tx.env c) mt payload).run db = .ok (st, db₁)
  rows : ∃ rows, assembleDiffresult st.ct = .ok rows ∧ reply = .diffResult rows
  found : db.changesets.find? c = some r
  user : tx.user = some r.userId
  notClosed : tx.now ≤ r.closedAt
  notFull : wrap32 r.numChanges < tx.cfg.changesetMaxElements
  fits : wrap32 (wrap32 r.numChanges + wrap32 (getStats st).total) ≤ tx.cfg.changesetMaxElements
  sets : SetsRow c (uploadedRow tx c st r) db₁ db'

theorem uploads_of_responder {mt : MimeType} {payload : Payload}
    (done : (changesetUploadResponder tx mt c payload).run db = .ok (reply, db')) :
    ∃ r st db₁, Uploads tx mt c payload db reply r st db₁ db' := by
  unfold changesetUploadResponder at done
  split at done
  · cases done
  · simp only [run_bind_eq_ok] at done
    obtain ⟨_, db₁, built, u, db₂, lock, st, db₃, processed, diff, db₄, assembled, _, db₅, rate,
      u', db₆, updated, _, db₇, size, last⟩ := done
    obtain ⟨userId, user, rfl, rfl⟩ := newUpdater_eq_ok built
    obtain ⟨r, found, rfl, notClosed, notFull, rfl, rfl⟩ := lockCurrentChangeset_eq_ok lock
    obtain ⟨told, rfl⟩ := run_liftExcept_eq_ok.mp assembled
    obtain rfl := checkRateLimit_eq_ok rate
    obtain rfl := checkBboxSize_eq_ok size
    cases last
    have found₅ : db₅.changesets.find? c = some r := by
      rw [(processPayload_sameChangesets processed).changesets]
      exact found
    obtain ⟨fits, -, sets⟩ := updateChangeset_eq_ok _ _ _ found₅ updated
    exact ⟨r, st, db₅, processed, ⟨diff, told, rfl⟩, found, user, notClosed, notFull rfl, fits, sets⟩

/-- A committed upload: the payload was processed and its elements counted. -/
theorem changesetUploadResponder_eq_ok {mt : MimeType} {payload : Payload}
    (done : (changesetUploadResponder tx mt c payload).run db = .ok (reply, db')) :
    ∃ r st db₁, (processPayload (tx.env c) mt payload).run db = .ok (st, db₁) ∧
      Touches tx c r (updatedRow (sessionOf tx r.userId) (getStats st)
        (((freshUpdater tx c).load r.numChanges r.bbox).count (wrap32 (getStats st).total)
          (getBbox (tx.env c) st)) r) db db' ∧
      wrap32 r.numChanges < tx.cfg.changesetMaxElements ∧
      wrap32 (wrap32 r.numChanges + wrap32 (getStats st).total) ≤ tx.cfg.changesetMaxElements ∧
      db'.history = db₁.history := by
  obtain ⟨r, st, db₁, up⟩ := uploads_of_responder done
  have same := processPayload_sameChangesets up.processed
  refine ⟨r, st, db₁, up.processed, ⟨up.found, up.user, up.notClosed, fun c' => ?_⟩, up.notFull,
    up.fits, ?_⟩
  · rw [up.sets.find, same.changesets]
    rfl
  · rw [up.sets.rest]

/-- The row that `create_changeset` inserts. -/
def newChangesetRow (tx : Transaction) (userId : Nat) (c : Int) : ChangesetRow :=
  ⟨c, userId, tx.now, tx.now + interval tx.cfg.changesetTimeoutIdle, none, 0, UploadStats.zero⟩

theorem changesetCreateResponder_eq_ok {tags : Except Exception Tags}
    (done : (changesetCreateResponder tx tags).run db = .ok (reply, db')) :
    ∃ c userId, tx.user = some userId ∧ db.changesets.find? c = none ∧
      (∀ c', db'.changesets.find? c' =
        if c' = c then some (newChangesetRow tx userId c) else db.changesets.find? c') ∧
      reply = .text (toString c) ∧ db'.history = db.history := by
  unfold changesetCreateResponder apiCreateChangeset changesetInsertCs changesetUpdateUsersCsCount
    changesetInsertSubscriber at done
  simp only [run_bind_eq_ok] at done
  obtain ⟨_, db₁, built, tags, db₂, parsed, id, db₃, ⟨u, db₄, ⟨c, db₅, inserted, loaded⟩, _, db₆,
    ⟨n, db₇, counted, counts⟩, _, db₈, dropped, _, db₉, added, _, db₁₀, ⟨m, db₁₁, subscribed,
    subscribes⟩, named⟩, last⟩ := done
  obtain ⟨userId, user, rfl, rfl⟩ := newUpdater_eq_ok built
  obtain ⟨-, rfl⟩ := run_liftExcept_eq_ok.mp parsed
  cases loaded
  cases named
  cases last
  obtain ⟨-, rfl⟩ := expectRows_eq_ok counts
  obtain ⟨-, rfl⟩ := expectRows_eq_ok subscribes
  rw [run_perform] at inserted counted dropped subscribed
  cases counted
  cases dropped
  have tagged := changesetInsertTags_eq_ok added
  -- the row goes in first, and no later statement touches it
  have subscriber : db' = { db₉ with subscribers := db'.subscribers } := by
    unfold insertChangesetSubscribers at subscribed
    simp only at subscribed
    split at subscribed
    · cases subscribed
    · split at subscribed
      · cases subscribed
      · cases subscribed
        rfl
  unfold createChangeset at inserted
  simp only at inserted
  split at inserted
  · cases inserted
  · rename_i T row
    split at inserted
    · cases inserted
    · cases inserted
      refine ⟨db₂.changesetSeq, userId, user, ?_, fun c' => ?_, rfl, ?_⟩
      · exact (Table.insert_eq_some row).2.2 _ List.mem_cons_self
      · rw [subscriber, tagged]
        change T.find? c' = _
        rw [Table.find?_insert row]
        have fresh := (Table.insert_eq_some row).2.2 _ List.mem_cons_self
        split
        · rename_i here
          rw [here]
          change db₂.changesets.find? db₂.changesetSeq = none at fresh
          rw [fresh]
          simp [newChangesetRow, sessionOf]
        · rename_i ne
          have miss : ¬ db₂.changesetSeq = c' := fun same => ne same.symm
          simp [miss]
      · rw [subscriber, tagged]

end Responders

end Cgimap.Changeset.RowEffects
