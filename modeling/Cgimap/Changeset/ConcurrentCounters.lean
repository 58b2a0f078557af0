/- path: Cgimap/Changeset/ConcurrentCounters
   generality: I
   source: src/backend/apidb/changeset_upload/changeset_updater.cpp
   digest: No interleaving of requests loses a count. -/

import Cgimap.Changeset.Accounting
import Cgimap.Changeset.ConcurrentHistories

set_option autoImplicit false
set_option relaxedAutoImplicit false

namespace Cgimap.Changeset.ConcurrentCounters

open Cgimap.Library.ExceptLists
open Cgimap.Library.EventLog
open Cgimap.Library.KeyedTable
open Cgimap.Library.StatementProgram
open Cgimap.Library.Interleaving
open Cgimap.Library.OwnedRecords
open Cgimap.Model.Types
open Cgimap.Model.Database
open Cgimap.Osmchange.DiffTracking
open Cgimap.Osmchange.UploadRecords
open Cgimap.Osmchange.Handler
open Cgimap.Osmchange.ObjectState
open Cgimap.Osmchange.Placeholders
open Cgimap.Osmchange.ElementTrace
open Cgimap.Osmchange.ElementCounts
open Cgimap.Osmchange.OwnedWrites
open Cgimap.Osmchange.OwnedUploads
open Cgimap.Osmchange.XmlParser (FromCharsDouble)
open Cgimap.Changeset.Updater
open Cgimap.Changeset.Responders
open Cgimap.Changeset.PayloadSizes
open Cgimap.Changeset.RowEffects
open Cgimap.Changeset.Accounting
open Cgimap.Changeset.ClosingRaces
open Cgimap.Changeset.ConcurrentUploads
open Cgimap.Changeset.OwnedRequests
open Cgimap.Changeset.ConcurrentHistories

/-- The counters of a changeset: as many changes as history rows carry its id. -/
structure ChangesetCounted (cfg : Settings) (c : Int) (db : Db) : Prop where
  absent : db.changesets.find? c = none → historyCount db c = 0
  counted : ∀ r, db.changesets.find? c = some r → historyCount db c = r.numChanges
  within : ∀ r, db.changesets.find? c = some r → r.numChanges ≤ cfg.changesetMaxElements
  stats : cfg.changesetEnhancedStats = true → ∀ r, db.changesets.find? c = some r →
    r.stats.total = r.numChanges

/-- The counter of a user: as many changesets as the user owns. -/
def UserCounted (u : Nat) (db : Db) : Prop :=
  ∀ row, db.users.find? u = some row →
    row.changesetsCount = (db.changesets.select (fun r => decide (r.userId = u))).length

structure Counted (cfg : Settings) (db : Db) : Prop where
  changesets : ∀ c, ChangesetCounted cfg c db
  users : ∀ u, UserCounted u db

variable {sax : Sax} {fromCharsDouble : String → FromCharsDouble}
  {cfg : Settings} {c : Int} {db db' : Db} {tx : Transaction} {reply : Reply}

section Rows

private theorem historyCount_same
    (same : objectsOf (dbRecords.contents db') = objectsOf (dbRecords.contents db)) (c : Int) :
    historyCount db' c = historyCount db c := by
  have count : historyCount db' c = historyCount db c + if c = c then executedCount [] else 0 :=
    historyCount_of_log (fun t id => ?_) c
  · rw [count]
    simp [executedCount]
  · have here : object db' t id = object db t id := congrFun same (t, id)
    rw [here]
    have none : (eventsOf ([] : Trace) (t, id)).filterMap newVersion? = [] := rfl
    rw [none]
    exact ⟨List.nodup_nil, by simp, fun _ _ => rfl, by simp⟩

private theorem changesetCounted_same (counted : ChangesetCounted cfg c db)
    (row : db'.changesets.find? c = db.changesets.find? c)
    (history : historyCount db' c = historyCount db c) : ChangesetCounted cfg c db' := by
  refine ⟨?_, ?_, ?_, ?_⟩
  · rw [row, history]
    exact counted.absent
  · rw [row, history]
    exact counted.counted
  · rw [row]
    exact counted.within
  · rw [row]
    exact counted.stats

private theorem changesetCounted_of_row {r' : ChangesetRow}
    (found : db'.changesets.find? c = some r') (history : historyCount db' c = r'.numChanges)
    (within : r'.numChanges ≤ cfg.changesetMaxElements)
    (stats : cfg.changesetEnhancedStats = true → r'.stats.total = r'.numChanges) :
    ChangesetCounted cfg c db' := by
  refine ⟨fun absent => ?_, fun r row => ?_, fun r row => ?_, fun enabled r row => ?_⟩
  · rw [found] at absent
    cases absent
  · obtain rfl := Option.some.inj (found.symm.trans row)
    exact history
  · obtain rfl := Option.some.inj (found.symm.trans row)
    exact within
  · obtain rfl := Option.some.inj (found.symm.trans row)
    exact stats enabled

private theorem userCounted_of_setsRecord {σ : dbRecords.Contents} {r r' : ChangesetRow}
    (sets : SetsRecord c r' σ (dbRecords.contents db'))
    (same : ∀ x, (∀ o, x ≠ .object o) → σ x = dbRecords.contents db x)
    (found : db.changesets.find? c = some r) (owner : r'.userId = r.userId) {u : Nat}
    (counted : UserCounted u db) : UserCounted u db' := by
  intro row here
  have before : db.users.find? u = some row := by
    rw [← here]
    exact ((sets.other (.user u) nofun).trans (same _ fun _ => nofun)).symm
  rw [counted row before]
  refine (Table.length_select_congr _ fun k => ?_).symm
  by_cases own : k = c
  · subst own
    have after : db'.changesets.find? k = some r' := sets.self
    rw [after, found, Option.any_some, Option.any_some, owner]
  · have other : db'.changesets.find? k = db.changesets.find? k :=
      (sets.other (.changeset k) (by simpa using own)).trans (same _ fun _ => nofun)
    rw [other]

end Rows

section Uploads

variable {env : Env} {els : List Element} {log : Trace} {ct : Tracking}
  {σ σ' : dbRecords.Contents}

private theorem changesetId_of_stems (stems : List.Forall₂ (Stems env ct) els log) {t : ObjectType}
    {id : Nat} : ∀ ev ∈ eventsOf log (t, id), ev.elem.changesetId = env.changeset := by
  intro ev member
  obtain ⟨el, -, e, skipped, resolves, same⟩ := exists_of_mem_right stems (mem_eventsOf.mp member)
  cases same
  rw [resolves.changesetId, elemOf_changesetId]

private theorem historyCount_of_plays
    (plays : Plays env els log Tracking.empty ct (dbRecords.contents db) σ)
    (same : objectsOf (dbRecords.contents db') = objectsOf σ) (c : Int) :
    historyCount db' c =
      historyCount db c + if c = env.changeset then executedCount log else 0 := by
  refine historyCount_of_log (fun t id => ?_) c
  have final : (machine env.now).replayAt (k := (t, id)) (object db t id) (eventsOf log (t, id)) =
      object db' t id := by
    rw [show object db' t id = objectsOf σ (t, id) from congrFun same (t, id), ← plays.replayed,
      replay_at]
    rfl
  rw [← final]
  exact adds_replayAt env.now id ((lawful_iff _).mp plays.lawful (t, id))
    (changesetId_of_stems plays.stems)

private theorem executedCount_le_of_plays {mt : MimeType} {payload : Payload}
    (plays : Plays env (parsedElements mt payload) log Tracking.empty ct σ σ') :
    executedCount log ≤ (parsedElements mt payload).length := by
  have all : log.length = (parsedElements mt payload).length := plays.stems.length_eq.symm
  have count : executedCount log ≤ log.length := List.countP_le_length
  exact all ▸ count

end Uploads

private theorem changesetCounted_of_does (settings : tx.cfg = cfg)
    (limits : LimitsExpansion sax) (admitted : Admitted sax fromCharsDouble cfg tx.request)
    (counted : ∀ c, ChangesetCounted cfg c db)
    (does : Does tx (dbRecords.contents db) (dbRecords.contents db') reply) (c : Int) :
    ChangesetCounted cfg c db' := by
  have small : cfg.changesetMaxElements < 2 ^ 32 := by
    have limit := cfg.changesetMaxElements_le
    omega
  -- a request on another changeset that leaves the objects alone
  have other : ∀ {c₀ : Int} {r : ChangesetRow}, c ≠ c₀ →
      SetsRecord c₀ r (dbRecords.contents db) (dbRecords.contents db') → ChangesetCounted cfg c db' := by
    intro c₀ r ne sets
    exact changesetCounted_same (counted c) (sets.other (.changeset c) (by simpa using ne))
      (historyCount_same sets.objects c)
  cases does with
  | create request user fresh opened found count others =>
      rename_i tags c₀ row
      have objects : objectsOf (dbRecords.contents db') = objectsOf (dbRecords.contents db) :=
        funext fun o => others (.object o) (by simp) (by simp)
      have same := historyCount_same objects c
      by_cases here : c = c₀
      · subst here
        refine changesetCounted_of_row opened ?_ (Nat.zero_le _) fun _ => rfl
        exact same.trans ((counted c).absent fresh)
      · exact changesetCounted_same (counted c)
          (others (.changeset c) (by simpa using here) (by simp)) same
  | close request found user notClosed sets =>
      rename_i c₀ r
      by_cases here : c = c₀
      · subst here
        refine changesetCounted_of_row sets.self ?_ ((counted c).within r found)
          fun enabled => (counted c).stats enabled r found
        exact (historyCount_same sets.objects c).trans ((counted c).counted r found)
      · exact other here sets
  | update request found user notClosed sets =>
      rename_i c₀ tags r
      by_cases here : c = c₀
      · subst here
        have within := (counted c).within r found
        have keeps : wrap32 (wrap32 r.numChanges + 0) = r.numChanges := by
          have fits : wrap32 r.numChanges = r.numChanges := wrap32_of_lt (by omega)
          rw [Nat.add_zero, fits, fits]
        refine changesetCounted_of_row sets.self ?_ (le_of_eq_of_le keeps within) fun enabled => ?_
        · exact (historyCount_same sets.objects c).trans (((counted c).counted r found).trans keeps.symm)
        · rw [stats_updatedRow (by rw [sessionOf, settings]; exact enabled),
            (counted c).stats enabled r found]
          exact keeps.symm
      · exact other here sets
  | upload request found user notClosed notFull plays told fits sets =>
      rename_i mt c₀ payload r st log σ₁ rows
      rw [request] at admitted
      have rows := historyCount_of_plays plays sets.objects c
      have total : (getStats st).total = executedCount log := by
        rw [total_getStats, plays.counts]
        exact Nat.zero_add _
      by_cases here : c = c₀
      · subst here
        have wraps := no_wrap limits admitted ((counted c).within r found) (executedCount_le_of_plays plays)
        rw [total, settings] at fits
        have count : (uploadedRow tx c st r).numChanges = r.numChanges + executedCount log := by
          change wrap32 (wrap32 r.numChanges + wrap32 (getStats st).total) = _
          rw [total, wraps.2.2]
        refine changesetCounted_of_row sets.self ?_ ?_ fun enabled => ?_
        · rw [rows, count, (counted c).counted r found]
          exact congrArg _ (if_pos rfl)
        · rw [count, ← wraps.2.2]
          exact fits
        · rw [count, uploadedRow, stats_updatedRow (by rw [sessionOf, settings]; exact enabled),
            (counted c).stats enabled r found, total]
      · refine changesetCounted_same (counted c) ?_ ?_
        · exact (sets.other (.changeset c) (by simpa using here)).trans
            (plays.other (.changeset c) fun _ => by simp)
        · rw [rows]
          exact congrArg _ (if_neg here)

private theorem userCounted_of_does {u : Nat} (counted : UserCounted u db)
    (does : Does tx (dbRecords.contents db) (dbRecords.contents db') reply) : UserCounted u db' := by
  cases does with
  | create request user fresh opened found count others =>
      rename_i tags c row
      have opened : db'.changesets.find? c = some (newChangesetRow tx row.id c) := opened
      have fresh : db.changesets.find? c = none := fresh
      have rows : ∀ k, k ≠ c → db'.changesets.find? k = db.changesets.find? k := fun k ne =>
        others (.changeset k) (by simpa using ne) nofun
      intro row' after
      by_cases own : u = row.id
      · subst own
        obtain rfl := Option.some.inj (after.symm.trans count)
        rw [Table.length_select_succ _ db.changesets c, ← counted row found]
        · rw [opened]
          exact decide_eq_true rfl
        · rw [fresh]
          rfl
        · exact fun k ne => by rw [rows k ne]
      · have before : db.users.find? u = some row' :=
          (others (.user u) nofun (by simpa using own)).symm.trans after
        rw [counted row' before]
        refine (Table.length_select_congr _ fun k => ?_).symm
        by_cases here : k = c
        · subst here
          rw [opened, fresh, Option.any_some, Option.any_none]
          exact decide_eq_false (Ne.symm own)
        · rw [rows k here]
  | update request found user notClosed sets =>
      exact userCounted_of_setsRecord sets (fun _ _ => rfl) found rfl counted
  | close request found user notClosed sets =>
      exact userCounted_of_setsRecord sets (fun _ _ => rfl) found rfl counted
  | upload request found user notClosed notFull plays told fits sets =>
      exact userCounted_of_setsRecord sets plays.other found rfl counted

variable {I : Type} [DecidableEq I] {txs : I → Transaction}

private theorem counted_of_contents
    (same : dbRecords.contents db' = dbRecords.contents db) (counted : Counted cfg db) :
    Counted cfg db' := by
  have rows : ∀ c, db'.changesets.find? c = db.changesets.find? c := fun c =>
    congrFun same (.changeset c)
  refine ⟨fun c => changesetCounted_same (counted.changesets c) (rows c)
    (historyCount_same (funext fun o => congrFun same (.object o)) c), fun u row after => ?_⟩
  have before : db.users.find? u = some row := (congrFun same (.user u)).symm.trans after
  rw [counted.users u row before]
  exact (Table.length_select_congr _ fun k => by rw [rows k]).symm

theorem counted_next (run : DbRun txs) (settings : ∀ i, (txs i).cfg = cfg)
    (limits : LimitsExpansion sax) (admitted : ∀ i, Admitted sax fromCharsDouble cfg (txs i).request)
    {n : Nat} (before : Counted cfg (run.state n).base) :
    Counted cfg (run.state (n + 1)).base := by
  rcases commits_of_safe (Q := Effects txs) respects_dbRecords
    (fun i σ => responder_safe (txs i) σ) run n with silent | ⟨i, t, reply, commits⟩
  · exact counted_of_contents silent.contents before
  · exact ⟨changesetCounted_of_does (settings i) limits (admitted i) before.changesets commits.effect,
      fun u => userCounted_of_does (before.users u) commits.effect⟩

/-- Whatever requests run side by side, `num_changes` of every changeset is the number of
history rows that carry it, within the limit, and `changesets_count` of every user the
number of the user's changesets. -/
theorem counted_of_run (run : DbRun txs) (settings : ∀ i, (txs i).cfg = cfg)
    (limits : LimitsExpansion sax) (admitted : ∀ i, Admitted sax fromCharsDouble cfg (txs i).request)
    (start : Counted cfg (run.state 0).base) (n : Nat) :
    Counted cfg (run.state n).base := by
  induction n with
  | zero => exact start
  | succ n before => exact counted_next run settings limits admitted before

section Samples

theorem counted_sampleStart : Counted Settings.default (sampleTurns.state 0).base := by
  have history : ∀ c, historyCount (sampleTurns.state 0).base c = 0 := by
    intro c
    have none : ∀ t, ((sampleTurns.state 0).base.history t).rows = [] := fun t =>
      List.isEmpty_iff.mp (by cases t <;> decide +kernel)
    simp only [historyCount, historyRowsOf, Table.select, none, List.filter_nil, List.length_nil]
  have rows : ∀ c r, (sampleTurns.state 0).base.changesets.find? c = some r →
      r.numChanges = 0 ∧ r.stats.total = 0 := by
    intro c r found
    have all : (sampleTurns.state 0).base.changesets.rows.all
        (fun r => decide (r.numChanges = 0 ∧ r.stats.total = 0)) = true := by decide +kernel
    exact of_decide_eq_true (List.all_eq_true.mp all r (Table.find?_eq_some.mp found).1)
  refine ⟨fun c => ⟨fun _ => history c, fun r found => ?_, fun r found => ?_, fun _ r found => ?_⟩,
    fun u row found => ?_⟩
  · rw [history, (rows c r found).1]
  · rw [(rows c r found).1]
    exact Nat.zero_le _
  · rw [(rows c r found).2, (rows c r found).1]
  · have all : (sampleTurns.state 0).base.users.rows.all (fun row =>
        decide (row.changesetsCount = ((sampleTurns.state 0).base.changesets.select
          (fun r => decide (r.userId = row.id))).length)) = true := by decide +kernel
    obtain ⟨member, rfl⟩ := Table.find?_eq_some.mp found
    exact of_decide_eq_true (List.all_eq_true.mp all row member)

def sampleRead : Sax := sampleSax [sampleEdit false, sampleEdit true]

theorem limits_sampleRead : LimitsExpansion sampleRead := limits_sampleSax (by decide +kernel)

/-- The requests are such as the server admits, with the same settings. -/
theorem admitted_sampleEdits (i : Bool) : (sampleEdits i).cfg = .default ∧
    Admitted sampleRead sampleDouble .default (sampleEdits i).request := by
  have small : ∀ i, (samplePayload (sampleEdit i)).text.length < 2 ^ 32 := by decide +kernel
  have handed : ∀ i, sampleHanded (sampleEvents (sampleEdit i)) = some (sampleEdit i) := by
    decide +kernel
  have other : sampleText (sampleEdit false) ≠ sampleText (sampleEdit true) := by decide +kernel
  have reads : ∀ i, sampleRead (sampleText (sampleEdit i)) = sampleEvents (sampleEdit i)
    | false => sampleSax_self _ _
    | true => (sampleSax_other other _).trans (sampleSax_self _ _)
  have hands := handsOver_sample (reads i) (handed i)
  cases i with
  | false => exact ⟨rfl, small false, fun _ => hands⟩
  | true => exact ⟨rfl, small true, fun _ => hands⟩

/-- Both counters of the changesets go up by one. -/
theorem counted_sampleTurns :
    ((sampleTurns.state 32).base.changesets.find? 7).map ChangesetRow.numChanges = some 1 ∧
      ((sampleTurns.state 32).base.changesets.find? 8).map ChangesetRow.numChanges = some 1 ∧
      Counted Settings.default (sampleTurns.state 32).base :=
  ⟨by decide +kernel, by decide +kernel,
    counted_of_run sampleTurns (fun i => (admitted_sampleEdits i).1) limits_sampleRead
      (fun i => (admitted_sampleEdits i).2) counted_sampleStart 32⟩

end Samples

end Cgimap.Changeset.ConcurrentCounters
