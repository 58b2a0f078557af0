/- path: Cgimap/Changeset/ConcurrentHistories
   generality: I
   source: src/backend/apidb/changeset_upload/{node,way,relation}_updater.cpp
   digest: Requests side by side leave the database as one after the other would. -/

import Cgimap.Changeset.OwnedRequests
import Cgimap.Changeset.PayloadSizes
import Cgimap.Osmchange.VersionHistory

/-!
Read-committed transactions are not serializable in general. The updaters lock every
row that they read for writing, so what the committed requests have done is what they
do in the order of their commits, each to the records that it finds.
-/

set_option autoImplicit false
set_option relaxedAutoImplicit false

namespace Cgimap.Changeset.ConcurrentHistories

open Cgimap.Library.EventLog
open Cgimap.Library.KeyedTable
open Cgimap.Library.StatementProgram
open Cgimap.Library.Interleaving
open Cgimap.Library.OwnedRecords
open Cgimap.Model.Types
open Cgimap.Model.Database
open Cgimap.Osmchange.DiffTracking
open Cgimap.Osmchange.UploadRecords
open Cgimap.Osmchange.Handler
open Cgimap.Osmchange.ObjectState
open Cgimap.Osmchange.Placeholders
open Cgimap.Osmchange.ElementTrace
open Cgimap.Osmchange.ElementCounts
open Cgimap.Osmchange.Integrity
open Cgimap.Osmchange.VersionHistory
open Cgimap.Osmchange.OwnedWrites
open Cgimap.Osmchange.OwnedUploads
open Cgimap.Changeset.Updater
open Cgimap.Changeset.Responders
open Cgimap.Changeset.PayloadSizes (samplePayload)
open Cgimap.Changeset.RowEffects
open Cgimap.Changeset.ClosingRaces
open Cgimap.Changeset.ConcurrentUploads
open Cgimap.Changeset.OwnedRequests

section Views

variable (owned : Lockable → Bool) (mine base : Db)

private theorem select_overlay {R K : Type} {key : R → K} (T T' : Table key) (t : ObjectType) (id : Nat)
    (owner : K → Nat) (p : R → Bool) (only : ∀ r, p r = true → owner (key r) = id) :
    (Table.overlay (fun k => owned (.object (t, owner k))) T T').select p =
      (if owned (.object (t, id)) = true then T else T').select p :=
  Table.select_overlay p fun r hit => by rw [only r hit]

private theorem object_overlay (t : ObjectType) (id : Nat) :
    object (Db.overlay owned mine base) t id =
      object (if owned (.object (t, id)) then mine else base) t id := by
  have tags := select_overlay owned (mine.currentTags t) (base.currentTags t) t id Prod.fst
    (fun r => decide (r.owner = id)) fun r own => of_decide_eq_true own
  have refs := select_overlay owned (mine.currentRefs t) (base.currentRefs t) t id Prod.fst
    (fun r => decide (r.owner = id)) fun r own => of_decide_eq_true own
  have historyTags := fun v => select_overlay owned (mine.historyTags t) (base.historyTags t) t id
    Prod.fst (fun r => decide (r.owner = id ∧ r.version = v)) fun r own => (of_decide_eq_true own).1
  have historyRefs := fun v => select_overlay owned (mine.historyRefs t) (base.historyRefs t) t id
    Prod.fst (fun r => decide (r.owner = id ∧ r.version = v)) fun r own => (of_decide_eq_true own).1
  have row := Table.find?_overlay (fun id => owned (.object (t, id))) (mine.current t)
    (base.current t) id
  have history : ∀ v, ((Db.overlay owned mine base).history t).find? (id, v) =
      if owned (.object (t, id)) = true then (mine.history t).find? (id, v)
        else (base.history t).find? (id, v) :=
    fun v => Table.find?_overlay (fun k : Nat × Nat => owned (.object (t, k.1))) _ _ (id, v)
  generalize owned (.object (t, id)) = own at *
  cases own with
  | true =>
      exact ObjState.ext row (congrArg (List.map _) tags) (congrArg (List.map _) refs)
        (funext history) (funext fun v => congrArg (List.map _) (historyTags v))
        (funext fun v => congrArg (List.map _) (historyRefs v))
  | false =>
      exact ObjState.ext row (congrArg (List.map _) tags) (congrArg (List.map _) refs)
        (funext history) (funext fun v => congrArg (List.map _) (historyTags v))
        (funext fun v => congrArg (List.map _) (historyRefs v))

theorem respects_dbRecords : dbRecords.Respects dbViews := by
  refine ⟨fun owned mine base x => ?_, fun base s => ?_⟩
  · cases x with
    | object o => exact object_overlay owned mine base o.1 o.2
    | changeset c =>
        refine (Table.find?_overlay ..).trans ?_
        cases owned (.changeset c) <;> rfl
    | user u =>
        refine (Table.find?_overlay ..).trans ?_
        cases owned (.user u) <;> rfl
  · funext x
    cases x <;> rfl

end Views

variable {I : Type} [DecidableEq I] {txs : I → Transaction}

/-- What each request does to the records. Which deletions an upload passes over, the rows of
its reply and the box that it stores are left open. -/
def Effects (txs : I → Transaction) (i : I) (σ : dbRecords.Contents) (reply : Reply)
    (σ' : dbRecords.Contents) : Prop := Does (txs i) σ σ' reply

/-- Whatever requests run side by side, each of the committed ones has done its part to what
the earlier commits left, and a later commit only makes their order longer. -/
theorem serializable_requests (run : DbRun txs) :
    (∀ n, ∃ order, SerialAt (Effects txs) run n order) ∧
      ∀ m n order, m ≤ n → SerialAt (Effects txs) run m order →
        ∃ more, SerialAt (Effects txs) run n (order ++ more) :=
  serializable respects_dbRecords (fun i σ => responder_safe (txs i) σ) run

section Objects

variable {tx : Transaction} {σ σ' : dbRecords.Contents} {reply : Reply}

/-- A request plays a log on the objects; only an upload has one. -/
theorem replay_of_does (does : Does tx σ σ' reply) :
    ∃ log : Trace, (machine tx.now).Lawful (objectsOf σ) log ∧
      (machine tx.now).replay (objectsOf σ) log = objectsOf σ' := by
  have none : (∀ o, σ' (.object o) = σ (.object o)) → ∃ log : Trace,
      (machine tx.now).Lawful (objectsOf σ) log ∧
        (machine tx.now).replay (objectsOf σ) log = objectsOf σ' := fun same =>
    ⟨[], trivial, funext fun o => (same o).symm⟩
  cases does with
  | create request user fresh opened found counted other => exact none fun o => other _ nofun nofun
  | update request found user notClosed sets => exact none fun o => sets.other _ nofun
  | close request found user notClosed sets => exact none fun o => sets.other _ nofun
  | upload request found user notClosed notFull plays told fits sets =>
      refine ⟨_, plays.lawful, ?_⟩
      rw [sets.objects]
      exact plays.replayed

/-- An object whose current version is saved keeps what it has, and gets later versions. -/
def Lasts {t : ObjectType} (s s' : ObjState t) : Prop :=
  Owned s → Saved s → ∃ n, Kept s n s'

private theorem lasts_of_does (does : Does tx σ σ' reply) (o : Obj) :
    Lasts (objectsOf σ o) (objectsOf σ' o) := by
  intro owned saved
  obtain ⟨log, lawful, replayed⟩ := replay_of_does does
  have final := congrFun replayed o
  rw [replay_at] at final
  rw [← final]
  exact ⟨_, kept_replayAt owned saved ((lawful_iff _).mp lawful o)⟩

theorem lasts_committed (run : DbRun txs) {m n : Nat} (later : m ≤ n) (o : Obj) :
    Lasts (object (run.state m).base o.1 o.2) (object (run.state n).base o.1 o.2) := by
  have all : ∀ o, Lasts (objectsOf (dbRecords.contents (run.state m).base) o)
      (objectsOf (dbRecords.contents (run.state n).base) o) := by
    refine contents_related (P := fun σ σ' => ∀ o, Lasts (objectsOf σ o) (objectsOf σ' o))
      (fun σ o owned saved => ⟨0, owned, saved, .refl _⟩) (fun σ σ' σ'' first next o owned saved => ?_)
      respects_dbRecords (fun i σ => (responder_safe (txs i) σ).mono fun _ _ _ does => lasts_of_does does)
      run later
    obtain ⟨m, kept⟩ := first o owned saved
    obtain ⟨n, kept'⟩ := next o kept.owned kept.saved
    exact ⟨m + n, kept'.owned, kept'.saved, kept.history.trans kept'.history⟩
  exact all o

/-- The current version of every object is saved in every committed state. -/
theorem saved_committed (run : DbRun txs) (keys : ForeignKeys (run.state 0).base)
    (inv : HistoryInvariant (run.state 0).base) (n : Nat) (t : ObjectType) (id : Nat) :
    Owned (object (run.state n).base t id) ∧ Saved (object (run.state n).base t id) := by
  obtain ⟨k, kept⟩ := lasts_committed run (Nat.zero_le n) (t, id) (foreignKeys_iff.mp keys t id)
    (historyInvariant_iff.mp inv t id)
  exact ⟨kept.owned, kept.saved⟩

/-- Whatever requests run side by side, the versions of every object are numbered up to the
current one, which is saved, no saved version is changed or lost from one committed state to a
later one, and new versions follow the last one without a gap. -/
theorem histories_of_run (run : DbRun txs) (keys : ForeignKeys (run.state 0).base)
    (inv : HistoryInvariant (run.state 0).base)
    (numbered : ∀ t id, Numbered (object (run.state 0).base t id)) :
    (∀ n, ForeignKeys (run.state n).base ∧ HistoryInvariant (run.state n).base ∧
      ∀ t id, Numbered (object (run.state n).base t id)) ∧
      ∀ m n, m ≤ n → ∀ t id, ∃ k,
        Extends (object (run.state m).base t id) k (object (run.state n).base t id) := by
  have all := saved_committed run keys inv
  have extends_later : ∀ m n, m ≤ n → ∀ t id, ∃ k,
      Extends (object (run.state m).base t id) k (object (run.state n).base t id) := by
    intro m n later t id
    obtain ⟨k, kept⟩ := lasts_committed run later (t, id) (all m t id).1 (all m t id).2
    exact ⟨k, kept.history⟩
  refine ⟨fun n => ⟨foreignKeys_iff.mpr fun t id => (all n t id).1,
    historyInvariant_iff.mpr fun t id => (all n t id).2, fun t id => ?_⟩, extends_later⟩
  obtain ⟨k, later⟩ := extends_later 0 n (Nat.zero_le n) t id
  exact numbered_of_extends (numbered t id) later

end Objects

section Samples

def sampleOpened : Db :=
  (serially [sampleTx 0 (.create (.ok ⟨[], List.nodup_nil⟩)),
    sampleTx 0 (.create (.ok ⟨[], List.nodup_nil⟩))] sampleUsers).2

def sampleEdit : Bool → List Element
  | false => [sampleNode .create (-1) 0 false]
  | true => [⟨.modify, .node, ⟨8, 1, 1, [], (⟨1, 3⟩ : Position), List.nodup_nil⟩, false⟩]

def sampleEdits : Bool → Transaction
  | false => sampleTx 1 (.upload .applicationXml 7 (samplePayload (sampleEdit false)))
  | true => sampleTx 1 (.upload .applicationXml 8 (samplePayload (sampleEdit true)))

def sampleTurns : DbRun sampleEdits :=
  Run.ofSchedule [false, true] mem_sampleParties
    (List.replicate 3 true ++ List.replicate 9 false ++ List.replicate 20 true)
    ⟨sampleOpened, fun _ => .idle⟩ fun _ => rfl

theorem integrity_sampleTurns : ForeignKeys (sampleTurns.state 0).base ∧
    HistoryInvariant (sampleTurns.state 0).base := by
  have none : ∀ t, ∀ r, ¬ r ∈ (sampleTurns.state 0).base.current t := fun t r =>
    Table.not_mem_of_isEmpty (by cases t <;> decide +kernel) r
  refine ⟨⟨fun t r member => absurd member (Table.not_mem_of_isEmpty (by cases t <;> decide +kernel) r),
    fun t r member => absurd member (Table.not_mem_of_isEmpty (by cases t <;> decide +kernel) r),
    fun t r member => absurd member (Table.not_mem_of_isEmpty (by cases t <;> decide +kernel) r),
    fun t r member => absurd member (Table.not_mem_of_isEmpty (by cases t <;> decide +kernel) r)⟩, ?_⟩
  exact ⟨fun t r member => absurd member (none t r), fun t r member => absurd member (none t r),
    fun t r member => absurd member (none t r), fun t r member => absurd member (none t r)⟩

theorem numbered_sampleTurns (t : ObjectType) (id : Nat) :
    Numbered (object (sampleTurns.state 0).base t id) := by
  have rows : ((sampleTurns.state 0).base.current t).find? id = none :=
    Table.find?_of_isEmpty (by cases t <;> decide +kernel) id
  have saved : ∀ w, ((sampleTurns.state 0).base.history t).find? (id, w) = none := fun w =>
    Table.find?_of_isEmpty (by cases t <;> decide +kernel) (id, w)
  have version : (object (sampleTurns.state 0).base t id).version? = none :=
    congrArg (Option.map CurrentRow.version) rows
  intro w
  rw [version]
  refine iff_of_false (fun present => present (saved w)) ?_
  rw [Option.getD_none]
  omega

/-- Both commit, and the node has two versions. -/
theorem histories_sampleTurns :
    isCommitted (sampleTurns.state 32) false = true ∧ isCommitted (sampleTurns.state 32) true = true ∧
      (object (sampleTurns.state 32).base .node 1).version? = some 2 ∧
      HistoryInvariant (sampleTurns.state 32).base ∧
      ∀ t id, Numbered (object (sampleTurns.state 32).base t id) :=
  ⟨by decide +kernel, by decide +kernel, by decide +kernel,
    ((histories_of_run sampleTurns integrity_sampleTurns.1 integrity_sampleTurns.2
      numbered_sampleTurns).1 32).2⟩

end Samples

end Cgimap.Changeset.ConcurrentHistories
