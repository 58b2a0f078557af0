/- path: Cgimap/Changeset/Accounting
   generality: I
   source: none
   digest: The counters of a changeset are the elements executed and the history rows added. -/

import Cgimap.Changeset.Lifetime
import Cgimap.Changeset.PayloadSizes
import Cgimap.Osmchange.ElementCounts

set_option autoImplicit false
set_option relaxedAutoImplicit false

namespace Cgimap.Changeset.Accounting

open Cgimap.Library.ExceptLists
open Cgimap.Library.KeyedTable
open Cgimap.Library.StatementProgram
open Cgimap.Library.StatementProgram.Prog
open Cgimap.Model.Types
open Cgimap.Model.Database
open Cgimap.Osmchange.DiffTracking
open Cgimap.Osmchange.UploadRecords
open Cgimap.Osmchange.Handler
open Cgimap.Osmchange.DocumentRuns
open Cgimap.Osmchange.ElementTrace
open Cgimap.Osmchange.ElementCounts
open Cgimap.Osmchange.XmlParser (FromCharsDouble)
open Cgimap.Changeset.Updater
open Cgimap.Changeset.Responders
open Cgimap.Changeset.PayloadSizes
open Cgimap.Changeset.RowEffects

/-- The request passes the payload limit, a `uint32_t` number of bytes, and its elements are
what the parser hands over. -/
def Admitted (sax : Sax) (fromCharsDouble : String → FromCharsDouble) (cfg : Settings) :
    Request → Prop
  | .upload mt _ payload => payload.text.length < 2 ^ 32 ∧
      (mt ≠ .applicationJson → HandsOver cfg fromCharsDouble sax payload)
  | _ => True

/-- `n` elements of a payload are executed in a state. A payload that is not parsed has
none. -/
inductive Executes (env : Env) (mt : MimeType) (payload : Payload) (db : Db) : Nat → Prop where
  | parsed {batches : List Batch} {st : Upload} {db' : Db} (xml : mt ≠ .applicationJson)
      (executed : Executed env payload.elements db batches st db') :
      Executes env mt payload db (executedCount (documentTrace env batches))
  | ignored (json : mt = .applicationJson) : Executes env mt payload db 0

/-- `n` elements were executed for the changeset `c` by a committed transaction. -/
inductive ExecutedFor (c : Int) (cm : Commit) : Nat → Prop where
  | upload {mt : MimeType} {payload : Payload} {n : Nat}
      (request : cm.tx.request = .upload mt c payload)
      (executes : Executes (cm.tx.env c) mt payload cm.before n) : ExecutedFor c cm n
  | none (request : ∀ mt payload, cm.tx.request ≠ .upload mt c payload) : ExecutedFor c cm 0

section Payloads

variable {sax : Sax} {fromCharsDouble : String → FromCharsDouble}
  {env : Env} {mt : MimeType} {payload : Payload} {db db' : Db} {st : Upload} {n : Nat}

theorem total_empty (env : Env) : (getStats (Upload.empty env)).total = 0 := rfl

theorem total_of_processPayload
    (done : (processPayload env mt payload).run db = .ok (st, db')) :
    (∃ n, Executes env mt payload db n) ∧
      ∀ n, Executes env mt payload db n → (getStats st).total = n ∧
        n ≤ (parsedElements mt payload).length ∧
        ∀ c, historyCount db' c = historyCount db c + if c = env.changeset then n else 0 := by
  rcases processPayload_eq_ok done with ⟨json, rfl, rfl⟩ | ⟨xml, document⟩
  · refine ⟨⟨0, .ignored json⟩, fun n executes => ?_⟩
    cases executes with
    | parsed xml executed => exact absurd json xml
    | ignored json =>
        refine ⟨total_empty env, Nat.zero_le _, fun c => ?_⟩
        rw [ite_self, Nat.add_zero]
  · obtain ⟨batches, executed⟩ := executed_of_processDocument document
    refine ⟨⟨_, .parsed xml executed⟩, fun n executes => ?_⟩
    cases executes with
    | ignored json => exact absurd json xml
    | parsed xml executed' =>
        rename_i batches' st' db''
        obtain ⟨rfl, rfl⟩ := Prod.mk.inj (Except.ok.inj (document.symm.trans executed'.processed))
        refine ⟨total_of_executed executed', ?_, historyCount_of_executed executed'⟩
        rw [parsedElements, if_pos xml]
        exact executedCount_le executed'

/-- Payloads that pass the limit are far from wrapping a 32-bit counter. -/
theorem no_wrap {cfg cfg' : Settings} {numChanges : Nat} {c : Int} (limits : LimitsExpansion sax)
    (admitted : Admitted sax fromCharsDouble cfg' (.upload mt c payload))
    (within : numChanges ≤ cfg.changesetMaxElements) (fits : n ≤ (parsedElements mt payload).length) :
    wrap32 numChanges = numChanges ∧ wrap32 n = n ∧
      wrap32 (wrap32 numChanges + wrap32 n) = numChanges + n := by
  obtain ⟨small, reads⟩ := admitted
  have elements : 24 * (parsedElements mt payload).length ≤ 20 * payload.text.length + 2 ^ 20 := by
    unfold parsedElements
    split
    · rename_i xml
      exact elements_le limits (reads xml)
    · exact Nat.zero_le _
  have limit := cfg.changesetMaxElements_le
  have first : wrap32 numChanges = numChanges := wrap32_of_lt (by omega)
  have second : wrap32 n = n := wrap32_of_lt (by omega)
  rw [first, second]
  exact ⟨rfl, rfl, wrap32_of_lt (by omega)⟩

end Payloads

section Runs

variable {sax : Sax} {fromCharsDouble : String → FromCharsDouble}
  {cfg : Settings} {c : Int} {db db' : Db} {commits : List Commit}

/-- The counters of the changeset `c`, as far as it exists, after `n` elements. -/
structure Accounts (cfg : Settings) (c : Int) (db₀ : Db) (n : Nat) (db : Db) : Prop where
  history : historyCount db c = historyCount db₀ c + n
  absent : db.changesets.find? c = none → n = 0
  numChanges : ∀ r, db.changesets.find? c = some r → r.numChanges = n
  within : ∀ r, db.changesets.find? c = some r → r.numChanges ≤ cfg.changesetMaxElements
  stats : cfg.changesetEnhancedStats = true → ∀ r, db.changesets.find? c = some r →
    r.stats.total = r.numChanges

private theorem total_add (s t : UploadStats) : (s.add t).total = s.total + t.total := by
  simp only [UploadStats.add, UploadStats.total, ElementStats.add, ElementStats.total]
  omega

/-- The statistics after an update count what the counter counts. -/
theorem stats_updatedRow {s : Session} {new : UploadStats} {u : ChangesetUpdater}
    {r : ChangesetRow} (enabled : s.cfg.changesetEnhancedStats = true) :
    (updatedRow s new u r).stats.total = r.stats.total + new.total := by
  unfold updatedRow
  by_cases some : 0 < new.total
  · simp only [enabled, some, and_self, if_true]
    exact total_add r.stats new
  · simp only [some, and_false, if_false]
    omega

private theorem historyCount_congr (same : db'.history = db.history) (c : Int) :
    historyCount db' c = historyCount db c := by
  simp only [historyCount, historyRowsOf, same]

private theorem accounts_updated {db₀ : Db} {tx : Transaction} {r : ChangesetRow} {total n : Nat}
    {new : UploadStats} {u : ChangesetUpdater} (settings : tx.cfg = cfg)
    (accounts : Accounts cfg c db₀ total db)
    (touches : Touches tx c r (updatedRow (sessionOf tx r.userId) new u r) db db')
    (counted : u.csNumChanges = r.numChanges + n) (stats : new.total = n)
    (within : u.csNumChanges ≤ cfg.changesetMaxElements)
    (history : historyCount db' c = historyCount db c + n) :
    Accounts cfg c db₀ (total + n) db' := by
  have same := accounts.numChanges r touches.found
  have after := touches.find c
  rw [if_pos rfl] at after
  constructor
  · rw [history, accounts.history, Nat.add_assoc]
  · intro absent
    rw [after] at absent
    cases absent
  · intro r' found
    obtain rfl := Option.some.inj (after.symm.trans found)
    change u.csNumChanges = total + n
    rw [counted, same]
  · intro r' found
    obtain rfl := Option.some.inj (after.symm.trans found)
    exact within
  · intro enabled r' found
    obtain rfl := Option.some.inj (after.symm.trans found)
    have before := accounts.stats enabled r touches.found
    rw [stats_updatedRow (by rw [sessionOf, settings]; exact enabled), before, stats]
    exact counted.symm

private theorem accounts_same {db₀ : Db} {total : Nat} (accounts : Accounts cfg c db₀ total db)
    (same : db'.changesets.find? c = db.changesets.find? c)
    (history : historyCount db' c = historyCount db c) : Accounts cfg c db₀ total db' := by
  constructor
  · rw [history, accounts.history]
  · rw [same]
    exact accounts.absent
  · rw [same]
    exact accounts.numChanges
  · rw [same]
    exact accounts.within
  · rw [same]
    exact accounts.stats

private theorem other_row {tx : Transaction} {c₀ : Int} {r r' : ChangesetRow} (ne : c ≠ c₀)
    (touches : Touches tx c₀ r r' db db') :
    db'.changesets.find? c = db.changesets.find? c := by
  rw [touches.find, if_neg ne]

section Steps

variable {db₀ : Db} {total n : Nat} {tx : Transaction} {reply : Reply} {c₀ : Int}
  {tags : Except Exception Tags}

private theorem accounts_create (run : (changesetCreateResponder tx tags).run db = .ok (reply, db'))
    (accounts : Accounts cfg c db₀ total db) : Accounts cfg c db₀ total db' := by
  obtain ⟨c₀, userId, -, absent, find, -, history⟩ := changesetCreateResponder_eq_ok run
  by_cases same : c = c₀
  · subst same
    have row := find c
    rw [if_pos rfl] at row
    obtain rfl := accounts.absent absent
    constructor
    · exact (historyCount_congr history c).trans accounts.history
    · exact fun _ => rfl
    · intro r found
      obtain rfl := Option.some.inj (row.symm.trans found)
      rfl
    · intro r found
      obtain rfl := Option.some.inj (row.symm.trans found)
      exact Nat.zero_le _
    · intro _ r found
      obtain rfl := Option.some.inj (row.symm.trans found)
      rfl
  · refine accounts_same accounts ?_ (historyCount_congr history c)
    rw [find, if_neg same]

private theorem accounts_close (run : (changesetCloseResponder tx c₀).run db = .ok (reply, db'))
    (accounts : Accounts cfg c db₀ total db) : Accounts cfg c db₀ total db' := by
  obtain ⟨r, touches, history⟩ := changesetCloseResponder_eq_ok run
  by_cases same : c = c₀
  · subst same
    have row := touches.find c
    rw [if_pos rfl] at row
    constructor
    · exact (historyCount_congr history c).trans accounts.history
    · intro absent
      rw [row] at absent
      cases absent
    · intro r' found
      obtain rfl := Option.some.inj (row.symm.trans found)
      exact accounts.numChanges r touches.found
    · intro r' found
      obtain rfl := Option.some.inj (row.symm.trans found)
      exact accounts.within r touches.found
    · intro enabled r' found
      obtain rfl := Option.some.inj (row.symm.trans found)
      exact accounts.stats enabled r touches.found
  · exact accounts_same accounts (other_row same touches) (historyCount_congr history c)

private theorem accounts_update (settings : tx.cfg = cfg)
    (run : (changesetUpdateResponder tx c₀ tags).run db = .ok (reply, db'))
    (accounts : Accounts cfg c db₀ total db) : Accounts cfg c db₀ total db' := by
  obtain ⟨r, touches, -, history⟩ := changesetUpdateResponder_eq_ok run
  by_cases same : c = c₀
  · subst same
    have within := accounts.within r touches.found
    have small : r.numChanges < 2 ^ 32 := by
      have limit := cfg.changesetMaxElements_le
      omega
    have counted : wrap32 (wrap32 r.numChanges + 0) = r.numChanges + 0 := by
      rw [Nat.add_zero, wrap32_of_lt small, wrap32_of_lt small, Nat.add_zero]
    rw [← Nat.add_zero total]
    exact accounts_updated settings accounts touches counted rfl (le_of_eq_of_le counted within)
      (historyCount_congr history c)
  · exact accounts_same accounts (other_row same touches) (historyCount_congr history c)

private theorem accounts_upload {mt : MimeType} {payload : Payload} (settings : tx.cfg = cfg)
    (limits : LimitsExpansion sax)
    (admitted : Admitted sax fromCharsDouble cfg (.upload mt c₀ payload))
    (run : (changesetUploadResponder tx mt c₀ payload).run db = .ok (reply, db'))
    (accounts : Accounts cfg c db₀ total db)
    (own : c = c₀ → Executes (tx.env c) mt payload db n) (other : c ≠ c₀ → n = 0) :
    Accounts cfg c db₀ (total + n) db' := by
  obtain ⟨r, st, db₁, processed, touches, -, fits, history⟩ := changesetUploadResponder_eq_ok run
  obtain ⟨⟨m, executes⟩, counts⟩ := total_of_processPayload processed
  by_cases same : c = c₀
  · subst same
    obtain ⟨counted, bound, rows⟩ := counts n (own rfl)
    have wraps := no_wrap limits admitted (accounts.within r touches.found) bound
    rw [counted] at touches fits
    rw [settings] at fits
    refine accounts_updated settings accounts touches wraps.2.2 counted fits ?_
    rw [historyCount_congr history c, rows c]
    exact congrArg _ (if_pos rfl)
  · obtain rfl := other same
    refine accounts_same accounts (other_row same touches) ?_
    rw [historyCount_congr history c, (counts m executes).2.2 c]
    exact congrArg _ (if_neg same)

end Steps

private theorem accounts_step {db₀ : Db} {total n : Nat} {cm : Commit}
    (settings : cm.tx.cfg = cfg) (limits : LimitsExpansion sax)
    (admitted : Admitted sax fromCharsDouble cfg cm.tx.request)
    (run : cm.tx.responder.run cm.before = .ok (cm.reply, cm.after))
    (accounts : Accounts cfg c db₀ total cm.before) (executed : ExecutedFor c cm n) :
    Accounts cfg c db₀ (total + n) cm.after := by
  unfold Transaction.responder at run
  cases kind : cm.tx.request with
  | upload mt c₀ payload =>
      rw [kind] at run admitted
      refine accounts_upload settings limits admitted run accounts ?_ ?_
      · rintro rfl
        cases executed with
        | none request => exact absurd kind (request mt payload)
        | upload request executes =>
            rw [kind] at request
            cases request
            exact executes
      · intro other
        cases executed with
        | none request => rfl
        | upload request executes =>
            rw [kind] at request
            cases request
            exact absurd rfl other
  | create tags =>
      rw [kind] at run
      cases executed with
      | none request => exact accounts_create run accounts
      | upload request => cases kind.symm.trans request
  | update c₀ tags =>
      rw [kind] at run
      cases executed with
      | none request => exact accounts_update settings run accounts
      | upload request => cases kind.symm.trans request
  | close c₀ =>
      rw [kind] at run
      cases executed with
      | none request => exact accounts_close run accounts
      | upload request => cases kind.symm.trans request

private theorem executedFor_of_run {cm : Commit}
    (run : cm.tx.responder.run cm.before = .ok (cm.reply, cm.after)) :
    ∃ n, ExecutedFor c cm n := by
  by_cases upload : ∃ mt payload, cm.tx.request = .upload mt c payload
  · obtain ⟨mt, payload, request⟩ := upload
    unfold Transaction.responder at run
    rw [request] at run
    obtain ⟨r, st, db₁, processed, -⟩ := changesetUploadResponder_eq_ok run
    obtain ⟨⟨n, executes⟩, -⟩ := total_of_processPayload processed
    exact ⟨n, .upload request executes⟩
  · exact ⟨0, .none fun mt payload request => upload ⟨mt, payload, request⟩⟩

private theorem accounts_run (run : Serial db commits db')
    (settings : ∀ cm ∈ commits, cm.tx.cfg = cfg)
    (limits : LimitsExpansion sax)
    (admitted : ∀ cm ∈ commits, Admitted sax fromCharsDouble cfg cm.tx.request)
    (absent : db.changesets.find? c = none) {ns : List Nat}
    (executed : List.Forall₂ (ExecutedFor c) commits ns) : Accounts cfg c db ns.sum db' := by
  have start : Accounts cfg c db 0 db := by
    refine ⟨rfl, fun _ => rfl, fun r found => ?_, fun r found => ?_, fun _ r found => ?_⟩
    all_goals
      rw [absent] at found
      cases found
  refine Serial.invariant (I := fun done db' => ∀ ns, List.Forall₂ (ExecutedFor c) done ns →
    Accounts cfg c db ns.sum db') run ?_ ?_ ?_ ns executed
  · intro ns executed
    cases executed
    exact start
  · intro done cm rest split here before ns executed
    obtain ⟨ns₁, ns₂, first, last, rfl⟩ := forall₂_append_left executed
    cases last with
    | cons one none =>
        cases none
        have member : cm ∈ commits := by
          rw [← split]
          simp
        rw [List.sum_append, List.sum_singleton]
        exact accounts_step (settings cm member) limits (admitted cm member) here (before ns₁ first) one
  · exact fun _ _ _ before ns executed => accounts_same (before ns executed) rfl rfl

end Runs

section Rejection

variable {tx : Transaction} {mt : MimeType} {c : Int} {payload : Payload} {db db₁ : Db}
  {r : ChangesetRow} {st : Upload} {rows : List DiffResult} {n : Nat}

def savingUpdater (tx : Transaction) (c : Int) (r : ChangesetRow) (st : Upload) :
    ChangesetUpdater :=
  ((freshUpdater tx c).load r.numChanges r.bbox).count (wrap32 (getStats st).total)
    (getBbox (tx.env c) st)

/-- An upload that passes every check but those on the number of elements: the owner's,
to a changeset that is not closed, with a payload that is processed, and within the
rate limit and the limit on the bounding box. -/
structure OtherwiseValid (tx : Transaction) (mt : MimeType) (c : Int) (payload : Payload) (db : Db)
    (r : ChangesetRow) (st : Upload) (db₁ : Db) (rows : List DiffResult) : Prop where
  found : db.changesets.find? c = some r
  user : tx.user = some r.userId
  notClosed : tx.now ≤ r.closedAt
  processed : (processPayload (tx.env c) mt payload).run db = .ok (st, db₁)
  assembled : assembleDiffresult st.ct = .ok rows
  rate : (checkRateLimit (tx.env c) tx.limits r.userId (getStats st).total).run db₁ = .ok ((), db₁)
  size : ∀ db₂, (saveChangeset (sessionOf tx r.userId) (getStats st)
      (savingUpdater tx c r st)).run db₁ = .ok (savingUpdater tx c r st, db₂) →
    (checkBboxSize (tx.env c) tx.limits r.userId (savingUpdater tx c r st).csBbox).run db₂ =
      .ok ((), db₂)

private theorem upload_run (valid : OtherwiseValid tx mt c payload db r st db₁ rows) :
    (changesetUploadResponder tx mt c payload).run db =
      if tx.cfg.changesetMaxElements ≤ wrap32 r.numChanges then
        .error (closedAtMessage c (toChar tx.now))
      else (do
        let u ← updateChangeset (sessionOf tx r.userId) (getStats st) (getBbox (tx.env c) st)
          ((freshUpdater tx c).load r.numChanges r.bbox)
        checkBboxSize (tx.env c) tx.limits r.userId u.csBbox
        return Reply.diffResult rows : DbProg Reply).run db₁ := by
  have lock : (lockCurrentChangeset (sessionOf tx r.userId) true (freshUpdater tx c)).run db =
      if true = true ∧ tx.cfg.changesetMaxElements ≤ wrap32 r.numChanges then
        .error (closedAtMessage c (toChar tx.now))
      else .ok ((freshUpdater tx c).load r.numChanges r.bbox, db) :=
    (lockCurrentChangeset_run valid.found rfl).trans (if_neg (Int.not_lt.mpr valid.notClosed))
  have built : (liftExcept (newUpdater tx.cfg tx.now tx.user c) : DbProg _).run db =
      .ok ((sessionOf tx r.userId, freshUpdater tx c), db) := by
    rw [valid.user]
    rfl
  unfold changesetUploadResponder
  rw [valid.user]
  rw [valid.user] at built
  simp only [run_bind, built, lock]
  by_cases full : tx.cfg.changesetMaxElements ≤ wrap32 r.numChanges
  · simp only [full, and_self, if_true, sessionOf, freshUpdater]
  · simp only [full, and_false, if_false, sessionOf, valid.processed, valid.assembled,
      run_liftExcept_ok, valid.rate]

/-- Such an upload fails exactly when there are too many elements, with the message for
that. -/
theorem upload_size (valid : OtherwiseValid tx mt c payload db r st db₁ rows)
    (wraps : wrap32 r.numChanges = r.numChanges ∧
      wrap32 (wrap32 r.numChanges + wrap32 (getStats st).total) = r.numChanges + n) :
    ((changesetUploadResponder tx mt c payload).run db =
        .error (closedAtMessage c (toChar tx.now)) ↔
      tx.cfg.changesetMaxElements < r.numChanges + n ∨
        tx.cfg.changesetMaxElements ≤ r.numChanges) ∧
    (¬ (tx.cfg.changesetMaxElements < r.numChanges + n ∨
        tx.cfg.changesetMaxElements ≤ r.numChanges) →
      ∃ db', (changesetUploadResponder tx mt c payload).run db = .ok (.diffResult rows, db')) := by
  have found₁ : db₁.changesets.find? c = some r := by
    rw [(processPayload_sameChangesets valid.processed).changesets]
    exact valid.found
  rw [upload_run valid, wraps.1]
  by_cases full : tx.cfg.changesetMaxElements ≤ r.numChanges
  · rw [if_pos full]
    exact ⟨⟨fun _ => .inr full, fun _ => rfl⟩, fun none => absurd (.inr full) none⟩
  · rw [if_neg full]
    by_cases beyond : tx.cfg.changesetMaxElements < r.numChanges + n
    · have wide : tx.cfg.changesetMaxElements <
          wrap32 (wrap32 r.numChanges + wrap32 (getStats st).total) := by
        rw [wraps.2]
        exact beyond
      have fails : (updateChangeset (sessionOf tx r.userId) (getStats st) (getBbox (tx.env c) st)
          ((freshUpdater tx c).load r.numChanges r.bbox)).run db₁ =
          .error (closedAtMessage c (toChar tx.now)) :=
        updateChangeset_full (sessionOf tx r.userId) (getStats st) (getBbox (tx.env c) st) wide
      rw [run_bind, fails]
      exact ⟨⟨fun _ => .inl beyond, fun _ => rfl⟩, fun none => absurd (.inl beyond) none⟩
    · have fits : wrap32 (wrap32 r.numChanges + wrap32 (getStats st).total) ≤
          tx.cfg.changesetMaxElements := by
        rw [wraps.2]
        exact Nat.le_of_not_lt beyond
      have saves : updateChangeset (sessionOf tx r.userId) (getStats st) (getBbox (tx.env c) st)
          ((freshUpdater tx c).load r.numChanges r.bbox) =
          saveChangeset (sessionOf tx r.userId) (getStats st) (savingUpdater tx c r st) :=
        updateChangeset_fits _ _ _ fits
      obtain ⟨db₂, saved, -⟩ := saveChangeset_run (sessionOf tx r.userId) (getStats st)
        (u := savingUpdater tx c r st) found₁
      rw [saves, run_bind, saved]
      simp only [run_bind, valid.size db₂ saved, run_pure]
      refine ⟨⟨nofun, fun size => ?_⟩, fun _ => ⟨db₂, rfl⟩⟩
      rcases size with exceeds | already
      · exact absurd exceeds beyond
      · exact absurd already full

end Rejection

/-- The accounts of a changeset that is created in the run, whatever other transactions
there are. The counter is the number of elements executed for it, which is the number of
history rows that carry it and were added, and never passes the limit; so are the nine
statistics together when they are enabled. An upload that is otherwise valid is rejected
for its size exactly when it would exceed the limit or the changeset is full already, and
no 32-bit operation wraps. -/
theorem change_accounting {sax : Sax} {fromCharsDouble : String → FromCharsDouble} {cfg : Settings} {c : Int} {db db' : Db} {commits : List Commit}
    (run : Serial db commits db') (settings : ∀ cm ∈ commits, cm.tx.cfg = cfg)
    (limits : LimitsExpansion sax)
    (admitted : ∀ cm ∈ commits, Admitted sax fromCharsDouble cfg cm.tx.request)
    (absent : db.changesets.find? c = none) :
    (∃ ns, List.Forall₂ (ExecutedFor c) commits ns) ∧
    (∀ ns, List.Forall₂ (ExecutedFor c) commits ns →
      historyCount db' c = historyCount db c + ns.sum ∧
      ∀ r, db'.changesets.find? c = some r →
        r.numChanges = ns.sum ∧ r.numChanges ≤ cfg.changesetMaxElements ∧
        (cfg.changesetEnhancedStats = true → r.stats.total = r.numChanges)) ∧
    ∀ r, db'.changesets.find? c = some r → ∀ tx mt payload st db₁, tx.cfg = cfg →
      Admitted sax fromCharsDouble cfg (.upload mt c payload) →
      (processPayload (tx.env c) mt payload).run db' = .ok (st, db₁) →
      (wrap32 r.numChanges = r.numChanges ∧ wrap32 (getStats st).total = (getStats st).total ∧
        wrap32 (wrap32 r.numChanges + wrap32 (getStats st).total) =
          r.numChanges + (getStats st).total) ∧
      ∀ n rows, Executes (tx.env c) mt payload db' n →
        OtherwiseValid tx mt c payload db' r st db₁ rows →
        ((changesetUploadResponder tx mt c payload).run db' =
            .error (closedAtMessage c (toChar tx.now)) ↔
          cfg.changesetMaxElements < r.numChanges + n ∨
            cfg.changesetMaxElements ≤ r.numChanges) ∧
        (¬ (cfg.changesetMaxElements < r.numChanges + n ∨
            cfg.changesetMaxElements ≤ r.numChanges) →
          ∃ db'', (changesetUploadResponder tx mt c payload).run db' =
            .ok (.diffResult rows, db'')) := by
  have counts : ∃ ns, List.Forall₂ (ExecutedFor c) commits ns := by
    have each := Serial.run_of_mem run
    clear run settings admitted
    induction commits with
    | nil => exact ⟨[], .nil⟩
    | cons cm rest ih =>
        obtain ⟨n, first⟩ := executedFor_of_run (c := c) (each cm List.mem_cons_self)
        obtain ⟨ns, others⟩ := ih fun d inside => each d (List.mem_cons_of_mem cm inside)
        exact ⟨n :: ns, .cons first others⟩
  obtain ⟨ns, executed⟩ := counts
  have accounts := accounts_run run settings limits admitted absent executed
  refine ⟨⟨ns, executed⟩, fun ns executed => ?_, fun r found tx mt payload st db₁ same small
    processed => ?_⟩
  · have accounts := accounts_run run settings limits admitted absent executed
    exact ⟨accounts.history, fun r found => ⟨accounts.numChanges r found,
      accounts.within r found, fun enabled => accounts.stats enabled r found⟩⟩
  · obtain ⟨⟨m, executes⟩, totals⟩ := total_of_processPayload processed
    have bound : (getStats st).total ≤ (parsedElements mt payload).length := by
      rw [(totals m executes).1]
      exact (totals m executes).2.1
    have wraps := no_wrap limits small (accounts.within r found) bound
    refine ⟨wraps, fun n rows executes valid => ?_⟩
    have total := (totals n executes).1
    rw [← same]
    exact upload_size valid ⟨wraps.1, by rw [wraps.2.2, total]⟩

/-- A changeset is created and used by one upload, which skips a deletion. -/
def sampleAccount : List Transaction :=
  [sampleTx 0 (.create (.ok ⟨[], List.nodup_nil⟩)),
    sampleTx 60 (.upload .unspecifiedType 7 (samplePayload (sampleUse false)))]

theorem change_accounting_sampleAccount : ∃ commits db' r ns,
    Serial sampleUsers commits db' ∧ List.Forall₂ (ExecutedFor 7) commits ns ∧
      db'.changesets.find? 7 = some r ∧ r.numChanges = ns.sum ∧ r.numChanges = 5 ∧
      historyCount db' 7 = 5 := by
  have listed : ∀ cm ∈ (serially sampleAccount sampleUsers).1,
      cm.tx.cfg = Settings.default ∧
        Admitted (sampleSax [sampleUse false]) sampleDouble .default cm.tx.request := by
    intro cm member
    have listed := tx_of_serially member
    simp only [sampleAccount, List.mem_cons, List.not_mem_nil, or_false] at listed
    rcases listed with same | same
    · rw [same]
      exact ⟨rfl, trivial⟩
    · have small : (samplePayload (sampleUse false)).text.length < 2 ^ 32 := by decide +kernel
      rw [same]
      exact ⟨rfl, small, fun _ => handsOver_sample (sampleSax_self _ []) (by decide +kernel)⟩
  have absent : sampleUsers.changesets.find? 7 = none := by decide
  have counted : ((serially sampleAccount sampleUsers).2.changesets.find? 7).map
      ChangesetRow.numChanges = some 5 := by decide +kernel
  obtain ⟨r, found, numChanges⟩ := Option.map_eq_some_iff.mp counted
  obtain ⟨⟨ns, executed⟩, counts, -⟩ := change_accounting
    (serial_serially sampleAccount sampleUsers) (fun cm member => (listed cm member).1)
    (limits_sampleSax (by decide +kernel)) (fun cm member => (listed cm member).2) absent
  obtain ⟨history, rows⟩ := counts ns executed
  have same := (rows r found).1
  refine ⟨_, _, r, ns, serial_serially sampleAccount sampleUsers, executed, found, same,
    numChanges, ?_⟩
  rw [history, ← same, numChanges]
  rfl

end Cgimap.Changeset.Accounting
