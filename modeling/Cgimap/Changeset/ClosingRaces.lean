/- path: Cgimap/Changeset/ClosingRaces
   generality: I
   source: src/backend/apidb/changeset_upload/changeset_updater.cpp
   digest: Transactions on one changeset in any interleaving, once a close has committed. -/

import Cgimap.Changeset.Lifetime
import Cgimap.Library.Interleaving

set_option autoImplicit false
set_option relaxedAutoImplicit false

namespace Cgimap.Changeset.ClosingRaces

open Cgimap.Library.KeyedTable
open Cgimap.Library.StatementProgram
open Cgimap.Library.StatementProgram.Prog
open Cgimap.Library.Interleaving
open Cgimap.Model.Types
open Cgimap.Model.Database
open Cgimap.Changeset.Updater
open Cgimap.Changeset.Responders
open Cgimap.Changeset.RowEffects
open Cgimap.Changeset.Lifetime

def dbViews : Views Db Lockable := ⟨Db.overlay, Db.sync⟩

section Statement

variable {I : Type} [DecidableEq I] (txs : I → Transaction)

abbrev DbRun := Run dbViews (fun i => (txs i).responder)

abbrev DbTxn := Txn Db Lockable Exception Reply

abbrev DbWorld (I : Type) := World I Db Lockable Exception Reply

/-- Whether a party holds the lock on the row of a changeset. -/
def holds (w : DbWorld I) (i : I) (c : Int) : Bool :=
  match w.status i with
  | .running t => t.owns (.changeset c)
  | _ => false

def isCommitted (w : DbWorld I) (i : I) : Bool :=
  match w.status i with
  | .committed _ => true
  | _ => false

variable {txs} (run : DbRun txs) (c : Int)

def Acquires (n : Nat) (i : I) : Prop :=
  holds (run.state n) i c = false ∧ holds (run.state (n + 1)) i c = true

def CommitsClose (m : Nat) (j : I) : Prop :=
  (txs j).request = .close c ∧ isCommitted (run.state m) j = false ∧
    isCommitted (run.state (m + 1)) j = true

def closedAt? (w : DbWorld I) : Option Int :=
  (w.base.changesets.find? c).map ChangesetRow.closedAt

/-- After a close no upload or tag update that gets the lock commits, and the time of
closing never moves to a later one. -/
def CloseIsFinal : Prop :=
  ∀ m j, CommitsClose run c m j →
    (∀ n i, m < n → Acquires run c n i → Extends (txs i).request c →
      ∀ k, isCommitted (run.state k) i = false) ∧
    ∀ n k, m < n → n ≤ k → ∀ T T', closedAt? c (run.state n) = some T →
      closedAt? c (run.state k) = some T' → T' ≤ T

/-- Whoever gets the lock after a close has begun later than the close. -/
def BeginsLater : Prop :=
  ∀ m j n i, CommitsClose run c m j → m < n → Acquires run c n i → (txs j).now < (txs i).now

end Statement

section Programs

variable {c : Int} {now : Int} {Q : DbProg Reply → Prop}

/-- A program on its way to the lock of the changeset. It fails when the row shows that
the changeset is closed; `Q` holds of what it does with the lock. -/
inductive Approaching (c now : Int) (Q : DbProg Reply → Prop) : DbProg Reply → Prop where
  | failed (e : Exception) : Approaching c now Q (.fail e)
  | looking (k : Option Nat → DbProg Reply) (rest : ∀ owner, Approaching c now Q (k owner)) :
      Approaching c now Q (.stmt (changesetExists c) k)
  | locking (s : Session) (k : Option LockedRow → DbProg Reply) (time : s.now = now)
      (none : ∃ e, k none = .fail e)
      (closed : ∀ r, r.isClosed = true → ∃ e, k (some r) = .fail e)
      (holding : ∀ r, Q (k (some r)) ∨ ∃ e, k (some r) = .fail e) :
      Approaching c now Q (.stmt (changesetCurrentLock s c) k)

private def afterLock (s : Session) (check : Bool) (u : ChangesetUpdater)
    (rest : ChangesetUpdater → DbProg Reply) (r : LockedRow) : DbProg Reply :=
  if r.isClosed then throw (closedAtMessage u.changeset r.closedAt)
  else if check = true ∧ s.cfg.changesetMaxElements ≤ wrap32 r.numChanges then
    throw (closedAtMessage u.changeset r.currentTime)
  else rest (u.load r.numChanges r.bbox)

private theorem lock_eq {s : Session} {u : ChangesetUpdater} {check : Bool}
    {rest : ChangesetUpdater → DbProg Reply} :
    lockCurrentChangeset s check u >>= rest =
      .stmt (changesetExists u.changeset) (fun owner =>
        match owner with
        | none => .fail (.notFound "")
        | some owner =>
            if owner = s.userId then
              .stmt (changesetCurrentLock s u.changeset) (fun row =>
                match row with
                | none => .fail (.conflict "The user doesn't own that changeset")
                | some r => afterLock s check u rest r)
            else .fail (.conflict "The user doesn't own that changeset")) := by
  unfold lockCurrentChangeset checkUserOwnsChangeset lockCs
  simp only [bind_assoc, perform_bind, stmt_bind]
  congr 1
  funext owner
  cases owner with
  | none => rfl
  | some owner =>
      by_cases own : owner = s.userId
      · simp only [own, if_true, pure_bind]
        congr 1
        funext row
        cases row with
        | none => rfl
        | some r =>
            simp only [pure_bind, afterLock, ChangesetUpdater.load]
            by_cases closed : r.isClosed = true
            · simp only [closed, if_true]
              rfl
            · by_cases full : check = true ∧ s.cfg.changesetMaxElements ≤ wrap32 r.numChanges
              · simp only [closed, full, and_self, if_true]
                rfl
              · simp only [closed, full, if_false]
                rfl
      · simp only [own, if_false]
        rfl

private theorem approaching_lock {s : Session} {u : ChangesetUpdater} {check : Bool}
    {rest : ChangesetUpdater → DbProg Reply}
    (holding : ∀ r : LockedRow, Q (rest (u.load r.numChanges r.bbox))) :
    Approaching u.changeset s.now Q (lockCurrentChangeset s check u >>= rest) := by
  rw [lock_eq]
  refine .looking _ fun owner => ?_
  cases owner with
  | none => exact .failed _
  | some owner =>
      simp only
      split
      · refine .locking s _ rfl ⟨_, rfl⟩ (fun r closed => ⟨_, if_pos closed⟩) fun r => ?_
        simp only [afterLock]
        split
        · exact .inr ⟨_, rfl⟩
        · split
          · exact .inr ⟨_, rfl⟩
          · exact .inl (holding r)
      · exact .failed _

def Closes (c : Int) (now : Int) (p : DbProg Reply) : Prop :=
  ∃ s k, p = .stmt (changesetClose s c) k ∧ s.now = now ∧
    ∀ n, (n = 1 ∧ ∃ a, k n = .ret a) ∨ ∃ e, k n = .fail e

def Holding (tx : Transaction) (c : Int) (p : DbProg Reply) : Prop :=
  tx.request = .close c → Closes c tx.now p

/-- Every request on the changeset begins on its way to the lock. -/
theorem responder_approaching {tx : Transaction} (named : tx.request.target = some c) :
    Approaching c tx.now (Holding tx c) tx.responder := by
  obtain ⟨cfg, now, user, limits, fuel, request⟩ := tx
  cases request with
  | create tags => cases named
  | update c₀ tags =>
      obtain rfl : c₀ = c := Option.some.inj named
      cases user with
      | none => exact .failed _
      | some userId =>
          cases tags with
          | error e => exact .failed _
          | ok tags =>
              change Approaching c₀ now _
                (apiUpdateChangeset ⟨cfg, now, userId⟩ tags.pairs ⟨c₀, 0, Bbox.undefined cfg⟩ >>=
                  fun _ => pure (Reply.text ""))
              unfold apiUpdateChangeset
              rw [bind_assoc]
              exact approaching_lock (s := ⟨cfg, now, userId⟩)
                (u := ⟨c₀, 0, Bbox.undefined cfg⟩) fun r close => by cases close
  | close c₀ =>
      obtain rfl : c₀ = c := Option.some.inj named
      cases user with
      | none => exact .failed _
      | some userId =>
          change Approaching c₀ now _
            (apiCloseChangeset ⟨cfg, now, userId⟩ ⟨c₀, 0, Bbox.undefined cfg⟩ >>=
              fun _ => pure (Reply.text ""))
          unfold apiCloseChangeset
          rw [bind_assoc]
          refine approaching_lock (s := ⟨cfg, now, userId⟩) (u := ⟨c₀, 0, Bbox.undefined cfg⟩)
            fun r close => ⟨⟨cfg, now, userId⟩, _, rfl, rfl, fun n => ?_⟩
          by_cases one : n = 1
          · exact .inl ⟨one, _, by rw [one]; rfl⟩
          · refine .inr ⟨.serverError "Cannot close changeset", ?_⟩
            change (expectRows n 1 _ >>= _) = _
            rw [expectRows, if_neg one]
            rfl
  | upload mt c₀ payload =>
      obtain rfl : c₀ = c := Option.some.inj named
      cases user with
      | none => exact .failed _
      | some userId =>
          exact approaching_lock (s := ⟨cfg, now, userId⟩) (u := ⟨c₀, 0, Bbox.undefined cfg⟩)
            fun r close => by cases close

end Programs

section Runs

variable {I : Type} [DecidableEq I] {txs : I → Transaction} {c : Int}

theorem view_row {t : DbTxn} {base : Db} (c : Int) :
    (t.view dbViews base).changesets.find? c =
      if t.owns (.changeset c) then t.mine.changesets.find? c else base.changesets.find? c :=
  Table.find?_overlay ..

inductive Phase (tx : Transaction) (c : Int) (t : DbTxn) : Prop where
  | approaching (prog : Approaching c tx.now (Holding tx c) t.prog) (locks : t.locks = [])
  | failed (e : Exception) (prog : t.prog = .fail e)
  | holding (own : t.owns (.changeset c) = true) (prog : Holding tx c t.prog)
  | closed (own : t.owns (.changeset c) = true) (a : Reply) (prog : t.prog = .ret a)
      (row : tx.request = .close c →
        (t.mine.changesets.find? c).map ChangesetRow.closedAt = some tx.now)

private theorem owns_append {t : DbTxn} {l : Lockable} {more : List (Lockable × LockMode)}
    {p : DbProg Reply} {mine : Db} (own : t.owns l = true) :
    Txn.owns (⟨p, mine, t.locks ++ more⟩ : DbTxn) l = true := by
  unfold Txn.owns at own ⊢
  exact decide_eq_true (List.mem_append_left _ (of_decide_eq_true own))

private theorem changesetClose_exec {s : Session} {db db' : Db}
    (done : (changesetClose s c).exec db = .ok (1, db')) :
    (db'.changesets.find? c).map ChangesetRow.closedAt = some s.now := by
  obtain ⟨count, rfl⟩ := Prod.mk.inj (Except.ok.inj done)
  obtain ⟨r, one⟩ := List.length_eq_one_iff.mp count
  have member : r ∈ db.changesets.select
      (fun r => decide (r.id = c ∧ r.userId = s.userId)) := by
    rw [one]
    exact List.mem_singleton_self r
  obtain ⟨row, hit⟩ := (Table.mem_select _ _).mp member
  have found : db.changesets.find? c = some r :=
    Table.find?_eq_some.mpr ⟨row, (of_decide_eq_true hit).1⟩
  have only : ∀ x : ChangesetRow, decide (x.id = c ∧ x.userId = s.userId) = true → x.id = c :=
    fun x named => (of_decide_eq_true named).1
  obtain ⟨db'', run, sets⟩ := updateChangesets_exec
    (fun r => { r with closedAt := s.now }) (fun _ => rfl) found hit only
  obtain ⟨-, rfl⟩ := Prod.mk.inj (Except.ok.inj (run.symm.trans done))
  rw [sets.self]
  rfl

private theorem ownRow_some {userId : Nat} {db : Db} {r : ChangesetRow}
    (row : ownRow c userId db = some r) : db.changesets.find? c = some r := by
  unfold ownRow at row
  exact (Option.filter_eq_some_iff.mp row).1

private theorem locking_exec {s : Session} {view s' : Db} {result : Option LockedRow}
    (done : (changesetCurrentLock s c).exec view = .ok (result, s')) :
    (result = none ∧ (changesetCurrentLock s c).locks view = []) ∨
      ∃ r, view.changesets.find? c = some r ∧ result = some (lockedRow s.now r) ∧
        (changesetCurrentLock s c).locks view = [(.changeset c, .exclusive)] := by
  obtain ⟨rfl, -⟩ := Prod.mk.inj (Except.ok.inj done)
  cases row : ownRow c s.userId view with
  | none =>
      refine .inl ⟨rfl, ?_⟩
      simp only [changesetCurrentLock, row]
      rfl
  | some r =>
      have found := ownRow_some row
      refine .inr ⟨r, found, rfl, ?_⟩
      simp only [changesetCurrentLock, row, Option.toList_some, List.map_cons, List.map_nil,
        (Table.find?_eq_some.mp found).2]

private theorem phase_exec {tx : Transaction} {t : DbTxn} {base s' : Db} {ρ : Type}
    {st : SqlStmt ρ} {k : ρ → DbProg Reply} {r : ρ} (phase : Phase tx c t)
    (next : t.prog = .stmt st k) (done : st.exec (t.view dbViews base) = .ok (r, s')) :
    Phase tx c (t.next dbViews base st (k r) s') := by
  cases phase with
  | failed e prog => cases prog.symm.trans next
  | closed own a prog row => cases prog.symm.trans next
  | approaching prog locks =>
      rw [next] at prog
      cases prog with
      | looking k rest =>
          refine .approaching (rest r) ?_
          change t.locks ++ [] = []
          rw [locks]
          rfl
      | locking s k time none closed holding =>
          rcases locking_exec done with ⟨rfl, -⟩ | ⟨row, -, rfl, taken⟩
          · obtain ⟨e, fails⟩ := none
            exact .failed e fails
          · rcases holding (lockedRow s.now row) with goes | ⟨e, fails⟩
            · refine .holding ?_ goes
              unfold Txn.owns Txn.next
              rw [taken]
              exact decide_eq_true (List.mem_append_right _ List.mem_cons_self)
            · exact .failed e fails
  | holding own prog =>
      have still : (t.next dbViews base st (k r) s').owns (.changeset c) = true := owns_append own
      by_cases close : tx.request = .close c
      · obtain ⟨s, k', same, time, results⟩ := prog close
        rw [next] at same
        cases same
        rcases results r with ⟨rfl, a, returns⟩ | ⟨e, fails⟩
        · refine .closed still a returns fun _ => ?_
          rw [← time]
          exact changesetClose_exec done
        · exact .failed e fails
      · exact .holding still fun asked => absurd asked close

private theorem phases (named : ∀ i, (txs i).request.target = some c) (run : DbRun txs) :
    ∀ n i t, (run.state n).status i = .running t → Phase (txs i) c t := by
  intro n
  refine run.invariant (J := fun w => ∀ i t, w.status i = .running t → Phase (txs i) c t) (m := 0)
    (fun i t running => ?_) (fun n _ before step => ?_) n (Nat.zero_le n)
  · rw [run.start] at running
    cases running
  · generalize run.state (n + 1) = w' at step
    have other : ∀ {w : DbWorld I} {j status}, w.status = (run.state n).status →
        (∀ t, status = .running t → Phase (txs j) c t) →
        ∀ i t, (w.set j status).status i = .running t → Phase (txs i) c t := by
      intro w j status same new i t running
      by_cases here : i = j
      · subst here
        rw [set_self] at running
        exact new t running
      · rw [set_other _ _ here, same] at running
        exact before i t running
    cases step with
    | start j idle =>
        refine other rfl fun t same => ?_
        cases same
        exact .approaching (responder_approaching (named j)) rfl
    | exec j running next free done =>
        refine other rfl fun t same => ?_
        cases same
        exact phase_exec (before j _ running) next done
    | commit j running next => exact other rfl fun t same => nomatch same
    | abort j running => exact other rfl fun t same => nomatch same

/-- A transaction that has not got the lock yet, or has failed. -/
inductive Harmless (tx : Transaction) (c : Int) (t : DbTxn) : Prop where
  | approaching (prog : Approaching c tx.now (Holding tx c) t.prog) (locks : t.locks = [])
  | failed (e : Exception) (prog : t.prog = .fail e)

private theorem Harmless.not_ret {tx : Transaction} {t : DbTxn} (harmless : Harmless tx c t)
    {a : Reply} (next : t.prog = .ret a) : False := by
  cases harmless with
  | approaching prog locks =>
      rw [next] at prog
      cases prog
  | failed e prog => cases prog.symm.trans next

/-- The state once a close has committed: nobody can commit any more. -/
private structure Final (txs : I → Transaction) (c : Int) (T : Int) (done : I → Bool)
    (w : DbWorld I) : Prop where
  closedAt : closedAt? c w = some T
  harmless : ∀ i t, w.status i = .running t → Harmless (txs i) c t
  committed : ∀ i, isCommitted w i = true → done i = true

private theorem isCommitted_set {w : DbWorld I} {j i : I} {status : Status Db Lockable Exception Reply}
    (open' : ∀ a, status ≠ .committed a) (done : isCommitted (w.set j status) i = true) :
    isCommitted w i = true := by
  unfold isCommitted at done ⊢
  by_cases here : i = j
  · subst here
    rw [set_self] at done
    split at done
    · exact absurd rfl (open' _)
    · cases done
  · rwa [set_other _ _ here] at done

private theorem final_of_close (named : ∀ i, (txs i).request.target = some c) (run : DbRun txs)
    {m : Nat} {j : I} (closes : CommitsClose run c m j) :
    Final txs c (txs j).now (isCommitted (run.state (m + 1))) (run.state (m + 1)) := by
  obtain ⟨request, before, after⟩ := closes
  have phase := phases named run m
  have exclusion := run.exclusion m
  rcases run.step m with step | same
  · generalize run.state (m + 1) = w' at step after ⊢
    have notYet : ∀ {w : DbWorld I} {i status}, w.status = (run.state m).status →
        (∀ a, status ≠ .committed a) → isCommitted (w.set i status) j = true → False := by
      intro w i status same open' done
      have earlier := isCommitted_set open' done
      unfold isCommitted at earlier before
      rw [same, before] at earlier
      cases earlier
    cases step with
    | start i idle => exact (notYet rfl (fun a => by exact nofun) after).elim
    | exec i running next free done => exact (notYet rfl (fun a => by exact nofun) after).elim
    | abort i running => exact (notYet rfl (fun a => by exact nofun) after).elim
    | commit i running next =>
        rename_i t a
        have own : j = i := by
          by_contra other
          unfold isCommitted at after before
          rw [set_other _ _ other] at after
          rw [after] at before
          cases before
        subst own
        have row : t.owns (.changeset c) = true ∧
            (t.mine.changesets.find? c).map ChangesetRow.closedAt = some (txs j).now := by
          cases phase j t running with
          | approaching prog locks =>
              rw [next] at prog
              cases prog
          | failed e prog => cases prog.symm.trans next
          | holding own prog =>
              obtain ⟨s, k, same, -⟩ := prog request
              cases same.symm.trans next
          | closed own a prog row => exact ⟨own, row request⟩
        refine ⟨?_, fun i t' other => ?_, fun i done => done⟩
        · change ((t.view dbViews (run.state m).base).changesets.find? c).map _ = _
          rw [view_row, if_pos row.1, row.2]
        · by_cases here : i = j
          · subst here
            rw [set_self] at other
            cases other
          · rw [set_other _ _ here] at other
            have free : ¬ t'.owns (.changeset c) = true := fun own => by
              have pair := exclusion i j t' t here other running _ (of_decide_eq_true own) _
                (of_decide_eq_true row.1) rfl
              cases pair.1
            cases phase i t' other with
            | approaching prog locks => exact .approaching prog locks
            | failed e prog => exact .failed e prog
            | holding own prog => exact absurd own free
            | closed own a prog row => exact absurd own free
  · rw [same, before] at after
    cases after

private theorem harmless_exec {tx : Transaction} {t : DbTxn} {base s' : Db} {ρ : Type}
    {st : SqlStmt ρ} {k : ρ → DbProg Reply} {r : ρ} {T : Int} (harmless : Harmless tx c t)
    (next : t.prog = .stmt st k) (done : st.exec (t.view dbViews base) = .ok (r, s'))
    (closedAt : (base.changesets.find? c).map ChangesetRow.closedAt = some T)
    (later : (t.next dbViews base st (k r) s').owns (.changeset c) = true → T < tx.now) :
    Harmless tx c (t.next dbViews base st (k r) s') := by
  cases harmless with
  | failed e prog => cases prog.symm.trans next
  | approaching prog locks =>
      have away : t.owns (.changeset c) = false := by
        unfold Txn.owns
        rw [locks]
        rfl
      rw [next] at prog
      cases prog with
      | looking k rest =>
          refine .approaching (rest r) ?_
          change t.locks ++ [] = []
          rw [locks]
          rfl
      | locking s k time none closed holding =>
          rcases locking_exec done with ⟨rfl, -⟩ | ⟨row, found, rfl, taken⟩
          · obtain ⟨e, fails⟩ := none
            exact .failed e fails
          · rw [view_row, away] at found
            have own : row.closedAt = T := by
              rw [if_neg (by decide)] at found
              rw [found] at closedAt
              exact Option.some.inj closedAt
            have acquired : (t.next dbViews base (changesetCurrentLock s c)
                (k (some (lockedRow s.now row))) s').owns (.changeset c) = true := by
              unfold Txn.owns Txn.next
              rw [taken]
              exact decide_eq_true (List.mem_append_right _ List.mem_cons_self)
            have past := later acquired
            rw [← own, ← time] at past
            obtain ⟨e, fails⟩ := closed (lockedRow s.now row) (decide_eq_true past)
            exact .failed e fails

private theorem final_forever (named : ∀ i, (txs i).request.target = some c) (run : DbRun txs)
    (later : BeginsLater run c) {m : Nat} {j : I} (closes : CommitsClose run c m j) :
    ∀ n, m + 1 ≤ n →
      Final txs c (txs j).now (isCommitted (run.state (m + 1))) (run.state n) := by
  refine run.invariant (final_of_close named run closes) fun n after before step => ?_
  have acquires : ∀ i, holds (run.state n) i c = false → holds (run.state (n + 1)) i c = true →
      (txs j).now < (txs i).now := fun i first second => later m j n i closes after ⟨first, second⟩
  generalize run.state (n + 1) = w' at step acquires
  have harmless : ∀ {w : DbWorld I} {i status}, w.status = (run.state n).status →
      (∀ t, status = .running t → Harmless (txs i) c t) →
      ∀ i' t, (w.set i status).status i' = .running t → Harmless (txs i') c t := by
    intro w i status same new i' t running
    by_cases here : i' = i
    · subst here
      rw [set_self] at running
      exact new t running
    · rw [set_other _ _ here, same] at running
      exact before.harmless i' t running
  cases step with
  | start i idle =>
      refine ⟨before.closedAt, harmless rfl fun t same => ?_, fun i' done =>
        before.committed i' (isCommitted_set (fun a => by exact nofun) done)⟩
      cases same
      exact .approaching (responder_approaching (named i)) rfl
  | exec i running next free done =>
      rename_i t st k r s'
      refine ⟨before.closedAt, harmless rfl fun t' same => ?_, fun i' done =>
        before.committed i' (isCommitted_set (w := { run.state n with base := _ })
          (fun a => by exact nofun) done)⟩
      cases same
      have waits := before.harmless i t running
      refine harmless_exec waits next done before.closedAt fun own => acquires i ?_ ?_
      · unfold holds
        rw [running]
        cases waits with
        | approaching prog locks =>
            simp only [Txn.owns, locks]
            rfl
        | failed e prog => cases prog.symm.trans next
      · unfold holds
        rw [set_self]
        exact own
  | commit i running next => exact ((before.harmless i _ running).not_ret next).elim
  | abort i running =>
      refine ⟨before.closedAt, harmless rfl (fun t same => ?_), fun i' done =>
        before.committed i' (isCommitted_set (fun a => by exact nofun) done)⟩
      cases same

/-- In every interleaving in which whoever gets the lock after a close has begun later
than the close, a close is final. -/
theorem closeIsFinal_of_beginsLater (named : ∀ i, (txs i).request.target = some c)
    (run : DbRun txs) (later : BeginsLater run c) : CloseIsFinal run c := by
  intro m j closes
  have final := final_forever named run later closes
  constructor
  · intro n i after acquires extends' k
    by_contra committed
    rw [Bool.not_eq_false] at committed
    have persists : ∀ {k n : Nat}, k ≤ n → isCommitted (run.state k) i = true →
        isCommitted (run.state n) i = true := by
      intro k n le done
      unfold isCommitted at done
      split at done
      · rename_i a status
        unfold isCommitted
        rw [run.committed_forever status n le]
      · cases done
    have atEnd : isCommitted (run.state (n + 1)) i = true := by
      rcases Nat.le_total k (n + 1) with early | late
      · exact persists early committed
      · have first := (final k (by omega)).committed i committed
        exact persists (by omega) first
    have held := acquires.2
    unfold holds at held
    unfold isCommitted at atEnd
    split at held
    · rename_i t running
      rw [running] at atEnd
      cases atEnd
    · cases held
  · intro n k after le T T' first second
    have same := (final n (by omega)).closedAt.symm.trans first
    have same' := (final k (by omega)).closedAt.symm.trans second
    rw [← Option.some.inj same, ← Option.some.inj same']

end Runs

section Samples

def sampleOpen : Db := (serially [sampleTx 0 (.create (.ok ⟨[], by decide⟩))] sampleUsers).2

/-- A tag update that begins so many seconds after the start, and a close that begins
after two. -/
def sampleRace (seconds : Int) : Bool → Transaction
  | false => sampleTx seconds (.update 7 (.ok ⟨[], by decide⟩))
  | true => sampleTx 2 (.close 7)

theorem sampleRace_target (seconds : Int) (i : Bool) :
    (sampleRace seconds i).request.target = some 7 := by
  cases i <;> rfl

def sampleRun (seconds : Int) : DbRun (sampleRace seconds) :=
  Run.ofSchedule [false, true] (by decide)
    [false, true, true, true, true, true, false, false, false, false, false]
    ⟨sampleOpen, fun _ => .idle⟩ fun _ => rfl

theorem closeIsFinal_sampleRun :
    CommitsClose (sampleRun 3) 7 5 true ∧ CloseIsFinal (sampleRun 3) 7 := by
  refine ⟨⟨rfl, by decide +kernel, by decide +kernel⟩,
    closeIsFinal_of_beginsLater (sampleRace_target 3) (sampleRun 3) ?_⟩
  intro m j n i closes after acquires
  -- the close itself is over, so the lock goes to the tag update
  obtain ⟨request, -, committed⟩ := closes
  have own : j = true := by
    cases j with
    | true => rfl
    | false => cases request
  subst own
  cases i with
  | false => decide
  | true =>
      have held := acquires.2
      unfold isCommitted at committed
      split at committed
      · rename_i a status
        unfold holds at held
        rw [(sampleRun 3).committed_forever status (n + 1) (by omega)] at held
        cases held
      · cases committed

/-- The tag update begins before the close and takes the lock after it: it commits, and
the changeset is open again for an hour. -/
theorem close_overtaken_sampleRun :
    CommitsClose (sampleRun 1) 7 5 true ∧ Acquires (sampleRun 1) 7 7 false ∧
      isCommitted ((sampleRun 1).state 11) false = true ∧
      closedAt? 7 ((sampleRun 1).state 6) = some (interval 2) ∧
      closedAt? 7 ((sampleRun 1).state 11) = some (interval 3601) ∧
      ¬ CloseIsFinal (sampleRun 1) 7 := by
  have closes : CommitsClose (sampleRun 1) 7 5 true :=
    ⟨rfl, by decide +kernel, by decide +kernel⟩
  have acquires : Acquires (sampleRun 1) 7 7 false := ⟨by decide +kernel, by decide +kernel⟩
  have commits : isCommitted ((sampleRun 1).state 11) false = true := by decide +kernel
  refine ⟨closes, acquires, commits, by decide +kernel, by decide +kernel, fun final => ?_⟩
  have never := (final 5 true closes).1 7 false (by decide) acquires (.inr ⟨_, rfl⟩) 11
  rw [commits] at never
  cases never

end Samples

end Cgimap.Changeset.ClosingRaces
