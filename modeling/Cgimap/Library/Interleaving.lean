/- path: Cgimap/Library/Interleaving
   generality: G
   source: none
   digest: Transactions that interleave their statements under row locks, read committed. -/

import Cgimap.Library.StatementProgram
import Mathlib.Logic.Function.Basic

set_option autoImplicit false
set_option relaxedAutoImplicit false

namespace Cgimap.Library.Interleaving

open Cgimap.Library.StatementProgram

/-- How a transaction sees a store: its own rows where it holds an exclusive lock, the
committed rows elsewhere. `sync` keeps what a statement changes at once and for all. -/
structure Views (S L : Type) where
  overlay : (L → Bool) → S → S → S
  sync : S → S → S

section Worlds

variable (I S L ε α : Type)

structure Txn : Type 1 where
  prog : Prog S L ε α
  mine : S
  locks : List (L × LockMode)

inductive Status : Type 1 where
  | idle
  | running (t : Txn S L ε α)
  | committed (a : α)
  | aborted

structure World : Type 1 where
  base : S
  status : I → Status S L ε α

end Worlds

variable {I S L ε α : Type} [DecidableEq I]

def World.set (w : World I S L ε α) (i : I) (status : Status S L ε α) : World I S L ε α :=
  { w with status := Function.update w.status i status }

@[simp] theorem set_base (w : World I S L ε α) (i : I) (status : Status S L ε α) :
    (w.set i status).base = w.base := rfl

theorem set_self (w : World I S L ε α) (i : I) (status : Status S L ε α) :
    (w.set i status).status i = status := Function.update_self ..

theorem set_other (w : World I S L ε α) {i j : I} (status : Status S L ε α) (ne : j ≠ i) :
    (w.set i status).status j = w.status j := Function.update_of_ne ne ..

variable [DecidableEq L]

def Compatible (x y : L × LockMode) : Prop := x.1 = y.1 → x.2 = .shared ∧ y.2 = .shared

instance (x y : L × LockMode) : Decidable (Compatible x y) :=
  inferInstanceAs (Decidable (x.1 = y.1 → x.2 = .shared ∧ y.2 = .shared))

def Txn.owns (t : Txn S L ε α) (l : L) : Bool := decide ((l, LockMode.exclusive) ∈ t.locks)

def World.Free (w : World I S L ε α) (i : I) (needed : List (L × LockMode)) : Prop :=
  ∀ j t, j ≠ i → w.status j = .running t → ∀ x ∈ needed, ∀ y ∈ t.locks, Compatible x y

section Steps

variable (V : Views S L) (programs : I → Prog S L ε α)

def Txn.view (t : Txn S L ε α) (base : S) : S := V.overlay t.owns t.mine base

/-- A transaction after a statement with its result. -/
def Txn.next {ρ : Type} (t : Txn S L ε α) (base : S) (st : Stmt S L ε ρ) (rest : Prog S L ε α)
    (s' : S) : Txn S L ε α :=
  ⟨rest, s', t.locks ++ st.locks (t.view V base)⟩

/-- One party takes a step. A statement that needs a lock of another party is not
executed, so it sees what is committed when the lock is granted. A transaction can be
rolled back at any time: by its own error, or by the database. -/
inductive Step (w : World I S L ε α) : World I S L ε α → Prop where
  | start (i : I) (idle : w.status i = .idle) :
      Step w (w.set i (.running ⟨programs i, w.base, []⟩))
  | exec (i : I) {ρ : Type} {t : Txn S L ε α} {st : Stmt S L ε ρ} {k : ρ → Prog S L ε α} {r : ρ}
      {s' : S} (running : w.status i = .running t) (next : t.prog = .stmt st k)
      (free : w.Free i (st.locks (t.view V w.base)))
      (done : st.exec (t.view V w.base) = .ok (r, s')) :
      Step w ({ w with base := V.sync w.base s' }.set i (.running (t.next V w.base st (k r) s')))
  | commit (i : I) {t : Txn S L ε α} {a : α} (running : w.status i = .running t)
      (next : t.prog = .ret a) :
      Step w ({ w with base := t.view V w.base }.set i (.committed a))
  | abort (i : I) {t : Txn S L ε α} (running : w.status i = .running t) :
      Step w (w.set i .aborted)

/-- The states of an execution, one step after the other. It may pause. -/
structure Run where
  state : Nat → World I S L ε α
  start : ∀ i, (state 0).status i = .idle
  step : ∀ n, Step V programs (state n) (state (n + 1)) ∨ state (n + 1) = state n

end Steps

section Rules

variable {V : Views S L} {programs : I → Prog S L ε α}

theorem Run.invariant (run : Run V programs) {J : World I S L ε α → Prop} {m : Nat}
    (start : J (run.state m))
    (step : ∀ n, m ≤ n → J (run.state n) → Step V programs (run.state n) (run.state (n + 1)) →
      J (run.state (n + 1))) :
    ∀ n, m ≤ n → J (run.state n) := by
  intro n later
  obtain ⟨d, rfl⟩ := Nat.exists_eq_add_of_le later
  clear later
  induction d with
  | zero => exact start
  | succ d ih =>
      rcases run.step (m + d) with one | same
      · exact step (m + d) (Nat.le_add_right m d) ih one
      · rw [← Nat.add_assoc, same]
        exact ih

theorem Run.committed_forever (run : Run V programs) {i : I} {a : α} {m : Nat}
    (done : (run.state m).status i = .committed a) :
    ∀ n, m ≤ n → (run.state n).status i = .committed a := by
  refine run.invariant (J := fun w => w.status i = .committed a) done fun n _ here step => ?_
  generalize run.state (n + 1) = w' at step
  have other : ∀ {j status}, (run.state n).status j ≠ .committed a →
      ((run.state n).set j status).status i = .committed a := by
    intro j status ne
    have away : i ≠ j := fun same => ne (same ▸ here)
    rw [set_other _ _ away, here]
  cases step with
  | start j idle => exact other (by rw [idle]; exact nofun)
  | exec j running next free done => exact other (by rw [running]; exact nofun)
  | commit j running next => exact other (by rw [running]; exact nofun)
  | abort j running => exact other (by rw [running]; exact nofun)

/-- The locks of two running parties go together. -/
def Exclusion (w : World I S L ε α) : Prop :=
  ∀ i j t t', i ≠ j → w.status i = .running t → w.status j = .running t' →
    ∀ x ∈ t.locks, ∀ y ∈ t'.locks, Compatible x y

omit [DecidableEq L] in
private theorem exclusion_set {w : World I S L ε α} {i : I} {status : Status S L ε α}
    (before : Exclusion w)
    (new : ∀ t, status = .running t → ∀ j t', j ≠ i → w.status j = .running t' →
      ∀ x ∈ t.locks, ∀ y ∈ t'.locks, Compatible x y) : Exclusion (w.set i status) := by
  intro a b t t' ne first second x hx y hy
  by_cases left : a = i
  · subst left
    rw [set_self] at first
    rw [set_other _ _ (Ne.symm ne)] at second
    exact new t first b t' (Ne.symm ne) second x hx y hy
  · rw [set_other _ _ left] at first
    by_cases right : b = i
    · subst right
      rw [set_self] at second
      have turned := new t' second a t left first y hy x hx
      exact fun same => (turned same.symm).symm
    · rw [set_other _ _ right] at second
      exact before a b t t' ne first second x hx y hy

theorem Run.exclusion (run : Run V programs) : ∀ n, Exclusion (run.state n) := by
  have start : Exclusion (run.state 0) := by
    intro i j t t' _ first
    rw [run.start] at first
    cases first
  refine fun n => run.invariant start (fun n _ before step => ?_) n (Nat.zero_le n)
  generalize run.state (n + 1) = w' at step
  cases step with
  | start i idle =>
      refine exclusion_set before fun t same j t' ne running x inside => ?_
      cases same
      cases inside
  | exec i running next free done =>
      refine exclusion_set (w := { run.state n with base := _ }) before
        fun t same j t' ne other x inside y held => ?_
      cases same
      rcases List.mem_append.mp inside with old | new
      · exact before i j _ t' (Ne.symm ne) running other x old y held
      · exact free j t' ne other x new y held
  | commit i running next =>
      exact exclusion_set (w := { run.state n with base := _ }) before fun t same => nomatch same
  | abort i running => exact exclusion_set before fun t same => nomatch same

end Rules

section Schedules

variable (V : Views S L) (programs : I → Prog S L ε α) (parties : List I)

/-- Whether no other one of the parties holds a lock against these. -/
def isFree (w : World I S L ε α) (i : I) (needed : List (L × LockMode)) : Bool :=
  parties.all fun j =>
    match w.status j with
    | .running t => decide (j = i) || needed.all fun x => t.locks.all fun y => decide (Compatible x y)
    | _ => true

def act (w : World I S L ε α) (i : I) : Option (World I S L ε α) :=
  match w.status i with
  | .idle => some (w.set i (.running ⟨programs i, w.base, []⟩))
  | .running t =>
      match t.prog with
      | .ret a => some ({ w with base := t.view V w.base }.set i (.committed a))
      | .fail _ => some (w.set i .aborted)
      | .stmt st k =>
          if isFree parties w i (st.locks (t.view V w.base)) then
            match st.exec (t.view V w.base) with
            | .ok (r, s') =>
                some ({ w with base := V.sync w.base s' }.set i
                  (.running (t.next V w.base st (k r) s')))
            | .error _ => some (w.set i .aborted)
          else none
  | _ => none

/-- The states when the parties step in a given order. -/
def play (schedule : List I) (w : World I S L ε α) : Nat → World I S L ε α
  | 0 => w
  | n + 1 =>
      match schedule[n]? with
      | none => play schedule w n
      | some i => (act V programs parties (play schedule w n) i).getD (play schedule w n)

variable {V programs parties}

theorem step_of_act {w w' : World I S L ε α} {i : I} (all : ∀ j, j ∈ parties)
    (acts : act V programs parties w i = some w') : Step V programs w w' := by
  unfold act at acts
  split at acts
  · rename_i idle
    cases acts
    exact .start i idle
  · rename_i t running
    split at acts
    · rename_i a next
      cases acts
      exact .commit i running next
    · cases acts
      exact .abort i running
    · rename_i ρ st k next
      split at acts
      · rename_i free
        split at acts
        · rename_i r s' done
          cases acts
          refine .exec i running next ?_ done
          intro j t' ne other x needed y held
          have here := List.all_eq_true.mp free j (all j)
          rw [other] at here
          simp only [decide_eq_false ne, Bool.false_or] at here
          have pair := List.all_eq_true.mp (List.all_eq_true.mp here x needed) y held
          exact of_decide_eq_true pair
        · cases acts
          exact .abort i running
      · cases acts
  · cases acts

def Run.ofSchedule (parties : List I) (all : ∀ j, j ∈ parties) (schedule : List I) (w : World I S L ε α)
    (idle : ∀ i, w.status i = .idle) : Run V programs where
  state := play V programs parties schedule w
  start := idle
  step n := by
    rw [play]
    split
    · exact .inr rfl
    · rename_i i _
      cases acts : act V programs parties (play V programs parties schedule w n) i with
      | none => exact .inr rfl
      | some w' => exact .inl (step_of_act all acts)

end Schedules

end Cgimap.Library.Interleaving
