/- path: Cgimap/Library/OwnedRecords
   generality: G
   source: none
   digest: What a transaction does to the records it has locked, in any interleaving. -/

import Cgimap.Library.Interleaving
import Mathlib.Data.List.Nodup

set_option autoImplicit false
set_option relaxedAutoImplicit false

namespace Cgimap.Library.OwnedRecords

open Cgimap.Library.StatementProgram
open Cgimap.Library.Interleaving

variable {S L : Type}

/-- A store read as one record for each lockable row. -/
structure Records (S L : Type) where
  Rec : L → Type
  read : (x : L) → S → Rec x

/-- The row is locked exclusively. -/
def Held (locks : List (L × LockMode)) (x : L) : Prop := (x, LockMode.exclusive) ∈ locks

instance [DecidableEq L] (locks : List (L × LockMode)) (x : L) : Decidable (Held locks x) :=
  inferInstanceAs (Decidable (_ ∈ locks))

theorem Held.append {locks : List (L × LockMode)} {x : L} (held : Held locks x)
    (more : List (L × LockMode)) : Held (locks ++ more) x := List.mem_append_left more held

theorem held_nil (x : L) : ¬ Held [] x := List.not_mem_nil

namespace Records

variable (R : Records S L)

abbrev Contents : Type := (x : L) → R.Rec x

def contents (s : S) : R.Contents := fun x => R.read x s

/-- A transaction reads the records it owns in its own store, and the other ones in the
committed store. -/
structure Respects (V : Views S L) : Prop where
  overlay : ∀ owned mine base x,
    R.read x (V.overlay owned mine base) = R.read x (if owned x then mine else base)
  sync : ∀ base s, R.contents (V.sync base s) = R.contents base

variable [DecidableEq L]

/-- The contents `σ` with the records of the locked rows taken from the store `s`. -/
def taken (locks : List (L × LockMode)) (s : S) (σ : R.Contents) : R.Contents :=
  fun x => if Held locks x then R.read x s else σ x

/-- The records of the locked rows are known. -/
def Knows (locks : List (L × LockMode)) (s : S) (σ : R.Contents) : Prop :=
  ∀ x, Held locks x → R.read x s = σ x

variable {R} {locks : List (L × LockMode)} {s : S} {σ : R.Contents}

theorem taken_held {x : L} (held : Held locks x) : R.taken locks s σ x = R.read x s := if_pos held

theorem taken_free {x : L} (free : ¬ Held locks x) : R.taken locks s σ x = σ x := if_neg free

theorem taken_nil (s : S) (σ : R.Contents) : R.taken [] s σ = σ :=
  funext fun x => taken_free (held_nil x)

omit [DecidableEq L] in
theorem Knows.of_append {more : List (L × LockMode)} (knows : R.Knows (locks ++ more) s σ) :
    R.Knows locks s σ := fun x held => knows x (held.append more)

theorem Knows.taken_eq (knows : R.Knows locks s σ) : R.taken locks s σ = σ := by
  funext x
  by_cases held : Held locks x
  · rw [taken_held held, knows x held]
  · exact taken_free held

theorem taken_taken (more : List (L × LockMode)) (s s' : S) (σ : R.Contents) :
    R.taken (locks ++ more) s' (R.taken locks s σ) = R.taken (locks ++ more) s' σ := by
  funext x
  by_cases held : Held (locks ++ more) x
  · rw [taken_held held, taken_held held]
  · rw [taken_free held, taken_free held, taken_free fun before => held (before.append more)]

end Records

section Programs

variable [DecidableEq L] {ε α β : Type} (R : Records S L)

/-- What a program does to the records of the rows it locks, whatever happens to the other
ones between its statements: from the contents `σ` it returns with a result, locks and
contents that satisfy `Q`. -/
def Safe (Q : α → List (L × LockMode) → R.Contents → Prop) :
    Prog S L ε α → List (L × LockMode) → R.Contents → Prop
  | .ret a, locks, σ => ∀ s, R.Knows locks s σ → Q a locks σ
  | .fail _, _, _ => True
  | .stmt st k, locks, σ => ∀ s r s', R.Knows (locks ++ st.locks s) s σ → st.exec s = .ok (r, s') →
      Safe Q (k r) (locks ++ st.locks s) (R.taken (locks ++ st.locks s) s' σ)

variable {R} {Q : α → List (L × LockMode) → R.Contents → Prop} {locks : List (L × LockMode)}
  {σ : R.Contents} {p : Prog S L ε α}

theorem safe_pure {a : α} (done : Q a locks σ) : Safe R Q (pure a : Prog S L ε α) locks σ :=
  fun _ _ => done

theorem safe_throw (e : ε) : Safe R Q (throw e : Prog S L ε α) locks σ := trivial

theorem safe_bind {Q' : β → List (L × LockMode) → R.Contents → Prop} {k : α → Prog S L ε β}
    (first : Safe R Q p locks σ) (rest : ∀ a locks' σ', Q a locks' σ' → Safe R Q' (k a) locks' σ') :
    Safe R Q' (p >>= k) locks σ := by
  induction p generalizing locks σ with
  | ret a =>
      change Safe R Q' (k a) locks σ
      have next := fun s knows => rest a locks σ (first s knows)
      cases ends : k a with
      | ret b =>
          rw [ends] at next
          exact fun s knows => next s knows s knows
      | fail e => trivial
      | stmt st k' =>
          rw [ends] at next
          exact fun s r s' knows done => next s knows.of_append s r s' knows done
  | fail e => trivial
  | stmt st k' ih => exact fun s r s' knows done => ih r (first s r s' knows done)

theorem Safe.mono {Q' : α → List (L × LockMode) → R.Contents → Prop} (safe : Safe R Q p locks σ)
    (weaker : ∀ a locks' σ', Q a locks' σ' → Q' a locks' σ') : Safe R Q' p locks σ := by
  rw [← bind_pure p]
  exact safe_bind safe fun a locks' σ' done => safe_pure (weaker a locks' σ' done)

theorem safe_liftExcept_bind {x : Except ε α} {Q : β → List (L × LockMode) → R.Contents → Prop}
    {k : α → Prog S L ε β} (rest : ∀ a, x = .ok a → Safe R Q (k a) locks σ) :
    Safe R Q (Prog.liftExcept x >>= k) locks σ := by
  cases x with
  | ok a => exact rest a rfl
  | error e => trivial

theorem safe_foldlM {ι : Type} {step : β → ι → Prog S L ε β}
    (I : List ι → β → List (L × LockMode) → R.Contents → Prop) (l : List ι)
    (keeps : ∀ done, ∀ i ∈ l, ∀ b locks σ, I done b locks σ →
      Safe R (I (done ++ [i])) (step b i) locks σ)
    {done : List ι} {b : β} (start : I done b locks σ) :
    Safe R (I (done ++ l)) (l.foldlM step b) locks σ := by
  induction l generalizing done b locks σ with
  | nil =>
      rw [List.append_nil]
      exact safe_pure start
  | cons i l ih =>
      rw [List.foldlM_cons]
      refine safe_bind (keeps done i List.mem_cons_self b locks σ start) fun b' locks' σ' next => ?_
      have rest := ih (fun done j member => keeps done j (List.mem_cons_of_mem i member)) next
      rwa [List.append_assoc] at rest

section Single

def Over : Prog S L ε α → Prop
  | .stmt _ _ => False
  | _ => True

/-- A program with one statement at most. -/
def Single : Prog S L ε α → Prop
  | .stmt _ k => ∀ r, Over (k r)
  | _ => True

/-- The locks that its first statement takes. -/
def firstLocks : Prog S L ε α → S → List (L × LockMode)
  | .stmt st _, s => st.locks s
  | _, _ => []

omit [DecidableEq L] in
theorem single_perform (st : Stmt S L ε α) : Single (Prog.perform st) := fun _ => trivial

omit [DecidableEq L] in
theorem over_liftExcept (x : Except ε α) : Over (Prog.liftExcept x : Prog S L ε α) := by
  cases x <;> trivial

omit [DecidableEq L] in
theorem over_bind {k : α → Prog S L ε β} (first : Over p) (rest : ∀ a, Over (k a)) :
    Over (p >>= k) := by
  cases p with
  | ret a => exact rest a
  | fail e => trivial
  | stmt st k' => exact first.elim

omit [DecidableEq L] in
theorem single_bind {k : α → Prog S L ε β} (first : Single p) (rest : ∀ a, Over (k a)) :
    Single (p >>= k) := by
  cases p with
  | ret a =>
      change Single (k a)
      have none := rest a
      cases ends : k a with
      | stmt st k' =>
          rw [ends] at none
          exact none.elim
      | ret b => trivial
      | fail e => trivial
  | fail e => trivial
  | stmt st k' => exact fun r => over_bind (first r) rest

theorem safe_single (single : Single p)
    (runs : ∀ s a s', R.Knows (locks ++ firstLocks p s) s σ → p.run s = .ok (a, s') →
      Q a (locks ++ firstLocks p s) (R.taken (locks ++ firstLocks p s) s' σ)) :
    Safe R Q p locks σ := by
  cases p with
  | ret a =>
      intro s knows
      have done := runs s a s
      simp only [firstLocks, List.append_nil, knows.taken_eq] at done
      exact done knows rfl
  | fail e => trivial
  | stmt st k =>
      intro s r s' knows done
      have run : (Prog.stmt st k).run s = (k r).run s' := by rw [Prog.run_stmt, done]
      have ends := single r
      cases next : k r with
      | ret a =>
          rw [next] at run
          exact fun _ _ => runs s a s' knows run
      | fail e => trivial
      | stmt st' k' =>
          rw [next] at ends
          exact ends.elim

end Single

section Still

variable (R) in
/-- A program that changes no record; its result satisfies `P` whatever it reads. -/
def Still (P : α → Prop) : Prog S L ε α → Prop
  | .ret a => P a
  | .fail _ => True
  | .stmt st k => (∀ s r s', st.exec s = .ok (r, s') → R.contents s' = R.contents s) ∧
      ∀ r, Still P (k r)

variable {P : α → Prop}

omit [DecidableEq L]

theorem still_pure {a : α} (result : P a) : Still R P (pure a : Prog S L ε α) := result

theorem still_throw (e : ε) : Still R P (throw e : Prog S L ε α) := trivial

theorem still_perform {st : Stmt S L ε α}
    (same : ∀ s r s', st.exec s = .ok (r, s') → R.contents s' = R.contents s) :
    Still R (fun _ => True) (Prog.perform st) := ⟨same, fun _ => trivial⟩

theorem still_query (query : S → α) :
    Still R (fun _ => True) (Prog.perform (Stmt.query query : Stmt S L ε α)) := by
  refine still_perform fun s r s' done => ?_
  obtain ⟨-, rfl⟩ := Prod.mk.inj (Except.ok.inj done)
  rfl

theorem still_bind {P' : β → Prop} {k : α → Prog S L ε β} (first : Still R P p)
    (rest : ∀ a, P a → Still R P' (k a)) : Still R P' (p >>= k) := by
  induction p with
  | ret a => exact rest a first
  | fail e => trivial
  | stmt st k' ih => exact ⟨first.1, fun r => ih r (first.2 r)⟩

theorem Still.mono {P' : α → Prop} (still : Still R P p) (weaker : ∀ a, P a → P' a) :
    Still R P' p := by
  rw [← bind_pure p]
  exact still_bind still fun a result => still_pure (weaker a result)

theorem still_of_readOnly (reads : p.ReadOnly P) : Still R P p := by
  induction p with
  | ret a => exact reads
  | fail e => trivial
  | stmt st k ih =>
      refine ⟨fun s r s' done => ?_, fun r => ih r (reads.2 r)⟩
      rw [reads.1 s r s' done]

variable [DecidableEq L]

theorem Still.safe (still : Still R P p)
    (next : ∀ a more, P a → Q a (locks ++ more) σ) : Safe R Q p locks σ := by
  induction p generalizing locks with
  | ret a =>
      have done := next a [] still
      rw [List.append_nil] at done
      exact safe_pure done
  | fail e => trivial
  | stmt st k ih =>
      intro s r s' knows done
      have same : R.taken (locks ++ st.locks s) s' σ = σ := by
        refine Records.Knows.taken_eq fun x held => ?_
        rw [← knows x held]
        exact congrFun (still.1 s r s' done) x
      rw [same]
      refine ih r (still.2 r) fun a more result => ?_
      rw [List.append_assoc]
      exact next a _ result

theorem Still.safe_bind {Q : β → List (L × LockMode) → R.Contents → Prop} {k : α → Prog S L ε β}
    (still : Still R P p) (rest : ∀ a more, P a → Safe R Q (k a) (locks ++ more) σ) :
    Safe R Q (p >>= k) locks σ := by
  refine OwnedRecords.safe_bind (Q := fun a locks' σ' => P a ∧ σ' = σ ∧ ∃ more, locks' = locks ++ more)
    (still.safe fun a more result => ⟨result, rfl, more, rfl⟩) ?_
  rintro a _ _ ⟨result, rfl, more, rfl⟩
  exact rest a more result

end Still

end Programs

section Worlds

variable [DecidableEq L] {I ε α : Type} [DecidableEq I] {R : Records S L} {V : Views S L}
  {programs : I → Prog S L ε α}

theorem contents_view (respects : R.Respects V) (t : Txn S L ε α) (base : S) :
    R.contents (t.view V base) = R.taken t.locks t.mine (R.contents base) := by
  funext x
  refine (respects.overlay t.owns t.mine base x).trans ?_
  by_cases held : Held t.locks x
  · rw [show t.owns x = true from decide_eq_true held, if_pos rfl, Records.taken_held held]
  · rw [show t.owns x = false from decide_eq_false held, if_neg Bool.false_ne_true,
      Records.taken_free held]
    rfl

/-- The invariant of a running transaction: what it will commit is related to whatever the
other records are by then. -/
def Guarded (Q : R.Contents → α → R.Contents → Prop) (base : S) (t : Txn S L ε α) : Prop :=
  ∀ σ, R.Knows t.locks base σ →
    Safe R (fun a _ => Q σ a) t.prog t.locks (R.taken t.locks t.mine σ)

variable {Q : R.Contents → α → R.Contents → Prop}

private theorem guarded_start {p : Prog S L ε α} (base : S)
    (safe : ∀ σ, Safe R (fun a _ => Q σ a) p [] σ) : Guarded Q base ⟨p, base, []⟩ := by
  intro σ _
  change Safe R (fun a _ => Q σ a) p [] (R.taken [] base σ)
  rw [Records.taken_nil]
  exact safe σ

private theorem guarded_congr {base base' : S} {t : Txn S L ε α} (guarded : Guarded Q base t)
    (same : ∀ x, Held t.locks x → R.read x base' = R.read x base) : Guarded Q base' t :=
  fun σ knows => guarded σ fun x held => (same x held).symm.trans (knows x held)

private theorem guarded_next (respects : R.Respects V) {base s' : S} {t : Txn S L ε α} {ρ : Type}
    {st : Stmt S L ε ρ} {k : ρ → Prog S L ε α} {r : ρ} (guarded : Guarded Q base t)
    (next : t.prog = .stmt st k) (done : st.exec (t.view V base) = .ok (r, s')) :
    Guarded Q base (t.next V base st (k r) s') := by
  intro σ knows
  have knows : R.Knows (t.locks ++ st.locks (t.view V base)) base σ := knows
  have safe := guarded σ knows.of_append
  rw [next] at safe
  have rest := safe (t.view V base) r s' (fun x held => ?_) done
  · rw [Records.taken_taken] at rest
    exact rest
  · rw [show R.read x (t.view V base) = _ from congrFun (contents_view respects t base) x]
    by_cases before : Held t.locks x
    · rw [Records.taken_held before, Records.taken_held before]
    · rw [Records.taken_free before, Records.taken_free before]
      exact knows x held

/-- A party commits: it changes records that it has locked, as its specification says. -/
structure Commits (R : Records S L) (Q : I → R.Contents → α → R.Contents → Prop)
    (w w' : World I S L ε α) (i : I) (t : Txn S L ε α) (a : α) : Prop where
  running : w.status i = .running t
  committed : w'.status i = .committed a
  others : ∀ j, j ≠ i → w'.status j = w.status j
  foreign : ∀ x, ¬ Held t.locks x → R.read x w'.base = R.read x w.base
  effect : Q i (R.contents w.base) a (R.contents w'.base)

/-- Nobody commits, and no committed record changes. -/
structure Silent (R : Records S L) (w w' : World I S L ε α) : Prop where
  contents : R.contents w'.base = R.contents w.base
  committed : ∀ i a, w'.status i = .committed a ↔ w.status i = .committed a

section Steps

variable {Q : I → R.Contents → α → R.Contents → Prop} {w w' : World I S L ε α}

/-- Every running transaction keeps its invariant. -/
def AllGuarded (Q : I → R.Contents → α → R.Contents → Prop) (w : World I S L ε α) : Prop :=
  ∀ i t, w.status i = .running t → Guarded (Q i) w.base t

private theorem allGuarded_set {base : S} {j : I} {status : Status S L ε α}
    (new : ∀ t, status = .running t → Guarded (Q j) base t)
    (old : ∀ i t, i ≠ j → w.status i = .running t → Guarded (Q i) base t) :
    AllGuarded Q (World.set { w with base := base } j status) := by
  intro i t running
  by_cases here : i = j
  · subst here
    rw [set_self] at running
    exact new t running
  · rw [set_other _ _ here] at running
    exact old i t here running

omit [DecidableEq L] in
private theorem not_held_of_apart {t t' : Txn S L ε α}
    (apart : ∀ x ∈ t.locks, ∀ y ∈ t'.locks, Compatible x y) {x : L} (held : Held t.locks x) :
    ¬ Held t'.locks x := by
  intro other
  have modes := (apart _ held _ other rfl).1
  cases modes

omit [DecidableEq L] in
private theorem silent_set {base : S} {j : I} {status : Status S L ε α}
    (same : R.contents base = R.contents w.base) (before : ∀ a, w.status j ≠ .committed a)
    (after : ∀ a, status ≠ .committed a) :
    Silent R w (World.set { w with base := base } j status) := by
  refine ⟨same, fun i a => ?_⟩
  by_cases here : i = j
  · subst here
    rw [set_self]
    exact iff_of_false (after a) (before a)
  · rw [set_other _ _ here]

private theorem guarded_step (respects : R.Respects V)
    (safe : ∀ i σ, Safe R (fun a _ => Q i σ a) (programs i) [] σ) (exclusion : Exclusion w)
    (guarded : AllGuarded Q w) (step : Step V programs w w') :
    AllGuarded Q w' ∧ (Silent R w w' ∨ ∃ i t a, Commits R Q w w' i t a) := by
  cases step with
  | start j idle =>
      refine ⟨allGuarded_set (fun t same => ?_) fun i t _ => guarded i t,
        .inl (silent_set rfl (fun a => by rw [idle]; exact nofun) nofun)⟩
      cases same
      exact guarded_start w.base (safe j)
  | exec j running next free done =>
      rename_i ρ t st k r s'
      have sync : R.contents (V.sync w.base s') = R.contents w.base := respects.sync w.base s'
      refine ⟨allGuarded_set (fun t' same => ?_) fun i t' _ other => ?_,
        .inl (silent_set sync (fun a => by rw [running]; exact nofun) nofun)⟩
      · cases same
        exact guarded_congr (guarded_next respects (guarded j t running) next done)
          fun x _ => congrFun sync x
      · exact guarded_congr (guarded i t' other) fun x _ => congrFun sync x
  | commit j running next =>
      rename_i t a
      have view := contents_view respects t w.base
      have foreign : ∀ x, ¬ Held t.locks x → R.read x (t.view V w.base) = R.read x w.base := by
        intro x free
        rw [show R.read x (t.view V w.base) = _ from congrFun view x, Records.taken_free free]
        rfl
      refine ⟨allGuarded_set (fun t' same => nomatch same) fun i t' away other => ?_,
        .inr ⟨j, t, a, running, set_self _ _ _, fun i away => set_other _ _ away, foreign, ?_⟩⟩
      · refine guarded_congr (guarded i t' other) fun x held => foreign x ?_
        exact not_held_of_apart (exclusion i j t' t away other running) held
      · have returns := guarded j t running (R.contents w.base) fun _ _ => rfl
        rw [next] at returns
        change Q j (R.contents w.base) a (R.contents (t.view V w.base))
        rw [view]
        exact returns t.mine fun x held => (Records.taken_held held).symm
  | abort j running =>
      exact ⟨allGuarded_set (fun t same => nomatch same) fun i t _ => guarded i t,
        .inl (silent_set rfl (fun a => by rw [running]; exact nofun) nofun)⟩

end Steps

section Runs

variable {Q : I → R.Contents → α → R.Contents → Prop}

private theorem allGuarded (respects : R.Respects V)
    (safe : ∀ i σ, Safe R (fun a _ => Q i σ a) (programs i) [] σ) (run : Run V programs) :
    ∀ n, AllGuarded Q (run.state n) := by
  have start : AllGuarded Q (run.state 0) := by
    intro i t running
    rw [run.start] at running
    cases running
  exact fun n => run.invariant start (fun n _ before step =>
    (guarded_step respects safe (run.exclusion n) before step).1) n (Nat.zero_le n)

/-- In every interleaving each step leaves the committed records as they are, or commits
one transaction as a whole. -/
theorem commits_of_safe (respects : R.Respects V)
    (safe : ∀ i σ, Safe R (fun a _ => Q i σ a) (programs i) [] σ) (run : Run V programs) (n : Nat) :
    Silent R (run.state n) (run.state (n + 1)) ∨
      ∃ i t a, Commits R Q (run.state n) (run.state (n + 1)) i t a := by
  rcases run.step n with step | same
  · exact (guarded_step respects safe (run.exclusion n) (allGuarded respects safe run n) step).2
  · refine .inl ⟨?_, fun i a => ?_⟩
    · rw [same]
    · rw [same]

section Order

/-- Transactions one after the other, each as its specification says. -/
inductive InOrder (Q : I → R.Contents → α → R.Contents → Prop) (σ : R.Contents) :
    List (I × α) → R.Contents → Prop where
  | start : InOrder Q σ [] σ
  | next {order : List (I × α)} {σ' σ'' : R.Contents} {i : I} {a : α}
      (sofar : InOrder Q σ order σ') (effect : Q i σ' a σ'') : InOrder Q σ (order ++ [(i, a)]) σ''

omit [DecidableEq L] [DecidableEq I] in
theorem InOrder.invariant {σ σ' : R.Contents} {order : List (I × α)} (all : InOrder Q σ order σ')
    {J : R.Contents → Prop} (start : J σ)
    (step : ∀ i a σ σ', (i, a) ∈ order → Q i σ a σ' → J σ → J σ') : J σ' := by
  induction all with
  | start => exact start
  | next sofar effect ih =>
      have before := ih fun i a σ σ' member => step i a σ σ' (List.mem_append_left _ member)
      exact step _ _ _ _ (List.mem_append_right _ List.mem_cons_self) effect before

/-- The committed records are what the committed transactions make of the first ones, in
this order. -/
structure SerialAt (Q : I → R.Contents → α → R.Contents → Prop) (run : Run V programs) (n : Nat)
    (order : List (I × α)) : Prop where
  inOrder : InOrder Q (R.contents (run.state 0).base) order (R.contents (run.state n).base)
  distinct : (order.map Prod.fst).Nodup
  committed : ∀ i a, (i, a) ∈ order ↔ (run.state n).status i = .committed a

private theorem serialAt_start (Q : I → R.Contents → α → R.Contents → Prop)
    (run : Run V programs) : SerialAt Q run 0 [] := by
  refine ⟨.start, List.nodup_nil, fun i a => iff_of_false List.not_mem_nil ?_⟩
  rw [run.start]
  exact nofun

private theorem serialAt_next (respects : R.Respects V)
    (safe : ∀ i σ, Safe R (fun a _ => Q i σ a) (programs i) [] σ) {run : Run V programs} {n : Nat}
    {order : List (I × α)} (before : SerialAt Q run n order) :
    ∃ more, SerialAt Q run (n + 1) (order ++ more) := by
  rcases commits_of_safe respects safe run n with silent | ⟨i, t, a, commits⟩
  · refine ⟨[], ?_⟩
    rw [List.append_nil]
    refine ⟨?_, before.distinct, fun i a => (before.committed i a).trans (silent.committed i a).symm⟩
    rw [silent.contents]
    exact before.inOrder
  · have fresh : ∀ b, (i, b) ∉ order := by
      intro b member
      have done := (before.committed i b).mp member
      rw [commits.running] at done
      cases done
    refine ⟨[(i, a)], .next before.inOrder commits.effect, ?_, fun j b => ?_⟩
    · rw [List.map_append, List.map_singleton]
      refine before.distinct.append (List.nodup_singleton i) fun j old new => ?_
      obtain ⟨⟨j, b⟩, inside, rfl⟩ := List.mem_map.mp old
      obtain rfl := List.mem_singleton.mp new
      exact fresh b inside
    · rw [List.mem_append, List.mem_singleton, Prod.mk.injEq]
      by_cases here : j = i
      · subst here
        rw [commits.committed]
        refine ⟨fun member => ?_, fun same => .inr ⟨rfl, (Status.committed.inj same).symm⟩⟩
        rcases member with old | ⟨-, rfl⟩
        · exact absurd old (fresh b)
        · rfl
      · rw [commits.others j here, ← before.committed j b]
        simp only [here, false_and, or_false]

/-- Every interleaving does what its committed transactions do one after the other, in the
order in which they commit. -/
theorem serializable (respects : R.Respects V)
    (safe : ∀ i σ, Safe R (fun a _ => Q i σ a) (programs i) [] σ) (run : Run V programs) :
    (∀ n, ∃ order, SerialAt Q run n order) ∧ ∀ m n order, m ≤ n → SerialAt Q run m order →
      ∃ more, SerialAt Q run n (order ++ more) := by
  have extend : ∀ m d order, SerialAt Q run m order →
      ∃ more, SerialAt Q run (m + d) (order ++ more) := by
    intro m d order before
    induction d with
    | zero =>
        refine ⟨[], ?_⟩
        rw [List.append_nil]
        exact before
    | succ d ih =>
        obtain ⟨more, sofar⟩ := ih
        obtain ⟨last, next⟩ := serialAt_next respects safe sofar
        refine ⟨more ++ last, ?_⟩
        rw [← List.append_assoc]
        exact next
  refine ⟨fun n => ?_, fun m n order later before => ?_⟩
  · obtain ⟨order, all⟩ := extend 0 n [] (serialAt_start Q run)
    rw [Nat.zero_add, List.nil_append] at all
    exact ⟨order, all⟩
  · obtain ⟨d, rfl⟩ := Nat.exists_eq_add_of_le later
    exact extend m d order before

end Order

/-- What every transaction makes of the records relates the records of any two states. -/
theorem contents_related {P : R.Contents → R.Contents → Prop} (refl : ∀ σ, P σ σ)
    (trans : ∀ σ σ' σ'', P σ σ' → P σ' σ'' → P σ σ'') (respects : R.Respects V)
    (safe : ∀ i σ, Safe R (fun _ _ => P σ) (programs i) [] σ) (run : Run V programs) {m n : Nat}
    (later : m ≤ n) : P (R.contents (run.state m).base) (R.contents (run.state n).base) := by
  obtain ⟨d, rfl⟩ := Nat.exists_eq_add_of_le later
  clear later
  induction d with
  | zero => exact refl _
  | succ d ih =>
      rcases commits_of_safe (Q := fun _ σ _ => P σ) respects safe run (m + d) with
        silent | ⟨i, t, a, commits⟩
      · rw [← Nat.add_assoc, silent.contents]
        exact ih
      · exact trans _ _ _ ih commits.effect

end Runs

end Worlds

end Cgimap.Library.OwnedRecords
