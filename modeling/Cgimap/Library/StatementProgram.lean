/- path: Cgimap/Library/StatementProgram
   generality: G
   source: none
   digest: Programs that issue atomic statements against a store, run alone. -/

import Mathlib.Control.Monad.Basic
import Mathlib.Data.List.Basic

set_option autoImplicit false
set_option relaxedAutoImplicit false

namespace Cgimap.Library.StatementProgram

inductive LockMode where
  | shared
  | exclusive
  deriving DecidableEq, Repr

/-- One atomic statement on a store `S` with lockable rows `L`. `locks` lists the
row locks the statement takes on the store it sees; `busy` is the error raised
when one of them is taken and the statement does not wait. -/
structure Stmt (S L ε ρ : Type) where
  exec : S → Except ε (ρ × S)
  locks : S → List (L × LockMode) := fun _ => []
  busy : Option ε := none

def Stmt.query {S L ε ρ : Type} (f : S → ρ) : Stmt S L ε ρ where
  exec s := .ok (f s, s)

/-- The control flow between statements stays a Lean function of their results. -/
inductive Prog (S L ε α : Type) : Type 1 where
  | ret (a : α) : Prog S L ε α
  | fail (e : ε) : Prog S L ε α
  | stmt {ρ : Type} (s : Stmt S L ε ρ) (k : ρ → Prog S L ε α) : Prog S L ε α

namespace Prog

variable {S L ε α β γ : Type}

def bind : Prog S L ε α → (α → Prog S L ε β) → Prog S L ε β
  | .ret a, f => f a
  | .fail e, _ => .fail e
  | .stmt s k, f => .stmt s (fun r => (k r).bind f)

instance : Monad (Prog S L ε) where
  pure := .ret
  bind := bind

instance : MonadExcept ε (Prog S L ε) where
  throw e := .fail e
  tryCatch p _ := p

def perform {ρ : Type} (s : Stmt S L ε ρ) : Prog S L ε ρ := .stmt s .ret

def liftExcept : Except ε α → Prog S L ε α
  | .ok a => .ret a
  | .error e => .fail e

/-- Execution without any other party. -/
def run : Prog S L ε α → S → Except ε (α × S)
  | .ret a, s => .ok (a, s)
  | .fail e, _ => .error e
  | .stmt st k, s =>
      match st.exec s with
      | .ok (r, s') => (k r).run s'
      | .error e => .error e

@[simp] theorem pure_bind (a : α) (f : α → Prog S L ε β) :
    (Pure.pure a : Prog S L ε α) >>= f = f a := rfl

@[simp] theorem throw_bind (e : ε) (f : α → Prog S L ε β) :
    (throw e : Prog S L ε α) >>= f = throw e := rfl

theorem stmt_bind {ρ : Type} (s : Stmt S L ε ρ) (k : ρ → Prog S L ε α) (f : α → Prog S L ε β) :
    Prog.stmt s k >>= f = Prog.stmt s (fun r => k r >>= f) := rfl

theorem perform_bind {ρ : Type} (s : Stmt S L ε ρ) (f : ρ → Prog S L ε β) :
    perform s >>= f = Prog.stmt s f := rfl

private theorem bind_pure_self (p : Prog S L ε α) : p.bind .ret = p := by
  induction p with
  | ret a => rfl
  | fail e => rfl
  | stmt s k ih => exact congrArg (Prog.stmt s) (funext ih)

private theorem bind_bind (p : Prog S L ε α) (f : α → Prog S L ε β) (g : β → Prog S L ε γ) :
    (p.bind f).bind g = p.bind (fun a => (f a).bind g) := by
  induction p with
  | ret a => rfl
  | fail e => rfl
  | stmt s k ih => exact congrArg (Prog.stmt s) (funext ih)

instance : LawfulMonad (Prog S L ε) :=
  LawfulMonad.mk' _ bind_pure_self (fun _ _ => rfl) bind_bind

@[simp] theorem run_pure (a : α) (s : S) :
    (Pure.pure a : Prog S L ε α).run s = .ok (a, s) := rfl

@[simp] theorem run_throw (e : ε) (s : S) :
    (throw e : Prog S L ε α).run s = .error e := rfl

theorem run_stmt {ρ : Type} (st : Stmt S L ε ρ) (k : ρ → Prog S L ε α) (s : S) :
    (Prog.stmt st k).run s =
      match st.exec s with
      | .ok (r, s') => (k r).run s'
      | .error e => .error e := by
  rw [run]

@[simp] theorem run_perform {ρ : Type} (st : Stmt S L ε ρ) (s : S) :
    (perform st).run s = st.exec s := by
  simp only [perform, run_stmt]
  cases st.exec s <;> rfl

@[simp] theorem run_query {ρ : Type} (f : S → ρ) (s : S) :
    (perform (Stmt.query f : Stmt S L ε ρ)).run s = .ok (f s, s) := run_perform _ _

@[simp] theorem run_liftExcept_ok (a : α) (s : S) :
    (liftExcept (.ok a) : Prog S L ε α).run s = .ok (a, s) := rfl

@[simp] theorem run_liftExcept_error (e : ε) (s : S) :
    (liftExcept (.error e) : Prog S L ε α).run s = .error e := rfl

theorem run_liftExcept_eq_ok {x : Except ε α} {s s' : S} {a : α} :
    (liftExcept x : Prog S L ε α).run s = .ok (a, s') ↔ x = .ok a ∧ s' = s := by
  cases x with
  | ok b =>
      simp only [run_liftExcept_ok, Except.ok.injEq, Prod.mk.injEq]
      exact and_congr_right fun _ => eq_comm
  | error e => simp

theorem run_bind (p : Prog S L ε α) (f : α → Prog S L ε β) (s : S) :
    (p >>= f).run s =
      match p.run s with
      | .ok (a, s') => (f a).run s'
      | .error e => .error e := by
  induction p generalizing s with
  | ret a => rfl
  | fail e => rfl
  | stmt st k ih =>
      rw [stmt_bind, run_stmt, run_stmt]
      cases st.exec s with
      | error e => rfl
      | ok r => exact ih r.1 r.2

theorem run_bind_eq_ok {p : Prog S L ε α} {f : α → Prog S L ε β} {s s'' : S} {b : β} :
    (p >>= f).run s = .ok (b, s'') ↔
      ∃ a s', p.run s = .ok (a, s') ∧ (f a).run s' = .ok (b, s'') := by
  rw [run_bind]
  cases first : p.run s with
  | error e => simp
  | ok r =>
      constructor
      · intro rest
        exact ⟨r.1, r.2, rfl, rest⟩
      · rintro ⟨a, s', same, rest⟩
        cases same
        exact rest

/-- Every outcome of a run alone: `Q` of a result, `E` of an error. -/
def Returns (p : Prog S L ε α) (s : S) (Q : α → S → Prop) (E : ε → Prop) : Prop :=
  match p.run s with
  | .ok (a, s') => Q a s'
  | .error e => E e

theorem returns_iff {p : Prog S L ε α} {s : S} {Q : α → S → Prop} {E : ε → Prop} :
    p.Returns s Q E ↔
      (∀ a s', p.run s = .ok (a, s') → Q a s') ∧ ∀ e, p.run s = .error e → E e := by
  unfold Returns
  rcases p.run s with e | ⟨a, s'⟩
  · simp
  · simp

theorem returns_pure {a : α} {s : S} {Q : α → S → Prop} {E : ε → Prop} (h : Q a s) :
    (Pure.pure a : Prog S L ε α).Returns s Q E := h

theorem returns_of_ok {p : Prog S L ε α} {s s' : S} {a : α} {Q : α → S → Prop} {E : ε → Prop}
    (run : p.run s = .ok (a, s')) (h : Q a s') : p.Returns s Q E := by
  unfold Returns
  rw [run]
  exact h

theorem returns_of_error {p : Prog S L ε α} {s : S} {e : ε} {Q : α → S → Prop} {E : ε → Prop}
    (run : p.run s = .error e) (h : E e) : p.Returns s Q E := by
  unfold Returns
  rw [run]
  exact h

theorem returns_mono {p : Prog S L ε α} {s : S} {Q Q' : α → S → Prop} {E E' : ε → Prop}
    (h : p.Returns s Q E) (hQ : ∀ a s', Q a s' → Q' a s') (hE : ∀ e, E e → E' e) :
    p.Returns s Q' E' := by
  rw [returns_iff] at h ⊢
  exact ⟨fun a s' done => hQ a s' (h.1 a s' done), fun e failed => hE e (h.2 e failed)⟩

theorem returns_bind {p : Prog S L ε α} {f : α → Prog S L ε β} {s : S}
    {Q : β → S → Prop} {E : ε → Prop}
    (h : p.Returns s (fun a s' => (f a).Returns s' Q E) E) : (p >>= f).Returns s Q E := by
  unfold Returns at h ⊢
  rw [run_bind]
  cases first : p.run s with
  | ok r =>
      rw [first] at h
      exact h
  | error e =>
      rw [first] at h
      exact h

theorem returns_liftExcept {x : Except ε α} {s : S} {Q : α → S → Prop} {E : ε → Prop}
    (ok : ∀ a, x = .ok a → Q a s) (error : ∀ e, x = .error e → E e) :
    (liftExcept x : Prog S L ε α).Returns s Q E := by
  cases x with
  | ok a => exact ok a rfl
  | error e => exact error e rfl

/-- A loop whose steps keep an invariant, or stop with an error in `E`. -/
theorem returns_foldlM {ι : Type} {f : β → ι → Prog S L ε β} {E : ε → Prop}
    (I : List ι → β → S → Prop) (all : List ι)
    (step : ∀ done i rest b s, done ++ i :: rest = all → I done b s →
      (f b i).Returns s (fun b' s' => I (done ++ [i]) b' s') E) :
    ∀ (rest done : List ι) (b : β) (s : S), done ++ rest = all → I done b s →
      (rest.foldlM f b).Returns s (fun b' s' => I all b' s') E := by
  intro rest
  induction rest with
  | nil =>
      intro done b s same start
      rw [List.append_nil] at same
      subst same
      exact start
  | cons i rest ih =>
      intro done b s same start
      rw [List.foldlM_cons]
      apply returns_bind
      apply returns_mono (step done i rest b s same start)
      · intro b' s' next
        apply ih (done ++ [i]) b' s' _ next
        rw [List.append_assoc]
        exact same
      · intro e failed
        exact failed

/-- Whether a run returns, with a result and a store that pass a test. -/
def check (p : Prog S L ε α) (s : S) (test : α → S → Bool) : Bool :=
  match p.run s with
  | .ok (a, s') => test a s'
  | .error _ => false

theorem of_check (p : Prog S L ε α) (s : S) (test : α → S → Bool) (passes : p.check s test = true) :
    ∃ a s', p.run s = .ok (a, s') ∧ test a s' = true := by
  unfold check at passes
  split at passes
  · rename_i a s' run
    exact ⟨a, s', run, passes⟩
  · cases passes

def failsWith [DecidableEq ε] (p : Prog S L ε α) (s : S) (e : ε) : Bool :=
  match p.run s with
  | .ok _ => false
  | .error e' => decide (e' = e)

theorem of_failsWith [DecidableEq ε] {p : Prog S L ε α} {s : S} {e : ε}
    (fails : p.failsWith s e = true) : p.run s = .error e := by
  unfold failsWith at fails
  split at fails
  · cases fails
  · rename_i e' run
    rw [run, of_decide_eq_true fails]

/-- A program that always returns and leaves the store as it is. -/
def Reads (p : Prog S L ε α) : Prop := ∀ s, ∃ a, p.run s = .ok (a, s)

theorem reads_pure (a : α) : (Pure.pure a : Prog S L ε α).Reads := fun _ => ⟨a, rfl⟩

theorem reads_query {ρ : Type} (f : S → ρ) : (perform (Stmt.query f : Stmt S L ε ρ)).Reads :=
  fun s => ⟨f s, run_query f s⟩

theorem reads_bind {p : Prog S L ε α} {f : α → Prog S L ε β} (first : p.Reads)
    (rest : ∀ a, (f a).Reads) : (p >>= f).Reads := by
  intro s
  obtain ⟨a, run⟩ := first s
  obtain ⟨b, run'⟩ := rest a s
  exact ⟨b, run_bind_eq_ok.mpr ⟨a, s, run, run'⟩⟩

theorem Reads.run_eq_ok {p : Prog S L ε α} (reads : p.Reads) {s s' : S} {a : α}
    (done : p.run s = .ok (a, s')) : s' = s := by
  obtain ⟨b, run⟩ := reads s
  rw [run] at done
  cases done
  rfl

section ReadOnly

/-- Every statement leaves the store as it is, also when others run in between. The result
satisfies `P` whatever is read. -/
def ReadOnly (P : α → Prop) : Prog S L ε α → Prop
  | .ret a => P a
  | .fail _ => True
  | .stmt st k => (∀ s r s', st.exec s = .ok (r, s') → s' = s) ∧ ∀ r, (k r).ReadOnly P

variable {P : α → Prop} {p : Prog S L ε α}

theorem readOnly_pure {a : α} (result : P a) : (Pure.pure a : Prog S L ε α).ReadOnly P := result

theorem readOnly_throw (e : ε) : (throw e : Prog S L ε α).ReadOnly P := trivial

theorem readOnly_perform {st : Stmt S L ε α} (same : ∀ s r s', st.exec s = .ok (r, s') → s' = s) :
    (perform st).ReadOnly fun _ => True := ⟨same, fun _ => trivial⟩

theorem readOnly_query (f : S → α) :
    (perform (Stmt.query f : Stmt S L ε α)).ReadOnly fun _ => True :=
  readOnly_perform fun _ _ _ done => (Prod.mk.inj (Except.ok.inj done)).2.symm

theorem readOnly_liftExcept {x : Except ε α} (result : ∀ a, x = .ok a → P a) :
    (liftExcept x : Prog S L ε α).ReadOnly P := by
  cases x with
  | ok a => exact result a rfl
  | error e => trivial

theorem readOnly_bind {P' : β → Prop} {f : α → Prog S L ε β} (first : p.ReadOnly P)
    (rest : ∀ a, P a → (f a).ReadOnly P') : (p >>= f).ReadOnly P' := by
  induction p with
  | ret a => exact rest a first
  | fail e => trivial
  | stmt st k ih => exact ⟨first.1, fun r => ih r (first.2 r)⟩

end ReadOnly

theorem run_foldlM_invariant {ι : Type} {f : β → ι → Prog S L ε β} (I : List ι → β → S → Prop)
    (l : List ι)
    (step : ∀ done, ∀ i ∈ l, ∀ b s b' s', I done b s → (f b i).run s = .ok (b', s') →
      I (done ++ [i]) b' s')
    {done : List ι} {b b' : β} {s s' : S} (start : I done b s)
    (ends : (l.foldlM f b).run s = .ok (b', s')) : I (done ++ l) b' s' := by
  induction l generalizing done b s with
  | nil =>
      simp only [List.foldlM_nil, run_pure, Except.ok.injEq, Prod.mk.injEq] at ends
      obtain ⟨rfl, rfl⟩ := ends
      simpa using start
  | cons i l ih =>
      rw [List.foldlM_cons, run_bind_eq_ok] at ends
      obtain ⟨b₁, s₁, first, rest⟩ := ends
      have next := step done i List.mem_cons_self b s b₁ s₁ start first
      have all := ih (fun done j member => step done j (List.mem_cons_of_mem i member)) next rest
      simpa using all

end Prog

end Cgimap.Library.StatementProgram
