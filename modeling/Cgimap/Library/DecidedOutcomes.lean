/- path: Cgimap/Library/DecidedOutcomes
   generality: G
   source: none
   digest: Computations that succeed, with a known value, under exactly one condition. -/

import Mathlib.Data.List.Basic
import Mathlib.Tactic.Common

set_option autoImplicit false
set_option relaxedAutoImplicit false

namespace Cgimap.Library.DecidedOutcomes

variable {ε α β γ : Type} {E : ε → Prop} {P Q : Prop}

/-- `x` gives `a` if `P` holds and otherwise fails, with an error of the kind `E`. -/
structure Decides (E : ε → Prop) (P : Prop) (x : Except ε α) (a : α) : Prop where
  ok : P → x = .ok a
  error : ¬P → ∃ e, E e ∧ x = .error e

namespace Decides

theorem pure {a : α} : Decides E True (.ok a) a :=
  ⟨fun _ => rfl, fun never => absurd trivial never⟩

theorem fail {e : ε} {a : α} (kind : E e) : Decides E False (.error e) a :=
  ⟨False.elim, fun _ => ⟨e, kind, rfl⟩⟩

theorem congr {x : Except ε α} {a : α} (h : Decides E P x a) (same : P ↔ Q) : Decides E Q x a :=
  ⟨fun q => h.ok (same.mpr q), fun failed => h.error (failed ∘ same.mp)⟩

theorem of_error {x : Except ε α} {e : ε} {a : α} (kind : E e) (failed : x = .error e)
    (never : ¬P) : Decides E P x a :=
  ⟨fun p => absurd p never, fun _ => ⟨e, kind, failed⟩⟩

theorem of_ok {x : Except ε α} {a : α} (done : x = .ok a) (always : P) : Decides E P x a :=
  ⟨fun _ => done, fun failed => absurd always failed⟩

/-- The second step only matters where the first one has succeeded. -/
theorem bind {x : Except ε α} {a : α} {f : α → Except ε β} {b : β} (first : Decides E P x a)
    (rest : P → Decides E Q (f a) b) : Decides E (P ∧ Q) (x >>= f) b := by
  constructor
  · rintro ⟨p, q⟩
    rw [first.ok p]
    exact (rest p).ok q
  · intro failed
    by_cases p : P
    · rw [first.ok p]
      exact (rest p).error (fun q => failed ⟨p, q⟩)
    · obtain ⟨e, kind, same⟩ := first.error p
      rw [same]
      exact ⟨e, kind, rfl⟩

theorem map {x : Except ε α} {a : α} (h : Decides E P x a) (f : α → β) :
    Decides E P (x >>= fun a => .ok (f a)) (f a) := by
  have mapped : Decides E (P ∧ True) (x >>= fun a => .ok (f a)) (f a) := h.bind fun _ => .pure
  exact mapped.congr ⟨And.left, fun p => ⟨p, trivial⟩⟩

theorem mapError {E' : γ → Prop} {g : ε → γ} {x : Except ε α} {a : α} (h : Decides E P x a)
    (kinds : ∀ e, E e → E' (g e)) : Decides E' P (x.mapError g) a := by
  constructor
  · intro p
    rw [h.ok p]
    rfl
  · intro failed
    obtain ⟨e, kind, same⟩ := h.error failed
    rw [same]
    exact ⟨g e, kinds e kind, rfl⟩

theorem guard [Decidable Q] {e : ε} {x : Except ε α} {a : α} (kind : E e)
    (rest : ¬Q → Decides E P x a) : Decides E (¬Q ∧ P) (if Q then .error e else x) a := by
  by_cases q : Q
  · rw [if_pos q]
    exact of_error kind rfl (fun both => both.1 q)
  · rw [if_neg q]
    exact (rest q).congr ⟨fun p => ⟨q, p⟩, And.right⟩

theorem ite {c : Prop} [Decidable c] {x y : Except ε α} {a b : α} (yes : c → Decides E P x a)
    (no : ¬c → Decides E Q y b) :
    Decides E (if c then P else Q) (if c then x else y) (if c then a else b) := by
  by_cases holds : c
  · simpa only [if_pos holds] using yes holds
  · simpa only [if_neg holds] using no holds

theorem eq_ok_iff {x : Except ε α} {a : α} (h : Decides E P x a) : (∃ b, x = .ok b) ↔ P := by
  constructor
  · rintro ⟨b, done⟩
    by_contra failed
    obtain ⟨e, -, same⟩ := h.error failed
    rw [same] at done
    cases done
  · exact fun p => ⟨a, h.ok p⟩

theorem eq_of_ok {x : Except ε α} {a b : α} (h : Decides E P x a) (done : x = .ok b) : b = a := by
  have holds : P := h.eq_ok_iff.mp ⟨b, done⟩
  rw [h.ok holds, Except.ok.injEq] at done
  exact done.symm

theorem kind_of_error {x : Except ε α} {a : α} {e : ε} (h : Decides E P x a)
    (failed : x = .error e) : E e := by
  have not : ¬P := fun p => by
    rw [h.ok p] at failed
    cases failed
  obtain ⟨e', kind, same⟩ := h.error not
  rw [same, Except.error.injEq] at failed
  exact failed ▸ kind

/-- A loop over a list, where each round knows what has been read before it. -/
theorem foldlM_history {f : β → α → Except ε β} (S : List α → β) {V : List α → α → Prop}
    (step : ∀ read a, Decides E (V read a) (f (S read) a) (S (read ++ [a]))) (l read : List α) :
    Decides E (∀ before a after, l = before ++ a :: after → V (read ++ before) a)
      (l.foldlM f (S read)) (S (read ++ l)) := by
  induction l generalizing read with
  | nil =>
      rw [List.append_nil]
      refine of_ok rfl ?_
      intro before a after split
      cases before <;> cases split
  | cons a l ih =>
      rw [List.foldlM_cons, List.append_cons]
      refine ((step read a).bind fun _ => ih (read ++ [a])).congr ?_
      constructor
      · rintro ⟨first, rest⟩ before b after split
        cases before with
        | nil =>
            cases split
            rwa [List.append_nil]
        | cons c before =>
            cases split
            have found := rest before b after rfl
            rwa [List.append_assoc] at found
      · intro all
        refine ⟨?_, ?_⟩
        · have found := all [] a l rfl
          rwa [List.append_nil] at found
        · rintro before b after rfl
          have found := all (a :: before) b after rfl
          rwa [List.append_assoc]

/-- A loop that leads through known states, whatever each round is checked for. -/
theorem foldlM_states {f : β → α → Except ε β} (S : List α → β) {V : α → Prop}
    (step : ∀ read a, Decides E (V a) (f (S read) a) (S (read ++ [a]))) (l read : List α) :
    Decides E (∀ a ∈ l, V a) (l.foldlM f (S read)) (S (read ++ l)) := by
  refine (foldlM_history S step l read).congr ?_
  constructor
  · intro all a member
    obtain ⟨before, after, split⟩ := List.append_of_mem member
    exact all before a after split
  · rintro all before a after rfl
    exact all a (List.mem_append_right _ List.mem_cons_self)

theorem foldlM {f : β → α → Except ε β} {g : β → α → β} {V : α → Prop}
    (step : ∀ b a, Decides E (V a) (f b a) (g b a)) (l : List α) (b : β) :
    Decides E (∀ a ∈ l, V a) (l.foldlM f b) (l.foldl g b) := by
  induction l generalizing b with
  | nil => exact of_ok rfl (fun a member => (List.not_mem_nil member).elim)
  | cons a l ih =>
      rw [List.foldlM_cons]
      exact ((step b a).bind fun _ => ih (g b a)).congr List.forall_mem_cons.symm

end Decides

/-- `x` gives the value that is in `o`, and fails if there is none. -/
structure Reads (E : ε → Prop) (x : Except ε α) (o : Option α) : Prop where
  found : ∀ a, o = some a → x = .ok a
  missing : o = none → ∃ e, E e ∧ x = .error e

theorem Reads.store {x : Except ε α} {o : Option α} (h : Reads E x o) (f : Option α → β) :
    Decides E (o.isSome) (x >>= fun a => .ok (f (some a))) (f o) := by
  cases o with
  | some a =>
      rw [h.found a rfl]
      exact .of_ok rfl rfl
  | none =>
      obtain ⟨e, kind, same⟩ := h.missing rfl
      rw [same]
      exact .of_error kind rfl (by simp)

/-- A loop over the concatenation of the parts, seen as a loop over the parts. -/
theorem foldlM_flatMap (f : β → α → Except ε β) (parts : γ → List α) (l : List γ) (b : β) :
    (l.flatMap parts).foldlM f b = l.foldlM (fun b c => (parts c).foldlM f b) b := by
  induction l generalizing b with
  | nil => rfl
  | cons c l ih =>
      rw [List.flatMap_cons, List.foldlM_append, List.foldlM_cons]
      exact bind_congr ih

end Cgimap.Library.DecidedOutcomes
