/- path: Cgimap/Library/SortedUnique
   generality: G
   source: none
   digest: Sorting by a strict total order and dropping equal neighbours. -/

import Mathlib.Data.List.Destutter
import Mathlib.Data.List.Sort

set_option autoImplicit false
set_option relaxedAutoImplicit false

namespace Cgimap.Library.SortedUnique

variable {α : Type}

/-- A comparison that is a strict total order and agrees with equality. -/
structure StrictTotal (before : α → α → Bool) : Prop where
  irrefl : ∀ a, before a a = false
  trans : ∀ {a b c}, before a b = true → before b c = true → before a c = true
  trichotomy : ∀ a b, before a b = true ∨ a = b ∨ before b a = true

def sortUnique [DecidableEq α] (before : α → α → Bool) (l : List α) : List α :=
  (l.insertionSort (fun a b => before b a = false)).destutter (· ≠ ·)

section Members

variable [DecidableEq α]

private theorem mem_destutter'_ne (x a : α) (l : List α) :
    x ∈ l.destutter' (· ≠ ·) a ↔ x ∈ a :: l := by
  induction l generalizing a with
  | nil => rw [List.destutter'_nil]
  | cons b l ih =>
      by_cases same : a = b
      · subst same
        rw [List.destutter'_cons_neg l (not_not_intro rfl), ih]
        simp
      · rw [List.destutter'_cons_pos l same, List.mem_cons, ih, ← List.mem_cons]

theorem mem_sortUnique (before : α → α → Bool) (l : List α) (x : α) :
    x ∈ sortUnique before l ↔ x ∈ l := by
  rw [sortUnique, ← List.mem_insertionSort (fun a b => before b a = false) (l := l)]
  cases l.insertionSort (fun a b => before b a = false) with
  | nil => rw [List.destutter_nil]
  | cons a l => rw [List.destutter_cons', mem_destutter'_ne]

end Members

section Order

variable {before : α → α → Bool} (order : StrictTotal before)

include order

private theorem total_notAfter : Std.Total (fun a b => before b a = false) := ⟨fun a b => by
  rcases order.trichotomy a b with less | rfl | more
  · left
    rw [← Bool.not_eq_true]
    exact fun other => absurd (order.trans less other) (by rw [order.irrefl]; decide)
  · exact Or.inl (order.irrefl a)
  · right
    rw [← Bool.not_eq_true]
    exact fun other => absurd (order.trans more other) (by rw [order.irrefl]; decide)⟩

private theorem trans_notAfter : IsTrans α (fun a b => before b a = false) := ⟨by
  intro a b c first second
  rw [← Bool.not_eq_true] at first second ⊢
  intro above
  rcases order.trichotomy a b with less | rfl | more
  · exact second (order.trans above less)
  · exact second above
  · exact first more⟩

variable [DecidableEq α]

theorem pairwise_sortUnique (l : List α) :
    (sortUnique before l).Pairwise (fun a b => before a b = true) := by
  have total := total_notAfter order
  have transitive := trans_notAfter order
  have sorted := List.pairwise_insertionSort (fun a b => before b a = false) l
  have kept := sorted.sublist (List.destutter_sublist (· ≠ ·) _)
  have chain := List.isChain_destutter (· ≠ ·) (l.insertionSort (fun a b => before b a = false))
  have strict : List.IsChain (fun a b => before a b = true) (sortUnique before l) := by
    rw [sortUnique, List.isChain_iff_getElem]
    rw [List.isChain_iff_getElem] at chain
    intro i inside
    rw [List.pairwise_iff_getElem] at kept
    rcases order.trichotomy _ _ with less | same | more
    · exact less
    · exact absurd same (chain i inside)
    · exact absurd more (by rw [kept i (i + 1) (by omega) inside (by omega)]; decide)
  have ordered : Trans (fun a b => before a b = true) (fun a b => before a b = true)
      (fun a b => before a b = true) := ⟨order.trans⟩
  exact List.isChain_iff_pairwise.mp strict

theorem nodup_sortUnique (l : List α) : (sortUnique before l).Nodup := by
  refine (pairwise_sortUnique order l).imp fun {a b} less same => ?_
  rw [same, order.irrefl] at less
  cases less

theorem perm_sortUnique {l : List α} (distinct : l.Nodup) : (sortUnique before l).Perm l :=
  (List.perm_ext_iff_of_nodup (nodup_sortUnique order l) distinct).mpr (mem_sortUnique before l)

end Order

end Cgimap.Library.SortedUnique
