/- path: Cgimap/Library/UnsupportedSets
   generality: G
   source: none
   digest: The largest part of a set that nothing outside of it points to. -/

import Mathlib.Logic.Relation
import Mathlib.Order.Bounds.Basic

set_option autoImplicit false
set_option relaxedAutoImplicit false

namespace Cgimap.Library.UnsupportedSets

variable {α : Type} {edge : α → α → Prop} {live batch : Set α}

/-- No live point outside of the part has an edge into it. -/
def Unsupported (edge : α → α → Prop) (live S : Set α) : Prop :=
  ∀ r ∈ live, r ∉ S → ∀ m, edge r m → m ∉ S

/-- A live point outside of the batch has an edge to `b`. -/
def Supported (edge : α → α → Prop) (live batch : Set α) (b : α) : Prop :=
  ∃ r ∈ live, r ∉ batch ∧ edge r b

/-- Supported, or reachable from a supported point of the batch. -/
def Held (edge : α → α → Prop) (live batch : Set α) (b : α) : Prop :=
  Supported edge live batch b ∨
    ∃ a ∈ batch, Supported edge live batch a ∧ Relation.TransGen edge a b

private theorem Held.step {r m : α} (held : Held edge live batch r) (inside : r ∈ batch)
    (step : edge r m) : Held edge live batch m := by
  rcases held with direct | ⟨a, batched, direct, path⟩
  · exact .inr ⟨r, inside, direct, .single step⟩
  · exact .inr ⟨a, batched, direct, path.tail step⟩

/-- Backwards along a path of live points, an unsupported part takes in every point. -/
private theorem mem_of_path {S : Set α} (free : Unsupported edge live S)
    (closed : ∀ r ∈ live, ∀ m, edge r m → m ∈ live) {a b : α} (path : Relation.TransGen edge a b)
    (start : a ∈ live) (inside : b ∈ S) : a ∈ S := by
  induction path using Relation.TransGen.head_induction_on with
  | single step =>
      by_contra outside
      exact free _ start outside _ step inside
  | head step _ ih =>
      by_contra outside
      exact free _ start outside _ step (ih (closed _ start _ step))

/-- The points of the batch that are not held form its largest unsupported part. -/
theorem isGreatest_unsupported (shown : batch ⊆ live)
    (closed : ∀ r ∈ live, ∀ m, edge r m → m ∈ live) :
    IsGreatest {S | S ⊆ batch ∧ Unsupported edge live S}
      {b | b ∈ batch ∧ ¬ Held edge live batch b} := by
  refine ⟨⟨fun b free => free.1, ?_⟩, ?_⟩
  · intro r alive outside m step free
    by_cases inside : r ∈ batch
    · have held : Held edge live batch r := by
        by_contra loose
        exact outside ⟨inside, loose⟩
      exact free.2 (held.step inside step)
    · exact free.2 (.inl ⟨r, alive, inside, step⟩)
  · rintro S ⟨sub, free⟩ b inside
    refine ⟨sub inside, ?_⟩
    -- a support of a point of `S` lies outside of the batch, hence outside of `S`
    have apart : ∀ a ∈ S, ¬ Supported edge live batch a := by
      rintro a member ⟨r, alive, outside, step⟩
      exact free r alive (fun back => outside (sub back)) a step member
    rintro (direct | ⟨a, batched, direct, path⟩)
    · exact apart b inside direct
    · exact apart a (mem_of_path free closed path (shown batched) inside) direct

end Cgimap.Library.UnsupportedSets
