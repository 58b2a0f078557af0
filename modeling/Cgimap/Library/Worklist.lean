/- path: Cgimap/Library/Worklist
   generality: G
   source: none
   digest: Following the edges of a finite graph, round by round, to all that can be reached. -/

import Mathlib.Data.Finset.Card
import Mathlib.Data.List.Perm.Subperm
import Mathlib.Logic.Relation

set_option autoImplicit false
set_option relaxedAutoImplicit false

namespace Cgimap.Library.Worklist

variable {α : Type} [DecidableEq α]

/-- Asks for the targets of the frontier and goes on with those not found before, until
there are none. -/
def follow (targets : List α → List α) : Nat → List α → List α → Option (List α)
  | 0, _, _ => none
  | fuel + 1, frontier, found =>
      let next := (targets frontier).filter (fun b => decide (b ∉ found))
      if next.isEmpty then some found else follow targets fuel next (found ++ next)

structure Lists (edge : α → α → Prop) (targets : List α → List α) : Prop where
  mem : ∀ frontier b, b ∈ targets frontier ↔ ∃ a ∈ frontier, edge a b
  nodup : ∀ frontier, (targets frontier).Nodup

variable {edge : α → α → Prop} {targets : List α → List α} {frontier found result : List α}
  {fuel : Nat}

private theorem Lists.mem_next (lists : Lists edge targets) (frontier found : List α) (b : α) :
    b ∈ (targets frontier).filter (fun b => decide (b ∉ found)) ↔
      (∃ a ∈ frontier, edge a b) ∧ b ∉ found := by
  rw [List.mem_filter, lists.mem, decide_eq_true_eq]

private theorem Lists.nodup_next (lists : Lists edge targets) (frontier : List α)
    (distinct : found.Nodup) :
    (found ++ (targets frontier).filter (fun b => decide (b ∉ found))).Nodup := by
  refine List.Nodup.append distinct ((lists.nodup frontier).filter _) ?_
  intro b old new
  exact of_decide_eq_true (List.mem_filter.mp new).2 old

/-- What was found stays, the edges of the frontier and of all later finds are followed, and
nothing else is added. -/
private theorem follow_spec (lists : Lists edge targets)
    (done : follow targets fuel frontier found = some result) :
    (∀ b ∈ found, b ∈ result) ∧
      (∀ a ∈ frontier, ∀ b, edge a b → b ∈ result) ∧
      (∀ a ∈ result, a ∉ found → ∀ b, edge a b → b ∈ result) ∧
      ∀ b ∈ result, b ∈ found ∨ ∃ a ∈ frontier, Relation.TransGen edge a b := by
  induction fuel generalizing frontier found with
  | zero => cases done
  | succ fuel ih =>
      have fresh := lists.mem_next frontier found
      rw [follow] at done
      generalize (targets frontier).filter (fun b => decide (b ∉ found)) = next at done fresh
      split at done
      · rename_i none
        cases done
        rw [List.isEmpty_iff, List.eq_nil_iff_forall_not_mem] at none
        refine ⟨fun b member => member, fun a inside b step => ?_,
          fun a member other => absurd member other, fun b member => .inl member⟩
        by_contra outside
        exact none b ((fresh b).mpr ⟨⟨a, inside, step⟩, outside⟩)
      · obtain ⟨old, direct, closed, reach⟩ := ih done
        refine ⟨fun b member => old b (List.mem_append_left _ member), ?_, ?_, ?_⟩
        · intro a inside b step
          by_cases known : b ∈ found
          · exact old b (List.mem_append_left _ known)
          · exact old b (List.mem_append_right _ ((fresh b).mpr ⟨⟨a, inside, step⟩, known⟩))
        · intro a member other b step
          by_cases new : a ∈ next
          · exact direct a new b step
          · refine closed a member (fun both => ?_) b step
            exact (List.mem_append.mp both).elim other new
        · intro b member
          rcases reach b member with known | ⟨a, new, path⟩
          · rcases List.mem_append.mp known with known | new
            · exact .inl known
            · obtain ⟨⟨a, inside, step⟩, -⟩ := (fresh b).mp new
              exact .inr ⟨a, inside, .single step⟩
          · obtain ⟨⟨a₀, inside, step⟩, -⟩ := (fresh a).mp new
            exact .inr ⟨a₀, inside, .head step path⟩

theorem mem_follow (lists : Lists edge targets)
    (done : follow targets fuel frontier [] = some result) (b : α) :
    b ∈ result ↔ ∃ a ∈ frontier, Relation.TransGen edge a b := by
  obtain ⟨-, first, closed, reach⟩ := follow_spec lists done
  constructor
  · intro member
    exact (reach b member).resolve_left List.not_mem_nil
  · rintro ⟨a, inside, path⟩
    induction path with
    | single step => exact first a inside _ step
    | tail _ step ih => exact closed _ ih List.not_mem_nil _ step

theorem nodup_follow (lists : Lists edge targets) (distinct : found.Nodup)
    (done : follow targets fuel frontier found = some result) : result.Nodup := by
  induction fuel generalizing frontier found with
  | zero => cases done
  | succ fuel ih =>
      rw [follow] at done
      split at done
      · cases done
        exact distinct
      · exact ih (lists.nodup_next frontier distinct) done

/-- The loop ends before the fuel does, since every round but the last finds something new. -/
theorem exists_follow (lists : Lists edge targets) {bound : Finset α}
    (finite : ∀ a b, edge a b → b ∈ bound) (distinct : found.Nodup)
    (inside : ∀ b ∈ found, b ∈ bound) (enough : bound.card < fuel + found.length) :
    ∃ result, follow targets fuel frontier found = some result := by
  induction fuel generalizing frontier found with
  | zero =>
      have short : found.toFinset.card ≤ bound.card :=
        Finset.card_le_card fun b member => inside b (List.mem_toFinset.mp member)
      rw [List.toFinset_card_of_nodup distinct] at short
      omega
  | succ fuel ih =>
      have fresh := lists.mem_next frontier found
      have once := lists.nodup_next frontier distinct
      rw [follow]
      generalize (targets frontier).filter (fun b => decide (b ∉ found)) = next at fresh once
      split
      · exact ⟨found, rfl⟩
      · rename_i some
        rw [List.isEmpty_iff] at some
        have more := List.length_pos_iff.mpr some
        apply ih once
        · intro b member
          rcases List.mem_append.mp member with old | new
          · exact inside b old
          · obtain ⟨⟨a, -, step⟩, -⟩ := (fresh b).mp new
            exact finite a b step
        · rw [List.length_append]
          omega

end Cgimap.Library.Worklist
