/- path: Cgimap/Library/Occurrences
   generality: G
   source: none
   digest: The first, second and later occurrences of the keys in a list, as lists of their own. -/

import Mathlib.Data.List.Count
import Mathlib.Data.List.Induction
import Mathlib.Data.List.Range
import Mathlib.Data.List.Nodup
import Mathlib.Data.List.TakeDrop
import Mathlib.Order.MinMax

set_option autoImplicit false
set_option relaxedAutoImplicit false

namespace Cgimap.Library.Occurrences

variable {α κ : Type} [DecidableEq κ]

section Layers

variable (key : α → κ)

/-- The number of elements with a key. -/
def occurrences (l : List α) (c : κ) : Nat := (l.map key).count c

/-- The elements that stand behind exactly `k` others with the same key. -/
def layer (k : Nat) (l : List α) : List α :=
  (l.zipIdx.filter (fun p => decide (occurrences key (l.take p.2) (key p.1) = k))).map Prod.fst

/-- The most elements that share a key. -/
def depth (l : List α) : Nat := (l.map (fun a => occurrences key l (key a))).foldr max 0

def layers (l : List α) : List (List α) := (List.range (depth key l)).map (fun k => layer key k l)

end Layers

variable {key : α → κ} {l : List α} {a : α} {c : κ}

section Counts

variable (key)

theorem occurrences_append (l l' : List α) (c : κ) :
    occurrences key (l ++ l') c = occurrences key l c + occurrences key l' c := by
  rw [occurrences, List.map_append, List.count_append]
  rfl

theorem occurrences_singleton (a : α) (c : κ) :
    occurrences key [a] c = if key a = c then 1 else 0 := by
  rw [occurrences, List.map_singleton, List.count_singleton]
  simp only [beq_iff_eq]

theorem occurrences_eq_length (l : List α) (c : κ) :
    occurrences key l c = (l.filter (fun a => decide (key a = c))).length := by
  rw [occurrences, List.count_eq_length_filter, List.filter_map, List.length_map]
  rfl

theorem occurrences_le_length (l : List α) (c : κ) : occurrences key l c ≤ l.length := by
  rw [occurrences_eq_length]
  exact List.length_filter_le _ _

variable {key} in
private theorem occurrences_le_depth_of_mem (member : a ∈ l) :
    occurrences key l (key a) ≤ depth key l := by
  have inside : occurrences key l (key a) ∈ l.map (fun a => occurrences key l (key a)) :=
    List.mem_map_of_mem member
  unfold depth
  generalize l.map (fun a => occurrences key l (key a)) = counts at inside ⊢
  induction counts with
  | nil => cases inside
  | cons n counts ih =>
      rcases List.mem_cons.mp inside with rfl | later
      · exact le_max_left _ _
      · exact le_trans (ih later) (le_max_right _ _)

theorem occurrences_le_depth (l : List α) (c : κ) : occurrences key l c ≤ depth key l := by
  by_cases member : c ∈ l.map key
  · obtain ⟨a, inside, rfl⟩ := List.mem_map.mp member
    exact occurrences_le_depth_of_mem inside
  · rw [occurrences, List.count_eq_zero.mpr member]
    exact Nat.zero_le _

theorem exists_occurrences_eq_depth (some : l ≠ []) :
    ∃ a ∈ l, occurrences key l (key a) = depth key l := by
  have reached : ∀ counts : List Nat, counts ≠ [] → counts.foldr max 0 ∈ counts := by
    intro counts
    induction counts with
    | nil => exact fun none => absurd rfl none
    | cons n counts ih =>
        intro _
        rw [List.foldr_cons]
        rcases max_choice n (counts.foldr max 0) with first | later
        · rw [first]
          exact List.mem_cons_self
        · by_cases none : counts = []
          · subst none
            simp
          · rw [later]
            exact List.mem_cons_of_mem _ (ih none)
  obtain ⟨a, inside, same⟩ := List.mem_map.mp (reached (l.map fun a => occurrences key l (key a))
    (fun none => some (List.map_eq_nil_iff.mp none)))
  exact ⟨a, inside, same⟩

variable {key} in
theorem depth_le_iff {n : Nat} : depth key l ≤ n ↔ ∀ c, occurrences key l c ≤ n := by
  constructor
  · exact fun bound c => (occurrences_le_depth key l c).trans bound
  · intro bound
    by_cases none : l = []
    · rw [none]
      exact Nat.zero_le _
    · obtain ⟨a, -, same⟩ := exists_occurrences_eq_depth key none
      rw [← same]
      exact bound (key a)

theorem depth_concat (l : List α) (a : α) :
    depth key (l ++ [a]) = max (depth key l) (occurrences key l (key a) + 1) := by
  refine eq_of_forall_ge_iff fun n => ?_
  rw [max_le_iff, depth_le_iff, depth_le_iff]
  simp only [occurrences_append, occurrences_singleton]
  constructor
  · intro bound
    refine ⟨fun c => le_trans (Nat.le_add_right _ _) (bound c), ?_⟩
    have here := bound (key a)
    rwa [if_pos rfl] at here
  · rintro ⟨before, here⟩ c
    split
    · rename_i same
      rwa [← same]
    · exact before c

end Counts

section Layers

/-- A new element goes to the layer behind those that have its key already. -/
theorem layer_concat (k : Nat) (l : List α) (a : α) :
    layer key k (l ++ [a]) =
      layer key k l ++ (if occurrences key l (key a) = k then [a] else []) := by
  have before : ∀ p ∈ l.zipIdx,
      decide (occurrences key ((l ++ [a]).take p.2) (key p.1) = k) =
        decide (occurrences key (l.take p.2) (key p.1) = k) := by
    intro p member
    rw [List.take_append_of_le_length (Nat.le_of_lt (List.snd_lt_of_mem_zipIdx member))]
  have last : (l ++ [a]).take l.length = l := by simp
  rw [layer, List.zipIdx_append, List.filter_append, List.map_append, List.filter_congr before,
    Nat.zero_add, List.zipIdx_singleton, List.filter_singleton, last, ← layer]
  congr 1
  by_cases here : occurrences key l (key a) = k
  · simp [here]
  · simp [here]

theorem layer_sublist (k : Nat) (l : List α) : (layer key k l).Sublist l := by
  have parts := (List.filter_sublist (l := l.zipIdx)
    (p := fun p => decide (occurrences key (l.take p.2) (key p.1) = k))).map Prod.fst
  rwa [List.zipIdx_map_fst] at parts

/-- Of the elements with a key, a layer holds the one with its number. -/
theorem filter_layer (k : Nat) (l : List α) (c : κ) :
    (layer key k l).filter (fun a => decide (key a = c)) =
      ((l.filter (fun a => decide (key a = c)))[k]?).toList := by
  induction l using List.reverseRecOn with
  | nil => simp [layer]
  | append_singleton l a ih =>
      rw [layer_concat, List.filter_append, List.filter_append, ih, List.filter_singleton]
      by_cases own : key a = c
      · subst own
        have count := occurrences_eq_length key l (key a)
        rw [count]
        generalize l.filter (fun b => decide (key b = key a)) = same
        rcases Nat.lt_trichotomy k same.length with earlier | rfl | later
        · rw [if_neg (Nat.ne_of_gt earlier)]
          simp [List.getElem?_append_left earlier]
        · simp
        · rw [if_neg (Nat.ne_of_lt later)]
          have past : (same ++ [a]).length ≤ k := by
            rw [List.length_append, List.length_singleton]
            exact later
          rw [decide_eq_true rfl, cond_true, List.getElem?_eq_none (Nat.le_of_lt later),
            List.getElem?_eq_none past]
          rfl
      · simp [own, apply_ite (List.filter _)]

theorem nodup_layer (k : Nat) (l : List α) : ((layer key k l).map key).Nodup := by
  rw [List.nodup_iff_count_le_one]
  intro c
  change occurrences key (layer key k l) c ≤ 1
  rw [occurrences_eq_length, filter_layer]
  cases (l.filter (fun a => decide (key a = c)))[k]? <;> simp

theorem layer_eq_nil {k : Nat} (deep : depth key l ≤ k) : layer key k l = [] := by
  rw [List.eq_nil_iff_forall_not_mem]
  intro a member
  have own : a ∈ (layer key k l).filter (fun b => decide (key b = key a)) :=
    List.mem_filter.mpr ⟨member, decide_eq_true rfl⟩
  rw [filter_layer, List.getElem?_eq_none] at own
  · cases own
  · rw [← occurrences_eq_length]
    exact (occurrences_le_depth key l (key a)).trans deep

theorem length_layers (l : List α) : (layers key l).length = depth key l := by
  rw [layers, List.length_map, List.length_range]

theorem getElem?_layers (k : Nat) (l : List α) :
    (layers key l)[k]? = if k < depth key l then some (layer key k l) else none := by
  rw [layers, List.getElem?_map]
  split
  · rename_i inside
    rw [List.getElem?_range inside, Option.map_some]
  · rename_i outside
    rw [List.getElem?_eq_none, Option.map_none]
    rw [List.length_range]
    exact Nat.le_of_not_lt outside

private theorem getElem?_grown (k : Nat) (l : List α) (c : κ) :
    (if (layers key l).length < occurrences key l c + 1 then layers key l ++ [[]]
      else layers key l)[k]? =
      if k < max (depth key l) (occurrences key l c + 1) then some (layer key k l) else none := by
  have bound := occurrences_le_depth key l c
  rw [length_layers]
  split
  · rename_i grows
    have last : occurrences key l c = depth key l := by omega
    rw [last, max_eq_right (Nat.le_succ _), List.getElem?_append, length_layers, getElem?_layers]
    rcases Nat.lt_trichotomy k (depth key l) with inside | rfl | beyond
    · rw [if_pos inside, if_pos inside, if_pos (Nat.lt_succ_of_lt inside)]
    · have empty : layer key (depth key l) l = [] := layer_eq_nil (le_refl _)
      rw [if_neg (lt_irrefl _), if_pos (Nat.lt_succ_self _), empty, Nat.sub_self]
      rfl
    · rw [if_neg (Nat.lt_asymm beyond), if_neg (by omega), List.getElem?_eq_none]
      rw [List.length_singleton]
      omega
  · rename_i enough
    rw [max_eq_left (Nat.le_of_not_lt enough), getElem?_layers]

/-- The layers with one more element: it goes behind the layers that have its key already. -/
theorem layers_concat (l : List α) (a : α) :
    layers key (l ++ [a]) =
      (if (layers key l).length < occurrences key l (key a) + 1 then layers key l ++ [[]]
        else layers key l).modify (occurrences key l (key a)) (fun p => p ++ [a]) := by
  apply List.ext_getElem?
  intro k
  rw [getElem?_layers, depth_concat, List.getElem?_modify, getElem?_grown, layer_concat]
  split
  · rw [Option.map_eq_map, Option.map_some]
    split
    · rfl
    · rw [List.append_nil]
  · rfl

theorem mem_layers {p : List α} :
    p ∈ layers key l ↔ ∃ k, k < depth key l ∧ layer key k l = p := by
  simp only [layers, List.mem_map, List.mem_range]

private theorem flatten_getElem? {β : Type} (L : List β) {n : Nat} (bound : L.length ≤ n) :
    ((List.range n).map (fun k => (L[k]?).toList)).flatten = L := by
  induction L generalizing n with
  | nil => simp
  | cons b L ih =>
      cases n with
      | zero => cases bound
      | succ n =>
          have rest := ih (Nat.le_of_succ_le_succ bound)
          rw [List.range_succ_eq_map, List.map_cons, List.map_map, List.flatten_cons]
          exact congrArg (b :: ·) rest

theorem filter_flatten_layers (l : List α) (c : κ) :
    (layers key l).flatten.filter (fun a => decide (key a = c)) =
      l.filter (fun a => decide (key a = c)) := by
  have bound := occurrences_le_depth key l c
  rw [occurrences_eq_length] at bound
  rw [List.filter_flatten, layers, List.map_map]
  change ((List.range (depth key l)).map fun k =>
    (layer key k l).filter (fun a => decide (key a = c))).flatten = _
  simp only [filter_layer]
  exact flatten_getElem? _ bound

theorem perm_flatten_layers [DecidableEq α] (l : List α) : (layers key l).flatten.Perm l := by
  rw [List.perm_iff_count]
  intro a
  have own : ∀ l : List α, (l.filter (fun b => decide (key b = key a))).count a = l.count a :=
    fun l => List.count_filter (decide_eq_true rfl)
  have count := congrArg (List.count a) (@filter_flatten_layers _ _ _ key l (key a))
  rwa [own, own] at count

end Layers

end Cgimap.Library.Occurrences
