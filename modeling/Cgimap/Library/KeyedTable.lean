/- path: Cgimap/Library/KeyedTable
   generality: G
   source: none
   digest: Finite relations whose primary key holds by construction. -/

import Mathlib.Data.List.Dedup
import Mathlib.Data.List.Nodup
import Mathlib.Data.List.Sort
import Mathlib.Data.List.Perm.Subperm

set_option autoImplicit false
set_option relaxedAutoImplicit false

namespace Cgimap.Library.KeyedTable

/-- The rows of a relation in storage order. The primary key is part of the
value: a relation with two rows of one key cannot be built. -/
@[ext] structure Table {R K : Type} (key : R → K) where
  rows : List R
  nodup : (rows.map key).Nodup

namespace Table

variable {R K : Type} {key : R → K}

def empty : Table key := ⟨[], List.nodup_nil⟩

instance : Membership R (Table key) := ⟨fun T r => r ∈ T.rows⟩

theorem mem_def {T : Table key} {r : R} : r ∈ T ↔ r ∈ T.rows := Iff.rfl

theorem not_mem_of_isEmpty {T : Table key} (none : T.rows.isEmpty = true) (r : R) : ¬ r ∈ T := by
  rw [List.isEmpty_iff] at none
  rw [mem_def, none]
  exact List.not_mem_nil

instance [DecidableEq R] : DecidableEq (Table key) := fun T U =>
  decidable_of_iff (T.rows = U.rows) (Table.ext_iff).symm

def select (T : Table key) (p : R → Bool) : List R := T.rows.filter p

def find? [DecidableEq K] (T : Table key) (k : K) : Option R :=
  T.rows.find? (fun r => decide (key r = k))

/-- `INSERT`: a unique violation yields no table. -/
def insert [DecidableEq K] (T : Table key) (new : List R) : Option (Table key) :=
  if h : ((T.rows ++ new).map key).Nodup then some ⟨T.rows ++ new, h⟩ else none

/-- `UPDATE`: the assignment may not touch the key columns. -/
def update (T : Table key) (f : R → R) (keeps : ∀ r, key (f r) = key r) : Table key :=
  ⟨T.rows.map f, by
    have same : key ∘ f = key := funext keeps
    simpa only [List.map_map, same] using T.nodup⟩

def delete (T : Table key) (p : R → Bool) : Table key :=
  ⟨T.rows.filter (fun r => !p r), T.nodup.sublist (List.filter_sublist.map key)⟩

/-- Rows of the owned keys come from `mine`, all other rows from `base`. -/
def overlay (owned : K → Bool) (mine base : Table key) : Table key :=
  ⟨mine.rows.filter (fun r => owned (key r)) ++ base.rows.filter (fun r => !owned (key r)), by
    rw [List.map_append]
    refine List.Nodup.append (mine.nodup.sublist (List.filter_sublist.map key))
      (base.nodup.sublist (List.filter_sublist.map key)) ?_
    intro k hm hb
    obtain ⟨r, hr, rfl⟩ := List.mem_map.mp hm
    obtain ⟨r', hr', same⟩ := List.mem_map.mp hb
    have ho := (List.mem_filter.mp hr).2
    have hn := (List.mem_filter.mp hr').2
    rw [same, ho] at hn
    simp at hn⟩

/-- Equal as relations, whatever the storage order. -/
def Same (T U : Table key) : Prop := ∀ r, r ∈ T ↔ r ∈ U

theorem eq_of_key {T : Table key} {r r' : R} (hr : r ∈ T) (hr' : r' ∈ T)
    (same : key r = key r') : r = r' :=
  List.inj_on_of_nodup_map T.nodup hr hr' same

section Lookup

variable [DecidableEq K]

theorem find?_eq_some {T : Table key} {k : K} {r : R} :
    T.find? k = some r ↔ r ∈ T ∧ key r = k := by
  constructor
  · intro found
    exact ⟨List.mem_of_find?_eq_some found, by simpa using List.find?_some found⟩
  · rintro ⟨member, rfl⟩
    cases found : T.find? (key r) with
    | none =>
        have absent := List.find?_eq_none.mp found r member
        simp at absent
    | some r' =>
        have hit : key r' = key r := by simpa using List.find?_some found
        have member' : r' ∈ T := List.mem_of_find?_eq_some found
        rw [eq_of_key member' member hit]

theorem find?_eq_none {T : Table key} {k : K} : T.find? k = none ↔ ∀ r ∈ T, key r ≠ k := by
  simp [find?, List.find?_eq_none, mem_def]

theorem find?_of_isEmpty {T : Table key} (none : T.rows.isEmpty = true) (k : K) : T.find? k = .none :=
  find?_eq_none.mpr fun r member => absurd member (not_mem_of_isEmpty none r)

theorem find?_key {T : Table key} {r : R} (member : r ∈ T) : T.find? (key r) = some r :=
  find?_eq_some.mpr ⟨member, rfl⟩

theorem insert_eq_some {T U : Table key} {new : List R} (done : T.insert new = some U) :
    U.rows = T.rows ++ new ∧ (new.map key).Nodup ∧ ∀ r ∈ new, T.find? (key r) = none := by
  unfold insert at done
  split at done
  · rename_i fresh
    cases done
    rw [List.map_append, List.nodup_append] at fresh
    refine ⟨rfl, fresh.2.1, fun r member => find?_eq_none.mpr ?_⟩
    intro r' member' same
    exact fresh.2.2 (key r') (List.mem_map_of_mem member') (key r)
      (List.mem_map_of_mem member) same
  · cases done

theorem insert_isSome {T : Table key} {new : List R} (distinct : (new.map key).Nodup)
    (fresh : ∀ r ∈ new, T.find? (key r) = none) :
    ∃ U, T.insert new = some U ∧ U.rows = T.rows ++ new := by
  have all : ((T.rows ++ new).map key).Nodup := by
    rw [List.map_append, List.nodup_append]
    refine ⟨T.nodup, distinct, ?_⟩
    intro k hk k' hk' same
    obtain ⟨r, member, rfl⟩ := List.mem_map.mp hk
    obtain ⟨r', member', rfl⟩ := List.mem_map.mp hk'
    exact find?_eq_none.mp (fresh r' member') r member same
  exact ⟨⟨_, all⟩, by simp only [insert, all, dif_pos], rfl⟩

theorem mem_insert {T U : Table key} {new : List R} (done : T.insert new = some U) (r : R) :
    r ∈ U ↔ r ∈ T ∨ r ∈ new := by
  rw [mem_def, (insert_eq_some done).1, List.mem_append, mem_def]

theorem find?_insert {T U : Table key} {new : List R} (done : T.insert new = some U) (k : K) :
    U.find? k = (T.find? k).or (new.find? (fun r => decide (key r = k))) := by
  simp only [find?, (insert_eq_some done).1, List.find?_append]

theorem find?_update (T : Table key) (f : R → R) (keeps : ∀ r, key (f r) = key r) (k : K) :
    (T.update f keeps).find? k = (T.find? k).map f := by
  simp only [find?, update, List.find?_map]
  congr 2
  funext r
  simp [keeps]

theorem find?_overlay (owned : K → Bool) (mine base : Table key) (k : K) :
    (overlay owned mine base).find? k = if owned k then mine.find? k else base.find? k := by
  split
  · rename_i mineKey
    cases found : mine.find? k with
    | none =>
        rw [find?_eq_none] at found ⊢
        intro r member same
        rcases List.mem_append.mp member with member | member
        · exact found r (List.mem_filter.mp member).1 same
        · have foreign := (List.mem_filter.mp member).2
          rw [same, mineKey] at foreign
          simp at foreign
    | some r =>
        obtain ⟨member, hit⟩ := find?_eq_some.mp found
        refine find?_eq_some.mpr ⟨List.mem_append_left _ (List.mem_filter.mpr ⟨member, ?_⟩), hit⟩
        rw [hit]
        exact mineKey
  · rename_i baseKey
    cases found : base.find? k with
    | none =>
        rw [find?_eq_none] at found ⊢
        intro r member same
        rcases List.mem_append.mp member with member | member
        · have own := (List.mem_filter.mp member).2
          rw [same] at own
          exact baseKey own
        · exact found r (List.mem_filter.mp member).1 same
    | some r =>
        obtain ⟨member, hit⟩ := find?_eq_some.mp found
        refine find?_eq_some.mpr ⟨List.mem_append_right _ (List.mem_filter.mpr ⟨member, ?_⟩), hit⟩
        rw [hit]
        simp [baseKey]

end Lookup

@[simp] theorem mem_update {T : Table key} {f : R → R} {keeps : ∀ r, key (f r) = key r} {r : R} :
    r ∈ T.update f keeps ↔ ∃ r₀ ∈ T, f r₀ = r := by
  simp [update, mem_def]

@[simp] theorem mem_delete {T : Table key} {p : R → Bool} {r : R} :
    r ∈ T.delete p ↔ r ∈ T ∧ p r = false := by
  simp [delete, mem_def]

@[simp] theorem mem_overlay {owned : K → Bool} {mine base : Table key} {r : R} :
    r ∈ overlay owned mine base ↔
      (r ∈ mine ∧ owned (key r) = true) ∨ (r ∈ base ∧ owned (key r) = false) := by
  simp [overlay, mem_def]

section Select

variable (T : Table key) (p q : R → Bool)

theorem mem_select {r : R} : r ∈ T.select p ↔ r ∈ T ∧ p r = true := List.mem_filter

theorem select_overlay {owned : K → Bool} {mine base : Table key} {b : Bool}
    (same : ∀ r, p r = true → owned (key r) = b) :
    (overlay owned mine base).select p = (if b = true then mine else base).select p := by
  have own : ∀ T : Table key, T.rows.filter (fun r => p r && owned (key r)) =
      T.rows.filter (fun r => p r && b) := fun T => List.filter_congr fun r _ => by
    cases hit : p r
    · rfl
    · rw [same r hit]
  have foreign : ∀ T : Table key, T.rows.filter (fun r => p r && !owned (key r)) =
      T.rows.filter (fun r => p r && !b) := fun T => List.filter_congr fun r _ => by
    cases hit : p r
    · rfl
    · rw [same r hit]
  unfold select overlay
  rw [List.filter_append, List.filter_filter, List.filter_filter, own, foreign]
  cases b <;> simp

theorem mem_keys_select [DecidableEq K] {k : K} :
    k ∈ (T.select p).map key ↔ (T.find? k).any p = true := by
  rw [List.mem_map]
  constructor
  · rintro ⟨r, member, rfl⟩
    obtain ⟨row, hit⟩ := (mem_select T p).mp member
    rw [find?_key row]
    exact hit
  · intro hit
    obtain ⟨r, found, hits⟩ := (Option.any_eq_true p _).mp hit
    obtain ⟨row, same⟩ := find?_eq_some.mp found
    exact ⟨r, (mem_select T p).mpr ⟨row, hits⟩, same⟩

theorem nodup_keys_select : ((T.select p).map key).Nodup :=
  T.nodup.sublist (List.filter_sublist.map key)

theorem length_keys_select : ((T.select p).map key).length = (T.select p).length := List.length_map _

theorem length_select_congr [DecidableEq K] {T T' : Table key}
    (same : ∀ k, (T'.find? k).any p = (T.find? k).any p) :
    (T'.select p).length = (T.select p).length := by
  rw [← length_keys_select, ← length_keys_select T p]
  refine ((List.perm_ext_iff_of_nodup (nodup_keys_select T' p) (nodup_keys_select T p)).mpr
    fun k => ?_).length_eq
  rw [mem_keys_select, mem_keys_select, same]

theorem length_select_succ [DecidableEq K] (T : Table key) {T' : Table key} (k₀ : K)
    (new : (T'.find? k₀).any p = true) (absent : (T.find? k₀).any p = false)
    (same : ∀ k, k ≠ k₀ → (T'.find? k).any p = (T.find? k).any p) :
    (T'.select p).length = (T.select p).length + 1 := by
  rw [← length_keys_select, ← length_keys_select T p, ← List.length_cons (a := k₀)]
  have fresh : k₀ ∉ (T.select p).map key := by
    rw [mem_keys_select, absent]
    exact Bool.false_ne_true
  refine ((List.perm_ext_iff_of_nodup (nodup_keys_select T' p)
    (List.nodup_cons.mpr ⟨fresh, nodup_keys_select T p⟩)).mpr fun k => ?_).length_eq
  rw [List.mem_cons, mem_keys_select, mem_keys_select]
  by_cases here : k = k₀
  · subst here
    exact iff_of_true new (.inl rfl)
  · rw [same k here]
    simp [here]

theorem select_delete : (T.delete q).select p = (T.select p).filter (fun r => !q r) := by
  simp only [select, delete, List.filter_filter]
  exact List.filter_congr fun r _ => Bool.and_comm _ _

theorem select_delete_owner {O : Type} [DecidableEq O] (owner : R → O) (dropped : List O) (o : O) :
    (T.delete (fun r => decide (owner r ∈ dropped))).select (fun r => decide (owner r = o)) =
      if o ∈ dropped then [] else T.select (fun r => decide (owner r = o)) := by
  rw [select_delete]
  split
  · rename_i gone
    refine List.filter_eq_nil_iff.mpr fun r member => ?_
    have here : owner r = o := by simpa using ((T.mem_select _).mp member).2
    simp [here, gone]
  · rename_i kept
    refine List.filter_eq_self.mpr fun r member => ?_
    have here : owner r = o := by simpa using ((T.mem_select _).mp member).2
    simp [here, kept]

theorem select_insert [DecidableEq K] {T U : Table key} {new : List R}
    (done : T.insert new = some U) : U.select p = T.select p ++ new.filter p := by
  simp only [select, (insert_eq_some done).1, List.filter_append]

theorem find?_select [DecidableEq K] (k : K) :
    (T.select p).find? (fun r => decide (key r = k) && q r) =
      (T.find? k).filter (fun r => p r && q r) := by
  cases found : T.find? k with
  | none =>
      rw [Option.filter_none, List.find?_eq_none]
      intro r member hit
      rw [Bool.and_eq_true, decide_eq_true_eq] at hit
      exact find?_eq_none.mp found r ((T.mem_select p).mp member).1 hit.1
  | some r =>
      obtain ⟨member, hit⟩ := find?_eq_some.mp found
      by_cases both : (p r && q r) = true
      · rw [Option.filter_some, if_pos both]
        rw [Bool.and_eq_true] at both
        cases first : (T.select p).find? (fun r => decide (key r = k) && q r) with
        | none =>
            have absent := List.find?_eq_none.mp first r ((T.mem_select p).mpr ⟨member, both.1⟩)
            simp [hit, both.2] at absent
        | some r' =>
            have member' := ((T.mem_select p).mp (List.mem_of_find?_eq_some first)).1
            have hit' := List.find?_some first
            rw [Bool.and_eq_true, decide_eq_true_eq] at hit'
            rw [eq_of_key member' member (hit'.1.trans hit.symm)]
      · rw [Option.filter_some, if_neg both, List.find?_eq_none]
        intro r' member' hit'
        rw [Bool.and_eq_true, decide_eq_true_eq] at hit'
        obtain ⟨member', selected⟩ := (T.mem_select p).mp member'
        have same := eq_of_key member' member (hit'.1.trans hit.symm)
        rw [same] at selected hit'
        exact both (by rw [selected, hit'.2]; rfl)

theorem length_select_keys [DecidableEq K] {ks : List K} (distinct : ks.Nodup)
    (known : ∀ k ∈ ks, (T.find? k).isSome) :
    (T.select (fun r => decide (key r ∈ ks))).length = ks.length := by
  have perm : ((T.select (fun r => decide (key r ∈ ks))).map key).Perm ks := by
    refine (List.perm_ext_iff_of_nodup (T.nodup.sublist (List.filter_sublist.map key))
      distinct).mpr fun k => ?_
    constructor
    · intro member
      obtain ⟨r, selected, rfl⟩ := List.mem_map.mp member
      exact of_decide_eq_true ((T.mem_select _).mp selected).2
    · intro member
      obtain ⟨r, found⟩ := Option.isSome_iff_exists.mp (known k member)
      obtain ⟨row, rfl⟩ := find?_eq_some.mp found
      exact List.mem_map_of_mem ((T.mem_select _).mpr ⟨row, decide_eq_true member⟩)
  simpa using perm.length_eq

theorem find?_eq_none_of_select [DecidableEq K] {k : K} (empty : T.select p = [])
    (own : ∀ r, key r = k → p r = true) : T.find? k = none := by
  rw [find?_eq_none]
  intro r row same
  have member : r ∈ T.select p := (T.mem_select p).mpr ⟨row, own r same⟩
  rw [empty] at member
  exact List.not_mem_nil member

/-- A key that is told by a selection and a column is free when the column misses it. -/
theorem find?_eq_none_iff_select [DecidableEq K] {V : Type} {k : K} {column : R → V} {v : V}
    (told : ∀ r, key r = k ↔ p r = true ∧ column r = v) :
    T.find? k = none ↔ v ∉ (T.select p).map column := by
  rw [find?_eq_none]
  constructor
  · intro free taken
    obtain ⟨r, selected, same⟩ := List.mem_map.mp taken
    obtain ⟨row, hit⟩ := (T.mem_select p).mp selected
    exact free r row ((told r).mpr ⟨hit, same⟩)
  · intro absent r row same
    obtain ⟨hit, value⟩ := (told r).mp same
    exact absent (List.mem_map.mpr ⟨r, (T.mem_select p).mpr ⟨row, hit⟩, value⟩)

theorem mem_map_select {V : Type} (column : R → V) {r : R} (here : p r = true)
    (apart : ∀ r', p r' = true → column r' = column r → r' = r) :
    column r ∈ (T.select p).map column ↔ r ∈ T := by
  constructor
  · intro shown
    obtain ⟨r', selected, same⟩ := List.mem_map.mp shown
    obtain ⟨row, hit⟩ := (T.mem_select p).mp selected
    exact apart r' hit same ▸ row
  · exact fun row => List.mem_map_of_mem ((T.mem_select p).mpr ⟨row, here⟩)

end Select

end Table

/-- Rows of chosen owners, each with a column looked up for its owner, read back
for one owner and one value of that column. -/
theorem filter_filterMap_owner {R R' O V : Type} [DecidableEq O] [DecidableEq V]
    (owner : R → O) (column : O → Option V) (pair : R → V → R')
    (owner' : R' → O) (column' : R' → V) (howner : ∀ r v, owner' (pair r v) = owner r)
    (hcolumn : ∀ r v, column' (pair r v) = v) (chosen : List O) (o : O) (v : V) (l : List R) :
    ((l.filter (fun r => decide (owner r ∈ chosen))).filterMap
        (fun r => (column (owner r)).map (pair r))).filter
        (fun r' => decide (owner' r' = o ∧ column' r' = v)) =
      if o ∈ chosen ∧ column o = some v then
        (l.filter (fun r => decide (owner r = o))).map (fun r => pair r v)
      else [] := by
  induction l with
  | nil => simp
  | cons r l ih =>
      by_cases own : owner r = o
      · subst own
        by_cases inside : owner r ∈ chosen
        · cases value : column (owner r) with
          | none =>
              simp_all
              exact ih
          | some w =>
              by_cases same : w = v
              · subst same
                simp_all
              · simp_all
                exact ih
        · simp_all
          exact ih
      · by_cases inside : owner r ∈ chosen
        · cases value : column (owner r) with
          | none => simp_all
          | some w => simp_all
        · simp_all

section DistinctKeys

variable {R K : Type} [DecidableEq K] {key : R → K} {l : List R} {r : R}

theorem filter_key_eq_singleton (distinct : (l.map key).Nodup) (member : r ∈ l) :
    l.filter (fun x => decide (key x = key r)) = [r] := by
  induction l with
  | nil => cases member
  | cons x l ih =>
      rw [List.map_cons, List.nodup_cons] at distinct
      rcases List.mem_cons.mp member with rfl | later
      · have rest : l.filter (fun x => decide (key x = key r)) = [] := by
          refine List.filter_eq_nil_iff.mpr fun x inside same => distinct.1 ?_
          rw [decide_eq_true_eq] at same
          exact same ▸ List.mem_map_of_mem inside
        simp [rest]
      · have other : key x ≠ key r := fun same => distinct.1 (same ▸ List.mem_map_of_mem later)
        simpa [other] using ih distinct.2 later

theorem find?_key_eq_some (distinct : (l.map key).Nodup) (member : r ∈ l) :
    l.find? (fun x => decide (key x = key r)) = some r := by
  rw [← List.head?_filter, filter_key_eq_singleton distinct member]
  rfl

end DistinctKeys

/-- Keys that pair an owner with a part are distinct when the owners are, and the
parts of each owner are. -/
theorem nodup_flatMap_pair {A B O V : Type} {owner : A → O} {parts : A → List B} {part : B → V}
    {l : List A} (distinct : (l.map owner).Nodup) (each : ∀ a ∈ l, ((parts a).map part).Nodup) :
    (l.flatMap (fun a => (parts a).map (fun b => (owner a, part b)))).Nodup := by
  rw [List.nodup_flatMap]
  constructor
  · intro a member
    have pairs : (parts a).map (fun b => (owner a, part b)) =
        ((parts a).map part).map (fun v => (owner a, v)) := by
      rw [List.map_map]
      rfl
    rw [pairs]
    exact (each a member).map fun v w same => (Prod.mk.inj same).2
  · rw [List.Nodup, List.pairwise_map] at distinct
    apply distinct.imp
    intro a b apart k left right
    obtain ⟨x, -, rfl⟩ := List.mem_map.mp left
    obtain ⟨y, -, same⟩ := List.mem_map.mp right
    exact apart (Prod.mk.inj same).1.symm

/-- One element of a concatenation of short lists, and the part that it is in. -/
theorem split_flatMap {α β : Type} {f : α → List β} {l : List α} {before after : List β}
    {b : β} (short : ∀ a ∈ l, (f a).length ≤ 1) (flat : l.flatMap f = before ++ b :: after) :
    ∃ pre a post, l = pre ++ a :: post ∧ pre.flatMap f = before ∧ f a = [b] := by
  induction l generalizing before with
  | nil => simp at flat
  | cons a l ih =>
      have one := short a List.mem_cons_self
      have less : ∀ c ∈ l, (f c).length ≤ 1 := fun c member =>
        short c (List.mem_cons_of_mem a member)
      rw [List.flatMap_cons] at flat
      match here : f a with
      | [] =>
          rw [here, List.nil_append] at flat
          obtain ⟨pre, c, post, same, start, found⟩ := ih less flat
          refine ⟨a :: pre, c, post, by rw [same, List.cons_append], ?_, found⟩
          rw [List.flatMap_cons, here, start, List.nil_append]
      | [c] =>
          rw [here] at flat
          cases before with
          | nil =>
              obtain ⟨rfl, -⟩ := List.cons.inj flat
              exact ⟨[], a, l, rfl, rfl, here⟩
          | cons d before =>
              obtain ⟨rfl, inner⟩ := List.cons.inj flat
              obtain ⟨pre, c', post, same, start, found⟩ := ih less inner
              refine ⟨a :: pre, c', post, by rw [same, List.cons_append], ?_, found⟩
              rw [List.flatMap_cons, here, start]
              rfl
      | c :: d :: more =>
          rw [here] at one
          simp at one

/-- Rows that pass through a partial map keep the order of their keys. -/
theorem map_filterMap_sublist {A B V : Type} {f : A → Option B} {key : A → V} {key' : B → V}
    (same : ∀ a b, f a = some b → key' b = key a) (l : List A) :
    ((l.filterMap f).map key').Sublist (l.map key) := by
  induction l with
  | nil => exact List.Sublist.refl _
  | cons a l ih =>
      rw [List.filterMap_cons]
      cases image : f a with
      | none => exact ih.cons _
      | some b =>
          rw [List.map_cons, List.map_cons, same a b image]
          exact ih.cons_cons _

section Copies

variable {R R' O C V : Type} [DecidableEq O] [DecidableEq C] [DecidableEq V] {key : R → O × C}
  {key' : R' → O × V × C}

/-- Rows of chosen owners, each with a column looked up for its owner, are copied exactly
if none of their new keys is taken. -/
theorem insert_copies_iff (T : Table key) (H : Table key') (pair : R → V → R')
    (keys : ∀ r v, key' (pair r v) = ((key r).1, v, (key r).2)) (owner : R → O)
    (column : O → Option V) (chosen : List O) :
    (∃ U, H.insert ((T.select (fun r => decide (owner r ∈ chosen))).filterMap
        (fun r => (column (owner r)).map (pair r))) = some U) ↔
      ∀ r ∈ T, owner r ∈ chosen → ∀ v, column (owner r) = some v →
        H.find? (key' (pair r v)) = none := by
  constructor
  · rintro ⟨U, inserted⟩ r row inside v value
    refine (Table.insert_eq_some inserted).2.2 (pair r v) (List.mem_filterMap.mpr ⟨r, ?_, ?_⟩)
    · exact (T.mem_select _).mpr ⟨row, decide_eq_true inside⟩
    · exact Option.map_eq_some_iff.mpr ⟨v, value, rfl⟩
  · intro free
    have distinct : (((T.select (fun r => decide (owner r ∈ chosen))).filterMap
        (fun r => (column (owner r)).map (pair r))).map key').Nodup := by
      apply List.Nodup.of_map (fun k => (k.1, k.2.2))
      rw [List.map_map]
      refine (T.nodup.sublist (List.filter_sublist.map key)).sublist
        (map_filterMap_sublist (fun r h image => ?_) _)
      obtain ⟨v, -, rfl⟩ := Option.map_eq_some_iff.mp image
      rw [Function.comp_apply, keys]
    have fresh : ∀ h ∈ (T.select (fun r => decide (owner r ∈ chosen))).filterMap
        (fun r => (column (owner r)).map (pair r)), H.find? (key' h) = none := by
      intro h member
      obtain ⟨r, selected, image⟩ := List.mem_filterMap.mp member
      obtain ⟨v, value, rfl⟩ := Option.map_eq_some_iff.mp image
      obtain ⟨row, inside⟩ := (T.mem_select _).mp selected
      exact free r row (of_decide_eq_true inside) v value
    obtain ⟨U, inserted, -⟩ := Table.insert_isSome distinct fresh
    exact ⟨U, inserted⟩

end Copies

/-- Ascending and without repetition: `std::sort` followed by `std::unique`, an
`ORDER BY` over distinct rows, the traversal of a `std::set`. -/
def sortUnique (l : List Nat) : List Nat := (l.insertionSort (· ≤ ·)).dedup

@[simp] theorem mem_sortUnique {l : List Nat} {n : Nat} : n ∈ sortUnique l ↔ n ∈ l := by
  simp [sortUnique]

theorem sortUnique_nodup (l : List Nat) : (sortUnique l).Nodup := List.nodup_dedup _

@[simp] theorem sortUnique_eq_nil {l : List Nat} : sortUnique l = [] ↔ l = [] := by
  constructor
  · intro none
    refine List.eq_nil_iff_forall_not_mem.mpr fun n member => ?_
    have present : n ∈ sortUnique l := mem_sortUnique.mpr member
    simp [none] at present
  · rintro rfl
    rfl

/-- The order of rows in a table does not show where they are sorted by a column that
tells them apart. -/
theorem insertionSort_congr {α β : Type} [LE β] [Std.IsLinearOrder β] (column : α → β)
    [DecidableRel (fun a b => column a ≤ column b)] {l l' : List α} (perm : l.Perm l')
    (distinct : (l.map column).Nodup) :
    l.insertionSort (fun a b => column a ≤ column b) =
      l'.insertionSort (fun a b => column a ≤ column b) := by
  have sorted : ∀ l : List α, (l.insertionSort (fun a b => column a ≤ column b)).Pairwise
      (fun a b => column a ≤ column b) := by
    intro l
    have total : Std.Total (fun a b => column a ≤ column b) := ⟨fun a b => Std.le_total⟩
    have transitive : IsTrans α (fun a b => column a ≤ column b) := ⟨fun _ _ _ => Std.le_trans⟩
    exact List.pairwise_insertionSort _ l
  have order := ((List.perm_insertionSort (fun a b => column a ≤ column b) l).trans perm).trans
    (List.perm_insertionSort (fun a b => column a ≤ column b) l').symm
  refine List.Perm.eq_of_pairwise (fun a b left right below above => ?_) (sorted l) (sorted l') order
  have inside : a ∈ l := (List.mem_insertionSort _).mp left
  have inside' : b ∈ l := perm.symm.subset ((List.mem_insertionSort _).mp right)
  exact List.inj_on_of_nodup_map distinct inside inside' (Std.le_antisymm below above)

/-- Tables with the same rows that are selected give the same selection. -/
theorem select_perm {R K : Type} {key : R → K} {T T' : Table key} {p : R → Bool}
    (members : ∀ r, p r = true → (r ∈ T ↔ r ∈ T')) : (T.select p).Perm (T'.select p) := by
  have nodup : ∀ T : Table key, (T.select p).Nodup := fun T =>
    (List.Nodup.of_map key T.nodup).filter _
  rw [List.perm_ext_iff_of_nodup (nodup T) (nodup T')]
  intro r
  rw [Table.mem_select, Table.mem_select]
  constructor
  · exact fun both => ⟨(members r both.2).mp both.1, both.2⟩
  · exact fun both => ⟨(members r both.2).mpr both.1, both.2⟩

theorem nodup_select_column {R K V : Type} {key : R → K} (T : Table key) {p : R → Bool}
    {column : R → V}
    (apart : ∀ r r', p r = true → p r' = true → column r = column r' → key r = key r') :
    ((T.select p).map column).Nodup := by
  refine List.Nodup.map_on (fun r left r' right same => ?_) ((List.Nodup.of_map key T.nodup).filter _)
  obtain ⟨row, hit⟩ := List.mem_filter.mp left
  obtain ⟨row', hit'⟩ := List.mem_filter.mp right
  exact Table.eq_of_key row row' (apart r r' hit hit' same)

end Cgimap.Library.KeyedTable
