/- path: Cgimap/Library/ExceptLists
   generality: G
   source: none
   digest: Loops over a list whose body may fail. -/

import Mathlib.Data.List.Forall2

set_option autoImplicit false
set_option relaxedAutoImplicit false

namespace Cgimap.Library.ExceptLists

variable {ε α β : Type}

theorem bind_eq_ok {x : Except ε α} {f : α → Except ε β} {b : β} :
    x >>= f = .ok b ↔ ∃ a, x = .ok a ∧ f a = .ok b := by
  cases x with
  | error e => simp [bind, Except.bind]
  | ok a => simp [bind, Except.bind]

theorem bind_eq_error {x : Except ε α} {f : α → Except ε β} {e : ε} :
    x >>= f = .error e ↔ x = .error e ∨ ∃ a, x = .ok a ∧ f a = .error e := by
  cases x with
  | error e' => simp [bind, Except.bind]
  | ok a => simp [bind, Except.bind]

theorem mapM_eq_ok {f : α → Except ε β} {l : List α} {l' : List β} :
    l.mapM f = .ok l' ↔ List.Forall₂ (fun a b => f a = .ok b) l l' := by
  induction l generalizing l' with
  | nil =>
      rw [List.mapM_nil, List.forall₂_nil_left_iff]
      exact ⟨fun h => (Except.ok.inj h).symm, fun h => h ▸ rfl⟩
  | cons a l ih =>
      rw [List.mapM_cons, bind_eq_ok, List.forall₂_cons_left_iff]
      refine exists_congr fun b => ?_
      constructor
      · rintro ⟨head, rest⟩
        obtain ⟨bs, tail, same⟩ := bind_eq_ok.mp rest
        exact ⟨bs, head, ih.mp tail, (Except.ok.inj same).symm⟩
      · rintro ⟨bs, head, tail, rfl⟩
        exact ⟨head, bind_eq_ok.mpr ⟨bs, ih.mpr tail, rfl⟩⟩

theorem mapM_eq_map {f : α → Except ε β} {g : α → β} {l : List α}
    (each : ∀ a ∈ l, f a = .ok (g a)) : l.mapM f = .ok (l.map g) := by
  rw [mapM_eq_ok, List.forall₂_map_right_iff, List.forall₂_same]
  exact each

theorem exists_of_mem_left {R : α → β → Prop} {l : List α} {l' : List β}
    (all : List.Forall₂ R l l') {a : α} (member : a ∈ l) : ∃ b ∈ l', R a b := by
  induction all with
  | nil => cases member
  | cons head _ ih =>
      rcases List.mem_cons.mp member with rfl | later
      · exact ⟨_, List.mem_cons_self, head⟩
      · obtain ⟨b, inside, image⟩ := ih later
        exact ⟨b, List.mem_cons_of_mem _ inside, image⟩

theorem exists_of_mem_right {R : α → β → Prop} {l : List α} {l' : List β}
    (all : List.Forall₂ R l l') {b : β} (member : b ∈ l') : ∃ a ∈ l, R a b :=
  exists_of_mem_left all.flip member

theorem mem_of_mapM {f : α → Except ε β} {l : List α} {l' : List β} (done : l.mapM f = .ok l')
    {a : α} (member : a ∈ l) : ∃ b ∈ l', f a = .ok b :=
  exists_of_mem_left (mapM_eq_ok.mp done) member

theorem mapM_eq_error {f : α → Except ε β} {l : List α} {e : ε} (failed : l.mapM f = .error e) :
    ∃ a ∈ l, f a = .error e := by
  induction l with
  | nil => cases failed
  | cons a l ih =>
      rw [List.mapM_cons, bind_eq_error] at failed
      rcases failed with head | ⟨b, -, rest⟩
      · exact ⟨a, List.mem_cons_self, head⟩
      · rcases bind_eq_error.mp rest with tail | ⟨_, _, never⟩
        · obtain ⟨a', inside, same⟩ := ih tail
          exact ⟨a', List.mem_cons_of_mem _ inside, same⟩
        · cases never

theorem foldlM_invariant {f : β → α → Except ε β} {l : List α} {b b' : β} (I : List α → β → Prop)
    (step : ∀ done a b b', I done b → f b a = .ok b' → I (done ++ [a]) b') {done : List α}
    (start : I done b) (ends : l.foldlM f b = .ok b') : I (done ++ l) b' := by
  induction l generalizing done b with
  | nil =>
      cases ends
      simpa using start
  | cons a l ih =>
      rw [List.foldlM_cons, bind_eq_ok] at ends
      obtain ⟨b₁, first, rest⟩ := ends
      simpa using ih (step done a b b₁ start first) rest

theorem forM_eq_ok {f : α → Except ε Unit} {l : List α} {u : Unit} :
    l.forM f = .ok u ↔ ∀ a ∈ l, f a = .ok () := by
  induction l with
  | nil => exact ⟨fun _ a member => (List.not_mem_nil member).elim, fun _ => rfl⟩
  | cons a l ih =>
      rw [show (a :: l).forM f = f a >>= fun _ => l.forM f from rfl, bind_eq_ok,
        List.forall_mem_cons]
      constructor
      · rintro ⟨_, head, tail⟩
        exact ⟨head, ih.mp tail⟩
      · rintro ⟨head, tail⟩
        exact ⟨(), head, ih.mpr tail⟩

theorem forM_eq_error {f : α → Except ε Unit} {l : List α} {e : ε} (failed : l.forM f = .error e) :
    ∃ a ∈ l, f a = .error e := by
  induction l with
  | nil => cases failed
  | cons a l ih =>
      rw [show (a :: l).forM f = f a >>= fun _ => l.forM f from rfl, bind_eq_error] at failed
      rcases failed with head | ⟨_, -, tail⟩
      · exact ⟨a, List.mem_cons_self, head⟩
      · obtain ⟨a', inside, same⟩ := ih tail
        exact ⟨a', List.mem_cons_of_mem _ inside, same⟩

theorem forall₂_append_left {A B : Type} {R : A → B → Prop} {l l' : List A} {m : List B}
    (all : List.Forall₂ R (l ++ l') m) :
    ∃ m₁ m₂, List.Forall₂ R l m₁ ∧ List.Forall₂ R l' m₂ ∧ m = m₁ ++ m₂ := by
  induction l generalizing m with
  | nil => exact ⟨[], m, .nil, all, rfl⟩
  | cons a l ih =>
      cases all with
      | cons first rest =>
          obtain ⟨m₁, m₂, left, right, rfl⟩ := ih rest
          exact ⟨_ :: m₁, m₂, .cons first left, right, rfl⟩

end Cgimap.Library.ExceptLists
