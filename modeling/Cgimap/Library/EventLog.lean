/- path: Cgimap/Library/EventLog
   generality: G
   source: none
   digest: Events that each change one component of a state, replayed in order. -/

import Mathlib.Data.List.Basic
import Mathlib.Logic.Function.Basic

set_option autoImplicit false
set_option relaxedAutoImplicit false

namespace Cgimap.Library.EventLog

variable {K : Type} {σ E : K → Type}

/-- What an event does to its component, and when it may happen. -/
structure Machine (σ E : K → Type) where
  act : {k : K} → E k → σ k → σ k
  Allowed : {k : K} → E k → σ k → Prop

abbrev Log (E : K → Type) := List ((k : K) × E k)

section Component

variable (m : Machine σ E) {k : K}

def Machine.replayAt (s : σ k) (evs : List (E k)) : σ k := evs.foldl (fun s ev => m.act ev s) s

/-- Each event may happen when its turn comes. -/
def Machine.LawfulAt : σ k → List (E k) → Prop
  | _, [] => True
  | s, ev :: evs => m.Allowed ev s ∧ LawfulAt (m.act ev s) evs

@[simp] theorem replayAt_nil (s : σ k) : m.replayAt s [] = s := rfl

theorem replayAt_cons (s : σ k) (ev : E k) (evs : List (E k)) :
    m.replayAt s (ev :: evs) = m.replayAt (m.act ev s) evs := rfl

theorem replayAt_append (s : σ k) (evs evs' : List (E k)) :
    m.replayAt s (evs ++ evs') = m.replayAt (m.replayAt s evs) evs' := List.foldl_append ..

theorem lawfulAt_append {s : σ k} {evs evs' : List (E k)} :
    m.LawfulAt s (evs ++ evs') ↔ m.LawfulAt s evs ∧ m.LawfulAt (m.replayAt s evs) evs' := by
  induction evs generalizing s with
  | nil => simp [Machine.LawfulAt]
  | cons ev evs ih => simp only [List.cons_append, Machine.LawfulAt, ih, replayAt_cons, and_assoc]

theorem Machine.LawfulAt.invariant {m : Machine σ E} {I : σ k → Prop} {s : σ k} {evs : List (E k)}
    (lawful : m.LawfulAt s evs) (start : I s)
    (step : ∀ s ev, I s → m.Allowed ev s → I (m.act ev s)) : I (m.replayAt s evs) := by
  induction evs generalizing s with
  | nil => exact start
  | cons ev evs ih => exact ih lawful.2 (step s ev start lawful.1)

end Component

section Whole

variable [DecidableEq K] (m : Machine σ E)

/-- The event, if it belongs to the component `k`. -/
def eventAt? (k : K) (x : (k : K) × E k) : Option (E k) :=
  if own : x.1 = k then some (own ▸ x.2) else none

/-- The events of one component, in order. -/
def eventsOf (log : Log E) (k : K) : List (E k) := log.filterMap (eventAt? k)

def Machine.apply (S : (k : K) → σ k) (x : (k : K) × E k) : (k : K) → σ k :=
  Function.update S x.1 (m.act x.2 (S x.1))

def Machine.replay (S : (k : K) → σ k) (log : Log E) : (k : K) → σ k := log.foldl m.apply S

def Machine.Lawful : ((k : K) → σ k) → Log E → Prop
  | _, [] => True
  | S, x :: log => m.Allowed x.2 (S x.1) ∧ Lawful (m.apply S x) log

@[simp] theorem eventAt?_self (x : (k : K) × E k) : eventAt? x.1 x = some x.2 := by
  simp [eventAt?]

theorem eventAt?_other {k : K} {x : (k : K) × E k} (other : x.1 ≠ k) : eventAt? k x = none :=
  dif_neg other

theorem eventsOf_cons_self {k : K} (ev : E k) (log : Log E) :
    eventsOf (⟨k, ev⟩ :: log) k = ev :: eventsOf log k := by
  simp [eventsOf, eventAt?]

theorem eventsOf_cons_other {k : K} {x : (k : K) × E k} (other : x.1 ≠ k) (log : Log E) :
    eventsOf (x :: log) k = eventsOf log k := by
  simp [eventsOf, eventAt?_other other]

theorem eventsOf_append (log log' : Log E) (k : K) :
    eventsOf (log ++ log') k = eventsOf log k ++ eventsOf log' k := List.filterMap_append

theorem mem_eventsOf {log : Log E} {k : K} {ev : E k} :
    ev ∈ eventsOf log k ↔ ⟨k, ev⟩ ∈ log := by
  rw [eventsOf, List.mem_filterMap]
  constructor
  · rintro ⟨x, member, found⟩
    unfold eventAt? at found
    split at found
    · rename_i own
      subst own
      cases found
      exact member
    · cases found
  · exact fun member => ⟨⟨k, ev⟩, member, eventAt?_self _⟩

theorem replay_append (S : (k : K) → σ k) (log log' : Log E) :
    m.replay S (log ++ log') = m.replay (m.replay S log) log' := List.foldl_append ..

/-- A component only sees its own events. -/
theorem replay_at (S : (k : K) → σ k) (log : Log E) (k : K) :
    m.replay S log k = m.replayAt (S k) (eventsOf log k) := by
  induction log generalizing S with
  | nil => rfl
  | cons x log ih =>
      rw [Machine.replay, List.foldl_cons, ← Machine.replay, ih]
      by_cases own : x.1 = k
      · subst own
        simp [eventsOf, Machine.apply, replayAt_cons]
      · simp [eventsOf, Machine.apply, eventAt?_other own, Function.update_of_ne (Ne.symm own)]

/-- A log is lawful when it is so for each component alone. -/
theorem lawful_iff {S : (k : K) → σ k} {log : Log E} :
    m.Lawful S log ↔ ∀ k, m.LawfulAt (S k) (eventsOf log k) := by
  induction log generalizing S with
  | nil => simp [Machine.Lawful, eventsOf, Machine.LawfulAt]
  | cons x log ih =>
      rw [Machine.Lawful, ih]
      constructor
      · rintro ⟨first, rest⟩ k
        have tail := rest k
        by_cases own : x.1 = k
        · subst own
          rw [Machine.apply, Function.update_self] at tail
          simpa [eventsOf, Machine.LawfulAt] using ⟨first, tail⟩
        · rw [Machine.apply, Function.update_of_ne (Ne.symm own)] at tail
          simpa [eventsOf, eventAt?_other own] using tail
      · intro all
        have own := all x.1
        simp only [eventsOf, List.filterMap_cons, eventAt?_self, Machine.LawfulAt] at own
        refine ⟨own.1, fun k => ?_⟩
        by_cases same : x.1 = k
        · subst same
          rw [Machine.apply, Function.update_self]
          exact own.2
        · have tail := all k
          rw [Machine.apply, Function.update_of_ne (Ne.symm same)]
          simpa [eventsOf, eventAt?_other same] using tail

theorem lawful_append {S : (k : K) → σ k} {log log' : Log E} :
    m.Lawful S (log ++ log') ↔ m.Lawful S log ∧ m.Lawful (m.replay S log) log' := by
  simp only [lawful_iff, eventsOf_append, lawfulAt_append, replay_at, forall_and]

theorem Machine.Lawful.allowed {m : Machine σ E} {S : (k : K) → σ k} {before after : Log E}
    {x : (k : K) × E k} (lawful : m.Lawful S (before ++ x :: after)) :
    m.Allowed x.2 (m.replay S before x.1) :=
  ((lawful_append m).mp lawful).2.1

end Whole

end Cgimap.Library.EventLog
