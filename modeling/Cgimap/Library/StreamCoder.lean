/- path: Cgimap/Library/StreamCoder
   generality: G
   source: none
   digest: Coders that work on windows of their input and output, and the loops around them. -/

import Mathlib.Data.List.Basic
import Mathlib.Order.Basic

/-!
A call of a coder takes some of the input that it is offered and puts something into the
output window. A loop around it flushes the window and calls again, until a condition says
that there is nothing left to do.
-/

set_option autoImplicit false
set_option relaxedAutoImplicit false

namespace Cgimap.Library.StreamCoder

variable {S α β R : Type}

/-- What a call does: the next state, how much of the input was taken, what was put out. -/
structure Call (S β R : Type) where
  next : S
  taken : Nat
  out : List β
  status : R

/-- A coder, what stands in its output window and what has been flushed out of it. -/
structure Window (S β : Type) where
  stream : S
  held : List β
  sent : List β

namespace Window

def output (w : Window S β) : List β := w.sent ++ w.held

def flush (w : Window S β) : Window S β := { w with held := [], sent := w.sent ++ w.held }

def after (w : Window S β) (c : Call S β R) : Window S β :=
  { w with stream := c.next, held := w.held ++ c.out }

@[simp] theorem stream_flush (w : Window S β) : w.flush.stream = w.stream := rfl
@[simp] theorem held_flush (w : Window S β) : w.flush.held = [] := rfl
@[simp] theorem sent_flush (w : Window S β) : w.flush.sent = w.output := rfl

@[simp] theorem output_flush (w : Window S β) : w.flush.output = w.output := List.append_nil _

@[simp] theorem output_after (w : Window S β) (c : Call S β R) :
    (w.after c).output = w.output ++ c.out := (List.append_assoc _ _ _).symm

end Window

/-- Calls of the coder on the input that is left. It is called again on a flushed window
as long as the condition holds of its status, the room in the window and the input. -/
def pump (call : S → List α → Nat → Call S β R) (size : Nat) (again : R → Nat → List α → Bool) :
    Nat → Window S β → List α → Option (Window S β × List α × R)
  | 0, _, _ => none
  | fuel + 1, w, input =>
      let c := call w.stream input (size - w.held.length)
      let w' := w.after c
      let rest := input.drop c.taken
      if again c.status (size - w'.held.length) rest then
        pump call size again fuel w'.flush rest
      else some (w', rest, c.status)

section Loop

/-- What a loop makes, when each call that is followed by another one keeps an invariant and
makes a measure smaller. -/
theorem pump_total (call : S → List α → Nat → Call S β R) (size : Nat)
    (again : R → Nat → List α → Bool) (inv : Window S β → List α → Prop)
    (post : Window S β → List α → R → Prop) (measure : Window S β → List α → Nat)
    (step : ∀ w input, inv w input →
      let c := call w.stream input (size - w.held.length)
      if again c.status (size - (w.after c).held.length) (input.drop c.taken) = true then
        inv (w.after c).flush (input.drop c.taken) ∧
          measure (w.after c).flush (input.drop c.taken) < measure w input
      else post (w.after c) (input.drop c.taken) c.status)
    {w : Window S β} {input : List α} (start : inv w input) :
    ∃ w' rest status, (∀ fuel, measure w input < fuel →
      pump call size again fuel w input = some (w', rest, status)) ∧ post w' rest status := by
  induction rounds : measure w input using Nat.strongRecOn generalizing w input with
  | ind n ih =>
      have next := step w input start
      dsimp only at next
      split at next
      · rename_i goes
        obtain ⟨w', rest, status, run, holds⟩ := ih _ (rounds ▸ next.2) next.1 rfl
        refine ⟨w', rest, status, fun fuel enough => ?_, holds⟩
        obtain ⟨less, rfl⟩ := Nat.exists_eq_add_one_of_ne_zero (Nat.ne_of_gt (Nat.zero_lt_of_lt enough))
        rw [pump]
        exact (if_pos goes).trans (run less (by omega))
      · rename_i stops
        refine ⟨_, _, _, fun fuel enough => ?_, next⟩
        obtain ⟨less, rfl⟩ := Nat.exists_eq_add_one_of_ne_zero (Nat.ne_of_gt (Nat.zero_lt_of_lt enough))
        rw [pump]
        exact if_neg stops

end Loop

section Encoders

inductive Operation where
  | process
  | finish
  deriving DecidableEq, Repr

inductive Progress where
  | more
  | done
  | failed
  deriving DecidableEq, Repr

/-- What an encoder promises about its calls, where `decode` undoes it: `Opened` relates its
state to all that it has taken and put out, and `Ending` where nothing more is to come. -/
structure Encodes (start : S) (call : S → Operation → List α → Nat → Call S β Progress)
    (decode : List β → Option (List α)) where
  Opened : S → List α → List β → Prop
  Ending : S → List α → List β → Prop
  Ended : S → Prop
  bound : Nat → Nat
  opened_start : Opened start [] []
  ending_of_opened : ∀ {s x y}, Opened s x y → Ending s x y
  bound_mono : ∀ {m n}, m ≤ n → bound m ≤ bound n
  length_le : ∀ {s x y}, Ending s x y → y.length ≤ bound x.length
  /-- Some progress is made, up to the end of the input or the end of the window. -/
  process : ∀ {s x y input room}, Opened s x y → input ≠ [] → 0 < room →
    (call s .process input room).status = .more ∧
      Opened (call s .process input room).next
        (x ++ input.take (call s .process input room).taken)
        (y ++ (call s .process input room).out) ∧
      (call s .process input room).out.length ≤ room ∧
      (input.length ≤ (call s .process input room).taken ∨
        (call s .process input room).out.length = room)
  /-- The end is reached when everything fits the window. -/
  finish : ∀ {s x y room}, Ending s x y → 0 < room →
    (call s .finish [] room).out.length ≤ room ∧
      Ending (call s .finish [] room).next x (y ++ (call s .finish [] room).out) ∧
      ((call s .finish [] room).status = .more ∧ (call s .finish [] room).out.length = room ∨
        (call s .finish [] room).status = .done ∧ Ended (call s .finish [] room).next ∧
          decode (y ++ (call s .finish [] room).out) = some x)

variable {start : S} {call : S → Operation → List α → Nat → Call S β Progress}
  {decode : List β → Option (List α)} {size : Nat}

theorem Encodes.pump_process (e : Encodes start call decode)
    (again : Progress → Nat → List α → Bool)
    (goes : ∀ room rest, again .more room rest = true ↔ rest ≠ []) {w : Window S β} {x input : List α}
    (opened : e.Opened w.stream x w.output) (room : w.held.length < size) (some : input ≠ []) :
    ∃ enough w', (∀ fuel, enough ≤ fuel →
      pump (fun s => call s .process) size again fuel w input = .some (w', [], .more)) ∧
        e.Opened w'.stream (x ++ input) w'.output ∧ w'.held.length ≤ size := by
  have run := pump_total (fun s => call s .process) size again
    (fun w rest => ∃ x', e.Opened w.stream x' w.output ∧ x' ++ rest = x ++ input ∧
      w.held.length < size ∧ rest ≠ [])
    (fun w rest status => rest = [] ∧ status = .more ∧ e.Opened w.stream (x ++ input) w.output ∧
      w.held.length ≤ size)
    (fun w _ => e.bound (x ++ input).length - w.output.length) ?_ ⟨x, opened, rfl, room, some⟩
  · obtain ⟨w', rest, status, done, rfl, rfl, all, fits⟩ := run
    exact ⟨_, w', done, all, fits⟩
  · rintro w rest ⟨x', opened, same, room, some⟩
    obtain ⟨more, next, within, progress⟩ := e.process opened some (Nat.sub_pos_of_lt room)
    dsimp only
    rw [more]
    generalize call w.stream .process rest (size - w.held.length) = c at next within progress
    have taken : (x' ++ rest.take c.taken) ++ rest.drop c.taken = x ++ input := by
      rw [List.append_assoc, List.take_append_drop, same]
    split
    · rename_i left
      rw [goes] at left
      have full : c.out.length = size - w.held.length := by
        refine progress.resolve_left fun all => left ?_
        exact List.drop_eq_nil_of_le all
      have grown := e.length_le (e.ending_of_opened next)
      have below : e.bound (x' ++ rest.take c.taken).length ≤ e.bound (x ++ input).length :=
        e.bound_mono (taken ▸ (List.prefix_append _ _).length_le)
      have longer : (w.output ++ c.out).length = w.output.length + c.out.length := List.length_append
      rw [Window.output_flush, Window.output_after]
      exact ⟨⟨_, next, taken, Nat.lt_of_le_of_lt (Nat.zero_le _) room, left⟩, by omega⟩
    · rename_i none
      rw [goes, not_not] at none
      refine ⟨none, rfl, ?_, ?_⟩
      · rw [none, List.append_nil] at taken
        rw [← taken, Window.output_after]
        exact next
      · simp only [Window.after, List.length_append]
        omega

/-- The encoder comes to its end, and what it has put out can be decoded. -/
theorem Encodes.pump_finish (e : Encodes start call decode)
    (again : Progress → Nat → List α → Bool) (goes : ∀ room rest, again .more room rest = true)
    (stops : ∀ room rest, again .done room rest = false) {w : Window S β} {x : List α}
    (ending : e.Ending w.stream x w.output) (room : w.held.length < size) :
    ∃ enough w', (∀ fuel, enough ≤ fuel →
      pump (fun s => call s .finish) size again fuel w [] = .some (w', [], .done)) ∧
        e.Ended w'.stream ∧ decode w'.output = some x := by
  have run := pump_total (fun s => call s .finish) size again
    (fun w rest => e.Ending w.stream x w.output ∧ w.held.length < size ∧ rest = [])
    (fun w rest status => rest = [] ∧ status = .done ∧ e.Ended w.stream ∧ decode w.output = some x)
    (fun w _ => e.bound x.length - w.output.length) ?_ ⟨ending, room, rfl⟩
  · obtain ⟨w', rest, status, done, rfl, rfl, ended, decoded⟩ := run
    exact ⟨_, w', done, ended, decoded⟩
  · rintro w rest ⟨ending, room, rfl⟩
    obtain ⟨within, next, outcome⟩ := e.finish ending (Nat.sub_pos_of_lt room)
    dsimp only
    generalize call w.stream .finish [] (size - w.held.length) = c at next within outcome
    have grown := e.length_le next
    rcases outcome with ⟨more, full⟩ | ⟨done, ended, decoded⟩
    · have longer : (w.output ++ c.out).length = w.output.length + c.out.length := List.length_append
      rw [more, if_pos (goes _ _), Window.output_flush, Window.output_after]
      exact ⟨⟨next, Nat.lt_of_le_of_lt (Nat.zero_le _) room, List.drop_nil⟩, by omega⟩
    · rw [done, stops, if_neg Bool.false_ne_true]
      exact ⟨List.drop_nil, rfl, ended, by rw [Window.output_after]; exact decoded⟩

end Encoders

section Decoders

/-- What a decoder promises: it puts out what the input that it has been offered decodes to,
up to the end of the window, and fails only on corrupt input. `Live` relates its state to the
input it was offered, what of that it has not taken, and what it has put out; in a `Settled`
state there is nothing left to do for the input that it was offered. -/
structure Decodes (start : S) (call : S → List α → Nat → Call S β R) (failed : R → Bool)
    (result : List α → List β) (corrupt : List α → Prop) where
  Live : S → List α → List α → List β → Prop
  Settled : S → List α → Prop
  settled_start : Settled start []
  result_nil : result [] = []
  sound_nil : ¬ corrupt []
  corrupt_append : ∀ {x} z, corrupt x → corrupt (x ++ z)
  result_append : ∀ x z, result x <+: result (x ++ z)
  prefix_result : ∀ {s x rest y}, Live s x rest y → y <+: result x
  offer : ∀ {s x} z, Settled s x → Live s (x ++ z) z (result x)
  step : ∀ {s x rest y room}, Live s x rest y → 0 < room →
    failed (call s rest room).status = true ∧ corrupt x ∨
      failed (call s rest room).status = false ∧ (call s rest room).out.length ≤ room ∧
        Live (call s rest room).next x (rest.drop (call s rest room).taken)
          (y ++ (call s rest room).out) ∧
        ((call s rest room).out.length < room → Settled (call s rest room).next x ∧
          y ++ (call s rest room).out = result x ∧ ¬ corrupt x)

variable {start : S} {call : S → List α → Nat → Call S β R} {failed : R → Bool}
  {result : List α → List β} {corrupt : List α → Prop} {size : Nat}

/-- The decoder puts out all that its input decodes to, or fails on it. -/
theorem Decodes.pump_all (d : Decodes start call failed result corrupt)
    (again : R → Nat → List α → Bool)
    (goes : ∀ status room rest, again status room rest = true ↔ failed status = false ∧ room = 0)
    {s : S} {x rest : List α} {y : List β} (live : d.Live s x rest y) (positive : 0 < size) :
    ∃ enough w rest' status, (∀ fuel, enough ≤ fuel →
      pump call size again fuel ⟨s, [], []⟩ rest = some (w, rest', status)) ∧
        (failed status = true ∧ corrupt x ∨ failed status = false ∧ ¬ corrupt x ∧
          y ++ w.output = result x ∧ d.Settled w.stream x) := by
  have start : d.Live s x rest (y ++ (⟨s, [], []⟩ : Window S β).output) := by
    change d.Live s x rest (y ++ [])
    rw [List.append_nil]
    exact live
  have run := pump_total call size again
    (fun w rest => d.Live w.stream x rest (y ++ w.output) ∧ w.held = [])
    (fun w _ status => failed status = true ∧ corrupt x ∨ failed status = false ∧
      ¬ corrupt x ∧ y ++ w.output = result x ∧ d.Settled w.stream x)
    (fun w _ => (result x).length - (y ++ w.output).length) ?_ (w := ⟨s, [], []⟩) ⟨start, rfl⟩
  · exact ⟨_, run⟩
  · rintro w rest ⟨live, empty⟩
    have room : 0 < size - w.held.length := by
      rw [empty]
      exact positive
    have outcome := d.step live room
    dsimp only
    generalize call w.stream rest (size - w.held.length) = c at outcome
    rcases outcome with ⟨fails, bad⟩ | ⟨works, within, next, settled⟩
    · rw [if_neg fun more => absurd ((goes _ _ _).mp more).1 (by rw [fails]; decide)]
      exact .inl ⟨fails, bad⟩
    · have all : y ++ (w.after c).output = y ++ w.output ++ c.out := by
        rw [Window.output_after, List.append_assoc]
      have longer : (y ++ w.output ++ c.out).length = (y ++ w.output).length + c.out.length :=
        List.length_append
      have held : (w.after c).held.length = c.out.length := by simp [Window.after, empty]
      rw [empty] at within settled
      split
      · rename_i more
        have full := ((goes _ _ _).mp more).2
        rw [held] at full
        have grown := (d.prefix_result next).length_le
        rw [Window.output_flush, all]
        exact ⟨⟨next, rfl⟩, by simp only [List.length_nil] at within; omega⟩
      · rename_i stops
        have part : c.out.length < size := by
          rw [goes, held] at stops
          exact Nat.lt_of_not_le fun most => stops ⟨works, Nat.sub_eq_zero_of_le most⟩
        obtain ⟨ready, done, sound⟩ := settled part
        exact .inr ⟨works, sound, all.trans done, ready⟩

end Decoders

end Cgimap.Library.StreamCoder
