/- path: Cgimap/Library/JsonTree
   generality: G
   source: none
   digest: JSON values, and generators that pass over the calls they refuse. -/

import Mathlib.Data.List.Basic

/-!
`Gen` says which calls make a value. It keeps the containers that are still open, innermost
first. What is no string is refused where a key is due, and every call behind the end of the
value. What is closed is not looked at: a key without a value, or the end of the wrong
container, spoils the text. A `Generator` is what a library offers, and writes the value as a
text.
-/

set_option autoImplicit false
set_option relaxedAutoImplicit false

namespace Cgimap.Library.JsonTree

/-- A value; a number is the text of it. -/
inductive Json where
  | string (s : String)
  | number (text : String)
  | bool (b : Bool)
  | array (items : List Json)
  | object (entries : List (String × Json))

inductive GenCall where
  | string (s : String)
  | number (text : String)
  | bool (b : Bool)
  | mapOpen
  | mapClose
  | arrayOpen
  | arrayClose
  deriving DecidableEq

/-- The calls for a map, given the calls for its entries. -/
def objectCalls (inner : List GenCall) : List GenCall := .mapOpen :: (inner ++ [.mapClose])

def arrayCalls (inner : List GenCall) : List GenCall := .arrayOpen :: (inner ++ [.arrayClose])

/-- A container that is still open; a map may have a key that waits for its value. -/
inductive Frame where
  | map (entries : List (String × Json)) (key : Option String)
  | array (items : List Json)

inductive Gen where
  | generating (frames : List Frame)
  | complete (value : Json)
  | spoiled

def Gen.start : Gen := .generating []

section Steps

/-- A value is put where the generator stands. In a map without a key it is refused. -/
def put (value : Json) : List Frame → Gen
  | [] => .complete value
  | .array items :: rest => .generating (.array (items ++ [value]) :: rest)
  | .map entries (some key) :: rest => .generating (.map (entries ++ [(key, value)]) none :: rest)
  | .map entries none :: rest => .generating (.map entries none :: rest)

/-- A container is opened; in a map without a key this is refused. -/
def opened (f : Frame) : List Frame → Gen
  | .map entries none :: rest => .generating (.map entries none :: rest)
  | frames => .generating (f :: frames)

def putString (s : String) : List Frame → Gen
  | .map entries none :: rest => .generating (.map entries (some s) :: rest)
  | frames => put (.string s) frames

def closeMap : List Frame → Gen
  | .map entries none :: rest => put (.object entries) rest
  | _ => .spoiled

def closeArray : List Frame → Gen
  | .array items :: rest => put (.array items) rest
  | _ => .spoiled

def Gen.step : Gen → GenCall → Gen
  | .complete value, _ => .complete value
  | .spoiled, _ => .spoiled
  | .generating frames, .string s => putString s frames
  | .generating frames, .number text => put (.number text) frames
  | .generating frames, .bool b => put (.bool b) frames
  | .generating frames, .mapOpen => opened (.map [] none) frames
  | .generating frames, .mapClose => closeMap frames
  | .generating frames, .arrayOpen => opened (.array []) frames
  | .generating frames, .arrayClose => closeArray frames

def Gen.run (g : Gen) (calls : List GenCall) : Gen := calls.foldl Gen.step g

end Steps

section Runs

def Ready : List Frame → Prop
  | .map _ none :: _ => False
  | _ => True

theorem ready_array (items : List Json) (rest : List Frame) : Ready (.array items :: rest) := trivial

theorem ready_key (entries : List (String × Json)) (key : String) (rest : List Frame) :
    Ready (.map entries (some key) :: rest) := trivial

theorem run_append (g : Gen) (calls calls' : List GenCall) :
    g.run (calls ++ calls') = (g.run calls).run calls' := List.foldl_append

theorem run_cons (g : Gen) (call : GenCall) (calls : List GenCall) :
    g.run (call :: calls) = (g.step call).run calls := rfl

theorem run_complete (value : Json) (calls : List GenCall) :
    Gen.run (.complete value) calls = .complete value := by
  induction calls with
  | nil => rfl
  | cons call calls ih => exact ih

theorem run_spoiled (calls : List GenCall) : Gen.run .spoiled calls = .spoiled := by
  induction calls with
  | nil => rfl
  | cons call calls ih => exact ih

theorem opened_of_ready {f : Frame} {frames : List Frame} (ready : Ready frames) :
    opened f frames = .generating (f :: frames) := by
  unfold opened
  split
  · exact ready.elim
  · rfl

/-- Calls that put one value where a value may stand. -/
def Puts (calls : List GenCall) (value : Json) : Prop :=
  ∀ frames, Ready frames → Gen.run (.generating frames) calls = put value frames

/-- Calls that add elements to an array. -/
def PutsItems (calls : List GenCall) (items : List Json) : Prop :=
  ∀ before rest, Gen.run (.generating (.array before :: rest)) calls =
    .generating (.array (before ++ items) :: rest)

/-- Calls that add entries to a map. -/
def PutsEntries (calls : List GenCall) (entries : List (String × Json)) : Prop :=
  ∀ before rest, Gen.run (.generating (.map before none :: rest)) calls =
    .generating (.map (before ++ entries) none :: rest)

theorem Puts.string (s : String) : Puts [.string s] (.string s) := by
  intro frames ready
  change putString s frames = put (.string s) frames
  unfold putString
  split
  · exact ready.elim
  · rfl

theorem Puts.number (text : String) : Puts [.number text] (.number text) := fun _ _ => rfl

theorem Puts.bool (b : Bool) : Puts [.bool b] (.bool b) := fun _ _ => rfl

theorem PutsItems.nil : PutsItems [] [] := fun before rest => by rw [List.append_nil]; rfl

theorem PutsItems.append {calls calls' : List GenCall} {items items' : List Json}
    (first : PutsItems calls items) (next : PutsItems calls' items') :
    PutsItems (calls ++ calls') (items ++ items') := by
  intro before rest
  rw [run_append, first, next, List.append_assoc]

theorem PutsItems.of_puts {calls : List GenCall} {value : Json} (puts : Puts calls value) :
    PutsItems calls [value] := fun before rest => puts _ (ready_array before rest)

theorem PutsItems.flatMap {α : Type} {calls : α → List GenCall} {value : α → Json}
    (each : ∀ a, Puts (calls a) (value a)) (l : List α) :
    PutsItems (l.flatMap calls) (l.map value) := by
  induction l with
  | nil => exact .nil
  | cons a l ih =>
      rw [List.flatMap_cons, List.map_cons, ← List.singleton_append]
      exact (PutsItems.of_puts (each a)).append ih

theorem PutsEntries.nil : PutsEntries [] [] := fun before rest => by rw [List.append_nil]; rfl

theorem PutsEntries.append {calls calls' : List GenCall} {entries entries' : List (String × Json)}
    (first : PutsEntries calls entries) (next : PutsEntries calls' entries') :
    PutsEntries (calls ++ calls') (entries ++ entries') := by
  intro before rest
  rw [run_append, first, next, List.append_assoc]

theorem PutsEntries.refused : PutsEntries [.mapOpen] [] :=
  fun before rest => by rw [List.append_nil]; rfl

theorem PutsEntries.entry (key : String) {calls : List GenCall} {value : Json}
    (puts : Puts calls value) : PutsEntries (.string key :: calls) [(key, value)] :=
  fun before rest => puts _ (ready_key before key rest)

theorem PutsEntries.flatMap {α : Type} {calls : α → List GenCall} {entries : α → List (String × Json)}
    (each : ∀ a, PutsEntries (calls a) (entries a)) (l : List α) :
    PutsEntries (l.flatMap calls) (l.flatMap entries) := by
  induction l with
  | nil => exact .nil
  | cons a l ih =>
      rw [List.flatMap_cons, List.flatMap_cons]
      exact (each a).append ih

theorem Puts.array {calls : List GenCall} {items : List Json} (inner : PutsItems calls items) :
    Puts (arrayCalls calls) (.array items) := by
  intro frames ready
  have start : Gen.step (.generating frames) .arrayOpen = .generating (.array [] :: frames) :=
    opened_of_ready ready
  rw [arrayCalls, run_cons, start, run_append, inner, List.nil_append]
  rfl

theorem Puts.object {calls : List GenCall} {entries : List (String × Json)}
    (inner : PutsEntries calls entries) : Puts (objectCalls calls) (.object entries) := by
  intro frames ready
  have start : Gen.step (.generating frames) .mapOpen = .generating (.map [] none :: frames) :=
    opened_of_ready ready
  rw [objectCalls, run_cons, start, run_append, inner, List.nil_append]
  rfl

theorem run_value {calls : List GenCall} {value : Json} (puts : Puts calls value)
    (more : List GenCall) : Gen.start.run (calls ++ more) = .complete value := by
  have whole : Gen.start.run calls = .complete value := puts [] trivial
  rw [run_append, whole, run_complete]

end Runs

section Values

/-- Some of the texts that are numbers. -/
def IsNumber (text : String) : Prop :=
  ∃ (sign : String) (whole : Nat) (fraction : List Char),
    (sign = "" ∨ sign = "-") ∧ (∀ c ∈ fraction, c.isDigit = true) ∧
      text = sign ++ toString whole ++
        (if fraction = [] then "" else "." ++ String.ofList fraction)

/-- Arrays and objects are nested at most so deep, and the numbers are numbers. -/
def Fits : Nat → Json → Prop
  | _, .string _ => True
  | _, .number text => IsNumber text
  | _, .bool _ => True
  | 0, .array _ => False
  | 0, .object _ => False
  | d + 1, .array items => ∀ item ∈ items, Fits d item
  | d + 1, .object entries => ∀ entry ∈ entries, Fits d entry.2

variable {d : Nat}

@[simp] theorem fits_string (s : String) : Fits d (.string s) := by
  cases d <;> trivial

@[simp] theorem fits_number (text : String) : Fits d (.number text) ↔ IsNumber text := by
  cases d <;> exact Iff.rfl

@[simp] theorem fits_bool (b : Bool) : Fits d (.bool b) := by
  cases d <;> trivial

theorem fits_array (items : List Json) :
    Fits (d + 1) (.array items) ↔ ∀ item ∈ items, Fits d item := Iff.rfl

theorem fits_map {α : Type} {value : α → Json} (each : ∀ a, Fits d (value a)) (l : List α) :
    Fits (d + 1) (.array (l.map value)) :=
  List.forall_mem_map.mpr fun a _ => each a

/-- All values of some entries fit. -/
def AllFit (d : Nat) (entries : List (String × Json)) : Prop := ∀ entry ∈ entries, Fits d entry.2

@[simp] theorem allFit_nil : AllFit d [] := List.forall_mem_nil _

@[simp] theorem allFit_cons (key : String) (value : Json) (entries : List (String × Json)) :
    AllFit d ((key, value) :: entries) ↔ Fits d value ∧ AllFit d entries := List.forall_mem_cons

@[simp] theorem allFit_append (entries entries' : List (String × Json)) :
    AllFit d (entries ++ entries') ↔ AllFit d entries ∧ AllFit d entries' := List.forall_mem_append

@[simp] theorem fits_object (entries : List (String × Json)) :
    Fits (d + 1) (.object entries) ↔ AllFit d entries := Iff.rfl

@[simp] theorem isNumber_nat (n : Nat) : IsNumber (toString n) := by
  refine ⟨"", n, [], .inl rfl, List.forall_mem_nil _, ?_⟩
  simp

@[simp] theorem isNumber_int (n : Int) : IsNumber (toString n) := by
  cases n with
  | ofNat n => exact isNumber_nat n
  | negSucc n =>
      refine ⟨"-", n + 1, [], .inr rfl, List.forall_mem_nil _, ?_⟩
      simp only [if_true, String.append_empty]
      rfl

end Values

section Generators

variable {β : Type}

/-- A library that writes values: what it writes for each call. -/
structure Generator (β : Type) where
  State : Type
  start : State
  call : State → GenCall → State × List β

namespace Generator

variable (g : Generator β)

def run (s : g.State) : List GenCall → List β
  | [] => []
  | call :: calls => (g.call s call).2 ++ run (g.call s call).1 calls

def text (calls : List GenCall) : List β := g.run g.start calls

/-- The generator keeps the rules of `Gen`: calls that make a value are written as a text of it,
if it is not nested too deep and its numbers are numbers. -/
def Faithful (depth : Nat) (parse : List β → Option Json) : Prop :=
  ∀ calls value, Gen.start.run calls = .complete value → Fits depth value →
    parse (g.text calls) = some value

end Generator

/-- A generator that hands the value out when it is complete. -/
def valueGenerator : Generator Json where
  State := Gen
  start := .start
  call s call :=
    (s.step call,
      match s, s.step call with
      | .generating _, .complete value => [value]
      | _, _ => [])

def readValue : List Json → Option Json
  | [value] => some value
  | _ => none

private theorem run_valueGenerator (calls : List GenCall) {value : Json} :
    valueGenerator.run (.complete value) calls = [] ∧
      ∀ frames, Gen.run (.generating frames) calls = .complete value →
        valueGenerator.run (.generating frames) calls = [value] := by
  induction calls with
  | nil => exact ⟨rfl, fun frames complete => Gen.noConfusion complete⟩
  | cons call calls ih =>
      refine ⟨ih.1, fun frames complete => ?_⟩
      rw [run_cons] at complete
      change (valueGenerator.call (.generating frames) call).2 ++
        valueGenerator.run (Gen.step (.generating frames) call) calls = [value]
      cases next : Gen.step (.generating frames) call with
      | generating frames' =>
          have silent : (valueGenerator.call (.generating frames) call).2 = [] := by
            simp [valueGenerator, next]
          rw [next] at complete
          rw [silent, ih.2 frames' complete]
          rfl
      | complete value' =>
          have handed : (valueGenerator.call (.generating frames) call).2 = [value'] := by
            simp [valueGenerator, next]
          rw [next, run_complete] at complete
          cases complete
          rw [handed, ih.1]
          rfl
      | spoiled =>
          rw [next, run_spoiled] at complete
          cases complete

theorem faithful_valueGenerator (depth : Nat) : valueGenerator.Faithful depth readValue := by
  intro calls value complete _
  have text : valueGenerator.text calls = [value] := (run_valueGenerator calls).2 [] complete
  rw [text]
  rfl

end Generators

section Reading

def Json.items : Json → List Json
  | .array items => items
  | _ => []

def Json.entries : Json → List (String × Json)
  | .object entries => entries
  | _ => []

def Json.text : Json → String
  | .string s => s
  | .number text => text
  | _ => ""

end Reading

end Cgimap.Library.JsonTree
