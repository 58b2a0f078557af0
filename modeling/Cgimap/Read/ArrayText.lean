/- path: Cgimap/Read/ArrayText
   generality: I
   source: src/backend/apidb/utils.cpp
   digest: Arrays as PostgreSQL prints them, and the two functions that read them back. -/

import Cgimap.Library.ExceptLists
import Cgimap.Osmchange.Attributes
import Mathlib.Data.List.TakeWhile

set_option autoImplicit false
set_option relaxedAutoImplicit false

namespace Cgimap.Read.ArrayText

open Cgimap.Library.ExceptLists
open Cgimap.Model.Types
open Cgimap.Osmchange.Attributes

section Printing

/-- The characters that make `array_out` put an element in quotes. -/
def quotedChars : List Char :=
  [',', '"', '\\', '{', '}', ' ', '\t', '\n', '\r', '\x0b', '\x0c']

def needsQuotes (s : List Char) : Bool :=
  s.isEmpty || decide (s.map Char.toUpper = "NULL".toList) || s.any (fun c => quotedChars.contains c)

def escape (s : List Char) : List Char :=
  s.flatMap (fun c => if c = '"' ∨ c = '\\' then ['\\', c] else [c])

def elementText (s : List Char) : List Char :=
  if needsQuotes s then '"' :: (escape s ++ ['"']) else s

/-- What follows the opening brace. -/
def elementsText : List String → List Char
  | [] => ['}']
  | [s] => elementText s.toList ++ ['}']
  | s :: ss => elementText s.toList ++ ',' :: elementsText ss

def arrayOut (elems : List String) : List Char := '{' :: elementsText elems

/-- The text of an `array_agg` column over a subquery. Without rows the column is null,
which reads as the empty text. -/
def arrayAgg (elems : List String) : List Char := if elems = [] then [] else arrayOut elems

/-- The same over a left join, where no match still makes one row of nulls. -/
def arrayAggJoined (elems : List String) : List Char :=
  if elems = [] then "{NULL}".toList else arrayOut elems

end Printing

section Reading

/-- The variables of the loop in `psql_array_to_vector`. -/
structure ArrayState where
  strs : List String
  value : List Char
  quotedValue : Bool
  escaped : Bool

namespace ArrayState

def append (st : ArrayState) (c : Char) : ArrayState := { st with value := st.value ++ [c] }

def write (st : ArrayState) : ArrayState :=
  { st with strs := st.strs ++ [String.ofList st.value], value := [] }

def step (st : ArrayState) (c : Char) : ArrayState :=
  if c = ',' then
    if st.quotedValue then st.append ',' else st.write
  else if c = '"' then
    if st.escaped then { st.append '"' with escaped := false }
    else { st with quotedValue := !st.quotedValue }
  else if c = '\\' then
    if st.escaped then { st.append '\\' with escaped := false }
    else { st with escaped := true }
  else if c = '}' then
    if st.quotedValue then st.append '}' else st.write
  else st.append c

end ArrayState

def psqlArrayToVector (str : List Char) : List String :=
  if str = "{NULL}".toList ∨ str = [] then []
  else (str.tail.foldl ArrayState.step ⟨[], [], false, false⟩).strs

/-- `std::from_chars` for `uint64_t`. -/
def fromCharsUnsigned (s : List Char) : Option Nat :=
  let digits := s.takeWhile Char.isDigit
  if digits = [] then none
  else if digitsValue digits < 2 ^ 64 then some (digitsValue digits) else none

/-- One character in `psql_array_ids_to_vector`, with the ones since `start_offset`. -/
def idStep (st : List Nat × List Char) (c : Char) : Except Exception (List Nat × List Char) :=
  if c = ',' ∨ c = '}' then
    match fromCharsUnsigned st.2 with
    | none => .error (.std "Conversion to integer failed")
    | some id => .ok (st.1 ++ [id], [])
  else .ok (st.1, st.2 ++ [c])

def psqlArrayIdsToVector (str : List Char) : Except Exception (List Nat) :=
  if str = "{NULL}".toList ∨ str = [] then .ok []
  else do
    let st ← str.tail.foldlM idStep ([], [])
    .ok st.1

end Reading

section Strings

variable (strs : List String) (value : List Char)

theorem foldl_escape (s : List Char) :
    (escape s).foldl ArrayState.step ⟨strs, value, true, false⟩ =
      ⟨strs, value ++ s, true, false⟩ := by
  induction s generalizing value with
  | nil => simp [escape]
  | cons c s ih =>
      have head : escape (c :: s) =
          (if c = '"' ∨ c = '\\' then ['\\', c] else [c]) ++ escape s := rfl
      have one : (if c = '"' ∨ c = '\\' then ['\\', c] else [c]).foldl ArrayState.step
          ⟨strs, value, true, false⟩ = ⟨strs, value ++ [c], true, false⟩ := by
        by_cases quote : c = '"'
        · subst quote
          rfl
        · by_cases backslash : c = '\\'
          · subst backslash
            rfl
          · rw [if_neg (by simp [quote, backslash])]
            by_cases comma : c = ','
            · subst comma
              rfl
            · by_cases brace : c = '}'
              · subst brace
                rfl
              · simp [ArrayState.step, ArrayState.append, quote, backslash, comma, brace]
      rw [head, List.foldl_append, one, ih, List.append_assoc]
      rfl

private theorem foldl_plain {s : List Char} (plain : ∀ c ∈ s, c ∉ quotedChars) :
    s.foldl ArrayState.step ⟨strs, value, false, false⟩ = ⟨strs, value ++ s, false, false⟩ := by
  induction s generalizing value with
  | nil => simp
  | cons c s ih =>
      obtain ⟨here, rest⟩ := List.forall_mem_cons.mp plain
      have other : c ≠ ',' ∧ c ≠ '"' ∧ c ≠ '\\' ∧ c ≠ '}' := by
        refine ⟨?_, ?_, ?_, ?_⟩ <;>
          exact fun same => here (by rw [same]; decide)
      have one : ArrayState.step ⟨strs, value, false, false⟩ c =
          ⟨strs, value ++ [c], false, false⟩ := by
        simp [ArrayState.step, ArrayState.append, other]
      rw [List.foldl_cons, one, ih _ rest, List.append_assoc]
      rfl

theorem foldl_elementText (s : List Char) :
    (elementText s).foldl ArrayState.step ⟨strs, [], false, false⟩ =
      ⟨strs, s, false, false⟩ := by
  unfold elementText
  split
  · have opened : ArrayState.step ⟨strs, [], false, false⟩ '"' = ⟨strs, [], true, false⟩ := rfl
    have closed : ArrayState.step ⟨strs, s, true, false⟩ '"' = ⟨strs, s, false, false⟩ := rfl
    rw [List.foldl_cons, opened, List.foldl_append, foldl_escape, List.nil_append,
      List.foldl_cons, closed, List.foldl_nil]
  · rename_i plain
    rw [foldl_plain strs [] (s := s)]
    · rfl
    · intro c member special
      apply plain
      simp only [needsQuotes, Bool.or_eq_true, List.any_eq_true]
      exact Or.inr ⟨c, member, by simpa using special⟩

private theorem foldl_elementsText (ss : List String) (nonempty : ss ≠ []) :
    (elementsText ss).foldl ArrayState.step ⟨strs, [], false, false⟩ =
      ⟨strs ++ ss, [], false, false⟩ := by
  induction ss generalizing strs with
  | nil => exact absurd rfl nonempty
  | cons s ss ih =>
      cases ss with
      | nil =>
          rw [elementsText, List.foldl_append, foldl_elementText]
          simp [ArrayState.step, ArrayState.write]
      | cons s' ss =>
          have written : ArrayState.step ⟨strs, s.toList, false, false⟩ ',' =
              ⟨strs ++ [s], [], false, false⟩ := by
            simp [ArrayState.step, ArrayState.write]
          rw [elementsText, List.foldl_append, foldl_elementText, List.foldl_cons, written,
            ih _ (List.cons_ne_nil s' ss), List.append_assoc]
          · rfl
          · exact List.cons_ne_nil s' ss

private theorem elementText_ne_null (s : List Char) : elementText s ≠ "NULL".toList := by
  unfold elementText
  split
  · intro same
    have first := congrArg List.head? same
    simp at first
  · rename_i plain
    intro same
    apply plain
    rw [same]
    decide

private theorem arrayOut_ne_null {ss : List String} (nonempty : ss ≠ []) :
    arrayOut ss ≠ "{NULL}".toList := by
  intro same
  have rest : elementsText ss = "NULL".toList ++ ['}'] := by
    simpa [arrayOut] using same
  cases ss with
  | nil => exact nonempty rfl
  | cons s ss =>
      cases ss with
      | nil => exact elementText_ne_null s.toList (List.append_cancel_right rest)
      | cons s' ss =>
          have read := foldl_elementsText [] (s :: s' :: ss) (List.cons_ne_nil _ _)
          rw [rest] at read
          have counted := congrArg (fun st => st.strs.length) read
          simp [ArrayState.step, ArrayState.append, ArrayState.write] at counted

theorem psqlArrayToVector_arrayOut {ss : List String} (nonempty : ss ≠ []) :
    psqlArrayToVector (arrayOut ss) = ss := by
  unfold psqlArrayToVector
  rw [if_neg]
  · change ((elementsText ss).foldl ArrayState.step ⟨[], [], false, false⟩).strs = ss
    rw [foldl_elementsText [] ss nonempty]
    rfl
  · rintro (null | empty)
    · exact arrayOut_ne_null nonempty null
    · exact absurd empty (List.cons_ne_nil _ _)

theorem psqlArrayToVector_arrayAgg (ss : List String) : psqlArrayToVector (arrayAgg ss) = ss := by
  unfold arrayAgg
  split
  · rename_i empty
    rw [empty]
    rfl
  · rename_i nonempty
    exact psqlArrayToVector_arrayOut nonempty

theorem psqlArrayToVector_arrayAggJoined (ss : List String) :
    psqlArrayToVector (arrayAggJoined ss) = ss := by
  unfold arrayAggJoined
  split
  · rename_i empty
    rw [empty]
    rfl
  · rename_i nonempty
    exact psqlArrayToVector_arrayOut nonempty

example : psqlArrayToVector (arrayOut ["a,b", "", "null", "say \"\x7d\""]) =
    ["a,b", "", "null", "say \"\x7d\""] := by decide +kernel

end Strings

section Ids

theorem digitsValue_toDigits (n : Nat) : digitsValue (Nat.toDigits 10 n) = n := by
  have value := Nat.ofDigitChars_toDigits (b := 10) (n := n) (by decide) (by decide)
  rwa [Nat.ofDigitChars_eq_foldl] at value

theorem isDigit_of_mem {n : Nat} {c : Char} (member : c ∈ Nat.toDigits 10 n) :
    c.isDigit = true :=
  Nat.isDigit_of_mem_toDigits (by decide) (by decide) member

theorem fromCharsUnsigned_toDigits {n : Nat} (small : n < 2 ^ 64) :
    fromCharsUnsigned (Nat.toDigits 10 n) = some n := by
  have all : (Nat.toDigits 10 n).takeWhile Char.isDigit = Nat.toDigits 10 n :=
    List.takeWhile_eq_self_iff.mpr fun c member => isDigit_of_mem member
  unfold fromCharsUnsigned
  rw [all]
  simp only [Nat.toDigits_ne_nil, if_false, digitsValue_toDigits, small, if_true]

private theorem not_separator_of_isDigit {c : Char} (digit : c.isDigit = true) :
    ¬ (c = ',' ∨ c = '}') := by
  rintro (rfl | rfl) <;> exact absurd digit (by decide)

private theorem foldlM_digits {ids : List Nat} {sofar s : List Char}
    (digits : ∀ c ∈ s, c.isDigit = true) :
    s.foldlM idStep (ids, sofar) = .ok (ids, sofar ++ s) := by
  induction s generalizing sofar with
  | nil => simp [pure, Except.pure]
  | cons c s ih =>
      obtain ⟨here, rest⟩ := List.forall_mem_cons.mp digits
      have one : idStep (ids, sofar) c = .ok (ids, sofar ++ [c]) := by
        rw [idStep, if_neg (not_separator_of_isDigit here)]
      rw [List.foldlM_cons, one]
      change s.foldlM idStep (ids, sofar ++ [c]) = _
      rw [ih rest, List.append_assoc]
      rfl

private theorem elementText_toString (n : Nat) :
    elementText (toString n).toList = Nat.toDigits 10 n := by
  have text : (toString n).toList = Nat.toDigits 10 n := by
    rw [Nat.toString_eq_ofList_toDigits, String.toList_ofList]
  rw [text, elementText, if_neg]
  simp only [needsQuotes, Bool.or_eq_true, not_or, Bool.not_eq_true]
  refine ⟨⟨?_, ?_⟩, ?_⟩
  · rw [List.isEmpty_eq_false_iff]
    exact Nat.toDigits_ne_nil
  · rw [decide_eq_false_iff_not]
    intro null
    have letter : 'N' ∈ (Nat.toDigits 10 n).map Char.toUpper := by
      rw [null]
      decide
    obtain ⟨c, member, upper⟩ := List.mem_map.mp letter
    have digit := isDigit_of_mem member
    rw [Char.isDigit, Bool.and_eq_true, decide_eq_true_eq, decide_eq_true_eq] at digit
    have plain : c.toUpper = c := by
      unfold Char.toUpper
      rw [dif_neg]
      rintro ⟨low, -⟩
      have : (97 : UInt32) ≤ c.val := low
      have bound := digit.2
      rw [UInt32.le_iff_toNat_le] at this bound
      have : (97 : Nat) ≤ 57 := this.trans bound
      omega
    rw [plain] at upper
    subst upper
    exact absurd digit.2 (by decide)
  · rw [List.any_eq_false]
    intro c member
    have digit := isDigit_of_mem member
    intro special
    have inside : c ∈ quotedChars := by simpa using special
    have all : quotedChars.all (fun d => !d.isDigit) = true := by decide
    have none : c.isDigit = false := by simpa using List.all_eq_true.mp all c inside
    rw [none] at digit
    cases digit

private theorem foldlM_elementsText {ids sofar : List Nat} (nonempty : ids ≠ [])
    (small : ∀ id ∈ ids, id < 2 ^ 64) :
    (elementsText (ids.map toString)).foldlM idStep (sofar, []) = .ok (sofar ++ ids, []) := by
  induction ids generalizing sofar with
  | nil => exact absurd rfl nonempty
  | cons id ids ih =>
      obtain ⟨here, rest⟩ := List.forall_mem_cons.mp small
      have digits : (Nat.toDigits 10 id).foldlM idStep (sofar, []) =
          .ok (sofar, Nat.toDigits 10 id) :=
        foldlM_digits fun c member => isDigit_of_mem member
      have ended : ∀ c, (c = ',' ∨ c = '}') →
          idStep (sofar, Nat.toDigits 10 id) c = .ok (sofar ++ [id], []) := by
        intro c separator
        rw [idStep, if_pos separator]
        simp only [fromCharsUnsigned_toDigits here]
      cases ids with
      | nil =>
          rw [List.map_cons, List.map_nil, elementsText, elementText_toString,
            List.foldlM_append, digits]
          change [ '}' ].foldlM idStep (sofar, Nat.toDigits 10 id) = _
          rw [List.foldlM_cons, ended '}' (Or.inr rfl)]
          rfl
      | cons id' ids =>
          have next := @ih (sofar ++ [id]) (List.cons_ne_nil id' ids) rest
          rw [List.map_cons, List.map_cons, elementsText, elementText_toString,
            List.foldlM_append, digits]
          · change (',' :: elementsText ((id' :: ids).map toString)).foldlM idStep
              (sofar, Nat.toDigits 10 id) = _
            rw [List.foldlM_cons, ended ',' (Or.inl rfl)]
            change (elementsText ((id' :: ids).map toString)).foldlM idStep (sofar ++ [id], []) = _
            rw [next, List.append_assoc]
            rfl
          · exact List.cons_ne_nil _ _

/-- The ids of an aggregated column are read back when each fits an unsigned 64-bit
number. -/
theorem psqlArrayIdsToVector_arrayAgg {ids : List Nat} (small : ∀ id ∈ ids, id < 2 ^ 64) :
    psqlArrayIdsToVector (arrayAgg (ids.map toString)) = .ok ids := by
  unfold arrayAgg
  split
  · rename_i empty
    rw [List.map_eq_nil_iff.mp empty]
    rfl
  · rename_i nonempty
    have some : ids ≠ [] := fun none => nonempty (by rw [none]; rfl)
    unfold psqlArrayIdsToVector
    rw [if_neg]
    · change (do
        let st ← (elementsText (ids.map toString)).foldlM idStep ([], [])
        Except.ok st.1) = _
      rw [foldlM_elementsText some small]
      rfl
    · rintro (null | blank)
      · exact arrayOut_ne_null nonempty null
      · exact absurd blank (List.cons_ne_nil _ _)

private theorem fromCharsUnsigned_eq_some {n m : Nat}
    (read : fromCharsUnsigned (Nat.toDigits 10 n) = some m) : n < 2 ^ 64 ∧ m = n := by
  by_cases small : n < 2 ^ 64
  · rw [fromCharsUnsigned_toDigits small, Option.some.injEq] at read
    exact ⟨small, read.symm⟩
  · have all : (Nat.toDigits 10 n).takeWhile Char.isDigit = Nat.toDigits 10 n :=
      List.takeWhile_eq_self_iff.mpr fun c member => isDigit_of_mem member
    unfold fromCharsUnsigned at read
    rw [all] at read
    simp only [Nat.toDigits_ne_nil, if_false, digitsValue_toDigits, small] at read
    cases read

private theorem small_of_foldlM {ids sofar : List Nat} {st : List Nat × List Char}
    (read : (elementsText (ids.map toString)).foldlM idStep (sofar, []) = .ok st) :
    ∀ id ∈ ids, id < 2 ^ 64 := by
  induction ids generalizing sofar with
  | nil => exact nofun
  | cons id ids ih =>
      have digits : (Nat.toDigits 10 id).foldlM idStep (sofar, []) =
          .ok (sofar, Nat.toDigits 10 id) :=
        foldlM_digits fun c member => isDigit_of_mem member
      have ended : ∀ c st', (c = ',' ∨ c = '}') →
          idStep (sofar, Nat.toDigits 10 id) c = .ok st' → id < 2 ^ 64 ∧ st' = (sofar ++ [id], []) := by
        intro c st' separator done
        rw [idStep, if_pos separator] at done
        cases value : fromCharsUnsigned (Nat.toDigits 10 id) with
        | none =>
            simp only [value] at done
            cases done
        | some m =>
            simp only [value] at done
            cases done
            obtain ⟨small, rfl⟩ := fromCharsUnsigned_eq_some value
            exact ⟨small, rfl⟩
      cases ids with
      | nil =>
          rw [List.map_cons, List.map_nil, elementsText, elementText_toString,
            List.foldlM_append, digits] at read
          change [ '}' ].foldlM idStep (sofar, Nat.toDigits 10 id) = _ at read
          rw [List.foldlM_cons] at read
          obtain ⟨st', one, -⟩ := bind_eq_ok.mp read
          simpa using (ended _ _ (Or.inr rfl) one).1
      | cons id' ids =>
          rw [List.map_cons, List.map_cons, elementsText, elementText_toString,
            List.foldlM_append, digits] at read
          · change (',' :: elementsText ((id' :: ids).map toString)).foldlM idStep
              (sofar, Nat.toDigits 10 id) = _ at read
            rw [List.foldlM_cons] at read
            obtain ⟨st', one, rest⟩ := bind_eq_ok.mp read
            obtain ⟨small, rfl⟩ := ended _ _ (Or.inl rfl) one
            exact List.forall_mem_cons.mpr ⟨small, ih rest⟩
          · exact List.cons_ne_nil _ _

theorem small_of_psqlArrayIdsToVector {ids read : List Nat}
    (done : psqlArrayIdsToVector (arrayAgg (ids.map toString)) = .ok read) :
    ∀ id ∈ ids, id < 2 ^ 64 := by
  unfold arrayAgg at done
  split at done
  · rename_i empty
    rw [List.map_eq_nil_iff.mp empty]
    exact nofun
  · rename_i nonempty
    unfold psqlArrayIdsToVector at done
    rw [if_neg] at done
    · obtain ⟨st, folded, -⟩ := bind_eq_ok.mp done
      exact small_of_foldlM folded
    · rintro (null | blank)
      · exact arrayOut_ne_null nonempty null
      · exact absurd blank (List.cons_ne_nil _ _)

end Ids

end Cgimap.Read.ArrayText
