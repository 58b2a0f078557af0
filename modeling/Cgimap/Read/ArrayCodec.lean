/- path: Cgimap/Read/ArrayCodec
   generality: I
   source: include/cgimap/util.hpp, include/cgimap/backend/apidb/pqxx_string_traits.hpp, src/backend/apidb/utils.cpp
   digest: Arrays that the two readers give back, whoever has written them. -/

import Cgimap.Library.ExceptLists
import Cgimap.Read.DataSelection

set_option autoImplicit false
set_option relaxedAutoImplicit false

namespace Cgimap.Read.ArrayCodec

open Cgimap.Library.ExceptLists
open Cgimap.Model.Types
open Cgimap.Osmchange.Attributes
open Cgimap.Read.ArrayText (ArrayState arrayOut elementText elementsText needsQuotes quotedChars
  psqlArrayToVector psqlArrayIdsToVector fromCharsUnsigned idStep foldl_escape foldl_elementText
  psqlArrayToVector_arrayOut digitsValue_toDigits isDigit_of_mem)
open Cgimap.Read.DataSelection

section Writing

/-- A character that `escape` puts a backslash before. -/
def isEscaped (c : Char) : Bool := c = '"' || c = '\\'

def escapedCount (input : List Char) : Nat := input.countP isEscaped

def escape (input : List Char) : List Char :=
  '"' :: (input.flatMap (fun c => if isEscaped c then ['\\', c] else [c]) ++ ['"'])

/-- The assertion in `escape`: the result has the size that was counted. -/
theorem escape_length (input : List Char) :
    (escape input).length = input.length + escapedCount input + 2 := by
  rw [escape, List.length_cons, List.length_append, List.length_singleton]
  induction input with
  | nil => rfl
  | cons c input ih =>
      rw [List.flatMap_cons, List.length_append, escapedCount, List.countP_cons]
      rw [escapedCount] at ih
      cases isEscaped c with
      | false =>
          simp only [Bool.false_eq_true, if_false, List.length_cons, List.length_nil]
          omega
      | true =>
          simp only [if_true, List.length_cons, List.length_nil]
          omega

/-- `array_string_traits::into_buf`, without the final null byte. -/
def intoBuf (value : List (List Char)) : List Char :=
  let here := value.foldl (fun here elt => here ++ elt ++ [',']) ['{']
  (if value = [] then here else here.dropLast) ++ ['}']

end Writing

section Joining

/-- What follows the opening brace, for texts of elements. -/
def joined : List (List Char) → List Char
  | [] => ['}']
  | [s] => s ++ ['}']
  | s :: ss => s ++ ',' :: joined ss

private theorem joined_cons_cons (s s' : List Char) (ss : List (List Char)) :
    joined (s :: s' :: ss) = s ++ ',' :: joined (s' :: ss) := rfl

private theorem dropLast_commas {s : List Char} {ss : List (List Char)} :
    ((s :: ss).flatMap (· ++ [','])).dropLast ++ ['}'] = joined (s :: ss) := by
  induction ss generalizing s with
  | nil => simp [joined]
  | cons s' ss ih =>
      have nonempty : (s' :: ss).flatMap (· ++ [',']) ≠ [] := by simp
      rw [List.flatMap_cons, List.dropLast_append_of_ne_nil nonempty, List.append_assoc, ih,
        joined_cons_cons, List.append_assoc]
      rfl

private theorem foldl_commas (here : List Char) (ss : List (List Char)) :
    ss.foldl (fun here elt => here ++ elt ++ [',']) here = here ++ ss.flatMap (· ++ [',']) := by
  induction ss generalizing here with
  | nil => simp
  | cons s ss ih =>
      rw [List.foldl_cons, ih, List.flatMap_cons, List.append_assoc, List.append_assoc,
        List.append_assoc]

theorem intoBuf_eq (ss : List (List Char)) : intoBuf ss = '{' :: joined ss := by
  cases ss with
  | nil => rfl
  | cons s ss =>
      have nonempty : (s :: ss).flatMap (· ++ [',']) ≠ [] := by simp
      rw [intoBuf, if_neg (List.cons_ne_nil s ss), foldl_commas,
        List.dropLast_append_of_ne_nil nonempty, List.append_assoc, dropLast_commas]
      rfl

theorem elementsText_eq (ss : List String) :
    elementsText ss = joined (ss.map (fun s => elementText s.toList)) := by
  induction ss with
  | nil => rfl
  | cons s ss ih =>
      cases ss with
      | nil => rfl
      | cons s' ss =>
          rw [elementsText, ih]
          · rfl
          · exact List.cons_ne_nil s' ss

end Joining

section Strings

variable (strs : List String)

private theorem foldl_quoted (s : List Char) :
    (escape s).foldl ArrayState.step ⟨strs, [], false, false⟩ = ⟨strs, s, false, false⟩ := by
  have same : s.flatMap (fun c => if isEscaped c then ['\\', c] else [c]) = ArrayText.escape s := by
    rw [ArrayText.escape]
    congr 1
    funext c
    simp only [isEscaped, Bool.or_eq_true, decide_eq_true_eq]
  have opened : ArrayState.step ⟨strs, [], false, false⟩ '"' = ⟨strs, [], true, false⟩ := rfl
  have closed : ArrayState.step ⟨strs, s, true, false⟩ '"' = ⟨strs, s, false, false⟩ := rfl
  rw [escape, same, List.foldl_cons, opened, List.foldl_append, foldl_escape, List.nil_append,
    List.foldl_cons, closed, List.foldl_nil]

private theorem foldl_joined (ss : List String) (nonempty : ss ≠ []) :
    (joined (ss.map (fun s => escape s.toList))).foldl ArrayState.step ⟨strs, [], false, false⟩ =
      ⟨strs ++ ss, [], false, false⟩ := by
  induction ss generalizing strs with
  | nil => exact absurd rfl nonempty
  | cons s ss ih =>
      cases ss with
      | nil =>
          rw [List.map_cons, List.map_nil, joined, List.foldl_append, foldl_quoted]
          simp [ArrayState.step, ArrayState.write]
      | cons s' ss =>
          have written : ArrayState.step ⟨strs, s.toList, false, false⟩ ',' =
              ⟨strs ++ [s], [], false, false⟩ := by
            simp [ArrayState.step, ArrayState.write]
          have rest := ih (strs ++ [s]) (List.cons_ne_nil s' ss)
          rw [List.map_cons] at rest
          rw [List.map_cons, List.map_cons, joined_cons_cons, List.foldl_append, foldl_quoted,
            List.foldl_cons, written, rest, List.append_assoc]
          rfl

/-- Strings that were escaped on the way to the database are read as they were. -/
theorem psqlArrayToVector_intoBuf {ss : List String} (nonempty : ss ≠ []) :
    psqlArrayToVector (intoBuf (ss.map (fun s => escape s.toList))) = ss := by
  rw [intoBuf_eq, psqlArrayToVector, if_neg]
  · show ((joined (ss.map (fun s => escape s.toList))).foldl ArrayState.step ⟨[], [], false, false⟩).strs
      = ss
    rw [foldl_joined [] ss nonempty]
    rfl
  · rintro (null | empty)
    · cases ss with
      | nil => exact nonempty rfl
      | cons s ss =>
          -- an escaped element starts with a quote
          have second := congrArg (fun text => text[1]?) null
          cases ss with
          | nil => simp [joined, escape] at second
          | cons s' ss => simp [joined, escape] at second
    · exact absurd empty (List.cons_ne_nil _ _)

end Strings

section Ids

/-- The types that `psql_array_ids_to_vector` is instantiated for. -/
inductive IdType where
  | int32
  | int64
  | uint32
  | uint64
  deriving DecidableEq, Repr

namespace IdType

def signed : IdType → Bool
  | int32 | int64 => true
  | uint32 | uint64 => false

def min : IdType → Int
  | int32 => -2 ^ 31
  | int64 => -2 ^ 63
  | uint32 | uint64 => 0

/-- The first number above the type. -/
def bound : IdType → Int
  | int32 => 2 ^ 31
  | int64 => 2 ^ 63
  | uint32 => 2 ^ 32
  | uint64 => 2 ^ 64

def Has (T : IdType) (v : Int) : Prop := T.min ≤ v ∧ v < T.bound

instance (T : IdType) (v : Int) : Decidable (T.Has v) := inferInstanceAs (Decidable (_ ∧ _))

end IdType

variable (T : IdType)

/-- `std::from_chars`, where only a signed type has a sign. -/
def fromCharsOf (s : List Char) : Option Int :=
  let negative := T.signed && s.head? == some '-'
  let digits := (if negative then s.tail else s).takeWhile Char.isDigit
  let v : Int := if negative then -(digitsValue digits : Int) else digitsValue digits
  if digits = [] then none else if T.Has v then some v else none

/-- One character in `psql_array_ids_to_vector`, with the ones since `start_offset`. -/
def idStepOf (st : List Int × List Char) (c : Char) : Except Exception (List Int × List Char) :=
  if c = ',' ∨ c = '}' then
    match fromCharsOf T st.2 with
    | none => .error (.std "Conversion to integer failed")
    | some id => .ok (st.1 ++ [id], [])
  else .ok (st.1, st.2 ++ [c])

def psqlArrayIdsToVectorOf (str : List Char) : Except Exception (List Int) :=
  if str = "{NULL}".toList ∨ str = [] then .ok []
  else do
    let st ← str.tail.foldlM (idStepOf T) ([], [])
    .ok st.1

/-- The decimal numeral of a value. -/
def decimal (v : Int) : List Char :=
  if v < 0 then '-' :: Nat.toDigits 10 v.natAbs else Nat.toDigits 10 v.natAbs

end Ids

section IdProofs

variable {T : IdType}

private theorem head_toDigits {n : Nat} : (Nat.toDigits 10 n).head? ≠ some '-' := by
  intro minus
  have digit := isDigit_of_mem (List.mem_of_head? minus)
  exact absurd digit (by decide)

private theorem takeWhile_toDigits (n : Nat) :
    (Nat.toDigits 10 n).takeWhile Char.isDigit = Nat.toDigits 10 n :=
  List.takeWhile_eq_self_iff.mpr fun _ member => isDigit_of_mem member

theorem fromCharsOf_decimal {v : Int} (value : T.Has v) : fromCharsOf T (decimal v) = some v := by
  by_cases negative : v < 0
  · have signed : T.signed = true := by
      cases T with
      | int32 => rfl
      | int64 => rfl
      | uint32 => exact absurd value.1 (not_le.mpr negative)
      | uint64 => exact absurd value.1 (not_le.mpr negative)
    have back : -(v.natAbs : Int) = v := by omega
    rw [decimal, if_pos negative, fromCharsOf]
    simp only [signed, List.head?_cons, BEq.rfl, Bool.and_self, if_true, List.tail_cons,
      takeWhile_toDigits, Nat.toDigits_ne_nil, if_false, digitsValue_toDigits, back, value]
  · have unsigned : (T.signed && (Nat.toDigits 10 v.natAbs).head? == some '-') = false := by
      rw [Bool.and_eq_false_iff, beq_eq_false_iff_ne]
      exact Or.inr head_toDigits
    have back : (v.natAbs : Int) = v := by omega
    rw [decimal, if_neg negative, fromCharsOf]
    simp only [unsigned, Bool.false_eq_true, if_false, takeWhile_toDigits, Nat.toDigits_ne_nil,
      digitsValue_toDigits, back, value, if_true]

private theorem not_separator_decimal {v : Int} {c : Char} (member : c ∈ decimal v) :
    ¬(c = ',' ∨ c = '}') := by
  have digit_or_minus : c.isDigit = true ∨ c = '-' := by
    rw [decimal] at member
    split at member
    · rcases List.mem_cons.mp member with rfl | digit
      · exact Or.inr rfl
      · exact Or.inl (isDigit_of_mem digit)
    · exact Or.inl (isDigit_of_mem member)
  rintro (rfl | rfl)
  · exact absurd digit_or_minus (by decide)
  · exact absurd digit_or_minus (by decide)

private theorem foldlM_unseparated {ids : List Int} {sofar s : List Char}
    (plain : ∀ c ∈ s, ¬(c = ',' ∨ c = '}')) :
    s.foldlM (idStepOf T) (ids, sofar) = .ok (ids, sofar ++ s) := by
  induction s generalizing sofar with
  | nil => simp [pure, Except.pure]
  | cons c s ih =>
      obtain ⟨here, rest⟩ := List.forall_mem_cons.mp plain
      have one : idStepOf T (ids, sofar) c = .ok (ids, sofar ++ [c]) := by rw [idStepOf, if_neg here]
      rw [List.foldlM_cons, one]
      show s.foldlM (idStepOf T) (ids, sofar ++ [c]) = _
      rw [ih rest, List.append_assoc]
      rfl

private theorem foldlM_joined {vs sofar : List Int} (nonempty : vs ≠ []) (values : ∀ v ∈ vs, T.Has v) :
    (joined (vs.map decimal)).foldlM (idStepOf T) (sofar, []) = .ok (sofar ++ vs, []) := by
  induction vs generalizing sofar with
  | nil => exact absurd rfl nonempty
  | cons v vs ih =>
      obtain ⟨here, rest⟩ := List.forall_mem_cons.mp values
      have digits : (decimal v).foldlM (idStepOf T) (sofar, []) = .ok (sofar, decimal v) :=
        foldlM_unseparated fun c member => not_separator_decimal member
      have ended : ∀ c, (c = ',' ∨ c = '}') →
          idStepOf T (sofar, decimal v) c = .ok (sofar ++ [v], []) := by
        intro c separator
        rw [idStepOf, if_pos separator]
        simp only [fromCharsOf_decimal here]
      cases vs with
      | nil =>
          rw [List.map_cons, List.map_nil, joined, List.foldlM_append, digits]
          show ['}'].foldlM (idStepOf T) (sofar, decimal v) = _
          rw [List.foldlM_cons, ended '}' (Or.inr rfl)]
          rfl
      | cons v' vs =>
          have later := @ih (sofar ++ [v]) (List.cons_ne_nil v' vs) rest
          rw [List.map_cons] at later
          rw [List.map_cons, List.map_cons, joined_cons_cons, List.foldlM_append, digits]
          show (',' :: joined (decimal v' :: vs.map decimal)).foldlM (idStepOf T) (sofar, decimal v) = _
          rw [List.foldlM_cons, ended ',' (Or.inl rfl)]
          show (joined (decimal v' :: vs.map decimal)).foldlM (idStepOf T) (sofar ++ [v], []) = _
          rw [later, List.append_assoc]
          rfl

/-- A numeral starts with a digit or a sign, so no list of numerals is read as `{NULL}`. -/
private theorem intoBuf_ne_null (vs : List Int) : intoBuf (vs.map decimal) ≠ "{NULL}".toList := by
  intro null
  have inside : 'N' ∈ joined (vs.map decimal) := by
    rw [intoBuf_eq] at null
    rw [(List.cons.inj null).2]
    decide
  have no_letter : ∀ l : List Int, 'N' ∉ joined (l.map decimal) := by
    intro l
    have numeral : ∀ v, 'N' ∉ decimal v := by
      intro v member
      rw [decimal] at member
      split at member
      · rcases List.mem_cons.mp member with minus | digit
        · exact absurd minus (by decide)
        · exact absurd (isDigit_of_mem digit) (by decide)
      · exact absurd (isDigit_of_mem member) (by decide)
    induction l with
    | nil => decide
    | cons v l ih =>
        cases l with
        | nil =>
            rw [List.map_cons, List.map_nil, joined, List.mem_append, not_or]
            exact ⟨numeral v, by decide⟩
        | cons v' l =>
            rw [List.map_cons] at ih
            rw [List.map_cons, List.map_cons, joined_cons_cons, List.mem_append, List.mem_cons, not_or,
              not_or]
            exact ⟨numeral v, by decide, ih⟩
  exact no_letter vs inside

theorem psqlArrayIdsToVectorOf_intoBuf {vs : List Int} (nonempty : vs ≠ [])
    (values : ∀ v ∈ vs, T.Has v) : psqlArrayIdsToVectorOf T (intoBuf (vs.map decimal)) = .ok vs := by
  rw [psqlArrayIdsToVectorOf, if_neg]
  · rw [intoBuf_eq]
    show ((joined (vs.map decimal)).foldlM (idStepOf T) ([], []) >>= fun st => Except.ok st.1) = _
    rw [foldlM_joined nonempty values]
    rfl
  · rintro (null | empty)
    · exact intoBuf_ne_null vs null
    · rw [intoBuf_eq] at empty
      exact absurd empty (List.cons_ne_nil _ _)

end IdProofs

section Printing

private theorem toUpper_table : ∀ n < 58, 48 ≤ n → (Char.ofNat n).toUpper ≠ 'N' := by decide

private theorem toUpper_ne {c : Char} (numeral : c.isDigit = true ∨ c = '-') : c.toUpper ≠ 'N' := by
  rcases numeral with digit | rfl
  · simp only [Char.isDigit, Bool.and_eq_true, decide_eq_true_eq, UInt32.le_iff_toNat_le] at digit
    have row := toUpper_table c.toNat (Nat.lt_succ_of_le digit.2) digit.1
    rwa [Char.ofNat_toNat] at row
  · decide

private theorem elementText_decimal (v : Int) : elementText (decimal v) = decimal v := by
  have numeral : ∀ c ∈ decimal v, c.isDigit = true ∨ c = '-' := by
    intro c member
    rw [decimal] at member
    split at member
    · rcases List.mem_cons.mp member with minus | digit
      · exact Or.inr minus
      · exact Or.inl (isDigit_of_mem digit)
    · exact Or.inl (isDigit_of_mem member)
  have nonempty : decimal v ≠ [] := by
    rw [decimal]
    split
    · exact List.cons_ne_nil _ _
    · exact Nat.toDigits_ne_nil
  rw [elementText, if_neg]
  simp only [needsQuotes, Bool.or_eq_true, not_or, Bool.not_eq_true]
  refine ⟨⟨List.isEmpty_eq_false_iff.mpr nonempty, ?_⟩, ?_⟩
  · rw [decide_eq_false_iff_not]
    intro null
    have letter : 'N' ∈ (decimal v).map Char.toUpper := by
      rw [null]
      decide
    obtain ⟨c, member, upper⟩ := List.mem_map.mp letter
    exact toUpper_ne (numeral c member) upper
  · rw [List.any_eq_false]
    intro c member special
    have inside : c ∈ quotedChars := by simpa using special
    have all : quotedChars.all (fun d => !(d.isDigit || d == '-')) = true := by decide
    have none : ¬(c.isDigit = true ∨ c = '-') := by simpa using List.all_eq_true.mp all c inside
    exact none (numeral c member)

/-- For numbers PostgreSQL prints what cgimap writes. -/
theorem arrayOut_decimal (vs : List Int) :
    arrayOut (vs.map (fun v => String.ofList (decimal v))) = intoBuf (vs.map decimal) := by
  rw [arrayOut, elementsText_eq, intoBuf_eq, List.map_map]
  congr 2
  refine List.map_congr_left fun v _ => ?_
  show elementText (String.ofList (decimal v)).toList = decimal v
  rw [String.toList_ofList, elementText_decimal]

end Printing

section Unsigned

private theorem fromCharsOf_uint64 (s : List Char) :
    fromCharsOf .uint64 s = (fromCharsUnsigned s).map Int.ofNat := by
  rw [fromCharsOf, fromCharsUnsigned]
  show (if s.takeWhile Char.isDigit = [] then none else _) = _
  by_cases empty : s.takeWhile Char.isDigit = []
  · rw [if_pos empty]
    simp [empty]
  · rw [if_neg empty]
    simp only [empty, if_false]
    show (if IdType.Has .uint64 (digitsValue (s.takeWhile Char.isDigit) : Int) then _ else _) = _
    have range : ∀ n : Nat, IdType.Has .uint64 (n : Int) ↔ n < 2 ^ 64 := fun n =>
      ⟨fun both => Int.ofNat_lt.mp both.2, fun small => ⟨Int.natCast_nonneg _, Int.ofNat_lt.mpr small⟩⟩
    by_cases small : digitsValue (s.takeWhile Char.isDigit) < 2 ^ 64
    · rw [if_pos small, if_pos ((range _).mpr small)]
      rfl
    · rw [if_neg small, if_neg fun both => small ((range _).mp both)]
      rfl

private theorem foldlM_uint64 (s : List Char) (ids : List Nat) (sofar : List Char) :
    s.foldlM (idStepOf .uint64) (ids.map Int.ofNat, sofar)
      = (s.foldlM idStep (ids, sofar)).map (fun st => (st.1.map Int.ofNat, st.2)) := by
  induction s generalizing ids sofar with
  | nil => rfl
  | cons c s ih =>
      rw [List.foldlM_cons, List.foldlM_cons, idStepOf, idStep]
      split
      · rw [fromCharsOf_uint64]
        cases fromCharsUnsigned sofar with
        | none => rfl
        | some id =>
            have step := ih (ids ++ [id]) []
            rw [List.map_append] at step
            exact step
      · exact ih ids (sofar ++ [c])

theorem psqlArrayIdsToVectorOf_uint64 (str : List Char) :
    psqlArrayIdsToVectorOf .uint64 str = (psqlArrayIdsToVector str).map (List.map Int.ofNat) := by
  rw [psqlArrayIdsToVectorOf, psqlArrayIdsToVector]
  split
  · rfl
  · have run := foldlM_uint64 str.tail [] []
    rw [List.map_nil] at run
    rw [run]
    cases str.tail.foldlM idStep ([], []) with
    | error e => rfl
    | ok st => rfl

end Unsigned

section Codec

/-- What either side writes into an array is read back, one value or pair for each element. -/
theorem array_codec :
    (∀ l : List String, l ≠ [] →
      psqlArrayToVector (intoBuf (l.map (fun s => escape s.toList))) = l ∧
        psqlArrayToVector (arrayOut l) = l) ∧
    (∀ (T : IdType) (vs : List Int), vs ≠ [] → (∀ v ∈ vs, T.Has v) →
      psqlArrayIdsToVectorOf T (intoBuf (vs.map decimal)) = .ok vs ∧
        psqlArrayIdsToVectorOf T (arrayOut (vs.map (fun v => String.ofList (decimal v)))) = .ok vs) ∧
    ∀ tags : List (String × String), tags ≠ [] →
      extractTags (arrayOut (tags.map Prod.fst)) (arrayOut (tags.map Prod.snd)) = .ok tags := by
  refine ⟨fun l nonempty => ⟨psqlArrayToVector_intoBuf nonempty, psqlArrayToVector_arrayOut nonempty⟩,
    fun T vs nonempty values => ?_, fun tags nonempty => ?_⟩
  · rw [arrayOut_decimal]
    exact ⟨psqlArrayIdsToVectorOf_intoBuf nonempty values, psqlArrayIdsToVectorOf_intoBuf nonempty values⟩
  · have keys : tags.map Prod.fst ≠ [] := fun none => nonempty (List.map_eq_nil_iff.mp none)
    have values : tags.map Prod.snd ≠ [] := fun none => nonempty (List.map_eq_nil_iff.mp none)
    rw [extractTags, psqlArrayToVector_arrayOut keys, psqlArrayToVector_arrayOut values]
    simp only [List.length_map, if_true]
    exact congrArg Except.ok (List.zip_of_prod rfl rfl).symm

theorem array_codec_samples :
    (psqlArrayToVector (intoBuf (["a,b", "say \"\\\""].map (fun s => escape s.toList)))
      = ["a,b", "say \"\\\""]) ∧
    psqlArrayIdsToVectorOf .int32 (intoBuf ([-5, 70].map decimal)) = .ok [-5, 70] ∧
    extractTags (arrayOut ["name", "note"]) (arrayOut ["null", ""])
      = .ok [("name", "null"), ("note", "")] :=
  ⟨(array_codec.1 ["a,b", "say \"\\\""] (by decide)).1,
    (array_codec.2.1 .int32 [-5, 70] (by decide) (by decide)).1,
    array_codec.2.2 [("name", "null"), ("note", "")] (by decide)⟩

end Codec

end Cgimap.Read.ArrayCodec
