/- path: Cgimap/Http/QueryStrings
   generality: I
   source: src/http.cpp, test/test_http.cpp
   digest: Percent-decoding with iterators, and what the query pipeline gives back. -/

import Cgimap.Http.Requests
import Cgimap.Library.ExceptLists

set_option autoImplicit false
set_option relaxedAutoImplicit false

namespace Cgimap.Http.QueryStrings

open Cgimap.Library.ExceptLists
open Cgimap.Http.Requests

section Source

/-- The use of an iterator that is not before `end()`. -/
inductive Fault where
  | pastEnd
  deriving DecidableEq

/-- `*iter`. -/
def deref (src : Text) (iter : Nat) : Except Fault Char :=
  match src[iter]? with
  | some c => .ok c
  | none => .error .pastEnd

/-- The condition of the branch for `%`. -/
def startsEscape (src : Text) (iter : Nat) : Except Fault Bool :=
  if 2 ≤ src.length - iter then do
    let first ← deref src (iter + 1)
    if isXdigit first then do
      let second ← deref src (iter + 2)
      .ok (isXdigit second)
    else .ok false
  else .ok false

/-- The body of the loop in `form_urldecode`: what is appended, and how often it advances the
iterator itself. -/
def decodeStep (src : Text) (iter : Nat) : Except Fault (Char × Nat) := do
  let c ← deref src iter
  if c = '+' then .ok (' ', 0)
  else if c = '%' then do
    let escape ← startsEscape src iter
    if escape then do
      let first ← deref src (iter + 1)
      let second ← deref src (iter + 2)
      .ok (hexToChar first second, 2)
    else .ok ('%', 0)
  else .ok (c, 0)

def decodeFrom (src : Text) (iter : Nat) : Except Fault Text :=
  if iter < src.length then do
    let (c, advance) ← decodeStep src iter
    let rest ← decodeFrom src (iter + advance + 1)
    .ok (c :: rest)
  else .ok []
  termination_by src.length - iter

def formUrldecode (src : Text) : Except Fault Text := decodeFrom src 0

end Source

section Reference

def hexValue (c : Char) : Option Nat :=
  if c.isDigit then some (c.toNat - '0'.toNat)
  else if 'a' ≤ c ∧ c ≤ 'f' then some (c.toNat - 'a'.toNat + 10)
  else if 'A' ≤ c ∧ c ≤ 'F' then some (c.toNat - 'A'.toNat + 10)
  else none

/-- The decoding that is meant: an escape is a `%` and two hexadecimal digits. -/
def referenceDecode : Text → Text
  | '%' :: a :: b :: s =>
      match hexValue a, hexValue b with
      | some high, some low => Char.ofNat (16 * high + low) :: referenceDecode s
      | _, _ => '%' :: referenceDecode (a :: b :: s)
  | '+' :: s => ' ' :: referenceDecode s
  | c :: s => c :: referenceDecode s
  | [] => []

/-- The text ends with a `%` and one hexadecimal digit. -/
def HalfEscape (s : Text) : Prop := ∃ pre a, s = pre ++ ['%', a] ∧ isXdigit a = true

end Reference

section Digits

private theorem xdigit_lt {c : Char} (digit : isXdigit c = true) : c.toNat < 128 := by
  simp only [isXdigit, Char.isDigit, Bool.or_eq_true, Bool.and_eq_true, decide_eq_true_eq,
    Char.le_def, UInt32.le_iff_toNat_le] at digit
  change c.val.toNat < 128
  have bounds : '9'.val.toNat = 57 ∧ 'f'.val.toNat = 102 ∧ 'F'.val.toNat = 70 := ⟨rfl, rfl, rfl⟩
  omega

private theorem hexValue_table : ∀ n < 128, if isXdigit (Char.ofNat n) then
    hexValue (Char.ofNat n) = some (hexNibble (Char.ofNat n))
    else hexValue (Char.ofNat n) = none := by
  decide

private theorem hexValue_of_xdigit {c : Char} (digit : isXdigit c = true) :
    hexValue c = some (hexNibble c) := by
  have row := hexValue_table c.toNat (xdigit_lt digit)
  rw [Char.ofNat_toNat, if_pos digit] at row
  exact row

private theorem hexValue_of_other {c : Char} (other : isXdigit c = false) : hexValue c = none := by
  simp only [isXdigit, Bool.or_eq_false_iff, Bool.and_eq_false_iff, decide_eq_false_iff_not] at other
  obtain ⟨⟨digit, lower⟩, upper⟩ := other
  unfold hexValue
  rw [digit, if_neg (by simp), if_neg (by tauto), if_neg (by tauto)]

end Digits

section Decoding

variable {a b c : Char} {s : Text}

/-- Two hexadecimal digits stand at the start of the text. -/
private def Escapes (s : Text) : Prop :=
  ∃ a b t, s = a :: b :: t ∧ isXdigit a = true ∧ isXdigit b = true

private theorem referenceDecode_escape (first : isXdigit a = true) (second : isXdigit b = true) :
    referenceDecode ('%' :: a :: b :: s) = hexToChar a b :: referenceDecode s := by
  rw [referenceDecode, hexValue_of_xdigit first, hexValue_of_xdigit second]
  rfl

private theorem referenceDecode_percent (none : ¬Escapes s) :
    referenceDecode ('%' :: s) = '%' :: referenceDecode s := by
  match s with
  | [] => rfl
  | [_] => rfl
  | a :: b :: t =>
      rw [referenceDecode]
      cases first : isXdigit a with
      | false => rw [hexValue_of_other first]
      | true =>
          cases second : isXdigit b with
          | false => rw [hexValue_of_other second, hexValue_of_xdigit first]
          | true => exact absurd ⟨a, b, t, rfl, first, second⟩ none

private theorem referenceDecode_plus : referenceDecode ('+' :: s) = ' ' :: referenceDecode s := by
  rw [referenceDecode]

private theorem referenceDecode_other (plus : c ≠ '+') (percent : c ≠ '%') :
    referenceDecode (c :: s) = c :: referenceDecode s := by
  rw [referenceDecode]
  · exact fun _ _ _ same _ => percent same
  · exact plus

/-- The model of `form_urldecode` that reads the text as a list is the reference. -/
theorem urldecode_eq (s : Text) : urldecode s = referenceDecode s := by
  fun_induction urldecode s with
  | case1 s ih => rw [referenceDecode_plus, ih]
  | case2 a b s digits ih =>
      rw [Bool.and_eq_true] at digits
      rw [referenceDecode_escape digits.1 digits.2, ih]
  | case3 a b s digits ih =>
      rw [referenceDecode_percent, ih]
      rintro ⟨a', b', t, same, first, second⟩
      cases same
      exact digits (by rw [first, second]; rfl)
  | case4 c s percent plus ih =>
      by_cases here : c = '%'
      · subst here
        rw [referenceDecode_percent, ih]
        rintro ⟨a, b, t, rfl, -, -⟩
        exact plus a b t rfl rfl
      · rw [referenceDecode_other percent here, ih]
  | case5 => rfl

end Decoding

section Reading

variable {c : Char} {s : Text}

private theorem deref_at (pre s : Text) (offset : Nat) :
    deref (pre ++ s) (pre.length + offset) = (s[offset]?).elim (.error .pastEnd) .ok := by
  rw [deref, List.getElem?_append_right (Nat.le_add_right _ _), Nat.add_sub_cancel_left]
  cases s[offset]? with
  | none => rfl
  | some c => rfl

/-- The character at the end of a half escape. -/
private def Pending (s : Text) : Prop := ∃ a, s = [a] ∧ isXdigit a = true

private theorem halfEscape_cons : HalfEscape (c :: s) ↔ HalfEscape s ∨ (c = '%' ∧ Pending s) := by
  constructor
  · rintro ⟨pre, a, same, digit⟩
    cases pre with
    | nil =>
        rw [List.nil_append, List.cons.injEq] at same
        exact Or.inr ⟨same.1, a, same.2, digit⟩
    | cons d pre =>
        rw [List.cons_append, List.cons.injEq] at same
        exact Or.inl ⟨pre, a, same.2, digit⟩
  · rintro (⟨pre, a, rfl, digit⟩ | ⟨rfl, a, rfl, digit⟩)
    · exact ⟨c :: pre, a, rfl, digit⟩
    · exact ⟨[], a, rfl, digit⟩

private theorem not_halfEscape_nil : ¬HalfEscape [] := by
  rintro ⟨pre, a, same, -⟩
  cases pre with
  | nil => cases same
  | cons d pre => cases same

private theorem halfEscape_escape {a b : Char} (first : isXdigit a = true)
    (second : isXdigit b = true) : HalfEscape ('%' :: a :: b :: s) ↔ HalfEscape s := by
  have not_percent : ∀ d, isXdigit d = true → d ≠ '%' := by
    rintro d digit rfl
    exact absurd digit (by decide)
  rw [halfEscape_cons, halfEscape_cons, halfEscape_cons]
  constructor
  · rintro (((half | ⟨same, -⟩) | ⟨same, -⟩) | ⟨-, d, same, -⟩)
    · exact half
    · exact absurd same (not_percent b second)
    · exact absurd same (not_percent a first)
    · cases same
  · exact fun half => Or.inl (Or.inl (Or.inl half))

variable (pre : Text)

private theorem startsEscape_short {a : Char} :
    startsEscape (pre ++ ['%', a]) pre.length = if isXdigit a then .error .pastEnd else .ok false := by
  rw [startsEscape, deref_at, deref_at, if_pos (by simp)]
  cases digit : isXdigit a with
  | false =>
      show (if isXdigit a = true then _ else _) = _
      rw [if_neg (by simp [digit])]
      rfl
  | true =>
      show (if isXdigit a = true then _ else _) = _
      rw [if_pos digit]
      rfl

private theorem startsEscape_long {a b : Char} {t : Text} :
    startsEscape (pre ++ '%' :: a :: b :: t) pre.length = .ok (isXdigit a && isXdigit b) := by
  rw [startsEscape, deref_at, deref_at, if_pos (by simp)]
  cases digit : isXdigit a with
  | false =>
      show (if isXdigit a = true then _ else _) = _
      rw [if_neg (by simp [digit])]
      rfl
  | true =>
      show (if isXdigit a = true then _ else _) = _
      rw [if_pos digit]
      rfl

private theorem decodeStep_cases (c : Char) (s : Text) :
    (c = '%' ∧ Pending s ∧ decodeStep (pre ++ c :: s) pre.length = .error .pastEnd) ∨
      (∃ a b t, c = '%' ∧ s = a :: b :: t ∧ isXdigit a = true ∧ isXdigit b = true ∧
        decodeStep (pre ++ c :: s) pre.length = .ok (hexToChar a b, 2)) ∨
      (¬(c = '%' ∧ Pending s) ∧ ∃ d, referenceDecode (c :: s) = d :: referenceDecode s ∧
        decodeStep (pre ++ c :: s) pre.length = .ok (d, 0)) := by
  have here : deref (pre ++ c :: s) pre.length = .ok c := deref_at pre (c :: s) 0
  by_cases plus : c = '+'
  · subst plus
    refine Or.inr (Or.inr ⟨fun half => absurd half.1 (by decide), ' ', referenceDecode_plus, ?_⟩)
    rw [decodeStep, here]
    rfl
  by_cases percent : c = '%'
  · subst percent
    have step : decodeStep (pre ++ '%' :: s) pre.length = (do
        let escape ← startsEscape (pre ++ '%' :: s) pre.length
        if escape then do
          let first ← deref (pre ++ '%' :: s) (pre.length + 1)
          let second ← deref (pre ++ '%' :: s) (pre.length + 2)
          .ok (hexToChar first second, 2)
        else .ok ('%', 0)) := by
      rw [decodeStep, here]
      rfl
    rw [step, deref_at, deref_at]
    match s with
    | [] =>
        have short : startsEscape (pre ++ ['%']) pre.length = .ok false := by
          rw [startsEscape, if_neg (by simp)]
        refine Or.inr (Or.inr ⟨?_, '%', rfl, ?_⟩)
        · rintro ⟨-, a, same, -⟩
          cases same
        · rw [short]
          rfl
    | [a] =>
        rw [startsEscape_short]
        cases first : isXdigit a with
        | false =>
            refine Or.inr (Or.inr ⟨?_, '%', rfl, rfl⟩)
            rintro ⟨-, a', same, digit⟩
            cases same
            exact absurd digit (by simp [first])
        | true => exact Or.inl ⟨rfl, ⟨a, rfl, first⟩, rfl⟩
    | a :: b :: t =>
        rw [startsEscape_long]
        by_cases digits : isXdigit a = true ∧ isXdigit b = true
        · refine Or.inr (Or.inl ⟨a, b, t, rfl, rfl, digits.1, digits.2, ?_⟩)
          rw [digits.1, digits.2]
          rfl
        · have kept : (isXdigit a && isXdigit b) = false := by
            rwa [← Bool.not_eq_true, Bool.and_eq_true]
          refine Or.inr (Or.inr ⟨?_, '%', referenceDecode_percent ?_, ?_⟩)
          · rintro ⟨-, a', same, -⟩
            cases same
          · rintro ⟨a', b', t', same, first, second⟩
            cases same
            exact digits ⟨first, second⟩
          · rw [kept]
            rfl
  · refine Or.inr (Or.inr ⟨fun half => percent half.1, c, referenceDecode_other plus percent, ?_⟩)
    rw [decodeStep, here]
    show (if c = '+' then _ else if c = '%' then _ else _) = _
    rw [if_neg plus, if_neg percent]

private theorem decodeFrom_end : decodeFrom pre pre.length = .ok [] := by
  rw [decodeFrom, if_neg (by omega)]

private theorem decodeFrom_cons (c : Char) (s : Text) :
    decodeFrom (pre ++ c :: s) pre.length = (do
      let (d, advance) ← decodeStep (pre ++ c :: s) pre.length
      let rest ← decodeFrom (pre ++ c :: s) (pre.length + advance + 1)
      .ok (d :: rest)) := by
  rw [decodeFrom, if_pos (by simp)]

private theorem decodeFrom_spec (s : Text) : ∀ pre : Text,
    (¬HalfEscape s → decodeFrom (pre ++ s) pre.length = .ok (referenceDecode s)) ∧
      (HalfEscape s → decodeFrom (pre ++ s) pre.length = .error .pastEnd) := by
  induction h : s.length using Nat.strong_induction_on generalizing s with
  | _ n ih =>
  intro pre
  subst h
  cases s with
  | nil =>
      rw [List.append_nil, decodeFrom_end]
      exact ⟨fun _ => rfl, fun half => absurd half not_halfEscape_nil⟩
  | cons c s =>
      rw [decodeFrom_cons]
      rcases decodeStep_cases pre c s with ⟨percent, pending, step⟩ |
        ⟨a, b, t, rfl, rfl, first, second, step⟩ | ⟨whole, d, decoded, step⟩
      · have half : HalfEscape (c :: s) := halfEscape_cons.mpr (Or.inr ⟨percent, pending⟩)
        rw [step]
        exact ⟨fun none => absurd half none, fun _ => rfl⟩
      · have later := ih t.length (by simp only [List.length_cons]; omega) t rfl
          (pre ++ ['%', a, b])
        rw [List.append_assoc, List.length_append] at later
        change (_ → decodeFrom (pre ++ '%' :: a :: b :: t) (pre.length + 3) = _) ∧
          (_ → decodeFrom (pre ++ '%' :: a :: b :: t) (pre.length + 3) = _) at later
        rw [halfEscape_escape first second, referenceDecode_escape first second, step]
        constructor
        · intro none
          show (decodeFrom (pre ++ '%' :: a :: b :: t) (pre.length + 3) >>= _) = _
          rw [later.1 none]
          rfl
        · intro half
          show (decodeFrom (pre ++ '%' :: a :: b :: t) (pre.length + 3) >>= _) = _
          rw [later.2 half]
          rfl
      · have later := ih s.length (by simp) s rfl (pre ++ [c])
        rw [List.append_assoc, List.length_append] at later
        change (_ → decodeFrom (pre ++ c :: s) (pre.length + 1) = _) ∧
          (_ → decodeFrom (pre ++ c :: s) (pre.length + 1) = _) at later
        rw [halfEscape_cons, or_iff_left whole, decoded, step]
        constructor
        · intro none
          show (decodeFrom (pre ++ c :: s) (pre.length + 1) >>= _) = _
          rw [later.1 none]
          rfl
        · intro half
          show (decodeFrom (pre ++ c :: s) (pre.length + 1) >>= _) = _
          rw [later.2 half]
          rfl

theorem formUrldecode_of_whole {s : Text} (whole : ¬HalfEscape s) :
    formUrldecode s = .ok (referenceDecode s) :=
  (decodeFrom_spec s []).1 whole

theorem formUrldecode_of_half {s : Text} (half : HalfEscape s) :
    formUrldecode s = .error .pastEnd :=
  (decodeFrom_spec s []).2 half

/-- The loop stays inside the text and decodes it as meant, exactly when the text does not end
in the middle of an escape. -/
theorem formUrldecode_iff (s : Text) :
    formUrldecode s = .ok (referenceDecode s) ↔ ¬HalfEscape s := by
  by_cases half : HalfEscape s
  · rw [formUrldecode_of_half half]
    exact iff_of_false nofun (not_not_intro half)
  · exact iff_of_true (formUrldecode_of_whole half) half

theorem not_formUrldecode_sampleHalf :
    ¬∀ s, formUrldecode s = .ok (referenceDecode s) := by
  intro all
  have failed : formUrldecode ['%', '4'] = .error .pastEnd :=
    formUrldecode_of_half ⟨[], '4', rfl, rfl⟩
  have done := all ['%', '4']
  rw [failed] at done
  cases done

end Reading

section Encoding

/-- The characters that an encoder keeps. -/
def isUnreserved (c : Char) : Bool := c.isAlphanum || c = '-' || c = '.' || c = '_' || c = '~'

def ofByte (b : UInt8) : Char := Char.ofNat b.toNat

def ofBytes (bytes : List UInt8) : Text := bytes.map ofByte

def upperHexDigit (n : Nat) : Char := Char.ofNat (if n < 10 then '0'.toNat + n else 'A'.toNat + n - 10)

def percentEncodeByte (b : UInt8) : Text :=
  if isUnreserved (ofByte b) then [ofByte b]
  else ['%', upperHexDigit (b.toNat / 16), upperHexDigit (b.toNat % 16)]

def percentEncode (bytes : List UInt8) : Text := bytes.flatMap percentEncodeByte

abbrev ByteParams := List (List UInt8 × List UInt8)

/-- The parts of a query, joined with `=` and `&`. -/
def joinParams (params : List (Text × Text)) : Text :=
  ['&'].intercalate (params.map (fun kv => kv.1 ++ '=' :: kv.2))

def encodeQuery (params : ByteParams) : Text :=
  joinParams (params.map (fun kv => (percentEncode kv.1, percentEncode kv.2)))

def texts (params : ByteParams) : List (Text × Text) :=
  params.map (fun kv => (ofBytes kv.1, ofBytes kv.2))

/-- What every handler makes of the query. -/
def pipeline (query : Text) : Except Fault (List (Text × Text)) := do
  let decoded ← formUrldecode query
  .ok (parseParams decoded)

theorem pipeline_of_whole {query : Text} (whole : ¬HalfEscape query) :
    pipeline query = .ok (parseParams (urldecode query)) := by
  rw [pipeline, formUrldecode_of_whole whole, urldecode_eq]
  rfl

end Encoding

section RoundTrip

private theorem percentEncode_table : ∀ n < 256,
    if isUnreserved (Char.ofNat n) then Char.ofNat n ≠ '+' ∧ Char.ofNat n ≠ '%'
    else isXdigit (upperHexDigit (n / 16)) = true ∧ isXdigit (upperHexDigit (n % 16)) = true ∧
      hexToChar (upperHexDigit (n / 16)) (upperHexDigit (n % 16)) = Char.ofNat n := by
  decide +kernel

private theorem percentEncodeByte_cases (b : UInt8) :
    (ofByte b ≠ '+' ∧ ofByte b ≠ '%' ∧ percentEncodeByte b = [ofByte b]) ∨
      ∃ first second, isXdigit first = true ∧ isXdigit second = true ∧
        hexToChar first second = ofByte b ∧ percentEncodeByte b = ['%', first, second] := by
  have row := percentEncode_table b.toNat b.toNat_lt
  rw [percentEncodeByte]
  change if isUnreserved (ofByte b) = true then ofByte b ≠ '+' ∧ ofByte b ≠ '%' else _ at row
  by_cases kept : isUnreserved (ofByte b) = true
  · rw [if_pos kept] at row ⊢
    exact Or.inl ⟨row.1, row.2, rfl⟩
  · rw [if_neg kept] at row ⊢
    exact Or.inr ⟨_, _, row.1, row.2.1, row.2.2, rfl⟩

variable {s : Text}

private theorem decode_encodeByte (b : UInt8) :
    referenceDecode (percentEncodeByte b ++ s) = ofByte b :: referenceDecode s ∧
      (HalfEscape (percentEncodeByte b ++ s) ↔ HalfEscape s) := by
  rcases percentEncodeByte_cases b with ⟨plus, percent, same⟩ | ⟨a, c, first, second, byte, same⟩
  · rw [same]
    refine ⟨referenceDecode_other plus percent, ?_⟩
    show HalfEscape (ofByte b :: s) ↔ _
    rw [halfEscape_cons, or_iff_left (fun both => percent both.1)]
  · rw [same, ← byte]
    exact ⟨referenceDecode_escape first second, halfEscape_escape first second⟩

private theorem decode_encode (bytes : List UInt8) :
    referenceDecode (percentEncode bytes ++ s) = ofBytes bytes ++ referenceDecode s ∧
      (HalfEscape (percentEncode bytes ++ s) ↔ HalfEscape s) := by
  induction bytes with
  | nil => exact ⟨rfl, Iff.rfl⟩
  | cons b bytes ih =>
      have shape : percentEncode (b :: bytes) ++ s
          = percentEncodeByte b ++ (percentEncode bytes ++ s) := by
        rw [percentEncode, List.flatMap_cons, List.append_assoc]
        rfl
      rw [shape, (decode_encodeByte b).1, (decode_encodeByte b).2, ih.1, ih.2]
      exact ⟨rfl, Iff.rfl⟩

private theorem decode_separator {c : Char} (separator : c = '=' ∨ c = '&') :
    referenceDecode (c :: s) = c :: referenceDecode s ∧ (HalfEscape (c :: s) ↔ HalfEscape s) := by
  have other : c ≠ '+' ∧ c ≠ '%' := by
    rcases separator with rfl | rfl
    · decide
    · decide
  refine ⟨referenceDecode_other other.1 other.2, ?_⟩
  rw [halfEscape_cons, or_iff_left (fun both => other.2 both.1)]

private theorem joinParams_cons (kv kv' : Text × Text) (params : List (Text × Text)) :
    joinParams (kv :: kv' :: params) = kv.1 ++ '=' :: (kv.2 ++ '&' :: joinParams (kv' :: params)) := by
  simp only [joinParams, List.map_cons, List.intercalate_cons_cons, List.append_assoc,
    List.cons_append, List.nil_append]

private theorem decode_encodeQuery (params : ByteParams) :
    referenceDecode (encodeQuery params) = joinParams (texts params) ∧
      ¬HalfEscape (encodeQuery params) := by
  induction params with
  | nil => exact ⟨rfl, not_halfEscape_nil⟩
  | cons kv params ih =>
      cases params with
      | nil =>
          have shape : encodeQuery [kv] = percentEncode kv.1 ++ '=' :: (percentEncode kv.2 ++ []) := by
            simp [encodeQuery, joinParams]
          rw [shape, (decode_encode _).1, (decode_encode _).2, (decode_separator (Or.inl rfl)).1,
            (decode_separator (Or.inl rfl)).2, (decode_encode _).1, (decode_encode _).2]
          refine ⟨?_, not_halfEscape_nil⟩
          simp [joinParams, texts, referenceDecode]
      | cons kv' params =>
          have shape : encodeQuery (kv :: kv' :: params) = percentEncode kv.1 ++ '=' ::
              (percentEncode kv.2 ++ '&' :: encodeQuery (kv' :: params)) := joinParams_cons _ _ _
          rw [shape, (decode_encode _).1, (decode_encode _).2, (decode_separator (Or.inl rfl)).1,
            (decode_separator (Or.inl rfl)).2, (decode_encode _).1, (decode_encode _).2,
            (decode_separator (Or.inr rfl)).1, (decode_separator (Or.inr rfl)).2, ih.1]
          exact ⟨(joinParams_cons (ofBytes kv.1, ofBytes kv.2) (ofBytes kv'.1, ofBytes kv'.2) _).symm,
            ih.2⟩

private theorem pipeline_encodeQuery (params : ByteParams) :
    pipeline (encodeQuery params) = .ok (parseParams (joinParams (texts params))) := by
  obtain ⟨decoded, whole⟩ := decode_encodeQuery params
  rw [pipeline, formUrldecode_of_whole whole, decoded]
  rfl

end RoundTrip

section Splitting

def Plain (s : Text) : Prop := '&' ∉ s ∧ '=' ∉ s

/-- One round of the loop in `parse_params`. -/
private def parsePart (part : Text) : Option (Text × Text) :=
  match split part '=' with
  | [key, value] => some (key, value)
  | [key] => some (key, [])
  | _ => none

private theorem parseParams_eq (p : Text) : parseParams p = (split p '&').filterMap parsePart := rfl

private theorem not_mem_of_mem_splitOn {d : Char} {s part : Text} (member : part ∈ s.splitOn d) :
    d ∉ part ∧ part ⊆ s := by
  induction s generalizing part with
  | nil =>
      rw [List.splitOn_nil, List.mem_singleton] at member
      subst member
      exact ⟨List.not_mem_nil, List.Subset.refl _⟩
  | cons c s ih =>
      rw [List.splitOn_cons_eq_if_modifyHead] at member
      by_cases same : c = d
      · rw [if_pos (beq_iff_eq.mpr same)] at member
        rcases List.mem_cons.mp member with rfl | later
        · exact ⟨List.not_mem_nil, List.nil_subset _⟩
        · exact ⟨(ih later).1, List.subset_cons_of_subset _ (ih later).2⟩
      · rw [if_neg (fun eq => same (beq_iff_eq.mp eq))] at member
        cases parts : s.splitOn d with
        | nil => exact absurd parts (List.splitOn_ne_nil _ _)
        | cons head tail =>
            rw [parts] at member ih
            rcases List.mem_cons.mp member with rfl | later
            · have before := ih List.mem_cons_self
              refine ⟨?_, List.cons_subset_cons _ before.2⟩
              rw [List.mem_cons, not_or]
              exact ⟨Ne.symm same, before.1⟩
            · have before := ih (List.mem_cons_of_mem _ later)
              exact ⟨before.1, List.subset_cons_of_subset _ before.2⟩

private theorem not_mem_of_mem_split {d : Char} {s part : Text} (member : part ∈ split s d) :
    d ∉ part ∧ part ⊆ s := by
  rw [split] at member
  split at member
  · exact (List.not_mem_nil member).elim
  · exact not_mem_of_mem_splitOn member

private theorem plain_of_parseParams {p key value : Text} (member : (key, value) ∈ parseParams p) :
    Plain key ∧ Plain value := by
  rw [parseParams_eq, List.mem_filterMap] at member
  obtain ⟨part, inside, parsed⟩ := member
  have no_amp : ∀ t, t ⊆ part → '&' ∉ t := fun t sub at_t =>
    (not_mem_of_mem_split inside).1 (sub at_t)
  have piece : ∀ t ∈ split part '=', Plain t := fun t at_t =>
    ⟨no_amp t (not_mem_of_mem_split at_t).2, (not_mem_of_mem_split at_t).1⟩
  rw [parsePart] at parsed
  split at parsed
  next key' value' pieces =>
    cases parsed
    rw [pieces] at piece
    exact ⟨piece key (by simp), piece value (by simp)⟩
  next key' pieces =>
    cases parsed
    rw [pieces] at piece
    exact ⟨piece key (by simp), List.not_mem_nil, List.not_mem_nil⟩
  next => cases parsed

private theorem parsePart_join {key value : Text} (plain : Plain key) (plain' : Plain value) :
    parsePart (key ++ '=' :: value) = some (key, value) := by
  have pieces : split (key ++ '=' :: value) '=' = [key, value] := by
    rw [split, if_neg (by simp), List.splitOn_append_cons_self_of_not_mem plain.2,
      List.splitOn_eq_singleton plain'.2]
  rw [parsePart, pieces]

private theorem parseParts_join {params : List (Text × Text)}
    (plain : ∀ kv ∈ params, Plain kv.1 ∧ Plain kv.2) :
    (params.map (fun kv => kv.1 ++ '=' :: kv.2)).filterMap parsePart = params := by
  induction params with
  | nil => rfl
  | cons kv params ih =>
      have head := plain kv List.mem_cons_self
      rw [List.map_cons, List.filterMap_cons_some (parsePart_join head.1 head.2),
        ih (fun kv' member => plain kv' (List.mem_cons_of_mem _ member))]

private theorem parseParams_join {params : List (Text × Text)}
    (plain : ∀ kv ∈ params, Plain kv.1 ∧ Plain kv.2) : parseParams (joinParams params) = params := by
  cases params with
  | nil => rfl
  | cons kv params =>
      have no_amp : ∀ part ∈ (kv :: params).map (fun kv => kv.1 ++ '=' :: kv.2), '&' ∉ part := by
        intro part member
        obtain ⟨kv', inside, rfl⟩ := List.mem_map.mp member
        simp [(plain kv' inside).1.1, (plain kv' inside).2.1]
      have parts : (joinParams (kv :: params)).splitOn '&'
          = (kv :: params).map (fun kv => kv.1 ++ '=' :: kv.2) :=
        List.splitOn_intercalate '&' no_amp (by simp)
      have nonempty : joinParams (kv :: params) ≠ [] := by
        intro empty
        rw [empty, List.splitOn_nil, List.map_cons, List.cons.injEq] at parts
        exact absurd parts.1.symm (by simp)
      rw [parseParams_eq, split, if_neg nonempty, parts, parseParts_join plain]

private theorem ofByte_table : ∀ n < 256, (Char.ofNat n = '&' ↔ n = 38) ∧ (Char.ofNat n = '=' ↔ n = 61) := by
  decide +kernel

private theorem plain_ofBytes (bytes : List UInt8) :
    Plain (ofBytes bytes) ↔ 38 ∉ bytes ∧ 61 ∉ bytes := by
  have amp : ∀ b : UInt8, ofByte b = '&' ↔ b = 38 := fun b => by
    rw [ofByte, (ofByte_table b.toNat b.toNat_lt).1, ← UInt8.toNat_inj]
    rfl
  have equals : ∀ b : UInt8, ofByte b = '=' ↔ b = 61 := fun b => by
    rw [ofByte, (ofByte_table b.toNat b.toNat_lt).2, ← UInt8.toNat_inj]
    rfl
  rw [Plain, ofBytes, List.mem_map, List.mem_map]
  simp only [amp, equals, exists_eq_right]

/-- The query gives the parameters back, exactly when no key and no value has a separator. -/
theorem pipeline_encode_iff (params : ByteParams) :
    pipeline (encodeQuery params) = .ok (texts params) ↔
      ∀ kv ∈ params, (38 ∉ kv.1 ∧ 61 ∉ kv.1) ∧ 38 ∉ kv.2 ∧ 61 ∉ kv.2 := by
  rw [pipeline_encodeQuery, Except.ok.injEq]
  constructor
  · intro back kv member
    have inside : (ofBytes kv.1, ofBytes kv.2) ∈ parseParams (joinParams (texts params)) := by
      rw [back]
      exact List.mem_map_of_mem member
    obtain ⟨key, value⟩ := plain_of_parseParams inside
    exact ⟨(plain_ofBytes _).mp key, (plain_ofBytes _).mp value⟩
  · intro plain
    refine parseParams_join fun kv member => ?_
    obtain ⟨kv', inside, rfl⟩ := List.mem_map.mp member
    exact ⟨(plain_ofBytes _).mpr (plain kv' inside).1, (plain_ofBytes _).mpr (plain kv' inside).2⟩

/-- The second pair of `a=1` and `b` with the value `c=d` is lost. -/
theorem not_pipeline_encode_sampleValue :
    ¬∀ params : ByteParams, (∀ kv ∈ params, kv.1 ≠ []) →
      pipeline (encodeQuery params) = .ok (texts params) := by
  intro all
  have back := all [([97], [49]), ([98], [99, 61, 100])] (by simp)
  rw [pipeline_encodeQuery, Except.ok.injEq] at back
  exact absurd back (by decide +kernel)

end Splitting

end Cgimap.Http.QueryStrings
