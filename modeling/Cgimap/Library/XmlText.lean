/- path: Cgimap/Library/XmlText
   generality: I
   source: none
   digest: Well-formed XML documents without a document type, and the text inside their elements. -/

import Mathlib.Data.List.TakeWhile
import Mathlib.Data.List.Infix

/-!
The reader goes through a document character by character. It keeps the open elements and
where it is in the markup, and gives every character of the text with the elements that it
stands in.
-/

set_option autoImplicit false
set_option relaxedAutoImplicit false

namespace Cgimap.Library.XmlText

section Characters

def inRanges (ranges : List (Nat × Nat)) (c : Char) : Bool :=
  ranges.any (fun r => r.1 ≤ c.toNat && c.toNat ≤ r.2)

def isXmlChar (c : Char) : Bool :=
  inRanges [(0x9, 0xA), (0xD, 0xD), (0x20, 0xD7FF), (0xE000, 0xFFFD), (0x10000, 0x10FFFF)] c

def isSpace (c : Char) : Bool := c = ' ' || c = '\t' || c = '\n' || c = '\r'

def isNameStart (c : Char) : Bool :=
  inRanges [(0x3A, 0x3A), (0x41, 0x5A), (0x5F, 0x5F), (0x61, 0x7A), (0xC0, 0xD6), (0xD8, 0xF6),
    (0xF8, 0x2FF), (0x370, 0x37D), (0x37F, 0x1FFF), (0x200C, 0x200D), (0x2070, 0x218F),
    (0x2C00, 0x2FEF), (0x3001, 0xD7FF), (0xF900, 0xFDCF), (0xFDF0, 0xFFFD), (0x10000, 0xEFFFF)] c

def isNameChar (c : Char) : Bool :=
  isNameStart c || inRanges [(0x2D, 0x2E), (0x30, 0x39), (0xB7, 0xB7), (0x300, 0x36F), (0x203F, 0x2040)] c

/-- The line ends of a document become line feeds. The flag says that the last character was
a carriage return. -/
def normalizeFrom : Bool → List Char → List Char
  | _, [] => []
  | afterReturn, c :: s =>
      if c = '\r' then '\n' :: normalizeFrom true s
      else if c = '\n' ∧ afterReturn = true then normalizeFrom false s
      else c :: normalizeFrom false s

def normalizeLines (s : List Char) : List Char := normalizeFrom false s

end Characters

section References

/-- The value of digits in a base, if all of them are digits of it. -/
def numeral (base : Nat) (digit : Char → Option Nat) : List Char → Option Nat
  | [] => none
  | digits => digits.foldlM (fun n c => (digit c).map (fun d => base * n + d)) 0

def decimalDigit (c : Char) : Option Nat := if c.isDigit then some (c.toNat - '0'.toNat) else none

def hexDigit (c : Char) : Option Nat :=
  if c.isDigit then some (c.toNat - '0'.toNat)
  else if 'a' ≤ c ∧ c ≤ 'f' then some (c.toNat - 'a'.toNat + 10)
  else if 'A' ≤ c ∧ c ≤ 'F' then some (c.toNat - 'A'.toNat + 10)
  else none

def charOfNumber (n : Nat) : Option Char :=
  if n.isValidChar ∧ isXmlChar (Char.ofNat n) = true then some (Char.ofNat n) else none

/-- What stands between `&` and `;`: a number, or one of the predefined entities. -/
def resolve : List Char → Option Char
  | '#' :: 'x' :: digits => (numeral 16 hexDigit digits).bind charOfNumber
  | '#' :: digits => (numeral 10 decimalDigit digits).bind charOfNumber
  | ['l', 't'] => some '<'
  | ['g', 't'] => some '>'
  | ['a', 'm', 'p'] => some '&'
  | ['a', 'p', 'o', 's'] => some '\''
  | ['q', 'u', 'o', 't'] => some '"'
  | _ => none

end References

section Reader

abbrev Name := List Char

/-- A start tag that is being read. -/
structure Tag where
  name : Name
  attributes : List Name

/-- Where the reader is; names that are being read are reversed. -/
inductive Mode where
  | content (brackets : Nat)
  | reference (read : List Char)
  | markup
  | startName (read : List Char)
  | tag (t : Tag) (spaced : Bool)
  | attribute (t : Tag) (read : List Char)
  | equals (t : Tag) (own : Name)
  | value (t : Tag) (own : Name)
  | quoted (t : Tag) (quote : Char)
  | quotedReference (t : Tag) (quote : Char) (read : List Char)
  | endName (read : List Char)
  | endTag (name : Name)
  | closing
  | bang
  | bangDash
  | comment (dash : Bool)
  | cdataName (read : List Char)
  | cdata (brackets : Nat)
  | target (read : List Char)
  | instruction (question : Bool)

/-- The open elements, the innermost first, whether there was a root, and the place in the
markup. -/
structure Reader where
  path : List Name
  rooted : Bool
  mode : Mode

/-- A character of the text with the elements that it stands in. -/
abbrev Placed := List Name × Char

def Reader.goto (r : Reader) (mode : Mode) : Option (Reader × List Placed) :=
  some ({ r with mode := mode }, [])

/-- A character outside of the markup. -/
def Reader.stepContent (r : Reader) (brackets : Nat) (c : Char) : Option (Reader × List Placed) :=
  if c = '<' then r.goto .markup
  else if r.path = [] then if isSpace c then r.goto (.content 0) else none
  else if c = '&' then r.goto (.reference [])
  else if c = '>' ∧ brackets = 2 then none
  else some ({ r with mode := .content (if c = ']' then min (brackets + 1) 2 else 0) }, [(r.path, c)])

/-- The character of a reference that is complete. -/
def Reader.stepReference (r : Reader) (read : List Char) (c : Char) : Option (Reader × List Placed) :=
  if c = ';' then
    (resolve read.reverse).map (fun d => ({ r with mode := .content 0 }, [(r.path, d)]))
  else if isNameChar c || c = '#' then r.goto (.reference (c :: read))
  else none

def Reader.stepMarkup (r : Reader) (c : Char) : Option (Reader × List Placed) :=
  if c = '/' then r.goto (.endName [])
  else if c = '!' then r.goto .bang
  else if c = '?' then r.goto (.target [])
  else if isNameStart c ∧ ¬(r.path = [] ∧ r.rooted = true) then r.goto (.startName [c])
  else none

/-- Inside a start tag, after its name or an attribute. -/
def Reader.stepTag (r : Reader) (t : Tag) (spaced : Bool) (c : Char) : Option (Reader × List Placed) :=
  if isSpace c then r.goto (.tag t true)
  else if c = '>' then some (⟨t.name :: r.path, true, .content 0⟩, [])
  else if c = '/' then some ({ r with rooted := true, mode := .closing }, [])
  else if isNameStart c ∧ spaced = true then r.goto (.attribute t [c])
  else none

/-- An attribute whose name is complete; a tag has no two of one name. -/
def Reader.nameAttribute (r : Reader) (t : Tag) (own : Name) (next : Tag → Name → Mode) :
    Option (Reader × List Placed) :=
  if own ∈ t.attributes then none else r.goto (next t own)

def Reader.stepAttribute (r : Reader) (t : Tag) (read : List Char) (c : Char) :
    Option (Reader × List Placed) :=
  if isNameChar c then r.goto (.attribute t (c :: read))
  else if c = '=' then r.nameAttribute t read.reverse .value
  else if isSpace c then r.nameAttribute t read.reverse .equals
  else none

def Reader.stepQuoted (r : Reader) (t : Tag) (quote c : Char) : Option (Reader × List Placed) :=
  if c = '<' then none
  else if c = quote then r.goto (.tag t false)
  else if c = '&' then r.goto (.quotedReference t quote [])
  else r.goto (.quoted t quote)

def Reader.stepQuotedReference (r : Reader) (t : Tag) (quote : Char) (read : List Char) (c : Char) :
    Option (Reader × List Placed) :=
  if c = ';' then if (resolve read.reverse).isSome then r.goto (.quoted t quote) else none
  else if isNameChar c || c = '#' then r.goto (.quotedReference t quote (c :: read))
  else none

/-- An end tag closes the innermost element. -/
def Reader.close (r : Reader) (name : Name) : Option (Reader × List Placed) :=
  match r.path with
  | top :: path => if top = name then some ({ r with path := path, mode := .content 0 }, []) else none
  | [] => none

def Reader.stepEndName (r : Reader) (read : List Char) (c : Char) : Option (Reader × List Placed) :=
  if isNameStart c ∨ read ≠ [] ∧ isNameChar c = true then r.goto (.endName (c :: read))
  else if read = [] then none
  else if c = '>' then r.close read.reverse
  else if isSpace c then r.goto (.endTag read.reverse)
  else none

def cdataWord : List Char := ['C', 'D', 'A', 'T', 'A', '[']

def Reader.stepCdataName (r : Reader) (read : List Char) (c : Char) : Option (Reader × List Placed) :=
  if (c :: read).reverse = cdataWord then r.goto (.cdata 0)
  else if (c :: read).reverse.isPrefixOf cdataWord then r.goto (.cdataName (c :: read))
  else none

/-- Inside a section of characters; brackets that do not end it are text. -/
def Reader.stepCdata (r : Reader) (brackets : Nat) (c : Char) : Option (Reader × List Placed) :=
  if c = ']' then
    if brackets < 2 then r.goto (.cdata (brackets + 1))
    else some ({ r with mode := .cdata brackets }, [(r.path, ']')])
  else if c = '>' ∧ brackets = 2 then r.goto (.content 0)
  else some ({ r with mode := .cdata 0 }, (List.replicate brackets ']' ++ [c]).map (Prod.mk r.path))

def Reader.stepTarget (r : Reader) (read : List Char) (c : Char) : Option (Reader × List Placed) :=
  if isNameStart c ∨ read ≠ [] ∧ isNameChar c = true then r.goto (.target (c :: read))
  else if read = [] ∨ read.reverse.map Char.toLower = ['x', 'm', 'l'] then none
  else if c = '?' then r.goto .closing
  else if isSpace c then r.goto (.instruction false)
  else none

def Reader.step (r : Reader) (c : Char) : Option (Reader × List Placed) :=
  if isXmlChar c = false then none
  else
    match r.mode with
    | .content brackets => r.stepContent brackets c
    | .reference read => r.stepReference read c
    | .markup => r.stepMarkup c
    | .startName read =>
        if isNameChar c then r.goto (.startName (c :: read)) else r.stepTag ⟨read.reverse, []⟩ false c
    | .tag t spaced => r.stepTag t spaced c
    | .attribute t read => r.stepAttribute t read c
    | .equals t own =>
        if isSpace c then r.goto (.equals t own) else if c = '=' then r.goto (.value t own) else none
    | .value t own =>
        if isSpace c then r.goto (.value t own)
        else if c = '"' ∨ c = '\'' then r.goto (.quoted ⟨t.name, own :: t.attributes⟩ c)
        else none
    | .quoted t quote => r.stepQuoted t quote c
    | .quotedReference t quote read => r.stepQuotedReference t quote read c
    | .endName read => r.stepEndName read c
    | .endTag name =>
        if isSpace c then r.goto (.endTag name) else if c = '>' then r.close name else none
    | .closing => if c = '>' then r.goto (.content 0) else none
    | .bang =>
        if c = '-' then r.goto .bangDash
        else if c = '[' ∧ r.path ≠ [] then r.goto (.cdataName [])
        else none
    | .bangDash => if c = '-' then r.goto (.comment false) else none
    | .comment dash =>
        if c = '-' then r.goto (if dash then .closing else .comment true) else r.goto (.comment false)
    | .cdataName read => r.stepCdataName read c
    | .cdata brackets => r.stepCdata brackets c
    | .target read => r.stepTarget read c
    | .instruction question =>
        if c = '>' ∧ question = true then r.goto (.content 0)
        else r.goto (.instruction (decide (c = '?')))

def Reader.run : Reader → List Char → Option (Reader × List Placed)
  | r, [] => some (r, [])
  | r, c :: s =>
      match r.step c with
      | none => none
      | some (next, out) => (next.run s).map (fun p => (p.1, out ++ p.2))

def Reader.start : Reader := ⟨[], false, .content 0⟩

def Reader.done (r : Reader) : Bool :=
  match r.mode with
  | .content _ => r.path.isEmpty && r.rooted
  | _ => false

end Reader

section Documents

def xmlWord : List Char := ['x', 'm', 'l']

def versionWord : List Char := ['v', 'e', 'r', 's', 'i', 'o', 'n']

def encodingWord : List Char := ['e', 'n', 'c', 'o', 'd', 'i', 'n', 'g']

def standaloneWord : List Char := ['s', 't', 'a', 'n', 'd', 'a', 'l', 'o', 'n', 'e']

/-- A name with a value in quotes, after blanks, and what follows. -/
def pseudoAttribute (s : List Char) : Option (List Char × List Char × List Char) :=
  let named := s.dropWhile isSpace
  let name := named.takeWhile isNameChar
  match (named.dropWhile isNameChar).dropWhile isSpace with
  | '=' :: s' =>
      match s'.dropWhile isSpace with
      | quote :: s' =>
          match s'.dropWhile (· ≠ quote) with
          | _ :: rest =>
              if (quote = '"' ∨ quote = '\'') ∧ isSpace (s.headD 'x') = true then
                some (name, s'.takeWhile (· ≠ quote), rest)
              else none
          | [] => none
      | [] => none
  | _ => none

def isVersion (value : List Char) : Bool :=
  ['1', '.'].isPrefixOf value && decide (2 < value.length) && (value.drop 2).all Char.isDigit

def isEncoding (value : List Char) : Bool :=
  (value.headD ' ').isAlpha && value.all (fun c => c.isAlphanum || c = '.' || c = '_' || c = '-')

def skipEncoding (s : List Char) : List Char :=
  match pseudoAttribute s with
  | some (name, value, rest) => if name = encodingWord ∧ isEncoding value = true then rest else s
  | none => s

def skipStandalone (s : List Char) : List Char :=
  match pseudoAttribute s with
  | some (name, value, rest) =>
      if name = standaloneWord ∧ (value = ['y', 'e', 's'] ∨ value = ['n', 'o']) then rest else s
  | none => s

/-- What follows the declaration of a document, after its first word. -/
def skipDeclaration (s : List Char) : Option (List Char) :=
  match pseudoAttribute s with
  | some (name, value, rest) =>
      if name = versionWord ∧ isVersion value = true then
        match (skipStandalone (skipEncoding rest)).dropWhile isSpace with
        | '?' :: '>' :: rest => some rest
        | _ => none
      else none
  | none => none

def withoutDeclaration (s : List Char) : Option (List Char) :=
  if ('<' :: '?' :: xmlWord).isPrefixOf s ∧ isSpace ((s.drop 5).headD 'x') = true then skipDeclaration (s.drop 5)
  else some s

def readText (document : List Char) : Option (List Placed) :=
  match withoutDeclaration (normalizeLines document) with
  | none => none
  | some s =>
      match Reader.start.run s with
      | some (r, out) => if r.done then some out else none
      | none => none

/-- The text inside the elements that are reached from the root by some names. -/
def textUnder (names : List Name) (out : List Placed) : List Char :=
  (out.filter (fun p => names.reverse.isSuffixOf p.1)).map Prod.snd

theorem textUnder_append (names : List Name) (out further : List Placed) :
    textUnder names (out ++ further) = textUnder names out ++ textUnder names further := by
  unfold textUnder
  rw [List.filter_append, List.map_append]

theorem textUnder_map (names path : List Name) (s : List Char) :
    textUnder names (s.map (Prod.mk path)) = if names.reverse.isSuffixOf path then s else [] := by
  unfold textUnder
  rw [List.filter_map, List.map_map]
  split
  next under =>
    have all : s.filter ((fun p : Placed => names.reverse.isSuffixOf p.1) ∘ Prod.mk path) = s :=
      List.filter_eq_self.mpr fun _ _ => under
    rw [all]
    exact List.map_id s
  next other =>
    have none : s.filter ((fun p : Placed => names.reverse.isSuffixOf p.1) ∘ Prod.mk path) = [] :=
      List.filter_eq_nil_iff.mpr fun _ _ => other
    rw [none]
    rfl

theorem textUnder_length (names : List Name) (out : List Placed) :
    (textUnder names out).length ≤ out.length := by
  unfold textUnder
  rw [List.length_map]
  exact List.length_filter_le _ out

end Documents

section Lines

def endsInReturn : Bool → List Char → Bool
  | afterReturn, [] => afterReturn
  | _, c :: s => endsInReturn (decide (c = '\r')) s

theorem normalizeFrom_append (afterReturn : Bool) (s t : List Char) :
    normalizeFrom afterReturn (s ++ t) =
      normalizeFrom afterReturn s ++ normalizeFrom (endsInReturn afterReturn s) t := by
  induction s generalizing afterReturn with
  | nil => rfl
  | cons c s ih =>
      rw [List.cons_append, normalizeFrom, normalizeFrom, endsInReturn]
      by_cases isReturn : c = '\r'
      · rw [if_pos isReturn, if_pos isReturn, ih, decide_eq_true isReturn, List.cons_append]
      · rw [if_neg isReturn, if_neg isReturn, ih, decide_eq_false isReturn]
        split <;> rfl

theorem endsInReturn_eq_false {s : List Char} (clean : '\r' ∉ s) : endsInReturn false s = false := by
  induction s with
  | nil => rfl
  | cons c s ih =>
      rw [List.mem_cons, not_or] at clean
      rw [endsInReturn, decide_eq_false (Ne.symm clean.1), ih clean.2]

theorem normalizeFrom_length (afterReturn : Bool) (s : List Char) :
    (normalizeFrom afterReturn s).length ≤ s.length := by
  induction s generalizing afterReturn with
  | nil => exact le_refl 0
  | cons c s ih =>
      rw [normalizeFrom]
      have yes := ih true
      have no := ih false
      split
      · simpa using yes
      · split
        · exact no.trans (Nat.le_succ _)
        · simpa using no

theorem return_not_mem_normalizeFrom (afterReturn : Bool) (s : List Char) :
    '\r' ∉ normalizeFrom afterReturn s := by
  induction s generalizing afterReturn with
  | nil => exact List.not_mem_nil
  | cons c s ih =>
      rw [normalizeFrom]
      split
      · rw [List.mem_cons, not_or]
        exact ⟨by decide, ih true⟩
      · split
        · exact ih false
        · rename_i other _
          rw [List.mem_cons, not_or]
          exact ⟨Ne.symm other, ih false⟩

theorem normalizeFrom_eq_self {s : List Char} (clean : '\r' ∉ s) : normalizeFrom false s = s := by
  induction s with
  | nil => rfl
  | cons c s ih =>
      rw [List.mem_cons, not_or] at clean
      rw [normalizeFrom, if_neg (Ne.symm clean.1), if_neg (fun both => Bool.false_ne_true both.2), ih clean.2]

end Lines

section Runs

theorem Reader.run_append (r : Reader) (s t : List Char) :
    r.run (s ++ t) = (r.run s).bind (fun p => (p.1.run t).map (fun q => (q.1, p.2 ++ q.2))) := by
  induction s generalizing r with
  | nil =>
      rw [List.nil_append, Reader.run, Option.bind_some]
      simp
  | cons c s ih =>
      rw [List.cons_append, Reader.run, Reader.run]
      cases r.step c with
      | none => rfl
      | some p =>
          dsimp only
          rw [ih]
          cases p.1.run s with
          | none => rfl
          | some q =>
              cases h : q.1.run t <;> simp [h, List.append_assoc]

/-- The characters that a mode holds back. -/
def Mode.held : Mode → Nat
  | .cdata brackets => brackets
  | _ => 0

private theorem step_length {r next : Reader} {c : Char} {out : List Placed}
    (steps : r.step c = some (next, out)) : out.length + next.mode.held ≤ r.mode.held + 1 := by
  obtain ⟨path, rooted, mode⟩ := r
  unfold Reader.step at steps
  split at steps
  · cases steps
  · cases mode with
    | reference read =>
        simp only [Reader.stepReference, Reader.goto] at steps
        split at steps
        · obtain ⟨d, -, same⟩ := Option.map_eq_some_iff.mp steps
          cases same
          exact le_refl 1
        · split at steps
          · cases steps
            exact Nat.zero_le _
          · cases steps
    | cdata brackets =>
        simp only [Reader.stepCdata, Reader.goto] at steps
        repeat' split at steps
        all_goals cases steps
        all_goals simp only [Mode.held, List.length_nil, List.length_singleton, List.length_map,
          List.length_append, List.length_replicate]
        all_goals omega
    | _ =>
        simp only [Reader.stepContent, Reader.stepMarkup, Reader.stepTag, Reader.stepAttribute,
          Reader.nameAttribute, Reader.stepQuoted, Reader.stepQuotedReference, Reader.close,
          Reader.stepEndName, Reader.stepCdataName, Reader.stepTarget, Reader.goto] at steps
        repeat' split at steps
        all_goals cases steps
        all_goals simp [Mode.held]

theorem Reader.run_length {r next : Reader} {s : List Char} {out : List Placed}
    (runs : r.run s = some (next, out)) : out.length + next.mode.held ≤ r.mode.held + s.length := by
  induction s generalizing r out with
  | nil =>
      cases runs
      simp
  | cons c s ih =>
      rw [Reader.run] at runs
      cases steps : r.step c with
      | none =>
          rw [steps] at runs
          cases runs
      | some p =>
          obtain ⟨mid, first⟩ := p
          rw [steps] at runs
          obtain ⟨⟨last, rest⟩, later, same⟩ := Option.map_eq_some_iff.mp runs
          cases same
          have head := step_length steps
          have tail := ih later
          dsimp only at head tail ⊢
          rw [List.length_append, List.length_cons]
          omega

/-- The number of brackets before a place in the text, as far as it matters. -/
def bracketsAfter (brackets : Nat) (c : Char) : Nat := if c = ']' then min (brackets + 1) 2 else 0

/-- A text without markup, which does not end a section of characters either. -/
def plainFrom : Nat → List Char → Bool
  | _, [] => true
  | brackets, c :: s =>
      decide (c ≠ '<' ∧ c ≠ '&' ∧ ¬(c = '>' ∧ brackets = 2)) && plainFrom (bracketsAfter brackets c) s

/-- Inside an element a text without markup is read as it stands. -/
theorem Reader.run_plain {path : List Name} (inside : path ≠ []) (rooted : Bool) {s : List Char}
    (chars : ∀ c ∈ s, isXmlChar c = true) {brackets : Nat} (plain : plainFrom brackets s = true) :
    ∃ brackets', Reader.run ⟨path, rooted, .content brackets⟩ s =
      some (⟨path, rooted, .content brackets'⟩, s.map (Prod.mk path)) := by
  induction s generalizing brackets with
  | nil => exact ⟨brackets, rfl⟩
  | cons c s ih =>
      rw [plainFrom, Bool.and_eq_true, decide_eq_true_eq] at plain
      obtain ⟨⟨markup, reference, section_end⟩, rest⟩ := plain
      have steps : Reader.step ⟨path, rooted, .content brackets⟩ c =
          some (⟨path, rooted, .content (bracketsAfter brackets c)⟩, [(path, c)]) := by
        unfold Reader.step
        rw [chars c List.mem_cons_self, if_neg (by decide)]
        dsimp only
        unfold Reader.stepContent
        rw [if_neg markup, if_neg inside, if_neg reference, if_neg section_end]
        rfl
      obtain ⟨brackets', later⟩ := ih (fun d member => chars d (List.mem_cons_of_mem c member)) rest
      refine ⟨brackets', ?_⟩
      rw [Reader.run, steps]
      dsimp only
      rw [later]
      rfl

theorem Reader.run_plain_append {path : List Name} (inside : path ≠ []) (rooted : Bool) {s : List Char}
    (chars : ∀ c ∈ s, isXmlChar c = true) (brackets : Nat) (plain : plainFrom brackets s = true)
    (t : List Char) :
    ∃ brackets', Reader.run ⟨path, rooted, .content brackets⟩ (s ++ t) =
      (Reader.run ⟨path, rooted, .content brackets'⟩ t).map
        (fun p => (p.1, s.map (Prod.mk path) ++ p.2)) := by
  obtain ⟨brackets', text⟩ := Reader.run_plain inside rooted chars plain
  refine ⟨brackets', ?_⟩
  rw [Reader.run_append, text]
  rfl

/-- Where there is no markup nothing but the text itself can be read. -/
theorem Reader.plain_of_run {path : List Name} (inside : path ≠ []) {rooted : Bool} {s : List Char}
    (markup : '<' ∉ s) (reference : '&' ∉ s) {brackets : Nat} {next : Reader} {out : List Placed}
    (runs : Reader.run ⟨path, rooted, .content brackets⟩ s = some (next, out)) :
    plainFrom brackets s = true ∧ (∃ brackets', next = ⟨path, rooted, .content brackets'⟩) ∧
      out = s.map (Prod.mk path) := by
  induction s generalizing brackets out with
  | nil =>
      cases runs
      exact ⟨rfl, ⟨brackets, rfl⟩, rfl⟩
  | cons c s ih =>
      rw [List.mem_cons, not_or] at markup reference
      rw [Reader.run] at runs
      cases steps : Reader.step ⟨path, rooted, .content brackets⟩ c with
      | none =>
          rw [steps] at runs
          cases runs
      | some p =>
          rw [steps] at runs
          obtain ⟨⟨last, further⟩, later, same⟩ := Option.map_eq_some_iff.mp runs
          cases same
          unfold Reader.step at steps
          split at steps
          · cases steps
          · dsimp only at steps
            unfold Reader.stepContent at steps
            rw [if_neg (Ne.symm markup.1), if_neg inside, if_neg (Ne.symm reference.1)] at steps
            split at steps
            · cases steps
            · rename_i section_end
              cases steps
              obtain ⟨rest, place, text⟩ := ih markup.2 reference.2 later
              refine ⟨?_, place, ?_⟩
              · rw [plainFrom, Bool.and_eq_true, decide_eq_true_eq]
                exact ⟨⟨Ne.symm markup.1, Ne.symm reference.1, section_end⟩, rest⟩
              · rw [text]
                rfl

theorem Reader.run_markup {path : List Name} (inside : path ≠ []) {rooted : Bool} {s : List Char}
    (marked : '<' ∈ s ∨ '&' ∈ s) {brackets : Nat} {next : Reader} {out : List Placed}
    (runs : Reader.run ⟨path, rooted, .content brackets⟩ s = some (next, out)) :
    out.length < s.length := by
  induction s generalizing brackets out with
  | nil => simp at marked
  | cons c s ih =>
      rw [Reader.run] at runs
      cases steps : Reader.step ⟨path, rooted, .content brackets⟩ c with
      | none =>
          rw [steps] at runs
          cases runs
      | some p =>
          rw [steps] at runs
          obtain ⟨⟨last, further⟩, later, same⟩ := Option.map_eq_some_iff.mp runs
          cases same
          -- a mode that holds nothing back, after a character that is no text
          have after : p.2 = [] → p.1.mode.held = 0 → (p.2 ++ further).length < (c :: s).length := by
            intro empty held
            have bound := Reader.run_length later
            rw [held] at bound
            simp only [empty, List.nil_append, List.length_cons]
            omega
          unfold Reader.step at steps
          split at steps
          · cases steps
          · dsimp only at steps
            unfold Reader.stepContent at steps
            by_cases markup : c = '<'
            · rw [if_pos markup] at steps
              cases steps
              exact after rfl rfl
            · rw [if_neg markup, if_neg inside] at steps
              by_cases reference : c = '&'
              · rw [if_pos reference] at steps
                cases steps
                exact after rfl rfl
              · rw [if_neg reference] at steps
                split at steps
                · cases steps
                · cases steps
                  have rest : '<' ∈ s ∨ '&' ∈ s := by
                    rw [List.mem_cons, List.mem_cons] at marked
                    exact marked.imp (fun first => first.resolve_left (Ne.symm markup))
                      (fun second => second.resolve_left (Ne.symm reference))
                  have bound := ih rest later
                  simp only [List.length_append, List.length_cons, List.length_nil]
                  omega

def sectionEnd : List Char := [']', ']', '>']

private theorem sectionEnd_infix_cons {brackets : Nat} (few : brackets ≤ 2) (c : Char) (s : List Char) :
    sectionEnd <:+: List.replicate brackets ']' ++ c :: s ↔
      (c = '>' ∧ brackets = 2) ∨ sectionEnd <:+: List.replicate (bracketsAfter brackets c) ']' ++ s := by
  have cases_of_few : brackets = 0 ∨ brackets = 1 ∨ brackets = 2 := by omega
  unfold bracketsAfter sectionEnd
  by_cases bracket : c = ']'
  · subst bracket
    rcases cases_of_few with rfl | rfl | rfl
    all_goals simp [List.infix_cons_iff, List.cons_prefix_cons, List.replicate]
  · rw [if_neg bracket]
    rcases cases_of_few with rfl | rfl | rfl
    all_goals simp [List.infix_cons_iff, List.cons_prefix_cons, List.replicate, eq_comm, bracket]

private theorem plainFrom_iff {brackets : Nat} (few : brackets ≤ 2) (s : List Char) :
    plainFrom brackets s = true ↔
      '<' ∉ s ∧ '&' ∉ s ∧ ¬sectionEnd <:+: List.replicate brackets ']' ++ s := by
  induction s generalizing brackets with
  | nil =>
      refine iff_of_true rfl ⟨List.not_mem_nil, List.not_mem_nil, fun inside => ?_⟩
      have long := inside.length_le
      simp only [sectionEnd, List.append_nil, List.length_replicate, List.length_cons, List.length_nil] at long
      omega
  | cons c s ih =>
      have few' : bracketsAfter brackets c ≤ 2 := by
        unfold bracketsAfter
        split <;> omega
      rw [plainFrom, Bool.and_eq_true, decide_eq_true_eq, ih few', sectionEnd_infix_cons few, List.mem_cons,
        List.mem_cons]
      simp only [not_or, ne_comm]
      tauto

theorem plainFrom_zero (s : List Char) :
    plainFrom 0 s = true ↔ '<' ∉ s ∧ '&' ∉ s ∧ ¬sectionEnd <:+: s :=
  plainFrom_iff (Nat.zero_le 2) s

end Runs

section Tags

def IsName : Name → Prop
  | [] => False
  | c :: name => isNameStart c = true ∧ ∀ d ∈ name, isNameChar d = true

instance : DecidablePred IsName
  | [] => inferInstanceAs (Decidable False)
  | _ :: name => @instDecidableAnd _ _ inferInstance (List.decidableBAll _ name)

private theorem isXmlChar_of_isNameChar {c : Char} (named : isNameChar c = true) : isXmlChar c = true := by
  simp only [isNameChar, isNameStart, isXmlChar, inRanges, List.any_cons, List.any_nil, Bool.or_eq_true,
    Bool.and_eq_true, decide_eq_true_eq, Bool.false_eq_true, or_false] at named ⊢
  omega

private theorem isNameChar_of_isNameStart {c : Char} (start : isNameStart c = true) :
    isNameChar c = true := by
  rw [isNameChar, start, Bool.true_or]

variable {path : List Name} {rooted : Bool}

theorem Reader.run_of_step {r next : Reader} {c : Char} (steps : r.step c = some (next, []))
    (s : List Char) : r.run (c :: s) = next.run s := by
  rw [Reader.run, steps]
  simp

private theorem run_startName {name : Name} (chars : ∀ c ∈ name, isNameChar c = true) (read : List Char)
    (s : List Char) :
    Reader.run ⟨path, rooted, .startName read⟩ (name ++ '>' :: s) =
      Reader.run ⟨(read.reverse ++ name) :: path, true, .content 0⟩ s := by
  induction name generalizing read with
  | nil =>
      rw [List.nil_append, List.append_nil]
      refine Reader.run_of_step ?_ s
      rfl
  | cons c name ih =>
      have named := chars c List.mem_cons_self
      have steps : Reader.step ⟨path, rooted, .startName read⟩ c =
          some (⟨path, rooted, .startName (c :: read)⟩, []) := by
        unfold Reader.step
        rw [isXmlChar_of_isNameChar named, if_neg (by decide)]
        exact if_pos named
      rw [List.cons_append, Reader.run_of_step steps, ih (fun d member => chars d (List.mem_cons_of_mem c member)),
        List.reverse_cons, List.append_assoc, List.singleton_append]

theorem Reader.run_startTag {name : Name} (isName : IsName name) (allowed : path ≠ [] ∨ rooted = false)
    (brackets : Nat) (s : List Char) :
    Reader.run ⟨path, rooted, .content brackets⟩ ('<' :: (name ++ '>' :: s)) =
      Reader.run ⟨name :: path, true, .content 0⟩ s := by
  cases name with
  | nil => exact isName.elim
  | cons c name =>
      obtain ⟨start, chars⟩ := isName
      have steps : Reader.step ⟨path, rooted, .markup⟩ c = some (⟨path, rooted, .startName [c]⟩, []) := by
        unfold Reader.step
        rw [isXmlChar_of_isNameChar (isNameChar_of_isNameStart start), if_neg (by decide)]
        dsimp only
        unfold Reader.stepMarkup
        have slash : c ≠ '/' := by rintro rfl; exact absurd start (by decide)
        have bang : c ≠ '!' := by rintro rfl; exact absurd start (by decide)
        have question : c ≠ '?' := by rintro rfl; exact absurd start (by decide)
        rw [if_neg slash, if_neg bang, if_neg question, if_pos]
        · rfl
        · refine ⟨start, fun both => ?_⟩
          rcases allowed with inside | first
          · exact inside both.1
          · exact Bool.false_ne_true (first.symm.trans both.2)
      rw [Reader.run_of_step (show Reader.step _ '<' = some (⟨path, rooted, .markup⟩, []) from rfl),
        List.cons_append, Reader.run_of_step steps, run_startName chars]
      rfl

private theorem run_endName {name : Name} (chars : ∀ c ∈ name, isNameChar c = true) {read : List Char}
    (nonempty : read ≠ []) (s : List Char) :
    Reader.run ⟨path, rooted, .endName read⟩ (name ++ '>' :: s) =
      match path with
      | top :: rest =>
          if top = read.reverse ++ name then Reader.run ⟨rest, rooted, .content 0⟩ s else none
      | [] => none := by
  induction name generalizing read with
  | nil =>
      have steps : Reader.step ⟨path, rooted, .endName read⟩ '>' =
          Reader.close ⟨path, rooted, .endName read⟩ read.reverse := by
        change Reader.stepEndName _ read '>' = _
        unfold Reader.stepEndName
        rw [if_neg, if_neg nonempty, if_pos rfl]
        rintro (start | ⟨-, later⟩)
        · exact absurd start (by decide)
        · exact absurd later (by decide)
      rw [List.nil_append, List.append_nil, Reader.run, steps, Reader.close]
      cases path with
      | nil => rfl
      | cons top rest =>
          dsimp only
          by_cases same : top = read.reverse
          · rw [if_pos same, if_pos same]
            simp
          · rw [if_neg same, if_neg same]
  | cons c name ih =>
      have named := chars c List.mem_cons_self
      have steps : Reader.step ⟨path, rooted, .endName read⟩ c =
          some (⟨path, rooted, .endName (c :: read)⟩, []) := by
        unfold Reader.step
        rw [isXmlChar_of_isNameChar named, if_neg (by decide)]
        exact if_pos (Or.inr ⟨nonempty, named⟩)
      rw [List.cons_append, Reader.run_of_step steps,
        ih (fun d member => chars d (List.mem_cons_of_mem c member)) (List.cons_ne_nil c read),
        List.reverse_cons, List.append_assoc, List.singleton_append]

/-- An end tag closes the element that it names, which has to be the innermost one. -/
theorem Reader.run_endTag {name : Name} (isName : IsName name) (brackets : Nat) (s : List Char) :
    Reader.run ⟨path, rooted, .content brackets⟩ ('<' :: '/' :: (name ++ '>' :: s)) =
      match path with
      | top :: rest => if top = name then Reader.run ⟨rest, rooted, .content 0⟩ s else none
      | [] => none := by
  cases name with
  | nil => exact isName.elim
  | cons c name =>
      obtain ⟨start, chars⟩ := isName
      have steps : Reader.step ⟨path, rooted, .endName []⟩ c = some (⟨path, rooted, .endName [c]⟩, []) := by
        unfold Reader.step
        rw [isXmlChar_of_isNameChar (isNameChar_of_isNameStart start), if_neg (by decide)]
        exact if_pos (Or.inl start)
      rw [Reader.run_of_step (show Reader.step _ '<' = some (⟨path, rooted, .markup⟩, []) from rfl),
        Reader.run_of_step (show Reader.step _ '/' = some (⟨path, rooted, .endName []⟩, []) from rfl),
        List.cons_append, Reader.run_of_step steps, run_endName chars (List.cons_ne_nil c [])]
      rfl

end Tags

section Unfinished

/-- A comment, an instruction or a section of characters. -/
def Mode.hides : Mode → Prop
  | .comment dash => dash = false
  | .instruction question => question = false
  | .cdata brackets => brackets = 0
  | _ => False

private theorem step_angle {r next : Reader} {out : List Placed} (steps : r.step '<' = some (next, out)) :
    (∃ brackets, r.mode = .content brackets ∧ next = ⟨r.path, r.rooted, .markup⟩ ∧ out = []) ∨
      next.mode.hides := by
  obtain ⟨path, rooted, mode⟩ := r
  have xml : isXmlChar '<' = true := by decide
  have start : isNameStart '<' = false := by decide
  have char : isNameChar '<' = false := by decide
  have space : isSpace '<' = false := by decide
  unfold Reader.step at steps
  rw [xml, if_neg (by decide)] at steps
  cases mode with
  | content brackets =>
      cases steps
      exact Or.inl ⟨brackets, rfl, rfl, rfl⟩
  | comment dash =>
      cases steps
      exact Or.inr rfl
  | cdata brackets =>
      cases steps
      exact Or.inr rfl
  | instruction question =>
      cases steps
      exact Or.inr rfl
  | cdataName read =>
      exfalso
      have other : ∀ s : List Char, ¬('<' :: s).reverse <+: cdataWord := by
        intro s inside
        have member : '<' ∈ cdataWord := inside.subset (by simp)
        exact absurd member (by decide)
      have whole : ('<' :: read).reverse ≠ cdataWord := fun same =>
        other read (same ▸ List.prefix_refl _)
      simp only [Reader.stepCdataName, List.isPrefixOf_iff_prefix] at steps
      rw [if_neg whole, if_neg (other read)] at steps
      cases steps
  | quoted t quote =>
      cases steps
  | _ =>
      exfalso
      simp [Reader.stepReference, Reader.stepMarkup, Reader.stepTag, Reader.stepAttribute,
        Reader.stepQuotedReference, Reader.stepEndName, Reader.stepTarget, start, char, space] at steps

private theorem run_hidden {r next : Reader} {s : List Char} {out : List Placed} (hidden : r.mode.hides)
    (neither : ∀ c ∈ s, c ≠ '-' ∧ c ≠ '?' ∧ c ≠ ']') (runs : r.run s = some (next, out)) :
    next.mode.hides := by
  induction s generalizing r out with
  | nil =>
      cases runs
      exact hidden
  | cons c s ih =>
      obtain ⟨dash, question, bracket⟩ := neither c List.mem_cons_self
      rw [Reader.run] at runs
      cases steps : r.step c with
      | none =>
          rw [steps] at runs
          cases runs
      | some p =>
          rw [steps] at runs
          obtain ⟨⟨last, further⟩, later, same⟩ := Option.map_eq_some_iff.mp runs
          cases same
          refine ih ?_ (fun d member => neither d (List.mem_cons_of_mem c member)) later
          obtain ⟨path, rooted, mode⟩ := r
          unfold Reader.step at steps
          split at steps
          · cases steps
          · cases mode with
            | comment _ =>
                cases steps
                rfl
            | instruction _ =>
                obtain rfl := hidden
                dsimp only at steps
                rw [if_neg (fun both => Bool.false_ne_true both.2)] at steps
                cases steps
                exact decide_eq_false question
            | cdata _ =>
                obtain rfl := hidden
                dsimp only at steps
                unfold Reader.stepCdata at steps
                rw [if_neg bracket, if_neg (fun both => absurd both.2 (by decide))] at steps
                cases steps
                rfl
            | _ => exact hidden.elim

/-- What is read to the end with a tag and without the end of a comment, an instruction or a
section is read from the text on. -/
theorem Reader.content_of_done {r next : Reader} {s : List Char} {out : List Placed}
    (neither : ∀ c ∈ s, c ≠ '-' ∧ c ≠ '?' ∧ c ≠ ']') (runs : r.run ('<' :: s) = some (next, out))
    (done : next.done = true) : ∃ brackets, r.mode = .content brackets := by
  rw [Reader.run] at runs
  cases steps : r.step '<' with
  | none =>
      rw [steps] at runs
      cases runs
  | some p =>
      rw [steps] at runs
      obtain ⟨⟨last, further⟩, later, same⟩ := Option.map_eq_some_iff.mp runs
      cases same
      rcases step_angle steps with ⟨brackets, mode, -⟩ | hidden
      · exact ⟨brackets, mode⟩
      · have hidden' := run_hidden hidden neither later
        exfalso
        cases place : last.mode with
        | content brackets =>
            rw [place] at hidden'
            exact hidden'
        | _ =>
            unfold Reader.done at done
            rw [place] at done
            cases done

end Unfinished

end Cgimap.Library.XmlText
