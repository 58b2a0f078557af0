/- path: Cgimap/Library/HeaderBlock
   generality: I
   source: none
   digest: Blocks of header lines, and reading them back. -/

import Mathlib.Data.List.TakeWhile

set_option autoImplicit false
set_option relaxedAutoImplicit false

namespace Cgimap.Library.HeaderBlock

section Lines

/-- A text without a line end. -/
def Unbroken (s : List Char) : Prop := '\r' ∉ s ∧ '\n' ∉ s

instance (s : List Char) : Decidable (Unbroken s) := inferInstanceAs (Decidable (_ ∧ _))

theorem Unbroken.append {s t : List Char} (first : Unbroken s) (second : Unbroken t) :
    Unbroken (s ++ t) := by
  unfold Unbroken at *
  simp only [List.mem_append, not_or]
  exact ⟨⟨first.1, second.1⟩, first.2, second.2⟩

/-- The lines of a text; a line ends with CR, LF or CR LF. The flag says that the last
character was a CR, `line` is what has been read of a line, reversed. -/
def linesFrom : Bool → List Char → List Char → List (List Char)
  | _, line, [] => if line = [] then [] else [line.reverse]
  | afterReturn, line, c :: s =>
      if c = '\n' then
        if afterReturn then linesFrom false [] s else line.reverse :: linesFrom false [] s
      else if c = '\r' then line.reverse :: linesFrom true [] s
      else linesFrom false (c :: line) s

def lines (s : List Char) : List (List Char) := linesFrom false [] s

private theorem linesFrom_append {w : List Char} (unbroken : Unbroken w) (line s : List Char) :
    linesFrom false line (w ++ '\r' :: '\n' :: s) = (line.reverse ++ w) :: lines s := by
  induction w generalizing line with
  | nil =>
      rw [List.append_nil]
      rfl
  | cons c w ih =>
      obtain ⟨cr, lf⟩ := unbroken
      rw [List.mem_cons, not_or] at cr lf
      rw [List.cons_append, linesFrom, if_neg (Ne.symm lf.1), if_neg (Ne.symm cr.1), ih ⟨cr.2, lf.2⟩,
        List.reverse_cons, List.append_assoc, List.singleton_append]

theorem lines_append {w : List Char} (unbroken : Unbroken w) (s : List Char) :
    lines (w ++ '\r' :: '\n' :: s) = w :: lines s :=
  linesFrom_append unbroken [] s

end Lines

section Headers

abbrev Header := List Char × List Char

def headerLine (h : Header) : List Char := h.1 ++ ':' :: ' ' :: h.2

/-- The header of a line: what stands before the first colon, and after the blank behind it. -/
def headerOf (line : List Char) : Option Header :=
  match line.dropWhile (· ≠ ':') with
  | ':' :: ' ' :: value => some (line.takeWhile (· ≠ ':'), value)
  | _ => none

theorem headerOf_headerLine {h : Header} (name : ':' ∉ h.1) : headerOf (headerLine h) = some h := by
  have other : ∀ c ∈ h.1, decide (c ≠ ':') = true := fun c member =>
    decide_eq_true fun same => name (same ▸ member)
  unfold headerOf headerLine
  rw [List.dropWhile_append_of_pos other, List.takeWhile_append_of_pos other]
  simp

/-- The lines of a block, up to the empty one that ends it. -/
def blockLines (block : List Char) : List (List Char) := (lines block).takeWhile (· ≠ [])

def parseBlock (block : List Char) : Option (List Header) := (blockLines block).mapM headerOf

/-- Headers line by line, and an empty line. -/
def writeBlock (headers : List Header) : List Char :=
  headers.flatMap (fun h => headerLine h ++ ['\r', '\n']) ++ ['\r', '\n']

/-- What a header needs so that its line can be read. -/
structure Writable (h : Header) : Prop where
  name : ':' ∉ h.1 ∧ Unbroken h.1
  value : Unbroken h.2

private theorem headerLine_ne_nil (h : Header) : headerLine h ≠ [] := by
  unfold headerLine
  simp

private theorem unbroken_headerLine {h : Header} (writable : Writable h) : Unbroken (headerLine h) := by
  have middle : Unbroken [':', ' '] := by decide
  exact writable.name.2.append (middle.append writable.value)

theorem blockLines_writeBlock {headers : List Header} (writable : ∀ h ∈ headers, Writable h) :
    blockLines (writeBlock headers) = headers.map headerLine := by
  induction headers with
  | nil => rfl
  | cons h headers ih =>
      have own := writable h List.mem_cons_self
      have rest := ih fun h' member => writable h' (List.mem_cons_of_mem h member)
      have text : writeBlock (h :: headers) = headerLine h ++ '\r' :: '\n' :: writeBlock headers := by
        unfold writeBlock
        simp
      unfold blockLines at rest ⊢
      rw [text, lines_append (unbroken_headerLine own), List.map_cons, ← rest]
      exact List.takeWhile_cons_of_pos (by simpa using headerLine_ne_nil h)

theorem parseBlock_writeBlock {headers : List Header} (writable : ∀ h ∈ headers, Writable h) :
    parseBlock (writeBlock headers) = some headers := by
  unfold parseBlock
  rw [blockLines_writeBlock writable, List.mapM_map]
  induction headers with
  | nil => rfl
  | cons h headers ih =>
      rw [List.mapM_cons, Function.comp_apply, headerOf_headerLine (writable h List.mem_cons_self).name.1,
        ih fun h' member => writable h' (List.mem_cons_of_mem h member)]
      rfl

end Headers

end Cgimap.Library.HeaderBlock
