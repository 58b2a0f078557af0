/- path: Cgimap/Http/HeaderLists
   generality: I
   source: src/http.cpp, include/cgimap/util.hpp
   digest: Lists in header fields and the quality values in them, written and split again. -/

import Cgimap.Http.Negotiation
import Mathlib.Data.List.TakeWhile

set_option autoImplicit false
set_option relaxedAutoImplicit false

namespace Cgimap.Http.HeaderLists

open Cgimap.Http.Requests
open Cgimap.Http.Negotiation

section Values

/-- A decimal number: digits, and digits after a point. -/
structure Decimal where
  whole : Text
  fraction : Option Text
  nonempty : whole ≠ []
  digits : ∀ c ∈ whole ++ fraction.getD [], c.isDigit = true

def Decimal.text (d : Decimal) : Text :=
  match d.fraction with
  | none => d.whole
  | some fraction => d.whole ++ '.' :: fraction

def Decimal.value (d : Decimal) : ℚ :=
  decimalValue (d.whole ++ d.fraction.getD []) / 10 ^ (d.fraction.getD []).length

structure Weight extends Decimal where
  bounded : toDecimal.value ≤ 1

theorem Decimal.value_nonneg (d : Decimal) : 0 ≤ d.value := by
  unfold Decimal.value
  positivity

theorem Decimal.text_ne_nil (d : Decimal) : d.text ≠ [] := by
  unfold Decimal.text
  split
  · exact d.nonempty
  · exact List.append_ne_nil_of_right_ne_nil _ (List.cons_ne_nil _ _)

theorem Decimal.mem_text {d : Decimal} {c : Char} (member : c ∈ d.text) :
    c.isDigit = true ∨ c = '.' := by
  have digits := d.digits c
  unfold Decimal.text at member
  cases points : d.fraction with
  | none =>
      rw [points] at member
      exact Or.inl (digits (List.mem_append_left _ member))
  | some fraction =>
      rw [points] at member digits
      rcases List.mem_append.mp member with whole | rest
      · exact Or.inl (digits (List.mem_append_left _ whole))
      · rcases List.mem_cons.mp rest with point | digit
        · exact Or.inr point
        · exact Or.inl (digits (List.mem_append_right _ digit))

theorem Decimal.not_mem_text (d : Decimal) {c : Char} (other : c.isDigit = false ∧ c ≠ '.') :
    c ∉ d.text := by
  intro member
  rcases Decimal.mem_text member with digit | point
  · rw [other.1] at digit
    cases digit
  · exact other.2 point

/-- A conversion that reads decimals, and nothing else. -/
def readDecimal (s : Text) : Option (Option ℚ) :=
  let whole := s.takeWhile Char.isDigit
  match s.dropWhile Char.isDigit with
  | [] => if whole = [] then none else some (some (decimalValue whole))
  | c :: fraction =>
      if whole ≠ [] ∧ c = '.' ∧ fraction.all Char.isDigit then
        some (some (decimalValue (whole ++ fraction) / 10 ^ fraction.length))
      else none

def decimalNumbers : Numbers := ⟨readDecimal, readDecimal, readDecimal⟩

theorem readDecimal_text (d : Decimal) : readDecimal d.text = some (some d.value) := by
  have digits : ∀ c ∈ d.whole, c.isDigit = true := fun c member =>
    d.digits c (List.mem_append_left _ member)
  unfold readDecimal Decimal.text Decimal.value
  cases points : d.fraction with
  | none =>
      dsimp only [Option.getD_none]
      rw [List.takeWhile_eq_self_iff.mpr digits, List.dropWhile_eq_nil_iff.mpr digits]
      simp [d.nonempty]
  | some fraction =>
      have rest : fraction.all Char.isDigit = true := List.all_eq_true.mpr fun c member =>
        d.digits c (List.mem_append_right _ (by rw [points]; exact member))
      have point : Char.isDigit '.' = false := by decide
      dsimp only [Option.getD_some]
      rw [List.takeWhile_append_of_pos digits, List.dropWhile_append_of_pos digits,
        List.takeWhile_cons_of_neg (by rw [point]; decide),
        List.dropWhile_cons_of_neg (by rw [point]; decide)]
      simp [d.nonempty, rest]

end Values

section Splitting

variable {d : Char} {ds item : Text}

private theorem splitTextFrom_skip (delim rest : Text) :
    ∀ skipped : Text, splitTextFrom delim skipped.length [] (skipped ++ rest) =
      splitTextFrom delim 0 [] rest
  | [] => rfl
  | c :: skipped => by
      rw [List.length_cons, List.cons_append, splitTextFrom]
      exact splitTextFrom_skip delim rest skipped

private theorem splitTextFrom_cons {c : Char} (other : c ≠ d) (part s : Text) :
    splitTextFrom (d :: ds) 0 part (c :: s) = splitTextFrom (d :: ds) 0 (c :: part) s := by
  rw [splitTextFrom, if_neg]
  rw [List.isPrefixOf_cons_cons, Bool.and_eq_true, beq_iff_eq]
  exact fun both => other both.1.symm

private theorem splitTextFrom_last (plain : d ∉ item) (part : Text) :
    splitTextFrom (d :: ds) 0 part item = [part.reverse ++ item] := by
  induction item generalizing part with
  | nil => rw [splitTextFrom, List.append_nil]
  | cons c item ih =>
      rw [List.mem_cons, not_or] at plain
      rw [splitTextFrom_cons (Ne.symm plain.1), ih plain.2, List.reverse_cons, List.append_assoc]
      rfl

private theorem splitTextFrom_next (plain : d ∉ item) (part rest : Text) :
    splitTextFrom (d :: ds) 0 part (item ++ ((d :: ds) ++ rest)) =
      (part.reverse ++ item) :: splitTextFrom (d :: ds) 0 [] rest := by
  induction item generalizing part with
  | nil =>
      rw [List.nil_append, List.append_nil, List.cons_append, splitTextFrom, if_pos]
      · rw [List.length_cons, Nat.add_sub_cancel, splitTextFrom_skip]
      · rw [List.isPrefixOf_iff_prefix]
        exact List.prefix_append (d :: ds) rest
  | cons c item ih =>
      rw [List.mem_cons, not_or] at plain
      rw [List.cons_append, splitTextFrom_cons (Ne.symm plain.1), ih plain.2, List.reverse_cons,
        List.append_assoc]
      rfl

variable (d ds)

/-- Splitting a list at the delimiter gives its items back, which do not contain the delimiter's
first character. -/
theorem splitText_intercalate {items : List Text} (plain : ∀ item ∈ items, d ∉ item)
    (filled : ∀ item ∈ items, item ≠ []) : splitText ((d :: ds).intercalate items) (d :: ds) = items := by
  have pieces : ∀ items : List Text, (∀ item ∈ items, d ∉ item) → items ≠ [] →
      splitTextFrom (d :: ds) 0 [] ((d :: ds).intercalate items) = items := by
    intro items plain
    induction items with
    | nil => exact fun some => absurd rfl some
    | cons item items ih =>
        intro _
        have first := plain item List.mem_cons_self
        cases items with
        | nil =>
            rw [List.intercalate_singleton, splitTextFrom_last first]
            rfl
        | cons item' items =>
            rw [List.intercalate_cons_cons, List.append_assoc, splitTextFrom_next first,
              ih (fun other member => plain other (List.mem_cons_of_mem _ member))
                (List.cons_ne_nil _ _)]
            rfl
  cases items with
  | nil => rfl
  | cons item items =>
      have nonempty : (d :: ds).intercalate (item :: items) ≠ [] := by
        cases items with
        | nil =>
            rw [List.intercalate_singleton]
            exact filled item List.mem_cons_self
        | cons item' items =>
            rw [List.intercalate_cons_cons, List.append_assoc]
            exact List.append_ne_nil_of_right_ne_nil _ (by simp)
      rw [splitText, if_neg nonempty, pieces _ plain (List.cons_ne_nil _ _)]

theorem splitText_single (plain : d ∉ item) (filled : item ≠ []) :
    splitText item (d :: ds) = [item] := by
  rw [splitText, if_neg filled, splitTextFrom_last plain]
  rfl

theorem splitText_pair {item' : Text} (plain : d ∉ item) (plain' : d ∉ item') :
    splitText (item ++ ((d :: ds) ++ item')) (d :: ds) = [item, item'] := by
  rw [splitText, if_neg (List.append_ne_nil_of_right_ne_nil _ (by simp)), splitTextFrom_next plain,
    splitTextFrom_last plain']
  rfl

end Splitting

section Trimming

def Blank (s : Text) : Prop := ∀ c ∈ s, isSpace c = true

def Trimmed (s : Text) : Prop :=
  (∀ c ∈ s.head?, isSpace c = false) ∧ ∀ c ∈ s.getLast?, isSpace c = false

instance (s : Text) : Decidable (Trimmed s) :=
  @instDecidableAnd _ _ (Option.decidableForallMem _) (Option.decidableForallMem _)

/-- A place of a list, which may be empty, with white space around. -/
structure Slot (α : Type) where
  left : Text
  content : Option α
  right : Text
  blank : Blank left ∧ Blank right

def Slot.text {α : Type} (write : α → Text) (slot : Slot α) : Text :=
  slot.left ++ ((slot.content.map write).getD [] ++ slot.right)

private theorem dropWhile_blank {l : Text} (blank : Blank l) (s : Text) :
    (l ++ s).dropWhile isSpace = s.dropWhile isSpace :=
  List.dropWhile_append_of_pos blank

private theorem dropWhile_head {s : Text} (clean : ∀ c ∈ s.head?, isSpace c = false) :
    s.dropWhile isSpace = s := by
  cases s with
  | nil => rfl
  | cons c s =>
      have head := clean c rfl
      rw [List.dropWhile_cons_of_neg]
      rw [head]
      decide

private theorem dropWhile_content {s t : Text} (filled : s ≠ [])
    (clean : ∀ c ∈ s.head?, isSpace c = false) : (s ++ t).dropWhile isSpace = s ++ t := by
  refine dropWhile_head fun c head => ?_
  rw [List.head?_append_of_ne_nil s filled] at head
  exact clean c head

private theorem trim_content {l s r : Text} (left : Blank l) (right : Blank r) (filled : s ≠ [])
    (trimmed : Trimmed s) : trim (l ++ (s ++ r)) = s := by
  have back : Blank r.reverse := fun c member => right c (List.mem_reverse.mp member)
  rw [trim, dropWhile_blank left, dropWhile_content filled trimmed.1, List.reverse_append,
    dropWhile_blank back, dropWhile_head, List.reverse_reverse]
  rw [List.head?_reverse]
  exact trimmed.2

private theorem trim_blank {s : Text} (blank : Blank s) : trim s = [] := by
  rw [trim, List.dropWhile_eq_nil_iff.mpr blank]
  rfl

variable {α : Type} {d : Char}

private theorem trim_slots {write : α → Text} {slots : List (Slot α)}
    (good : ∀ slot ∈ slots, ∀ a, slot.content = some a → write a ≠ [] ∧ Trimmed (write a)) :
    ((slots.map (Slot.text write)).map trim).filter (fun part => part ≠ []) =
      slots.filterMap (fun slot => slot.content.map write) := by
  induction slots with
  | nil => rfl
  | cons slot slots ih =>
      have rest := ih fun other member => good other (List.mem_cons_of_mem _ member)
      rw [List.map_cons, List.map_cons]
      cases filled : slot.content with
      | none =>
          have empty : trim (slot.text write) = [] := by
            refine trim_blank fun c member => ?_
            rw [Slot.text, filled] at member
            rcases List.mem_append.mp member with left | right
            · exact slot.blank.1 c left
            · exact slot.blank.2 c right
          rw [empty, List.filter_cons_of_neg (by simp), List.filterMap_cons_none (by rw [filled]; rfl)]
          exact rest
      | some a =>
          obtain ⟨nonempty, trimmed⟩ := good slot List.mem_cons_self a filled
          have word : trim (slot.text write) = write a := by
            rw [Slot.text, filled]
            exact trim_content slot.blank.1 slot.blank.2 nonempty trimmed
          rw [word, List.filter_cons_of_pos (by simpa using nonempty),
            List.filterMap_cons_some (by rw [filled]; rfl), rest]

/-- Splitting and trimming a list gives what stands in its places. -/
theorem splitTrim_slots {write : α → Text} {slots : List (Slot α)} (separator : isSpace d = false)
    (good : ∀ slot ∈ slots, ∀ a, slot.content = some a →
      write a ≠ [] ∧ Trimmed (write a) ∧ d ∉ write a) :
    splitTrim ([d].intercalate (slots.map (Slot.text write))) d =
      slots.filterMap (fun slot => slot.content.map write) := by
  have blank_plain : ∀ {s : Text}, Blank s → d ∉ s := by
    intro s blank member
    rw [blank d member] at separator
    cases separator
  have plain : ∀ text ∈ slots.map (Slot.text write), d ∉ text := by
    intro text member inside
    obtain ⟨slot, listed, rfl⟩ := List.mem_map.mp member
    rw [Slot.text, List.mem_append, List.mem_append] at inside
    rcases inside with left | content | right
    · exact blank_plain slot.blank.1 left
    · cases filled : slot.content with
      | none =>
          rw [filled] at content
          exact List.not_mem_nil content
      | some a =>
          rw [filled] at content
          exact (good slot listed a filled).2.2 content
    · exact blank_plain slot.blank.2 right
  rw [← trim_slots fun slot member a filled =>
    ⟨(good slot member a filled).1, (good slot member a filled).2.1⟩, splitTrim, split]
  by_cases none : slots = []
  · subst none
    rfl
  have pieces := List.splitOn_intercalate d plain (by simpa using none)
  by_cases empty : [d].intercalate (slots.map (Slot.text write)) = []
  · rw [empty] at pieces
    rw [if_pos empty, ← pieces, List.splitOn_nil]
    rfl
  · rw [if_neg empty, pieces]

end Trimming

end Cgimap.Http.HeaderLists
