/- path: Cgimap/Osmchange/NumericFields
   generality: I
   source: include/cgimap/api06/changeset_upload/{osmobject,way,relation}.hpp,
     test/test_parse_osmchange_xml_input.cpp
   digest: The five setters that take a number as text, and the texts they read right. -/

import Cgimap.Osmchange.XmlParser
import Mathlib.Data.List.TakeWhile

set_option autoImplicit false
set_option relaxedAutoImplicit false

namespace Cgimap.Osmchange.NumericFields

open Cgimap.Model.Types
open Cgimap.Osmchange.Attributes
open Cgimap.Osmchange.XmlParser

inductive NumericField where
  | id
  | changeset
  | version
  | wayNode
  | memberRef
  deriving DecidableEq

def Target : NumericField → Type
  | .id => Header
  | .changeset => Header
  | .version => Header
  | .wayNode => List Int
  | .memberRef => PartialMember

section Setters

/-- The setters throw before they store anything. -/
def store {α σ : Type} (parsed : Except Exception α) (put : α → σ) (o : σ) :
    Except Exception Unit × σ :=
  match parsed with
  | .ok a => (.ok (), put a)
  | .error e => (.error e, o)

def set : (f : NumericField) → String → Target f → Except Exception Unit × Target f
  | .id, s, (h : Header) => store (setId s) (fun id => { h with id := some id }) h
  | .changeset, s, (h : Header) =>
      store (setChangeset s) (fun changeset => { h with changeset := some changeset }) h
  | .version, s, (h : Header) =>
      store (setVersion s) (fun version => { h with version := some version }) h
  | .wayNode, s, (nodes : List Int) => store (wayNode s) (fun node => nodes ++ [node]) nodes
  | .memberRef, s, (m : PartialMember) => store (memberRef s) (fun ref => { m with ref := some ref }) m

end Setters

section Meaning

/-- The whole text is an integer, with a minus sign or without. -/
def WholeInteger (s : String) (v : Int) : Prop :=
  ∃ digits, digits ≠ [] ∧ (∀ c ∈ digits, c.isDigit = true) ∧
    ((s.toList = digits ∧ v = digitsValue digits) ∨
      (s.toList = '-' :: digits ∧ v = -(digitsValue digits : Int)))

/-- The values of the type of a field: `int64_t`, and `uint32_t` for the version. -/
def Fits : NumericField → Int → Prop
  | .version, v => 0 ≤ v ∧ v < versionBound
  | _, v => -2 ^ 63 ≤ v ∧ v < 2 ^ 63

/-- The checks of the setters that take a number. -/
def Passes : NumericField → Int → Prop
  | .id, v => v ≠ 0
  | .changeset, v => 0 < v
  | .version, v => 0 ≤ v
  | .wayNode, v => v ≠ 0
  | .memberRef, v => v ≠ 0

def put : (f : NumericField) → Int → Target f → Target f
  | .id, v, (h : Header) => ({ h with id := some v } : Header)
  | .changeset, v, (h : Header) => ({ h with changeset := some v } : Header)
  | .version, v, (h : Header) => ({ h with version := some v.toNat } : Header)
  | .wayNode, v, (nodes : List Int) => (nodes ++ [v] : List Int)
  | .memberRef, v, (m : PartialMember) => ({ m with ref := some v } : PartialMember)

/-- The setter reads this text right: it stores the integer that the text is, or throws and
changes nothing. -/
def Exact (f : NumericField) (s : String) : Prop :=
  ∀ o, (∀ v, WholeInteger s v → Fits f v → Passes f v → set f s o = (.ok (), put f v o)) ∧
    ((∀ v, WholeInteger s v → Fits f v → ¬Passes f v) →
      ∃ message, set f s o = (.error (.badRequest message), o))

def unsigned (s : String) : List Char :=
  if s.toList.head? = some '-' then s.toList.tail else s.toList

/-- What follows the number at the start of a text. -/
def trailing (s : String) : List Char := (unsigned s).dropWhile Char.isDigit

end Meaning

section Texts

variable {s : String} {v : Int}

private def leading (s : String) : List Char := (unsigned s).takeWhile Char.isDigit

private def valueOf (s : String) : Int :=
  if s.toList.head? = some '-' then -(digitsValue (leading s) : Int) else digitsValue (leading s)

private theorem fromChars_eq (s : String) : fromChars s =
    if leading s = [] then .invalidArgument
    else if -2 ^ 63 ≤ valueOf s ∧ valueOf s < 2 ^ 63 then .value (valueOf s)
    else .resultOutOfRange := by
  unfold fromChars valueOf leading unsigned
  by_cases negative : s.toList.head? = some '-' <;> simp [negative]

private theorem unsigned_of_digits {digits : List Char} (all : ∀ c ∈ digits, c.isDigit = true)
    (text : unsigned s = digits) : leading s = digits ∧ trailing s = [] := by
  rw [leading, trailing, text]
  exact ⟨List.takeWhile_eq_self_iff.mpr all, List.dropWhile_eq_nil_iff.mpr all⟩

private theorem wholeInteger_iff :
    WholeInteger s v ↔ leading s ≠ [] ∧ trailing s = [] ∧ v = valueOf s := by
  constructor
  · rintro ⟨digits, nonempty, all, ⟨text, rfl⟩ | ⟨text, rfl⟩⟩
    · have plain : s.toList.head? ≠ some '-' := by
        rw [text]
        intro first
        have digit := all '-' (List.mem_of_mem_head? first)
        exact absurd digit (by decide)
      obtain ⟨number, alone⟩ := unsigned_of_digits all (show unsigned s = digits by
        rw [unsigned, if_neg plain, text])
      rw [valueOf, if_neg plain, number]
      exact ⟨nonempty, alone, rfl⟩
    · have negative : s.toList.head? = some '-' := by
        rw [text]
        rfl
      obtain ⟨number, alone⟩ := unsigned_of_digits all (show unsigned s = digits by
        rw [unsigned, if_pos negative, text]
        rfl)
      rw [valueOf, if_pos negative, number]
      exact ⟨nonempty, alone, rfl⟩
  · rintro ⟨nonempty, alone, rfl⟩
    have whole : leading s = unsigned s := by
      have parts : leading s ++ trailing s = unsigned s := List.takeWhile_append_dropWhile
      rwa [alone, List.append_nil] at parts
    refine ⟨leading s, nonempty, fun c member => List.mem_takeWhile_imp member, ?_⟩
    rw [valueOf, whole, unsigned]
    split
    · rename_i negative
      exact .inr ⟨List.eq_cons_of_mem_head? negative, rfl⟩
    · exact .inl ⟨rfl, rfl⟩

/-- Out of a text that is an integer of 64 bits, `from_chars` reads it. -/
theorem fromChars_of_whole (whole : WholeInteger s v) (fits : -2 ^ 63 ≤ v ∧ v < 2 ^ 63) :
    fromChars s = .value v := by
  obtain ⟨some, -, rfl⟩ := wholeInteger_iff.mp whole
  rw [fromChars_eq, if_neg some, if_pos fits]

theorem fromChars_eq_value (read : fromChars s = .value v) :
    (-2 ^ 63 ≤ v ∧ v < 2 ^ 63) ∧ (trailing s = [] ↔ WholeInteger s v) := by
  rw [fromChars_eq] at read
  split at read
  · cases read
  · rename_i some
    split at read
    · rename_i fits
      cases read
      rw [wholeInteger_iff]
      exact ⟨fits, fun alone => ⟨some, alone, rfl⟩, fun whole => whole.2.1⟩
    · cases read

theorem wholeInteger_unique {w : Int} (first : WholeInteger s v) (second : WholeInteger s w) :
    v = w := (wholeInteger_iff.mp first).2.2.trans (wholeInteger_iff.mp second).2.2.symm

theorem whole_of_read {w : Int} (read : fromChars s = .value w) (whole : WholeInteger s v) :
    v = w :=
  wholeInteger_unique whole ((fromChars_eq_value read).2.mp (wholeInteger_iff.mp whole).2.1)

end Texts

section Fields

variable {f : NumericField} {s : String} {v : Int}

/-- What is stored of a number: a version loses what is beyond its 32 bits. -/
def wrap : NumericField → Int → Int
  | .version, v => v % versionBound
  | _, v => v

private theorem store_setNumber {α σ : Type} {notNumeric tooLarge message : String}
    {check : Int → Except Exception α} (passes : Int → Prop) (value : Int → α) (keep : α → σ) (o : σ)
    (ok : ∀ v, passes v → check v = .ok (value v))
    (fails : ∀ v, ¬passes v → check v = .error (.badRequest message)) :
    (∃ v, fromChars s = .value v ∧ passes v ∧
        store (setNumber notNumeric tooLarge check s) keep o = (.ok (), keep (value v))) ∨
      ((∀ v, fromChars s = .value v → ¬passes v) ∧
        ∃ message, store (setNumber notNumeric tooLarge check s) keep o =
          (.error (.badRequest message), o)) := by
  unfold setNumber
  cases read : fromChars s with
  | value v =>
      by_cases good : passes v
      · refine .inl ⟨v, rfl, good, ?_⟩
        dsimp only
        rw [ok v good]
        rfl
      · refine .inr ⟨fun w same => ?_, message, ?_⟩
        · cases same
          exact good
        · dsimp only
          rw [fails v good]
          rfl
  | invalidArgument => exact .inr ⟨fun v never => (nomatch never), notNumeric, rfl⟩
  | resultOutOfRange => exact .inr ⟨fun v never => (nomatch never), tooLarge, rfl⟩

theorem set_cases (f : NumericField) (s : String) (o : Target f) :
    (∃ v, fromChars s = .value v ∧ Passes f v ∧ set f s o = (.ok (), put f (wrap f v) o)) ∨
      ((∀ v, fromChars s = .value v → ¬Passes f v) ∧
        ∃ message, set f s o = (.error (.badRequest message), o)) := by
  cases f with
  | id =>
      exact store_setNumber (fun v => v ≠ 0) (fun v => v)
        (fun id => ({ (o : Header) with id := some id } : Header)) o (fun v good => if_neg good)
        (fun v bad => if_pos (not_not.mp bad))
  | changeset =>
      exact store_setNumber (fun v => 0 < v) (fun v => v)
        (fun changeset => ({ (o : Header) with changeset := some changeset } : Header)) o
        (fun v good => if_neg (not_le.mpr good)) (fun v bad => if_pos (not_lt.mp bad))
  | version =>
      refine store_setNumber (fun v => 0 ≤ v) (fun v => (v % versionBound).toNat)
        (fun version => ({ (o : Header) with version := some version } : Header)) o
        (fun v good => ?_) (fun v bad => if_pos (not_le.mp bad))
      rw [if_neg (not_lt.mpr good), Int.toNat_emod good (Int.natCast_nonneg _), Int.toNat_natCast]
  | wayNode =>
      exact store_setNumber (fun v => v ≠ 0) (fun v => v)
        (fun node => (show List Int from o) ++ [node]) o (fun v good => if_neg good)
        (fun v bad => if_pos (not_not.mp bad))
  | memberRef =>
      exact store_setNumber (fun v => v ≠ 0) (fun v => v)
        (fun ref => ({ (o : PartialMember) with ref := some ref } : PartialMember)) o
        (fun v good => if_neg good) (fun v bad => if_pos (not_not.mp bad))

private theorem wrap_of_fits (fits : Fits f v) : wrap f v = v := by
  cases f with
  | version => exact Int.emod_eq_of_lt fits.1 fits.2
  | id => rfl
  | changeset => rfl
  | wayNode => rfl
  | memberRef => rfl

private theorem range_of_fits (fits : Fits f v) : -2 ^ 63 ≤ v ∧ v < 2 ^ 63 := by
  cases f with
  | version =>
      obtain ⟨nonneg, small⟩ := fits
      have bound : (versionBound : Int) = 2 ^ 32 := rfl
      omega
  | id => exact fits
  | changeset => exact fits
  | wayNode => exact fits
  | memberRef => exact fits

private theorem fits_iff (range : -2 ^ 63 ≤ v ∧ v < 2 ^ 63) (passes : Passes f v) :
    Fits f v ↔ (f = .version → v < versionBound) := by
  cases f with
  | version => exact ⟨fun fits _ => fits.2, fun small => ⟨passes, small rfl⟩⟩
  | id => exact iff_of_true range nofun
  | changeset => exact iff_of_true range nofun
  | wayNode => exact iff_of_true range nofun
  | memberRef => exact iff_of_true range nofun

instance : (f : NumericField) → Nonempty (Target f)
  | .id => ⟨(⟨none, none, none⟩ : Header)⟩
  | .changeset => ⟨(⟨none, none, none⟩ : Header)⟩
  | .version => ⟨(⟨none, none, none⟩ : Header)⟩
  | .wayNode => ⟨([] : List Int)⟩
  | .memberRef => ⟨PartialMember.empty⟩

/-- A setter reads a text right if and only if the number at its start is refused, or is all
of the text and, for a version, fits into 32 bits. -/
theorem exact_iff (f : NumericField) (s : String) : Exact f s ↔
    ∀ v, fromChars s = .value v → Passes f v →
      trailing s = [] ∧ (f = .version → v < versionBound) := by
  constructor
  · intro exact' v read passes
    obtain ⟨range, alone⟩ := fromChars_eq_value read
    obtain ⟨o⟩ := (inferInstance : Nonempty (Target f))
    have accepted : WholeInteger s v ∧ Fits f v := by
      by_contra never
      obtain ⟨message, refused⟩ := (exact' o).2 fun w whole fits => by
        have same : w = v := by
          have other := fromChars_of_whole whole (range_of_fits fits)
          rw [read] at other
          exact (FromChars.value.inj other).symm
        rw [same] at whole fits
        exact absurd ⟨whole, fits⟩ never
      rcases set_cases f s o with ⟨_, -, -, done⟩ | ⟨never, -⟩
      · rw [done] at refused
        cases refused
      · exact never v read passes
    exact ⟨alone.mpr accepted.1, (fits_iff range passes).mp accepted.2⟩
  · intro condition o
    rcases set_cases f s o with ⟨v, read, passes, done⟩ | ⟨never, message, refused⟩
    · obtain ⟨range, alone⟩ := fromChars_eq_value read
      obtain ⟨ends, small⟩ := condition v read passes
      have whole := alone.mp ends
      have fits := (fits_iff range passes).mpr small
      rw [wrap_of_fits fits] at done
      refine ⟨fun w whole' _ _ => ?_, fun never => absurd passes (never v whole fits)⟩
      rw [wholeInteger_unique whole' whole]
      exact done
    · refine ⟨fun w whole fits passes => ?_, fun _ => ⟨message, refused⟩⟩
      exact absurd passes (never w (fromChars_of_whole whole (range_of_fits fits)))

/-- What follows the number goes unnoticed. -/
theorem not_exact_trailing : ¬Exact .wayNode "12x" := by
  intro exact'
  obtain ⟨message, refused⟩ := (exact' ([] : List Int)).2 fun v whole _ => by
    have alone := (wholeInteger_iff.mp whole).2.1
    exact absurd alone (by decide)
  have done : set .wayNode "12x" ([] : List Int) = (.ok (), ([12] : List Int)) := rfl
  rw [done] at refused
  cases refused

end Fields

end Cgimap.Osmchange.NumericFields
