/- path: Cgimap/Osmchange/Attributes
   generality: I
   source: include/cgimap/api06/changeset_upload/osmobject.hpp,
     include/cgimap/api06/changeset_upload/osmchange_xml_input_format.hpp
   digest: The id, changeset and version attributes of an element, and documents as text. -/

import Cgimap.Library.ExceptLists
import Cgimap.Osmchange.Handler

set_option autoImplicit false
set_option relaxedAutoImplicit false

namespace Cgimap.Osmchange.Attributes

open Cgimap.Library.ExceptLists
open Cgimap.Library.StatementProgram
open Cgimap.Library.StatementProgram.Prog
open Cgimap.Model.Types
open Cgimap.Model.Database
open Cgimap.Osmchange.UploadRecords
open Cgimap.Osmchange.Handler

inductive FromChars where
  | value (v : Int)
  | invalidArgument
  | resultOutOfRange
  deriving DecidableEq, Repr

def digitsValue (digits : List Char) : Nat :=
  digits.foldl (fun n c => 10 * n + (c.toNat - '0'.toNat)) 0

/-- `std::from_chars` for `int64_t`: the longest prefix that is a number counts, and
what follows it is ignored. -/
def fromChars (s : String) : FromChars :=
  let negative : Bool := s.toList.head? = some '-'
  let digits := (if negative then s.toList.tail else s.toList).takeWhile Char.isDigit
  if digits.isEmpty then .invalidArgument
  else
    let v : Int := if negative then -(digitsValue digits : Int) else digitsValue digits
    if -2 ^ 63 ≤ v ∧ v < 2 ^ 63 then .value v else .resultOutOfRange

def setNumber {α : Type} (notNumeric tooLarge : String) (set : Int → Except Exception α)
    (s : String) : Except Exception α :=
  match fromChars s with
  | .value v => set v
  | .invalidArgument => .error (.badRequest notNumeric)
  | .resultOutOfRange => .error (.badRequest tooLarge)

def setChangeset : String → Except Exception Int :=
  setNumber "Changeset is not numeric" "Changeset number is too large" (fun changeset =>
    if changeset ≤ 0 then .error (.badRequest "Changeset must be a positive number")
    else .ok changeset)

/-- `set_version`. The 64-bit value is stored in an `osm_version_t`. -/
def setVersion : String → Except Exception Nat :=
  setNumber "Version is not numeric" "Version value is too large" (fun version =>
    if version < 0 then .error (.badRequest "Version may not be negative")
    else .ok (version.toNat % versionBound))

def setId : String → Except Exception Int :=
  setNumber "Id is not numeric" "Id number is too large" (fun id =>
    if id = 0 then .error (.badRequest "Id must be different from 0") else .ok id)

structure Header where
  id : Option Int
  changeset : Option Int
  version : Option Nat

/-- One round of `check_attributes` in `init_object`. -/
def readAttribute (h : Header) (attr : String × String) : Except Exception Header :=
  if attr.1 = "id" then do
    let id ← setId attr.2
    .ok { h with id := some id }
  else if attr.1 = "changeset" then do
    let changeset ← setChangeset attr.2
    .ok { h with changeset := some changeset }
  else if attr.1 = "version" then do
    let version ← setVersion attr.2
    .ok { h with version := some version }
  else .ok h

def initObject (t : ObjectType) (op : Operation) (attrs : List (String × String)) :
    Except Exception (Int × Int × Nat) := do
  let h ← attrs.foldlM readAttribute ⟨none, none, none⟩
  match h.id with
  | none => .error (.badRequest "Mandatory field id missing in object")
  | some id =>
      match h.changeset with
      | none => .error (.badRequest s!"Changeset id is missing for {t.name} {id}")
      | some changeset =>
          match op with
          | .create => .ok (id, changeset, 0)
          | .modify | .delete =>
              match h.version with
              | none => .error (.badRequest s!"Version is required when updating {t.name} {id}")
              | some version =>
                  if version < 1 then
                    .error (.badRequest s!"Invalid version number {version} in {t.name} {id}")
                  else .ok (id, changeset, version)

structure RawElement where
  op : Operation
  objType : ObjectType
  attrs : List (String × String)
  tags : List (String × String)
  body : Body objType
  ifUnused : Bool
  tags_nodup : (tags.map Prod.fst).Nodup

def RawElement.parse (r : RawElement) : Except Exception Element := do
  let (id, changeset, version) ← initObject r.objType r.op r.attrs
  .ok ⟨r.op, r.objType, ⟨changeset, id, version, r.tags, r.body, r.tags_nodup⟩, r.ifUnused⟩

/-- An element is handed to the handler as soon as it is read. -/
def processRawElement (env : Env) (st : Upload) (r : RawElement) : DbProg Upload := do
  let el ← liftExcept r.parse
  processElement env st el

def processRaw (env : Env) (raw : List RawElement) : DbProg Upload := do
  let st ← raw.foldlM (processRawElement env) (Upload.empty env)
  handleNewState env .finished st

def versionText (r : RawElement) : Option String :=
  (r.attrs.reverse.find? (fun attr => decide (attr.1 = "version"))).map Prod.snd

section Parse

variable {r : RawElement} {el : Element}

theorem setVersion_eq_ok {s : String} {version : Nat} (done : setVersion s = .ok version) :
    ∃ v : Int, fromChars s = .value v ∧ 0 ≤ v ∧ version = v.toNat % versionBound := by
  unfold setVersion setNumber at done
  split at done
  · rename_i v found
    dsimp only at done
    split at done
    · cases done
    · rename_i nonneg
      cases done
      exact ⟨v, found, not_lt.mp nonneg, rfl⟩
  · cases done
  · cases done

private theorem readAttributes_version {attrs : List (String × String)} {h : Header}
    (done : attrs.foldlM readAttribute ⟨none, none, none⟩ = .ok h) {version : Nat}
    (found : h.version = some version) :
    ∃ attr, attrs.reverse.find? (fun attr => decide (attr.1 = "version")) = some attr ∧
      setVersion attr.2 = .ok version := by
  have all := foldlM_invariant (fun read (h : Header) => ∀ version, h.version = some version →
      ∃ attr, read.reverse.find? (fun attr => decide (attr.1 = "version")) = some attr ∧
        setVersion attr.2 = .ok version)
    (fun read attr h h' before step => ?_) (show ∀ version, _ → ∃ attr, ([] : List (String × String)).reverse.find? _ = some attr ∧ _ from
      fun version none => by cases none) done
  · exact all version found
  · intro version found
    rw [List.reverse_append, List.reverse_singleton, List.singleton_append, List.find?_cons]
    unfold readAttribute at step
    split at step
    · rename_i name
      obtain ⟨id, -, step⟩ := bind_eq_ok.mp step
      cases step
      rw [name]
      exact before version found
    · split at step
      · rename_i name
        obtain ⟨changeset, -, step⟩ := bind_eq_ok.mp step
        cases step
        rw [name]
        exact before version found
      · split at step
        · rename_i name
          obtain ⟨version', set, step⟩ := bind_eq_ok.mp step
          cases step
          cases found
          rw [name]
          exact ⟨attr, rfl, set⟩
        · rename_i name
          cases step
          rw [decide_eq_false name]
          exact before version found

/-- The version of a parsed element is the integer at the start of the text, cut to 32 bits. -/
theorem parse_version (done : r.parse = .ok el) (changes : r.op ≠ .create) :
    el.op = r.op ∧ ∃ s, ∃ v : Int, versionText r = some s ∧ fromChars s = .value v ∧ 0 ≤ v ∧
      el.object.version = v.toNat % versionBound := by
  unfold RawElement.parse at done
  obtain ⟨⟨id, changeset, version⟩, init, done⟩ := bind_eq_ok.mp done
  cases done
  refine ⟨rfl, ?_⟩
  unfold initObject at init
  obtain ⟨h, read, init⟩ := bind_eq_ok.mp init
  split at init
  · cases init
  · split at init
    · cases init
    · split at init
      · rename_i create
        exact absurd create changes
      all_goals
        split at init
        · cases init
        · rename_i version' found
          split at init
          · cases init
          · cases init
            obtain ⟨attr, last, set⟩ := readAttributes_version read found
            obtain ⟨v, value, nonneg, same⟩ := setVersion_eq_ok set
            exact ⟨attr.2, v, by rw [versionText, last]; rfl, value, nonneg, same⟩

end Parse

private theorem foldlM_processRaw {env : Env} {raw : List RawElement} {db db' : Db}
    {st st' : Upload} :
    (raw.foldlM (processRawElement env) st).run db = .ok (st', db') ↔
      ∃ doc, raw.mapM RawElement.parse = .ok doc ∧
        (doc.foldlM (processElement env) st).run db = .ok (st', db') := by
  induction raw generalizing st db with
  | nil =>
      constructor
      · exact fun done => ⟨[], rfl, done⟩
      · rintro ⟨doc, parsed, done⟩
        cases parsed
        exact done
  | cons r raw ih =>
      rw [List.foldlM_cons, run_bind_eq_ok, List.mapM_cons]
      constructor
      · rintro ⟨st₁, db₁, first, rest⟩
        rw [processRawElement, run_bind_eq_ok] at first
        obtain ⟨el, _, lift, step⟩ := first
        obtain ⟨parsed, rfl⟩ := run_liftExcept_eq_ok.mp lift
        obtain ⟨doc, all, done⟩ := ih.mp rest
        refine ⟨el :: doc, ?_, ?_⟩
        · rw [parsed, all]
          rfl
        · rw [List.foldlM_cons, run_bind_eq_ok]
          exact ⟨st₁, db₁, step, done⟩
      · rintro ⟨doc, parsed, done⟩
        obtain ⟨el, first, rest⟩ := bind_eq_ok.mp parsed
        obtain ⟨els, all, same⟩ := bind_eq_ok.mp rest
        cases same
        rw [List.foldlM_cons, run_bind_eq_ok] at done
        obtain ⟨st₁, db₁, step, done⟩ := done
        refine ⟨st₁, db₁, ?_, ih.mpr ⟨els, all, done⟩⟩
        rw [processRawElement, run_bind_eq_ok]
        exact ⟨el, db, run_liftExcept_eq_ok.mpr ⟨first, rfl⟩, step⟩

theorem processRaw_eq_ok {env : Env} {raw : List RawElement} {db db' : Db} {st : Upload} :
    (processRaw env raw).run db = .ok (st, db') ↔
      ∃ doc, raw.mapM RawElement.parse = .ok doc ∧
        (processDocument env doc).run db = .ok (st, db') := by
  simp only [processRaw, processDocument, run_bind_eq_ok, foldlM_processRaw]
  constructor
  · rintro ⟨st₁, db₁, ⟨doc, parsed, done⟩, finish⟩
    exact ⟨doc, parsed, st₁, db₁, done, finish⟩
  · rintro ⟨doc, parsed, st₁, db₁, done, finish⟩
    exact ⟨st₁, db₁, ⟨doc, parsed, done⟩, finish⟩

end Cgimap.Osmchange.Attributes
