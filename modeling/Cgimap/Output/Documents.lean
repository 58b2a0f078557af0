/- path: Cgimap/Output/Documents
   generality: I
   source: include/cgimap/output_formatter.hpp, src/osm_current_responder.cpp,
     src/osm_changeset_responder.cpp, src/osmchange_responder.cpp, src/osm_diffresult_responder.cpp
   digest: The bodies of the responders' documents, what they show, and how a formatter writes them. -/

import Cgimap.Http.ProcessRequest
import Cgimap.Read.OpenStatus

/-!
A formatter turns each call of a responder into calls of its writer. An exception that it
throws is reported to it, and the responder goes on behind its `try` block.
-/

set_option autoImplicit false
set_option relaxedAutoImplicit false

namespace Cgimap.Output.Documents

open Cgimap.Model.Types
open Cgimap.Model.Database
open Cgimap.Model.Users
open Cgimap.Osmchange.Attributes (digitsValue)
open Cgimap.Osmchange.DiffTracking
open Cgimap.Changeset.Updater (padded)
open Cgimap.Http.ProcessRequest (whatOf)
open Cgimap.Read.ArrayText (digitsValue_toDigits isDigit_of_mem)
open Cgimap.Read.DataSelection
open Cgimap.Read.Endpoints
open Cgimap.Read.OpenStatus

section Values

/-- Rounding to the nearest integer, to the even one if two are nearest. -/
def roundEven (q : ℚ) : ℤ :=
  if q - ⌊q⌋ = 1 / 2 then (if ⌊q⌋ % 2 = 0 then ⌊q⌋ else ⌊q⌋ + 1) else ⌊q + 1 / 2⌋

theorem roundEven_nonneg {q : ℚ} (nonneg : 0 ≤ q) : 0 ≤ roundEven q := by
  have floor : 0 ≤ ⌊q⌋ := Int.floor_nonneg.mpr nonneg
  unfold roundEven
  split
  · split
    · exact floor
    · omega
  · exact Int.floor_nonneg.mpr (by linarith)

def fixed7 (v : ℚ) : String :=
  let scaled := roundEven (|v| * 10000000)
  (if v < 0 then "-" else "") ++ toString (scaled / 10000000) ++ "." ++ padded 7 (scaled % 10000000)

def what : Exception → String
  | .http code message => whatOf code message
  | .std message => message
  | .outOfFuel => ""

def elementTypeName : ObjectType → String := ObjectType.lowerName

/-- A scaled coordinate as a `double`. -/
def degrees (cfg : Settings) (coordinate : Int) : ℚ := coordinate / cfg.scale

/-- A number that was written in decimal. -/
def readNat (s : String) : Nat := digitsValue s.toList

def readInt (s : String) : Int :=
  match s.toList with
  | '-' :: digits => -(digitsValue digits : Int)
  | digits => digitsValue digits

@[simp] theorem readNat_repr (n : Nat) : readNat n.repr = n := by
  change readNat (toString n) = n
  rw [readNat, Nat.toString_eq_ofList_toDigits, String.toList_ofList, digitsValue_toDigits]

@[simp] theorem readInt_repr (n : Int) : readInt n.repr = n := by
  change readInt (toString n) = n
  cases n with
  | ofNat n =>
      have text : (toString (Int.ofNat n)).toList = Nat.toDigits 10 n := by
        change (toString n).toList = _
        rw [Nat.toString_eq_ofList_toDigits, String.toList_ofList]
      have unsigned : ∀ digits, Nat.toDigits 10 n ≠ '-' :: digits := by
        intro digits same
        have digit := isDigit_of_mem (same ▸ List.mem_cons_self)
        exact absurd digit (by decide)
      unfold readInt
      rw [text]
      split
      · exact absurd ‹_› (unsigned _)
      · rw [digitsValue_toDigits]
        rfl
  | negSucc n =>
      have text : (toString (Int.negSucc n)).toList = '-' :: Nat.toDigits 10 (n + 1) := by
        change ("-" ++ toString (n + 1)).toList = _
        simp only [String.toList_append, Nat.toString_eq_ofList_toDigits, String.toList_ofList]
        rfl
      unfold readInt
      rw [text]
      change -(digitsValue (Nat.toDigits 10 (n + 1)) : Int) = _
      rw [digitsValue_toDigits]
      rfl

/-- The type that `element_type_name` names. -/
def readType (s : String) : ObjectType :=
  if s = "node" then .node else if s = "way" then .way else .relation

@[simp] theorem readType_elementTypeName (t : ObjectType) : readType (elementTypeName t) = t := by
  cases t <;> rfl

end Values

section Formatters

/-- What a document says about itself; `API_VERSION` stands before these. -/
structure Header where
  generator : String
  copyright : String
  attribution : String
  license : String
  deriving DecidableEq

def apiVersion : String := "0.6"

/-- An `output_formatter`: the calls of its writer, and the exception it throws behind them. -/
abbrev Formatter (γ : Type) := Call → List γ × Option Exception

/-- The calls that the responders make behind their `try` block. -/
def isClosing : Call → Bool
  | .endElement | .endChangeset _ | .endDocument => true
  | _ => false

/-- The writer calls of a responder. While `failed`, calls are passed over up to the end
of the `try` block. -/
def render {γ : Type} (fmt : Formatter γ) : Bool → List Call → List γ
  | _, [] => []
  | true, call :: calls =>
      if isClosing call then (fmt call).1 ++ render fmt false calls else render fmt true calls
  | false, call :: calls =>
      match fmt call with
      | (out, none) => out ++ render fmt false calls
      | (out, some e) => out ++ (fmt (.error e)).1 ++ render fmt true calls

/-- Without an exception of the formatter, its calls stand one behind the other. -/
theorem render_quiet {γ : Type} {fmt : Formatter γ} {calls : List Call}
    (quiet : ∀ call ∈ calls, (fmt call).2 = none) :
    render fmt false calls = calls.flatMap (fun call => (fmt call).1) := by
  induction calls with
  | nil => rfl
  | cons call calls ih =>
      have here := quiet call List.mem_cons_self
      have rest := ih fun other member => quiet other (List.mem_cons_of_mem call member)
      obtain ⟨out, failure⟩ : ∃ out, fmt call = (out, none) := ⟨(fmt call).1, by rw [← here]⟩
      rw [render, failure, List.flatMap_cons, failure, rest]

end Formatters

section Shown

variable (cfg : Settings)

/-- The coordinates of a visible node as they are printed, the nodes of a way or the members
of a relation. -/
def ShownExtra : ObjectType → Type
  | .node => Option (String × String)
  | .way => List Nat
  | .relation => List Member

/-- What a document tells about an element. -/
structure Shown (t : ObjectType) where
  id : Nat
  visible : Bool
  version : Nat
  changeset : Int
  timestamp : String
  user : Option (String × Nat)
  extra : ShownExtra t
  tags : List (String × String)

structure ShownBox where
  minlat : String
  minlon : String
  maxlat : String
  maxlon : String
  deriving DecidableEq

/-- What a document tells about a changeset. -/
structure ShownChangeset where
  id : Int
  createdAt : String
  closedAt : Option String
  user : Option (String × Nat)
  box : Option ShownBox
  commentsCount : Nat
  changesCount : Nat
  tags : List (String × String)
  comments : List CommentInfo
  deriving DecidableEq

/-- One thing that a document tells. -/
inductive Item where
  | bounds (box : ShownBox)
  | object (action : Option ActionType) (t : ObjectType) (o : Shown t)
  | changeset (c : ShownChangeset)
  | unfinished (id : Int) (createdAt message : String)
  | row (t : ObjectType) (oldId : Int) (new : Option (Nat × Nat))
  | error (message : String)

def Item.isRow : Item → Bool
  | .row _ _ _ => true
  | _ => false

/-- A name is shown with its id only. -/
def shownUser (displayName : Option String) (uid : Option Nat) : Option (String × Nat) :=
  match displayName, uid with
  | some name, some id => some (name, id)
  | _, _ => none

def shownExtra (visible : Bool) : (t : ObjectType) → Extra t → ShownExtra t
  | .node, (c : Int × Int) =>
      if visible then some (fixed7 (degrees cfg c.2), fixed7 (degrees cfg c.1)) else none
  | .way, (nodes : List Nat) => nodes
  | .relation, (members : List Member) => members

def shown {t : ObjectType} (w : Written t) : Shown t where
  id := w.elem.id
  visible := w.elem.visible
  version := w.elem.version
  changeset := w.elem.changeset
  timestamp := w.elem.timestamp
  user := shownUser w.elem.displayName w.elem.uid
  extra := shownExtra cfg w.elem.visible t w.extra
  tags := w.tags

def shownBounds (b : GeoBox) : ShownBox :=
  ⟨fixed7 b.minlat, fixed7 b.minlon, fixed7 b.maxlat, fixed7 b.maxlon⟩

def shownBox (b : Bbox) : ShownBox :=
  ⟨fixed7 (degrees cfg b.minlat), fixed7 (degrees cfg b.minlon), fixed7 (degrees cfg b.maxlat),
    fixed7 (degrees cfg b.maxlon)⟩

/-- A changeset, unless the time of its end cannot be read. -/
def shownChangeset (info : ChangesetInfo) (tags : List (String × String)) (withComments : Bool)
    (comments : List CommentInfo) (now : Int) : Item :=
  match isOpenAt cfg info now with
  | .error e => .unfinished info.id info.createdAt (what e)
  | .ok isOpen => .changeset {
      id := info.id
      createdAt := info.createdAt
      closedAt := if isOpen then none else some info.closedAt
      user := shownUser info.displayName info.uid
      box := info.boundingBox.map (shownBox cfg)
      commentsCount := info.commentsCount
      changesCount := info.numChanges
      tags := tags
      comments := if withComments then comments else [] }

/-- The row of a diffResult; an executed deletion has nothing new. -/
def shownRow (row : DiffResult) : Item :=
  .row row.objType row.oldId
    (if row.op = .delete ∧ row.deletionSkipped = false then none
      else some (row.newId, row.newVersion))

/-- What the calls of a responder tell. -/
def told : Option ActionType → List Call → List Item
  | _, [] => []
  | action, call :: calls =>
      match call with
      | .startAction action' => told (some action') calls
      | .endAction _ => told none calls
      | .writeBounds b => .bounds (shownBounds b) :: told action calls
      | .writeObject t w => .object action t (shown cfg w) :: told action calls
      | .writeChangeset info tags includeComments comments now =>
          shownChangeset cfg info tags includeComments comments now :: told action calls
      | .writeDiffResult row => shownRow row :: told action calls
      | .error e => .error (what e) :: told action calls
      | .startDocument _ | .endDocument | .startElement | .endElement | .startChangeset _
      | .endChangeset _ | .errorText _ => told action calls

end Shown

section Bodies

/-- The arguments of one `write_changeset`. -/
structure ChangesetCall where
  info : ChangesetInfo
  tags : List (String × String)
  includeComments : Bool
  comments : List CommentInfo
  now : Int

def ChangesetCall.call (c : ChangesetCall) : Call :=
  .writeChangeset c.info c.tags c.includeComments c.comments c.now

/-- What is between the start and the end of a document. -/
inductive DocumentBody where
  | current (bounds : Option GeoBox) (elements : List AnyWritten) (failed : Option Exception)
  | changeset (c : Except Exception ChangesetCall)
  | changes (c : Except Exception (List AnyWritten))
  | diffResult (rows : List DiffResult)

def changeCalls (w : AnyWritten) : List Call :=
  [.startAction (actionOf w), .writeObject w.1 w.2, .endAction (actionOf w)]

def DocumentBody.calls : DocumentBody → List Call
  | .current bounds elements failed =>
      [.startDocument "osm"] ++ (bounds.map Call.writeBounds).toList ++ [.startElement] ++
        elements.map (fun w => .writeObject w.1 w.2) ++ (failed.map Call.error).toList ++
        [.endElement, .endDocument]
  | .changeset (.ok c) =>
      [.startDocument "osm", .startChangeset false, c.call, .endChangeset false, .endDocument]
  | .changeset (.error e) =>
      [.startDocument "osm", .startChangeset false, .error e, .endChangeset false, .endDocument]
  | .changes (.ok elements) =>
      [.startDocument "osmChange"] ++ elements.flatMap changeCalls ++ [.endDocument]
  | .changes (.error e) => [.startDocument "osmChange", .error e, .endDocument]
  | .diffResult rows => [.startDocument "diffResult"] ++ rows.map Call.writeDiffResult ++ [.endDocument]

def DocumentBody.rootName : DocumentBody → String
  | .current _ _ _ | .changeset _ => "osm"
  | .changes _ => "osmChange"
  | .diffResult _ => "diffResult"

variable (cfg : Settings)

def DocumentBody.items : DocumentBody → List Item
  | .current bounds elements failed =>
      (bounds.map (fun b => Item.bounds (shownBounds b))).toList ++
        elements.map (fun w => .object none w.1 (shown cfg w.2)) ++
        (failed.map (fun e => Item.error (what e))).toList
  | .changeset (.ok c) => [shownChangeset cfg c.info c.tags c.includeComments c.comments c.now]
  | .changeset (.error e) => [.error (what e)]
  | .changes (.ok elements) =>
      elements.map (fun w => .object (some (actionOf w)) w.1 (shown cfg w.2))
  | .changes (.error e) => [.error (what e)]
  | .diffResult rows => rows.map shownRow

private theorem filter_other {items : List Item} (other : ∀ item ∈ items, item.isRow = false) :
    items.filter (fun item => !item.isRow) = items :=
  List.filter_eq_self.mpr fun item member => by rw [other item member]; rfl

private theorem isRow_shownChangeset (c : ChangesetCall) :
    (shownChangeset cfg c.info c.tags c.includeComments c.comments c.now).isRow = false := by
  unfold shownChangeset
  split
  · rfl
  · rfl

theorem filter_items (body : DocumentBody) : (body.items cfg).filter (fun item => !item.isRow) =
    match body with
    | .diffResult _ => []
    | body => body.items cfg := by
  cases body with
  | current bounds elements failed =>
      refine filter_other fun item member => ?_
      simp only [DocumentBody.items, List.mem_append, List.mem_map, Option.mem_toList,
        Option.map_eq_some_iff] at member
      rcases member with (⟨b, -, rfl⟩ | ⟨w, -, rfl⟩) | ⟨e, -, rfl⟩
      all_goals rfl
  | changeset c =>
      refine filter_other fun item member => ?_
      cases c with
      | error e =>
          obtain rfl := List.mem_singleton.mp member
          rfl
      | ok c =>
          obtain rfl := List.mem_singleton.mp member
          exact isRow_shownChangeset cfg c
  | changes c =>
      refine filter_other fun item member => ?_
      cases c with
      | error e =>
          obtain rfl := List.mem_singleton.mp member
          rfl
      | ok elements =>
          obtain ⟨w, -, rfl⟩ := List.mem_map.mp member
          rfl
  | diffResult rows =>
      refine List.filter_eq_nil_iff.mpr fun item member => ?_
      obtain ⟨row, -, rfl⟩ := List.mem_map.mp member
      exact Bool.false_ne_true

private theorem told_objects (elements : List AnyWritten) (calls : List Call) :
    told cfg none (elements.map (fun w => Call.writeObject w.1 w.2) ++ calls) =
      elements.map (fun w => .object none w.1 (shown cfg w.2)) ++ told cfg none calls := by
  induction elements with
  | nil => rfl
  | cons w elements ih => exact congrArg (_ :: ·) ih

private theorem told_changes (elements : List AnyWritten) (calls : List Call) :
    told cfg none (elements.flatMap changeCalls ++ calls) =
      elements.map (fun w => .object (some (actionOf w)) w.1 (shown cfg w.2)) ++
        told cfg none calls := by
  induction elements with
  | nil => rfl
  | cons w elements ih => exact congrArg (_ :: ·) ih

private theorem told_rows (rows : List DiffResult) (calls : List Call) :
    told cfg none (rows.map Call.writeDiffResult ++ calls) =
      rows.map shownRow ++ told cfg none calls := by
  induction rows with
  | nil => rfl
  | cons row rows ih => exact congrArg (_ :: ·) ih

theorem told_calls (body : DocumentBody) : told cfg none body.calls = body.items cfg := by
  cases body with
  | current bounds elements failed =>
      have behind : told cfg none ((failed.map Call.error).toList ++ [.endElement, .endDocument]) =
          (failed.map (fun e => Item.error (what e))).toList := by
        cases failed with
        | none => rfl
        | some e => rfl
      have objects := told_objects cfg elements
        ((failed.map Call.error).toList ++ [.endElement, .endDocument])
      rw [behind] at objects
      simp only [DocumentBody.calls, DocumentBody.items, List.append_assoc]
      cases bounds with
      | none => exact objects
      | some b => exact congrArg (_ :: ·) objects
  | changeset c =>
      cases c with
      | error e => rfl
      | ok c => rfl
  | changes c =>
      cases c with
      | error e => rfl
      | ok elements => exact (told_changes cfg elements [.endDocument]).trans (List.append_nil _)
  | diffResult rows => exact (told_rows cfg rows [.endDocument]).trans (List.append_nil _)

end Bodies

section Responders

variable (store : Store) (sel : Selection)

/-- Everything that is selected, read in the order of the types. -/
def readAll : List AnyWritten × Option Exception :=
  andThen (sortable store sel .node) (andThen (sortable store sel .way) (sortable store sel .relation))

private theorem andThen_map {α β : Type} (f : α → β) (first next : List α × Option Exception) :
    andThen (first.1.map f, first.2) (next.1.map f, next.2) =
      ((andThen first next).1.map f, (andThen first next).2) := by
  unfold andThen
  cases first.2 with
  | none => simp
  | some e => rfl

private theorem writeCalls_eq (t : ObjectType) : writeCalls store sel t =
    ((sortable store sel t).1.map (fun w => Call.writeObject w.1 w.2), (sortable store sel t).2) := by
  unfold writeCalls sortable
  rw [List.map_map]
  rfl

theorem writeCurrent_eq (bounds : Option GeoBox) : writeCurrent store sel bounds =
    (DocumentBody.current bounds (readAll store sel).1 (readAll store sel).2).calls := by
  have read : andThen (writeCalls store sel .node)
      (andThen (writeCalls store sel .way) (writeCalls store sel .relation)) =
        ((readAll store sel).1.map (fun w => Call.writeObject w.1 w.2), (readAll store sel).2) := by
    rw [writeCalls_eq, writeCalls_eq, writeCalls_eq, andThen_map, andThen_map]
    rfl
  unfold writeCurrent caught
  rw [read]
  simp [andThen, DocumentBody.calls]

/-- `sorting_formatter::write` gets the elements in this order. -/
def sorted (elements : List AnyWritten) : List AnyWritten :=
  elements.insertionSort (fun a b => beforeOrEqual a b = true)

theorem writeOsmChange_eq : writeOsmChange store sel = (DocumentBody.changes
    (match (readAll store sel).2 with
      | some e => .error e
      | none => .ok (sorted (readAll store sel).1))).calls := by
  unfold writeOsmChange
  change [Call.startDocument "osmChange"] ++ (match (readAll store sel).2 with
    | some e => [.error e]
    | none => writeSorted (readAll store sel).1) ++ [.endDocument] = _
  cases (readAll store sel).2 with
  | none => rfl
  | some e => rfl

private theorem call_of_extract {now : Int} {c : ChangesetRow} {call : Call}
    (read : extractChangeset store sel now c = .ok call) : ∃ arguments : ChangesetCall,
      call = arguments.call := by
  unfold extractChangeset at read
  obtain ⟨tags, -, read⟩ := Cgimap.Library.ExceptLists.bind_eq_ok.mp read
  obtain ⟨comments, -, read⟩ := Cgimap.Library.ExceptLists.bind_eq_ok.mp read
  cases read
  exact ⟨⟨_, tags, sel.includeChangesetDiscussions, comments, now⟩, rfl⟩

private theorem sort_singleton (id : Int) : inOrder {id} = [id] := by
  unfold inOrder
  simp

theorem writeChangesetDocument_eq {id : Int} (single : sel.changesets = {id}) (now : Int) :
    ∃ c, writeChangesetDocument store sel now = (DocumentBody.changeset c).calls := by
  have nonempty : sel.changesets ≠ ∅ := by rw [single]; exact Finset.singleton_ne_empty id
  unfold writeChangesetDocument writeChangesets
  rw [if_neg nonempty]
  cases fetched : fetchChangesets store sel.changesets with
  | error e => exact ⟨.error e, rfl⟩
  | ok done =>
      rw [single] at fetched ⊢
      rw [sort_singleton]
      -- Who wrote it is known, so it exists.
      obtain ⟨row, found⟩ : ∃ row, store.db.changesets.find? id = some row := by
        unfold fetchChangesets at fetched
        rw [sort_singleton] at fetched
        cases found : store.db.changesets.find? id with
        | some row => exact ⟨row, rfl⟩
        | none => simp [List.find?, changesetUser, found] at fetched
      cases read : extractChangeset store sel now row with
      | error e => exact ⟨.error e, by simp [found, read, untilError, andThen, caught, DocumentBody.calls]⟩
      | ok call =>
          obtain ⟨c, rfl⟩ := call_of_extract store sel read
          exact ⟨.ok c, by simp [found, read, untilError, andThen, caught, DocumentBody.calls]⟩

end Responders

end Cgimap.Output.Documents
