/- path: Cgimap/Osmchange/XmlDocuments
   generality: I
   source: include/cgimap/api06/changeset_upload/osmchange_xml_input_format.hpp,
     test/test_parse_osmchange_xml_input.cpp
   digest: Which osmChange documents are valid, what they say, and that the parser agrees. -/

import Mathlib.Data.List.Induction
import Cgimap.Library.DecidedOutcomes
import Cgimap.Osmchange.XmlParser

/-!
A document is a tree of elements. Its meaning is defined on the tree, without the stack
and the current objects of the parser: what the direct children of an object say, and the
checks that a document has to pass. The events of the tree then lead the parser to exactly
these calls, or to an exception.
-/

set_option autoImplicit false
set_option relaxedAutoImplicit false

namespace Cgimap.Osmchange.XmlDocuments

open Cgimap.Http.Requests (iequals)
open Cgimap.Library.DecidedOutcomes
open Cgimap.Library.ExceptLists
open Cgimap.Model.Types
open Cgimap.Osmchange.Attributes
open Cgimap.Osmchange.UploadRecords
open Cgimap.Osmchange.XmlParser

/-- An element of a document, with the places of its two tags. -/
inductive Tree where
  | element (name : String) (attrs : Attrs) (opened closed : Location) (children : List Tree)

namespace Tree

def name : Tree → String
  | .element name _ _ _ _ => name

def attrs : Tree → Attrs
  | .element _ attrs _ _ _ => attrs

def children : Tree → List Tree
  | .element _ _ _ _ children => children

mutual

/-- The events of an element: its start, those of its children, its end. -/
def events : Tree → List Event
  | .element name attrs opened closed children =>
      .startElement name attrs opened :: (childEvents children ++ [.endElement name closed])

def childEvents : List Tree → List Event
  | [] => []
  | child :: children => child.events ++ childEvents children

end

theorem childEvents_eq (children : List Tree) : childEvents children = children.flatMap events := by
  induction children with
  | nil => rfl
  | cons child children ih => rw [childEvents, ih, List.flatMap_cons]

end Tree

section Meaning

/-- A number in the text, as far as it passes the check. -/
def numberWhere (check : Int → Bool) (s : String) : Option Int :=
  match fromChars s with
  | .value v => if check v then some v else none
  | .invalidArgument => none
  | .resultOutOfRange => none

def nonzero : String → Option Int := numberWhere (fun v => v ≠ 0)

def positive : String → Option Int := numberWhere (fun v => 0 < v)

/-- A version is cut to the width of an `osm_version_t`. -/
def version (s : String) : Option Nat :=
  (numberWhere (fun v => 0 ≤ v) s).map (fun v => v.toNat % versionBound)

def coordinate (bound : ℚ) : FromCharsDouble → Option ℚ
  | .finite v => if -bound ≤ v ∧ v ≤ bound then some v else none
  | _ => none

def typeOfMember (s : String) : Option ObjectType :=
  [ObjectType.node, ObjectType.way, ObjectType.relation].find? (fun t =>
    iequals s.toList t.name.toList)

/-- The value of a field: that of the last attribute with its name. -/
def field {α : Type} (name : String) (value : String → Option α) (attrs : Attrs) : Option α :=
  (lastAttr name attrs).bind value

/-- Every attribute with this name has a value. -/
def Readable {α : Type} (name : String) (value : String → Option α) (attrs : Attrs) : Prop :=
  ∀ attr ∈ attrs, attr.1 = name → (value attr.2).isSome

def tagOfAttrs (attrs : Attrs) : Option (String × String) := do
  let k ← lastAttr "k" attrs
  let v ← lastAttr "v" attrs
  some (k, v)

def memberOfAttrs (attrs : Attrs) : Option RelationMember := do
  let type ← field "type" typeOfMember attrs
  let ref ← field "ref" nonzero attrs
  some ⟨type, ref, (lastAttr "role" attrs).getD ""⟩

def tagsOf (children : List Tree) : List (String × String) :=
  (children.filter (fun c => c.name = "tag")).filterMap (fun c => tagOfAttrs c.attrs)

def wayNodesOf (children : List Tree) : List Int :=
  (children.filter (fun c => c.name = "nd")).flatMap (fun c =>
    (c.attrs.filter (fun attr => attr.1 = "ref")).filterMap (fun attr => nonzero attr.2))

def membersOf (children : List Tree) : List RelationMember :=
  (children.filter (fun c => c.name = "member")).filterMap (fun c => memberOfAttrs c.attrs)

variable (cfg : Settings) (fromCharsDouble : String → FromCharsDouble)

def latitude (s : String) : Option ℚ := coordinate 90 (fromCharsDouble s)

def longitude (s : String) : Option ℚ := coordinate 180 (fromCharsDouble s)

def bodyOf : (t : ObjectType) → Attrs → List Tree → PartialBody t
  | .node, attrs, _ =>
      (⟨field "lat" (latitude fromCharsDouble) attrs,
        field "lon" (longitude fromCharsDouble) attrs⟩ : Coordinates)
  | .way, _, children => wayNodesOf children
  | .relation, _, children => membersOf children

def objectOf (op : Operation) (t : ObjectType) (attrs : Attrs) (children : List Tree) :
    PartialObject t where
  header :=
    { id := field "id" nonzero attrs
      changeset := field "changeset" positive attrs
      version := if op = .create then some 0 else field "version" version attrs }
  tags := tagsOf children
  body := bodyOf fromCharsDouble t attrs children

def typeNamed (name : String) : Option ObjectType :=
  [ObjectType.node, ObjectType.way, ObjectType.relation].find? (fun t => t.lowerName = name)

def operationNamed (name : String) : Option Operation :=
  [Operation.create, Operation.modify, Operation.delete].find? (fun op => actionName op = name)

def objectCalls (op : Operation) (ifUnused : Bool) (object : Tree) : List Callback :=
  (typeNamed object.name).toList.map (fun t =>
    .process t (objectOf fromCharsDouble op t object.attrs object.children) (some op) ifUnused)

/-- The calls for one action, in the order of its objects. -/
def actionCalls (action : Tree) : List Callback :=
  (operationNamed action.name).toList.flatMap (fun op =>
    action.children.flatMap (objectCalls fromCharsDouble op
      (op = .delete && action.attrs.any (fun attr => attr.1 = "if-unused"))))

def documentCalls (doc : Tree) : List Callback :=
  .startDocument :: (doc.children.flatMap (actionCalls fromCharsDouble) ++ [.endDocument])

end Meaning

section Validity

def ValidTag (attrs : Attrs) : Prop :=
  ∃ k v, lastAttr "k" attrs = some k ∧ lastAttr "v" attrs = some v ∧
    k ≠ "" ∧ k.length ≤ 255 ∧ v.length ≤ 255

def ValidWayNode (attrs : Attrs) : Prop :=
  Readable "ref" nonzero attrs ∧ ∃ attr ∈ attrs, attr.1 = "ref"

structure ValidMember (attrs : Attrs) : Prop where
  types : Readable "type" typeOfMember attrs
  refs : Readable "ref" nonzero attrs
  roles : ∀ attr ∈ attrs, attr.1 = "role" → attr.2.length ≤ 255
  type : ∃ attr ∈ attrs, attr.1 = "type"
  ref : ∃ attr ∈ attrs, attr.1 = "ref"

/-- A child of an object has no children; what it says matters if it is of a known kind. -/
structure ValidChild (t : ObjectType) (child : Tree) : Prop where
  flat : child.children = []
  tag : child.name = "tag" → ValidTag child.attrs
  wayNode : t = .way → child.name = "nd" → ValidWayNode child.attrs
  member : t = .relation → child.name = "member" → ValidMember child.attrs

variable (cfg : Settings) (fromCharsDouble : String → FromCharsDouble)

/-- What an object needs unless it is to be deleted. -/
def CompleteBody : (t : ObjectType) → PartialBody t → Prop
  | .node, (c : Coordinates) => c.lat.isSome ∧ c.lon.isSome
  | .way, (nodes : List Int) => nodes ≠ [] ∧ nodes.length ≤ cfg.wayMaxNodes
  | .relation, (members : List RelationMember) =>
      ∀ max, cfg.relationMaxMembers = some max → members.length ≤ max

structure ValidObject (op : Operation) (t : ObjectType) (object : Tree) : Prop where
  ids : Readable "id" nonzero object.attrs
  changesets : Readable "changeset" positive object.attrs
  versions : Readable "version" version object.attrs
  coordinates : t = .node → Readable "lat" (latitude fromCharsDouble) object.attrs ∧
    Readable "lon" (longitude fromCharsDouble) object.attrs
  id : ∃ id, field "id" nonzero object.attrs = some id ∧ (op = .create → id < 0)
  changeset : ∃ changeset, field "changeset" positive object.attrs = some changeset
  version : op ≠ .create → ∃ v, field "version" version object.attrs = some v ∧ 1 ≤ v
  children : ∀ child ∈ object.children, ValidChild t child
  keys : ((tagsOf object.children).map Prod.fst).Nodup
  tags : ∀ max, cfg.elementMaxTags = some max → (tagsOf object.children).length ≤ max
  body : op ≠ .delete → CompleteBody cfg t (bodyOf fromCharsDouble t object.attrs object.children)

def ValidAction (action : Tree) : Prop :=
  ∃ op, actionName op = action.name ∧ ∀ object ∈ action.children,
    ∃ t, ObjectType.lowerName t = object.name ∧ ValidObject cfg fromCharsDouble op t object

structure ValidDocument (doc : Tree) : Prop where
  name : doc.name = "osmChange"
  actions : ∀ action ∈ doc.children, ValidAction cfg fromCharsDouble action

end Validity

/-- The failures of the source that a caller can catch. -/
def Raised : Failure → Prop
  | .payloadError _ => True
  | .exception _ => True
  | .assertion => False
  | .nullPointer => False

section Fields

def Thrown (_ : Exception) : Prop := True

private theorem reads_setNumber {α : Type} {notNumeric tooLarge : String} {bad : Int → Prop}
    [DecidablePred bad] {check : Int → Bool} {value : Int → α} {e : Exception}
    (opposite : ∀ v, check v ↔ ¬bad v) (s : String) :
    Reads Thrown
      (setNumber notNumeric tooLarge (fun v => if bad v then .error e else .ok (value v)) s)
      ((numberWhere check s).map value) := by
  unfold setNumber numberWhere
  constructor
  · intro a found
    split
    · rename_i v text
      rw [text] at found
      by_cases good : check v
      · simp only [good, if_true, Option.map_some, Option.some.injEq] at found
        exact (if_neg ((opposite v).mp good)).trans (congrArg Except.ok found)
      · simp [good] at found
    · rename_i text
      simp [text] at found
    · rename_i text
      simp [text] at found
  · intro missing
    split
    · rename_i v text
      rw [text] at missing
      by_cases good : check v
      · simp [good] at missing
      · exact ⟨e, trivial, if_pos (by simpa [opposite] using good)⟩
    · exact ⟨_, trivial, rfl⟩
    · exact ⟨_, trivial, rfl⟩

private theorem reads_number {notNumeric tooLarge : String} {bad : Int → Prop}
    [DecidablePred bad] {check : Int → Bool} {e : Exception} (opposite : ∀ v, check v ↔ ¬bad v)
    (s : String) :
    Reads Thrown (setNumber notNumeric tooLarge (fun v => if bad v then .error e else .ok v) s)
      (numberWhere check s) := by
  have read : Reads Thrown
      (setNumber notNumeric tooLarge (fun v => if bad v then .error e else .ok v) s)
      ((numberWhere check s).map (fun v => v)) := reads_setNumber opposite s
  rwa [Option.map_id'] at read

variable (s : String)

private theorem reads_setId : Reads Thrown (setId s) (nonzero s) :=
  reads_number (fun _ => decide_eq_true_iff) s

private theorem reads_setChangeset : Reads Thrown (setChangeset s) (positive s) :=
  reads_number (fun _ => decide_eq_true_iff.trans not_le.symm) s

private theorem reads_setVersion : Reads Thrown (setVersion s) (version s) :=
  reads_setNumber (fun _ => decide_eq_true_iff.trans not_lt.symm) s

private theorem reads_wayNode : Reads Thrown (wayNode s) (nonzero s) :=
  reads_number (fun _ => decide_eq_true_iff) s

private theorem reads_memberRef : Reads Thrown (memberRef s) (nonzero s) :=
  reads_number (fun _ => decide_eq_true_iff) s

private theorem reads_memberType : Reads Thrown (memberType s) (typeOfMember s) := by
  simp only [memberType, typeOfMember, List.find?, ObjectType.name]
  generalize iequals s.toList "Node".toList = node
  generalize iequals s.toList "Way".toList = way
  generalize iequals s.toList "Relation".toList = relation
  generalize (Exception.badRequest _) = e
  cases node
  · cases way
    · cases relation
      · exact ⟨nofun, fun _ => ⟨e, trivial, rfl⟩⟩
      · exact ⟨fun _ found => congrArg Except.ok (Option.some.inj found), nofun⟩
    · exact ⟨fun _ found => congrArg Except.ok (Option.some.inj found), nofun⟩
  · exact ⟨fun _ found => congrArg Except.ok (Option.some.inj found), nofun⟩

private theorem reads_setCoordinate (what : String) (bound : ℚ) (number : FromCharsDouble) :
    Reads Thrown (setCoordinate what bound number) (coordinate bound number) := by
  cases number with
  | finite v =>
      by_cases outside : v < -bound ∨ bound < v
      · refine ⟨?_, fun _ => ⟨_, trivial, if_pos outside⟩⟩
        intro a found
        have inside : ¬(-bound ≤ v ∧ v ≤ bound) := by grind
        simp [coordinate, inside] at found
      · have inside : -bound ≤ v ∧ v ≤ bound := by grind
        constructor
        · intro a found
          rw [coordinate, if_pos inside, Option.some.injEq] at found
          exact (if_neg outside).trans (congrArg Except.ok found)
        · intro missing
          simp [coordinate, inside] at missing
  | infinite => exact ⟨nofun, fun _ => ⟨_, trivial, rfl⟩⟩
  | nan => exact ⟨nofun, fun _ => ⟨_, trivial, rfl⟩⟩
  | invalidArgument => exact ⟨nofun, fun _ => ⟨_, trivial, rfl⟩⟩
  | resultOutOfRange => exact ⟨nofun, fun _ => ⟨_, trivial, rfl⟩⟩

private theorem foldl_field {H γ : Type} {g : H → String × String → H} (part : H → γ)
    (ofText : Option String → γ) {name : String}
    (step : ∀ h attr, part (g h attr) = if attr.1 = name then ofText (some attr.2) else part h)
    {h : H} (start : part h = ofText none) (attrs : Attrs) :
    part (attrs.foldl g h) = ofText (lastAttr name attrs) := by
  unfold lastAttr
  generalize none = found at start ⊢
  induction attrs generalizing h found with
  | nil => exact start
  | cons attr attrs ih =>
      rw [List.foldl_cons, List.foldl_cons]
      apply ih
      rw [step]
      split
      · rfl
      · exact start

theorem lastAttr_spec (name : String) (attrs : Attrs) :
    (lastAttr name attrs = none ∧ ∀ attr ∈ attrs, attr.1 ≠ name) ∨
      ∃ attr ∈ attrs, attr.1 = name ∧ lastAttr name attrs = some attr.2 := by
  unfold lastAttr
  induction attrs using List.reverseRecOn with
  | nil => exact .inl ⟨rfl, fun attr member => (List.not_mem_nil member).elim⟩
  | append_singleton attrs last ih =>
      rw [List.foldl_append, List.foldl_cons, List.foldl_nil]
      by_cases here : last.1 = name
      · right
        exact ⟨last, by simp, here, if_pos here⟩
      · rw [if_neg here]
        rcases ih with ⟨missing, others⟩ | ⟨attr, member, named, found⟩
        · left
          refine ⟨missing, ?_⟩
          intro attr member
          rcases List.mem_append.mp member with earlier | last
          · exact others attr earlier
          · rw [List.mem_singleton.mp last]
            exact here
        · right
          exact ⟨attr, List.mem_append_left _ member, named, found⟩

private theorem field_isSome {α : Type} {name : String} {value : String → Option α} {attrs : Attrs}
    (readable : Readable name value attrs) :
    (field name value attrs).isSome ↔ ∃ attr ∈ attrs, attr.1 = name := by
  unfold field
  rcases lastAttr_spec name attrs with ⟨missing, others⟩ | ⟨attr, member, named, found⟩
  · rw [missing]
    simpa using fun text member => others (name, text) member rfl
  · rw [found]
    exact ⟨fun _ => ⟨attr, member, named⟩, fun _ => readable attr member named⟩

/-- `init_object` reads three fields. -/
private def storeAttribute (h : Header) (attr : String × String) : Header :=
  if attr.1 = "id" then { h with id := nonzero attr.2 }
  else if attr.1 = "changeset" then { h with changeset := positive attr.2 }
  else if attr.1 = "version" then { h with version := version attr.2 }
  else h

private theorem decides_readAttribute (h : Header) (attr : String × String) :
    Decides Thrown
      (if attr.1 = "id" then (nonzero attr.2).isSome = true
        else if attr.1 = "changeset" then (positive attr.2).isSome = true
        else if attr.1 = "version" then (version attr.2).isSome = true else True)
      (readAttribute h attr) (storeAttribute h attr) := by
  unfold readAttribute storeAttribute
  refine .ite (fun _ => ?_) (fun _ => ?_)
  · exact (reads_setId attr.2).store (fun id => { h with id := id })
  refine .ite (fun _ => ?_) (fun _ => ?_)
  · exact (reads_setChangeset attr.2).store (fun changeset => { h with changeset := changeset })
  refine .ite (fun _ => ?_) (fun _ => .pure)
  exact (reads_setVersion attr.2).store (fun version => { h with version := version })

/-- The header that the attributes of an object describe. -/
def headerOf (attrs : Attrs) : Header :=
  ⟨field "id" nonzero attrs, field "changeset" positive attrs, field "version" version attrs⟩

private theorem foldl_storeAttribute (attrs : Attrs) :
    attrs.foldl storeAttribute ⟨none, none, none⟩ = headerOf attrs := by
  have id : (attrs.foldl storeAttribute ⟨none, none, none⟩).id = field "id" nonzero attrs :=
    foldl_field Header.id (fun text => text.bind nonzero)
      (fun h attr => by unfold storeAttribute; split_ifs <;> simp_all) rfl attrs
  have changeset : (attrs.foldl storeAttribute ⟨none, none, none⟩).changeset =
      field "changeset" positive attrs :=
    foldl_field Header.changeset (fun text => text.bind positive)
      (fun h attr => by unfold storeAttribute; split_ifs <;> simp_all) rfl attrs
  have version : (attrs.foldl storeAttribute ⟨none, none, none⟩).version =
      field "version" version attrs :=
    foldl_field Header.version (fun text => text.bind version)
      (fun h attr => by unfold storeAttribute; split_ifs <;> simp_all) rfl attrs
  calc attrs.foldl storeAttribute ⟨none, none, none⟩
      = ⟨(attrs.foldl storeAttribute ⟨none, none, none⟩).id,
          (attrs.foldl storeAttribute ⟨none, none, none⟩).changeset,
          (attrs.foldl storeAttribute ⟨none, none, none⟩).version⟩ := rfl
    _ = headerOf attrs := by rw [id, changeset, version, headerOf]

private theorem decides_readAttributes (attrs : Attrs) :
    Decides Thrown (Readable "id" nonzero attrs ∧ Readable "changeset" positive attrs ∧
        Readable "version" version attrs)
      (attrs.foldlM readAttribute ⟨none, none, none⟩) (headerOf attrs) := by
  rw [← foldl_storeAttribute]
  refine (Decides.foldlM decides_readAttribute attrs ⟨none, none, none⟩).congr ?_
  unfold Readable
  simp only [← forall₂_and]
  refine forall₂_congr fun attr _ => ?_
  split_ifs <;> simp_all

end Fields

section Starts

private theorem lift {α : Type} {P : Prop} {x : Except Exception α} {a : α}
    (h : Decides Thrown P x a) : Decides Raised P (liftPayload x) a :=
  h.mapError (fun _ _ => trivial)

private theorem exception_raised (e : Exception) : Raised (.exception e) := trivial

private theorem payload_raised {α : Type} {P : Prop} {message : String} {a : α} (never : ¬P) :
    Decides Raised P (payload message) a :=
  .of_error (show Raised (.payloadError (.badRequest message)) from trivial) rfl never

private theorem payload_guard {α : Type} {P Q : Prop} [Decidable Q] {message : String}
    {x : Except Failure α} {a : α} (rest : ¬Q → Decides Raised P x a) :
    Decides Raised (¬Q ∧ P) (if Q then payload message else x) a :=
  .guard (show Raised (.payloadError (.badRequest message)) from trivial) rest

/-- The fields that `init_object` insists on. -/
private def HeaderStarts (op : Operation) (attrs : Attrs) : Prop :=
  (Readable "id" nonzero attrs ∧ Readable "changeset" positive attrs ∧
    Readable "version" version attrs) ∧
  (∃ id, field "id" nonzero attrs = some id) ∧
  (∃ changeset, field "changeset" positive attrs = some changeset) ∧
  (op ≠ .create → ∃ v, field "version" version attrs = some v ∧ 1 ≤ v)

private theorem decides_initHeader (t : ObjectType) (op : Operation) (attrs : Attrs) :
    Decides Thrown (HeaderStarts op attrs) (initHeader t (some op) attrs)
      ⟨field "id" nonzero attrs, field "changeset" positive attrs,
        if op = .create then some 0 else field "version" version attrs⟩ := by
  unfold initHeader initObject HeaderStarts
  simp only [bind_assoc]
  refine (decides_readAttributes attrs).bind fun _ => ?_
  unfold headerOf
  cases field "id" nonzero attrs with
  | none => exact .of_error trivial rfl (by simp)
  | some id =>
      cases field "changeset" positive attrs with
      | none => exact .of_error trivial rfl (by simp)
      | some changeset =>
          cases op with
          | create => exact .of_ok rfl (by simp)
          | modify | delete =>
              cases field "version" version attrs with
              | none => exact .of_error trivial rfl (by simp)
              | some v =>
                  by_cases tooLow : v < 1
                  · simp only [tooLow, if_true]
                    exact .of_error trivial rfl (by simpa using tooLow)
                  · simp only [tooLow, if_false]
                    exact .of_ok rfl (by simpa using not_lt.mp tooLow)

variable (fromCharsDouble : String → FromCharsDouble)

private def storeCoordinate (c : Coordinates) (attr : String × String) : Coordinates :=
  if attr.1 = "lon" then { c with lon := longitude fromCharsDouble attr.2 }
  else if attr.1 = "lat" then { c with lat := latitude fromCharsDouble attr.2 }
  else c

private theorem decides_readCoordinate (c : Coordinates) (attr : String × String) :
    Decides Thrown
      (if attr.1 = "lon" then (longitude fromCharsDouble attr.2).isSome = true
        else if attr.1 = "lat" then (latitude fromCharsDouble attr.2).isSome = true else True)
      (readCoordinate fromCharsDouble c attr) (storeCoordinate fromCharsDouble c attr) := by
  unfold readCoordinate storeCoordinate
  refine .ite (fun _ => ?_) (fun _ => ?_)
  · exact (reads_setCoordinate _ _ _).store (fun lon => { c with lon := lon })
  refine .ite (fun _ => ?_) (fun _ => .pure)
  exact (reads_setCoordinate _ _ _).store (fun lat => { c with lat := lat })

private theorem foldl_storeCoordinate (attrs : Attrs) :
    attrs.foldl (storeCoordinate fromCharsDouble) ⟨none, none⟩ =
      ⟨field "lat" (latitude fromCharsDouble) attrs,
        field "lon" (longitude fromCharsDouble) attrs⟩ := by
  have lat : (attrs.foldl (storeCoordinate fromCharsDouble) ⟨none, none⟩).lat =
      field "lat" (latitude fromCharsDouble) attrs :=
    foldl_field Coordinates.lat (fun text => text.bind (latitude fromCharsDouble))
      (fun c attr => by unfold storeCoordinate; split_ifs <;> simp_all) rfl attrs
  have lon : (attrs.foldl (storeCoordinate fromCharsDouble) ⟨none, none⟩).lon =
      field "lon" (longitude fromCharsDouble) attrs :=
    foldl_field Coordinates.lon (fun text => text.bind (longitude fromCharsDouble))
      (fun c attr => by unfold storeCoordinate; split_ifs <;> simp_all) rfl attrs
  rw [← lat, ← lon]

private theorem decides_initBody (t : ObjectType) (attrs : Attrs) :
    Decides Thrown
      (t = .node → Readable "lat" (latitude fromCharsDouble) attrs ∧
        Readable "lon" (longitude fromCharsDouble) attrs)
      (initBody fromCharsDouble t attrs) (bodyOf fromCharsDouble t attrs []) := by
  cases t with
  | node =>
      have decided := Decides.foldlM (decides_readCoordinate fromCharsDouble) attrs ⟨none, none⟩
      rw [foldl_storeCoordinate] at decided
      refine decided.congr ?_
      unfold Readable
      simp only [← forall₂_and, forall_const]
      refine forall₂_congr fun attr _ => ?_
      split_ifs <;> simp_all
  | way => exact .of_ok rfl (by simp)
  | relation => exact .of_ok rfl (by simp)

end Starts

section Children

variable {t : ObjectType}

private theorem decides_addTag (o : PartialObject t) (attrs : Attrs) :
    Decides Raised
      (ValidTag attrs ∧ ∀ tag, tagOfAttrs attrs = some tag → tag.1 ∉ o.tags.map Prod.fst)
      (addTag o attrs) { o with tags := o.tags ++ (tagOfAttrs attrs).toList } := by
  unfold addTag ValidTag tagOfAttrs
  cases lastAttr "k" attrs with
  | none => exact payload_raised (by simp)
  | some k =>
      cases lastAttr "v" attrs with
      | none => exact payload_raised (by simp)
      | some v =>
          refine (payload_guard fun _ => payload_guard fun _ => payload_guard fun _ =>
            payload_guard fun _ => .pure).congr ?_
          simp only [Option.bind_eq_bind, Option.bind_some, Option.some.injEq]
          grind

private theorem wayNodes_of_attrs (nodes : List Int) (attrs : Attrs) :
    Decides Thrown (Readable "ref" nonzero attrs) (attrs.foldlM readWayNode nodes)
      (nodes ++ (attrs.filter (fun attr => attr.1 = "ref")).filterMap
        (fun attr => nonzero attr.2)) := by
  have step : ∀ (nodes : List Int) (attr : String × String),
      Decides Thrown (if attr.1 = "ref" then (nonzero attr.2).isSome = true else True)
        (readWayNode nodes attr)
        (if attr.1 = "ref" then nodes ++ (nonzero attr.2).toList else nodes) := by
    intro nodes attr
    unfold readWayNode
    refine .ite (fun _ => ?_) (fun _ => .pure)
    exact (reads_wayNode attr.2).store (fun node => nodes ++ node.toList)
  have folded : ∀ nodes : List Int,
      attrs.foldl (fun nodes attr =>
        if attr.1 = "ref" then nodes ++ (nonzero attr.2).toList else nodes) nodes =
      nodes ++ (attrs.filter (fun attr => attr.1 = "ref")).filterMap
        (fun attr => nonzero attr.2) := by
    induction attrs with
    | nil => simp
    | cons attr attrs ih =>
        intro nodes
        rw [List.foldl_cons, ih]
        by_cases here : attr.1 = "ref"
        · cases value : nonzero attr.2 <;> simp [here, value]
        · simp [here]
  rw [← folded]
  refine (Decides.foldlM step attrs nodes).congr ?_
  unfold Readable
  refine forall₂_congr fun attr _ => ?_
  split_ifs <;> simp_all

private theorem decides_addWayNode (o : PartialObject .way) (attrs : Attrs) :
    Decides Raised (ValidWayNode attrs) (addWayNode o attrs)
      { o with body := (show List Int from o.body) ++
          (attrs.filter (fun attr => attr.1 = "ref")).filterMap (fun attr => nonzero attr.2) } := by
  unfold addWayNode ValidWayNode
  refine (lift (wayNodes_of_attrs _ attrs)).bind fun _ => ?_
  by_cases found : attrs.any (fun attr => attr.1 = "ref")
  · simp only [found, if_true]
    exact .of_ok rfl (by simpa using found)
  · simp only [found]
    exact payload_raised (by simpa using found)

private def storeMember (m : PartialMember) (attr : String × String) : PartialMember :=
  if attr.1 = "type" then { m with memberType := typeOfMember attr.2 }
  else if attr.1 = "ref" then { m with ref := nonzero attr.2 }
  else if attr.1 = "role" then { m with role := attr.2 }
  else m

private theorem decides_readMember (m : PartialMember) (attr : String × String) :
    Decides Thrown
      (if attr.1 = "type" then (typeOfMember attr.2).isSome = true
        else if attr.1 = "ref" then (nonzero attr.2).isSome = true
        else if attr.1 = "role" then attr.2.length ≤ 255 else True)
      (readMember m attr) (storeMember m attr) := by
  unfold readMember storeMember
  refine .ite (fun _ => ?_) (fun _ => ?_)
  · exact (reads_memberType attr.2).store (fun type => { m with memberType := type })
  refine .ite (fun _ => ?_) (fun _ => ?_)
  · exact (reads_memberRef attr.2).store (fun ref => { m with ref := ref })
  refine .ite (fun _ => ?_) (fun _ => .pure)
  unfold memberRole
  by_cases long : 255 < attr.2.length
  · rw [if_pos long]
    exact .of_error trivial rfl (not_le.mpr long)
  · rw [if_neg long]
    exact .of_ok rfl (not_lt.mp long)

private theorem foldl_storeMember (attrs : Attrs) :
    attrs.foldl storeMember PartialMember.empty =
      ⟨field "type" typeOfMember attrs, field "ref" nonzero attrs,
        (lastAttr "role" attrs).getD ""⟩ := by
  have type : (attrs.foldl storeMember PartialMember.empty).memberType =
      field "type" typeOfMember attrs :=
    foldl_field PartialMember.memberType (fun text => text.bind typeOfMember)
      (fun m attr => by unfold storeMember; split_ifs <;> simp_all) rfl attrs
  have ref : (attrs.foldl storeMember PartialMember.empty).ref = field "ref" nonzero attrs :=
    foldl_field PartialMember.ref (fun text => text.bind nonzero)
      (fun m attr => by unfold storeMember; split_ifs <;> simp_all) rfl attrs
  have role : (attrs.foldl storeMember PartialMember.empty).role =
      (lastAttr "role" attrs).getD "" :=
    foldl_field PartialMember.role (fun text => text.getD "")
      (fun m attr => by unfold storeMember; split_ifs <;> simp_all) rfl attrs
  rw [← type, ← ref, ← role]

private theorem decides_addMember (o : PartialObject .relation) (attrs : Attrs) :
    Decides Raised (ValidMember attrs) (addMember o attrs)
      { o with body := (show List RelationMember from o.body) ++
          (memberOfAttrs attrs).toList } := by
  have decided := Decides.foldlM decides_readMember attrs PartialMember.empty
  rw [foldl_storeMember] at decided
  unfold addMember memberOfAttrs
  refine ((lift decided).bind (Q := (field "type" typeOfMember attrs).isSome ∧
    (field "ref" nonzero attrs).isSome) fun _ => ?_).congr ?_
  · cases field "type" typeOfMember attrs with
    | none => exact payload_raised (by simp)
    | some type =>
        cases field "ref" nonzero attrs with
        | none => exact payload_raised (by simp)
        | some ref => exact .of_ok rfl (by simp)
  · have readable : (∀ attr ∈ attrs,
        if attr.1 = "type" then (typeOfMember attr.2).isSome = true
        else if attr.1 = "ref" then (nonzero attr.2).isSome = true
        else if attr.1 = "role" then attr.2.length ≤ 255 else True) ↔
        Readable "type" typeOfMember attrs ∧ Readable "ref" nonzero attrs ∧
          ∀ attr ∈ attrs, attr.1 = "role" → attr.2.length ≤ 255 := by
      unfold Readable
      simp only [← forall₂_and]
      refine forall₂_congr fun attr _ => ?_
      split_ifs <;> simp_all
    rw [readable]
    constructor
    · rintro ⟨⟨types, refs, roles⟩, type, ref⟩
      exact ⟨types, refs, roles, (field_isSome types).mp type, (field_isSome refs).mp ref⟩
    · rintro ⟨types, refs, roles, type, ref⟩
      exact ⟨⟨types, refs, roles⟩, (field_isSome types).mpr type, (field_isSome refs).mpr ref⟩

section Appending

variable (read : List Tree) (child : Tree)

private theorem tagsOf_append : tagsOf (read ++ [child]) =
    tagsOf read ++ if child.name = "tag" then (tagOfAttrs child.attrs).toList else [] := by
  unfold tagsOf
  rw [List.filter_append, List.filterMap_append]
  by_cases named : child.name = "tag"
  · cases tag : tagOfAttrs child.attrs <;> simp [named, tag]
  · simp [named]

private theorem wayNodesOf_append : wayNodesOf (read ++ [child]) =
    wayNodesOf read ++ if child.name = "nd" then
      (child.attrs.filter (fun attr => attr.1 = "ref")).filterMap (fun attr => nonzero attr.2)
      else [] := by
  unfold wayNodesOf
  rw [List.filter_append, List.flatMap_append]
  by_cases named : child.name = "nd"
  · simp [named]
  · simp [named]

private theorem membersOf_append : membersOf (read ++ [child]) =
    membersOf read ++ if child.name = "member" then (memberOfAttrs child.attrs).toList else [] := by
  unfold membersOf
  rw [List.filter_append, List.filterMap_append]
  by_cases named : child.name = "member"
  · cases member : memberOfAttrs child.attrs <;> simp [named, member]
  · simp [named]

end Appending

variable (fromCharsDouble : String → FromCharsDouble) (op : Operation) (attrs : Attrs)

/-- What the start tag of a child is checked for. -/
private def ChildStarts (t : ObjectType) (read : List Tree) (child : Tree) : Prop :=
  (child.name = "tag" → ValidTag child.attrs ∧
    ∀ tag, tagOfAttrs child.attrs = some tag → tag.1 ∉ (tagsOf read).map Prod.fst) ∧
  (t = .way → child.name = "nd" → ValidWayNode child.attrs) ∧
  (t = .relation → child.name = "member" → ValidMember child.attrs)

private theorem setObject_setObject (s : Parser) (o o' : PartialObject t) :
    (s.setObject o).setObject o' = s.setObject o' := by
  unfold Parser.setObject
  rw [Function.update_idem]

private theorem startChild_eq (s : Parser) (o : PartialObject t) (element : String)
    (given : Attrs) :
    startChild (s.setObject o) t element given =
      match childReader t element with
      | none => .ok ((s.setObject o).push .inObject)
      | some read => read o given >>= fun o' => .ok ((s.setObject o').push .inObject) := by
  unfold startChild
  cases childReader t element with
  | none => rfl
  | some read =>
      have present : (s.setObject o).object t = some o := Function.update_self ..
      simp only [present, setObject_setObject]

private theorem decides_readChild {P : Prop}
    {reader : PartialObject t → Attrs → Except Failure (PartialObject t)} (s : Parser)
    {read : List Tree} {child : Tree} (found : childReader t child.name = some reader)
    (decides : Decides Raised P (reader (objectOf fromCharsDouble op t attrs read) child.attrs)
      (objectOf fromCharsDouble op t attrs (read ++ [child])))
    (starts : P ↔ ChildStarts t read child) :
    Decides Raised (ChildStarts t read child)
      (startChild (s.setObject (objectOf fromCharsDouble op t attrs read)) t child.name child.attrs)
      ((s.setObject (objectOf fromCharsDouble op t attrs (read ++ [child]))).push .inObject) := by
  rw [startChild_eq, found]
  exact (decides.map (fun o => (s.setObject o).push .inObject)).congr starts

private theorem decides_otherChild (s : Parser) (read : List Tree) {child : Tree}
    (unread : childReader t child.name = none) :
    Decides Raised (ChildStarts t read child)
      (startChild (s.setObject (objectOf fromCharsDouble op t attrs read)) t child.name child.attrs)
      ((s.setObject (objectOf fromCharsDouble op t attrs (read ++ [child]))).push .inObject) := by
  have names : child.name ≠ "tag" ∧ (t = .way → child.name ≠ "nd") ∧
      (t = .relation → child.name ≠ "member") := by
    cases t with
    | node => simpa [childReader] using unread
    | way =>
        rw [childReader] at unread
        split_ifs at unread with node tag
        exact ⟨tag, fun _ => node, fun other => absurd other (by decide)⟩
    | relation =>
        rw [childReader] at unread
        split_ifs at unread with member tag
        exact ⟨tag, fun other => absurd other (by decide), fun _ => member⟩
  obtain ⟨tag, node, member⟩ := names
  have content : objectOf fromCharsDouble op t attrs (read ++ [child]) =
      objectOf fromCharsDouble op t attrs read := by
    cases t with
    | node => simp [objectOf, tagsOf_append, tag, bodyOf]
    | way => simp [objectOf, tagsOf_append, tag, bodyOf, wayNodesOf_append, node rfl]
    | relation => simp [objectOf, tagsOf_append, tag, bodyOf, membersOf_append, member rfl]
  rw [startChild_eq, unread, content]
  exact .of_ok rfl ⟨fun named => absurd named tag, fun way named => absurd named (node way),
    fun relation named => absurd named (member relation)⟩

private theorem decides_startChild (s : Parser) (read : List Tree) (child : Tree) :
    Decides Raised (ChildStarts t read child)
      (startChild (s.setObject (objectOf fromCharsDouble op t attrs read)) t child.name child.attrs)
      ((s.setObject (objectOf fromCharsDouble op t attrs (read ++ [child]))).push .inObject) := by
  by_cases tag : child.name = "tag"
  · have reader : childReader t child.name = some addTag := by
      rw [tag]
      cases t <;> rfl
    have content : objectOf fromCharsDouble op t attrs (read ++ [child]) =
        { objectOf fromCharsDouble op t attrs read with
          tags := tagsOf read ++ (tagOfAttrs child.attrs).toList } := by
      unfold objectOf
      rw [tagsOf_append, if_pos tag]
      cases t
      · rfl
      · simp [bodyOf, wayNodesOf_append, tag]
      · simp [bodyOf, membersOf_append, tag]
    have decides := decides_addTag (objectOf fromCharsDouble op t attrs read) child.attrs
    exact decides_readChild fromCharsDouble op attrs s reader (content ▸ decides)
      (by simp [ChildStarts, tag, objectOf])
  · by_cases node : t = .way ∧ child.name = "nd"
    · obtain ⟨rfl, node⟩ := node
      have content : objectOf fromCharsDouble op .way attrs (read ++ [child]) =
          { objectOf fromCharsDouble op .way attrs read with
            body := wayNodesOf read ++ (child.attrs.filter (fun attr => attr.1 = "ref")).filterMap
              (fun attr => nonzero attr.2) } := by
        simp [objectOf, tagsOf_append, bodyOf, wayNodesOf_append, node]
      have decides := decides_addWayNode (objectOf fromCharsDouble op .way attrs read) child.attrs
      exact decides_readChild fromCharsDouble op attrs s (if_pos node) (content ▸ decides)
        (by simp [ChildStarts, node])
    · by_cases member : t = .relation ∧ child.name = "member"
      · obtain ⟨rfl, member⟩ := member
        have content : objectOf fromCharsDouble op .relation attrs (read ++ [child]) =
            { objectOf fromCharsDouble op .relation attrs read with
              body := membersOf read ++ (memberOfAttrs child.attrs).toList } := by
          simp [objectOf, tagsOf_append, bodyOf, membersOf_append, member]
        have decides := decides_addMember (objectOf fromCharsDouble op .relation attrs read)
          child.attrs
        exact decides_readChild fromCharsDouble op attrs s (if_pos member) (content ▸ decides)
          (by simp [ChildStarts, member])
      · apply decides_otherChild
        cases t <;> simp_all [childReader]

end Children

section Runs

variable (cfg : Settings) (fromCharsDouble : String → FromCharsDouble)

private theorem raised_enhanced (location : Location) {failure : Failure} (raised : Raised failure) :
    Raised (onEnhanceException location failure) := by
  cases failure with
  | payloadError e =>
      cases e with
      | http code message => cases location <;> exact trivial
      | std what => exact trivial
      | outOfFuel => exact trivial
  | exception e => exact trivial
  | assertion => cases raised
  | nullPointer => cases raised

private theorem decides_element {P₁ P₂ P₃ : Prop} {s s₁ s₂ s₃ : Parser} (tree : Tree)
    (start : Decides Raised P₁ (onStartElement fromCharsDouble s tree.name tree.attrs) s₁)
    (inner : P₁ → Decides Raised P₂
      (tree.children.foldlM (fun s child => onEvents cfg fromCharsDouble s child.events) s₁) s₂)
    (stop : P₁ → P₂ → Decides Raised P₃ (onEndElement cfg s₂ tree.name) s₃) :
    Decides Raised (P₁ ∧ P₂ ∧ P₃) (onEvents cfg fromCharsDouble s tree.events) s₃ := by
  obtain ⟨name, attrs, opened, closed, children⟩ := tree
  have parts : onEvents cfg fromCharsDouble s
      (Tree.element name attrs opened closed children).events =
      onEvent cfg fromCharsDouble s (.startElement name attrs opened) >>= fun s =>
        children.foldlM (fun s child => onEvents cfg fromCharsDouble s child.events) s >>= fun s =>
          onEvent cfg fromCharsDouble s (.endElement name closed) := by
    unfold onEvents
    rw [Tree.events, List.foldlM_cons]
    refine bind_congr fun s => ?_
    rw [List.foldlM_append, Tree.childEvents_eq, foldlM_flatMap]
    refine bind_congr fun s => ?_
    rw [List.foldlM_cons]
    exact bind_pure _
  rw [parts]
  refine (start.mapError fun e => raised_enhanced opened).bind fun first => ?_
  refine (inner first).bind fun second => ?_
  exact (stop first second).mapError fun e => raised_enhanced closed

private theorem rejects_element {s s₁ s₃ : Parser} (tree : Tree)
    (start : Decides Raised False (onStartElement fromCharsDouble s tree.name tree.attrs) s₁) :
    Decides Raised False (onEvents cfg fromCharsDouble s tree.events) s₃ := by
  have inner : False → Decides Raised True
      (tree.children.foldlM (fun s child => onEvents cfg fromCharsDouble s child.events) s₁) s₁ :=
    False.elim
  have stop : False → True → Decides Raised True (onEndElement cfg s₁ tree.name) s₃ :=
    fun never => never.elim
  exact (decides_element cfg fromCharsDouble tree start inner stop).congr (by rw [false_and])

private theorem decides_flat (s : Parser) (children : List Tree) :
    Decides Raised (children = [])
      (children.foldlM (fun s child => onEvents cfg fromCharsDouble s child.events)
        (s.push .inObject)) (s.push .inObject) := by
  cases children with
  | nil => exact .of_ok rfl rfl
  | cons child children =>
      obtain ⟨name, attrs, opened, closed, inner⟩ := child
      have nested : Raised (onEnhanceException opened
          (.payloadError (.badRequest "xml file nested too deep"))) :=
        raised_enhanced opened trivial
      refine .of_error nested ?_ (List.cons_ne_nil _ _)
      rw [List.foldlM_cons]
      have failed : onEvents cfg fromCharsDouble (s.push .inObject)
          (Tree.element name attrs opened closed inner).events = .error (onEnhanceException opened
            (.payloadError (.badRequest "xml file nested too deep"))) := by
        unfold onEvents
        rw [Tree.events, List.foldlM_cons]
        rfl
      rw [failed]
      rfl

variable {t : ObjectType} (op : Operation) (attrs : Attrs)

private theorem decides_child (s : Parser) (rest : List Context)
    (inside : s.context = .object t :: rest) (read : List Tree) (child : Tree) :
    Decides Raised (ChildStarts t read child ∧ child.children = [] ∧ True)
      (onEvents cfg fromCharsDouble (s.setObject (objectOf fromCharsDouble op t attrs read))
        child.events)
      (s.setObject (objectOf fromCharsDouble op t attrs (read ++ [child]))) := by
  have started : onStartElement fromCharsDouble
      (s.setObject (objectOf fromCharsDouble op t attrs read)) child.name child.attrs =
      startChild (s.setObject (objectOf fromCharsDouble op t attrs read)) t child.name
        child.attrs := by
    have context : (s.setObject (objectOf fromCharsDouble op t attrs read)).context =
      .object t :: rest := inside
    simp only [onStartElement, context]
  have start := decides_startChild (t := t) fromCharsDouble op attrs s read child
  rw [← started] at start
  exact decides_element cfg fromCharsDouble child start
    (fun _ => decides_flat cfg fromCharsDouble _ child.children) (fun _ _ => .pure)

private def keyOf (child : Tree) : Option String :=
  if child.name = "tag" then (tagOfAttrs child.attrs).map Prod.fst else none

private theorem keys_eq (children : List Tree) :
    (tagsOf children).map Prod.fst = children.filterMap keyOf := by
  unfold tagsOf
  rw [List.filterMap_filter, List.map_filterMap]
  refine List.filterMap_congr fun child _ => ?_
  unfold keyOf
  by_cases tag : child.name = "tag"
  · simp [tag]
  · simp [tag]

private theorem pairwise_iff_history {α : Type} {R : α → α → Prop} (l : List α) :
    l.Pairwise R ↔ ∀ before a after, l = before ++ a :: after → ∀ b ∈ before, R b a := by
  constructor
  · rintro pairwise before a after rfl b member
    exact (List.pairwise_append.mp pairwise).2.2 b member a List.mem_cons_self
  · intro all
    induction l with
    | nil => exact .nil
    | cons c l ih =>
        refine .cons ?_ (ih ?_)
        · intro a member
          obtain ⟨before, after, rfl⟩ := List.append_of_mem member
          exact all (c :: before) a after rfl c List.mem_cons_self
        · rintro before a after rfl b member
          exact all (c :: before) a after rfl b (List.mem_cons_of_mem _ member)

private theorem nodup_keys_iff (children : List Tree) :
    ((tagsOf children).map Prod.fst).Nodup ↔ ∀ before child after,
      children = before ++ child :: after → child.name = "tag" →
        ∀ tag, tagOfAttrs child.attrs = some tag → tag.1 ∉ (tagsOf before).map Prod.fst := by
  rw [keys_eq, List.Nodup, List.pairwise_filterMap, pairwise_iff_history]
  refine forall₂_congr fun before child => forall₂_congr fun after split => ?_
  rw [keys_eq]
  constructor
  · intro distinct named tag found twice
    obtain ⟨earlier, member, same⟩ := List.mem_filterMap.mp twice
    refine distinct earlier member tag.1 same tag.1 ?_ rfl
    rw [keyOf, if_pos named, found]
    rfl
  · rintro fresh earlier member key same key' here rfl
    unfold keyOf at here
    split at here
    · rename_i named
      obtain ⟨tag, found, rfl⟩ := Option.map_eq_some_iff.mp here
      exact fresh named tag found (List.mem_filterMap.mpr ⟨earlier, member, same⟩)
    · cases here

private theorem decides_children (s : Parser) (rest : List Context)
    (inside : s.context = .object t :: rest) (children : List Tree) :
    Decides Raised
      ((∀ child ∈ children, ValidChild t child) ∧ ((tagsOf children).map Prod.fst).Nodup)
      (children.foldlM (fun s child => onEvents cfg fromCharsDouble s child.events)
        (s.setObject (objectOf fromCharsDouble op t attrs [])))
      (s.setObject (objectOf fromCharsDouble op t attrs children)) := by
  refine (Decides.foldlM_history
    (fun read => s.setObject (objectOf fromCharsDouble op t attrs read))
    (decides_child cfg fromCharsDouble op attrs s rest inside) children []).congr ?_
  rw [nodup_keys_iff]
  constructor
  · intro all
    constructor
    · intro child member
      obtain ⟨before, after, split⟩ := List.append_of_mem member
      obtain ⟨⟨tag, wayNode, member⟩, flat, -⟩ := all before child after split
      exact ⟨flat, fun named => (tag named).1, wayNode, member⟩
    · intro before child after split named
      obtain ⟨⟨tag, -⟩, -⟩ := all before child after split
      exact (tag named).2
  · rintro ⟨valid, fresh⟩ before child after split
    have here := valid child (split ▸ List.mem_append_right _ List.mem_cons_self)
    exact ⟨⟨fun named => ⟨here.tag named, fresh before child after split named⟩, here.wayNode,
      here.member⟩, here.flat, trivial⟩

section Ends

variable {cfg} {op} (o : PartialObject t) {id changeset : Int} {v : Nat}

variable (cfg op) in
private theorem decides_isValidObject (hasId : o.header.id = some id)
    (hasChangeset : o.header.changeset = some changeset) (hasVersion : o.header.version = some v) :
    Decides Raised
      ((∀ max, cfg.elementMaxTags = some max → o.tags.length ≤ max) ∧ (op = .create → id < 0))
      (o.isValidObject cfg (some op)) true := by
  unfold PartialObject.isValidObject
  simp only [hasId, hasChangeset, hasVersion]
  refine (payload_guard fun _ => payload_guard fun _ => payload_guard fun _ => .pure).congr ?_
  cases cfg.elementMaxTags <;> simp

private theorem decides_isValid {r : Parser} {message : String} (hasId : o.header.id = some id)
    (hasChangeset : o.header.changeset = some changeset) (hasVersion : o.header.version = some v) :
    Decides Raised
      (((∀ max, cfg.elementMaxTags = some max → o.tags.length ≤ max) ∧ (op = .create → id < 0)) ∧
        (op ≠ .delete → CompleteBody cfg t o.body))
      (o.isValid cfg (some op) >>= fun valid => if valid then .ok r else payload message) r := by
  have base := decides_isValidObject cfg op o hasId hasChangeset hasVersion
  generalize ((∀ max, cfg.elementMaxTags = some max → o.tags.length ≤ max) ∧
    (op = .create → id < 0)) = Limits at base ⊢
  have finish : ∀ {P : Prop} {x : Except Failure Bool}, Decides Raised P x true →
      Decides Raised (P ∧ True) (x >>= fun valid => if valid then .ok r else payload message) r :=
    fun decided => decided.bind fun _ => .of_ok rfl trivial
  by_cases delete : op = .delete
  · have same : o.isValid cfg (some op) = o.isValidObject cfg (some op) := by
      cases t <;> exact if_pos (congrArg some delete)
    rw [same]
    exact (finish base).congr (by simp [delete])
  have notDelete : ¬some op = some Operation.delete := by simpa using delete
  cases t with
  | node =>
      obtain ⟨header, tags, (coordinates : Coordinates)⟩ := o
      change Decides Raised _ (isValidNode cfg ⟨header, tags, coordinates⟩ coordinates (some op) >>= _) r
      unfold isValidNode CompleteBody
      rw [if_neg notDelete, bind_assoc]
      refine base.bind fun _ => ?_
      change Decides Raised _ (if (true && coordinates.lat.isSome && coordinates.lon.isSome) = true
        then .ok r else payload message) r
      by_cases complete : coordinates.lat.isSome ∧ coordinates.lon.isSome
      · refine .of_ok (if_pos ?_) (fun _ => complete)
        simp [complete]
      · rw [if_neg (by simpa using complete)]
        exact payload_raised (fun always => complete (always delete))
  | way =>
      obtain ⟨header, tags, (nodes : List Int)⟩ := o
      change Decides Raised _ (isValidWay cfg ⟨header, tags, nodes⟩ nodes (some op) >>= _) r
      unfold isValidWay CompleteBody
      rw [if_neg notDelete]
      refine (finish (.guard (exception_raised _) fun _ => .guard (exception_raised _) fun _ =>
        base)).congr ?_
      rw [not_lt]
      tauto
  | relation =>
      obtain ⟨header, tags, (members : List RelationMember)⟩ := o
      change Decides Raised _ (isValidRelation cfg ⟨header, tags, members⟩ members (some op) >>= _) r
      unfold isValidRelation CompleteBody
      rw [if_neg notDelete]
      have limit : ¬(cfg.relationMaxMembers.any (fun max => decide (max < members.length)) = true) ↔
          ∀ max, cfg.relationMaxMembers = some max → members.length ≤ max := by
        cases cfg.relationMaxMembers <;> simp
      refine (finish (.guard (exception_raised _) fun _ => base)).congr ?_
      rw [limit]
      tauto

end Ends

theorem typeNamed_eq_some {name : String} : typeNamed name = some t ↔ t.lowerName = name := by
  constructor
  · intro found
    have named := List.find?_some (p := fun t => decide (ObjectType.lowerName t = name)) found
    exact of_decide_eq_true named
  · rintro rfl
    cases t <;> decide

theorem operationNamed_eq_some {op : Operation} {name : String} :
    operationNamed name = some op ↔ actionName op = name := by
  constructor
  · intro found
    have named := List.find?_some (p := fun op => decide (actionName op = name)) found
    exact of_decide_eq_true named
  · rintro rfl
    cases op <;> decide

private theorem onStartElement_action {s : Parser} {rest : List Context}
    (inside : s.context = .action op :: rest) (name : String) :
    onStartElement fromCharsDouble s name attrs =
      match typeNamed name with
      | some t => startObject fromCharsDouble s t attrs
      | none => payload s!"Unknown element {name}, expecting node, way or relation" := by
  unfold onStartElement
  rw [inside]
  cases found : typeNamed name with
  | some t =>
      obtain rfl := typeNamed_eq_some.mp found
      cases t <;> rfl
  | none =>
      have other : ∀ t : ObjectType, name ≠ t.lowerName := by
        rintro t rfl
        rw [typeNamed_eq_some.mpr rfl] at found
        cases found
      have node : name ≠ "node" := other .node
      have way : name ≠ "way" := other .way
      have relation : name ≠ "relation" := other .relation
      simp only [node, way, relation, if_false]

private theorem decides_startObject {s : Parser} (current : s.operation = some op) :
    Decides Raised (HeaderStarts op attrs ∧ (t = .node →
        Readable "lat" (latitude fromCharsDouble) attrs ∧
          Readable "lon" (longitude fromCharsDouble) attrs))
      (startObject fromCharsDouble s t attrs)
      ((s.push (.object t)).setObject (objectOf fromCharsDouble op t attrs [])) := by
  unfold startObject
  rw [current]
  refine (lift (decides_initHeader t op attrs)).bind fun _ => ?_
  exact (lift (decides_initBody fromCharsDouble t attrs)).map (fun body =>
    (s.setObject (⟨_, [], body⟩ : PartialObject t)).push (.object t))

private theorem endObject_eq (s : Parser) (current : s.operation = some op) (o : PartialObject t) :
    onEndElement cfg ((s.push (.object t)).setObject o) t.lowerName =
      o.isValid cfg (some op) >>= fun valid =>
        if valid then .ok ((s.call (.process t o (some op) s.ifUnused)).setObject
          (PartialObject.empty t))
        else payload s!"{o.toString} does not include all mandatory fields" := by
  have present : ((s.push (.object t)).setObject o).object t = some o := Function.update_self ..
  have cleared : Function.update (Function.update s.object t (some o)) t
      (some (PartialObject.empty t)) = Function.update s.object t (some (PartialObject.empty t)) :=
    Function.update_idem ..
  change (if t.lowerName = t.lowerName then endObject cfg ((s.push (.object t)).setObject o) t
    s.context else _) = _
  rw [if_pos rfl, endObject, present]
  change (o.isValid cfg s.operation >>= _) = _
  rw [current]
  refine bind_congr fun valid => ?_
  cases valid with
  | false => rfl
  | true =>
      simp only [if_true, Parser.setObject, Parser.call, Parser.push, cleared, current]

private theorem decides_endObject (s : Parser) (current : s.operation = some op)
    (started : HeaderStarts op attrs) (children : List Tree) :
    Decides Raised
      (((∀ max, cfg.elementMaxTags = some max → (tagsOf children).length ≤ max) ∧
        (op = .create → ∀ id, field "id" nonzero attrs = some id → id < 0)) ∧
        (op ≠ .delete → CompleteBody cfg t (bodyOf fromCharsDouble t attrs children)))
      (onEndElement cfg
        ((s.push (.object t)).setObject (objectOf fromCharsDouble op t attrs children)) t.lowerName)
      ((s.call (.process t (objectOf fromCharsDouble op t attrs children) (some op)
        s.ifUnused)).setObject (PartialObject.empty t)) := by
  obtain ⟨-, ⟨id, hasId⟩, ⟨changeset, hasChangeset⟩, hasVersion⟩ := started
  obtain ⟨v, found⟩ : ∃ v, (objectOf fromCharsDouble op t attrs children).header.version = some v := by
    by_cases create : op = .create
    · exact ⟨0, if_pos create⟩
    · obtain ⟨v, same, -⟩ := hasVersion create
      exact ⟨v, (if_neg create).trans same⟩
  have ended := endObject_eq cfg op s current (objectOf fromCharsDouble op t attrs children)
  rw [ended]
  refine (decides_isValid (objectOf fromCharsDouble op t attrs children) hasId hasChangeset
    found).congr ?_
  refine and_congr_left fun _ => and_congr_right fun _ => forall_congr' fun _ => ?_
  simp [hasId]

/-- Every object that was read leaves a fresh one behind. -/
private def cleared (object : (t : ObjectType) → Option (PartialObject t)) (read : List Tree) :
    (t : ObjectType) → Option (PartialObject t) :=
  read.foldl (fun object tree =>
    match typeNamed tree.name with
    | some t => Function.update object t (some (PartialObject.empty t))
    | none => object) object

private def afterObjects (s : Parser) (op : Operation) (read : List Tree) : Parser :=
  { s with
    callbacks := s.callbacks ++ read.flatMap (objectCalls fromCharsDouble op s.ifUnused)
    object := cleared s.object read }

private theorem afterObjects_append (s : Parser) (read : List Tree) (object : Tree) :
    afterObjects fromCharsDouble (afterObjects fromCharsDouble s op read) op [object] =
      afterObjects fromCharsDouble s op (read ++ [object]) := by
  simp [afterObjects, cleared]

private theorem decides_object {s : Parser} {rest : List Context}
    (inside : s.context = .action op :: rest) (current : s.operation = some op) (object : Tree) :
    Decides Raised
      (∃ t, ObjectType.lowerName t = object.name ∧ ValidObject cfg fromCharsDouble op t object)
      (onEvents cfg fromCharsDouble s object.events)
      (afterObjects fromCharsDouble s op [object]) := by
  have start := onStartElement_action fromCharsDouble op object.attrs inside object.name
  cases found : typeNamed object.name with
  | none =>
      have unnamed : ¬∃ t, ObjectType.lowerName t = object.name ∧
          ValidObject cfg fromCharsDouble op t object := by
        rintro ⟨t, named, -⟩
        rw [typeNamed_eq_some.mpr named] at found
        cases found
      rw [found] at start
      have failed : Decides Raised False
          (onStartElement fromCharsDouble s object.name object.attrs) s := by
        rw [start]
        exact payload_raised not_false
      refine (rejects_element cfg fromCharsDouble object failed).congr ?_
      simp [unnamed]
  | some t =>
      have named := typeNamed_eq_some.mp found
      simp only [found] at start
      have after : afterObjects fromCharsDouble s op [object] =
          (s.call (.process t (objectOf fromCharsDouble op t object.attrs object.children) (some op)
            s.ifUnused)).setObject (PartialObject.empty t) := by
        simp [afterObjects, cleared, objectCalls, found, Parser.setObject, Parser.call]
      have begun := decides_startObject (t := t) fromCharsDouble op object.attrs current
      rw [← start] at begun
      rw [after]
      refine (decides_element cfg fromCharsDouble object begun
        (fun _ => decides_children cfg fromCharsDouble op object.attrs (s.push (.object t)) s.context
          rfl object.children)
        (fun started _ => named ▸ decides_endObject cfg fromCharsDouble op object.attrs s current
          started.1 object.children)).congr ?_
      constructor
      · rintro ⟨⟨⟨⟨ids, changesets, versions⟩, ⟨id, hasId⟩, changeset, version⟩, coordinates⟩,
          ⟨children, keys⟩, ⟨tags, placeholder⟩, body⟩
        exact ⟨t, named, ids, changesets, versions, coordinates,
          ⟨id, hasId, fun create => placeholder create id hasId⟩, changeset, version, children, keys,
          tags, body⟩
      · rintro ⟨t', named', valid⟩
        obtain rfl : t' = t := by
          have same := typeNamed_eq_some.mpr named'
          rw [found, Option.some.injEq] at same
          exact same.symm
        obtain ⟨id, hasId, placeholder⟩ := valid.id
        refine ⟨⟨⟨⟨valid.ids, valid.changesets, valid.versions⟩, ⟨id, hasId⟩, valid.changeset,
          valid.version⟩, valid.coordinates⟩, ⟨valid.children, valid.keys⟩, ⟨valid.tags, ?_⟩,
          valid.body⟩
        intro create id' same
        rw [hasId, Option.some.injEq] at same
        exact same ▸ placeholder create

private theorem decides_objects {s : Parser} {rest : List Context}
    (inside : s.context = .action op :: rest) (current : s.operation = some op)
    (objects : List Tree) :
    Decides Raised
      (∀ object ∈ objects,
        ∃ t, ObjectType.lowerName t = object.name ∧ ValidObject cfg fromCharsDouble op t object)
      (objects.foldlM (fun s object => onEvents cfg fromCharsDouble s object.events) s)
      (afterObjects fromCharsDouble s op objects) := by
  have begun : s = afterObjects fromCharsDouble s op [] := by
    simp [afterObjects, cleared]
  have step : ∀ read object, Decides Raised
      (∃ t, ObjectType.lowerName t = object.name ∧ ValidObject cfg fromCharsDouble op t object)
      (onEvents cfg fromCharsDouble (afterObjects fromCharsDouble s op read) object.events)
      (afterObjects fromCharsDouble s op (read ++ [object])) := by
    intro read object
    rw [← afterObjects_append]
    exact decides_object cfg fromCharsDouble op (s := afterObjects fromCharsDouble s op read) inside
      current object
  have decided := Decides.foldlM_states (f := fun s object =>
    onEvents cfg fromCharsDouble s object.events) (afterObjects fromCharsDouble s op) step objects []
  rwa [← begun, List.nil_append] at decided

private def afterActions (read : List Tree) : Parser where
  operation := none
  context := [.top, .root]
  object := read.foldl (fun object action => cleared object action.children) (fun _ => none)
  ifUnused := false
  callbacks := .startDocument :: read.flatMap (actionCalls fromCharsDouble)

private theorem onStartElement_top {s : Parser} {rest : List Context}
    (inside : s.context = .top :: rest) (unset : s.ifUnused = false) (name : String) :
    onStartElement fromCharsDouble s name attrs =
      match operationNamed name with
      | some op => .ok { s with
          operation := some op
          context := .action op :: s.context
          ifUnused := op = .delete && attrs.any (fun attr => attr.1 = "if-unused") }
      | none => payload s!"Unknown action {name}, choices are create, modify, delete" := by
  unfold onStartElement
  rw [inside]
  cases found : operationNamed name with
  | some op =>
      obtain rfl := operationNamed_eq_some.mp found
      cases op
      · simp [actionName, unset]
      · simp [actionName, unset]
      · simp [actionName]
  | none =>
      have other : ∀ op : Operation, name ≠ actionName op := by
        rintro op rfl
        rw [operationNamed_eq_some.mpr rfl] at found
        cases found
      have create : name ≠ "create" := other .create
      have modify : name ≠ "modify" := other .modify
      have delete : name ≠ "delete" := other .delete
      simp only [create, modify, delete, if_false]

private theorem decides_action (read : List Tree) (action : Tree) :
    Decides Raised (ValidAction cfg fromCharsDouble action)
      (onEvents cfg fromCharsDouble (afterActions fromCharsDouble read) action.events)
      (afterActions fromCharsDouble (read ++ [action])) := by
  have start := onStartElement_top fromCharsDouble action.attrs
    (s := afterActions fromCharsDouble read) rfl rfl action.name
  cases found : operationNamed action.name with
  | none =>
      have unnamed : ¬ValidAction cfg fromCharsDouble action := by
        rintro ⟨op, named, -⟩
        rw [operationNamed_eq_some.mpr named] at found
        cases found
      rw [found] at start
      have failed : Decides Raised False
          (onStartElement fromCharsDouble (afterActions fromCharsDouble read) action.name
            action.attrs) (afterActions fromCharsDouble read) := by
        rw [start]
        exact payload_raised not_false
      refine (rejects_element cfg fromCharsDouble action failed).congr ?_
      simp [unnamed]
  | some op =>
      have named := operationNamed_eq_some.mp found
      simp only [found] at start
      have begun : Decides Raised True _ _ := .of_ok start trivial
      have ended : ∀ s : Parser, s.context = .action op :: [.top, .root] →
          onEndElement cfg s action.name = .ok { s with
            operation := none
            context := [.top, .root]
            ifUnused := if op = .delete then false else s.ifUnused } := by
        intro s inside
        unfold onEndElement
        rw [inside]
        exact if_pos named.symm
      have finished : Decides Raised True (onEndElement cfg (afterObjects fromCharsDouble
          { afterActions fromCharsDouble read with
            operation := some op
            context := .action op :: [.top, .root]
            ifUnused := op = .delete && action.attrs.any (fun attr => attr.1 = "if-unused") } op
          action.children) action.name) (afterActions fromCharsDouble (read ++ [action])) := by
        refine .of_ok ?_ trivial
        rw [ended _ rfl]
        by_cases delete : op = .delete <;>
          simp [afterObjects, afterActions, actionCalls, found, delete]
      refine (decides_element cfg fromCharsDouble action begun
        (fun _ => decides_objects cfg fromCharsDouble op rfl rfl action.children)
        (fun _ _ => finished)).congr ?_
      constructor
      · rintro ⟨-, valid, -⟩
        exact ⟨op, named, valid⟩
      · rintro ⟨op', named', valid⟩
        have same := operationNamed_eq_some.mpr named'
        rw [found, Option.some.injEq] at same
        exact ⟨trivial, same ▸ valid, trivial⟩

private theorem decides_document (doc : Tree) :
    ∃ s : Parser, s.callbacks = documentCalls fromCharsDouble doc ∧ s.context = [.root] ∧
      Decides Raised (ValidDocument cfg fromCharsDouble doc)
        (onEvents cfg fromCharsDouble Parser.initial doc.events) s := by
  have actions := Decides.foldlM_states (f := fun s action =>
    onEvents cfg fromCharsDouble s action.events) (afterActions fromCharsDouble)
    (decides_action cfg fromCharsDouble) doc.children []
  rw [List.nil_append] at actions
  refine ⟨{ (afterActions fromCharsDouble doc.children).call .endDocument with
    context := [.root], operation := none }, rfl, rfl, ?_⟩
  have start : Decides Raised (doc.name = "osmChange")
      (onStartElement fromCharsDouble Parser.initial doc.name doc.attrs)
      (afterActions fromCharsDouble []) := by
    by_cases named : doc.name = "osmChange"
    · exact .of_ok (if_pos named) named
    · change Decides Raised _ (if doc.name = "osmChange" then _ else payload _) _
      rw [if_neg named]
      exact payload_raised named
  have whole := decides_element cfg fromCharsDouble doc start (fun _ => actions)
    (fun named _ => Decides.of_ok (if_pos named) trivial)
  refine whole.congr ?_
  exact ⟨fun ⟨named, valid, _⟩ => ⟨named, valid⟩,
    fun valid => ⟨valid.name, valid.actions, trivial⟩⟩

/-- On the events of every document the parser keeps to its assertions and never runs out
of contexts. It raises an exception exactly if the document is not valid, and otherwise has
called the callback as the document says. -/
theorem onEvents_document (doc : Tree) :
    (∀ read rest, doc.events = read ++ rest →
      (∃ s, onEvents cfg fromCharsDouble Parser.initial read = .ok s ∧ s.context ≠ []) ∨
        ∃ e, Raised e ∧ onEvents cfg fromCharsDouble Parser.initial read = .error e) ∧
    (∀ s, onEvents cfg fromCharsDouble Parser.initial doc.events = .ok s →
      s.callbacks = documentCalls fromCharsDouble doc) ∧
    ((∃ e, onEvents cfg fromCharsDouble Parser.initial doc.events = .error e) ↔
      ¬ValidDocument cfg fromCharsDouble doc) := by
  obtain ⟨final, calls, context, decided⟩ := decides_document cfg fromCharsDouble doc
  refine ⟨?_, ?_, ?_, ?_⟩
  · intro read rest split
    -- What goes wrong in a prefix goes wrong in the whole run.
    have whole : onEvents cfg fromCharsDouble Parser.initial doc.events =
        onEvents cfg fromCharsDouble Parser.initial read >>= fun s =>
          onEvents cfg fromCharsDouble s rest := by
      rw [split, onEvents, List.foldlM_append]
      rfl
    cases outcome : onEvents cfg fromCharsDouble Parser.initial read with
    | error e =>
        rw [outcome] at whole
        exact .inr ⟨e, decided.kind_of_error whole, rfl⟩
    | ok s =>
        left
        refine ⟨s, rfl, ?_⟩
        intro empty
        rw [outcome] at whole
        cases rest with
        | nil =>
            have same := decided.eq_of_ok whole
            rw [same, context] at empty
            cases empty
        | cons event rest =>
            have stuck : onEvent cfg fromCharsDouble s event = .error .assertion := by
              cases event <;> simp [onEvent, onStartElement, onEndElement, empty,
                onEnhanceException, Except.mapError]
            have failed : onEvents cfg fromCharsDouble s (event :: rest) = .error .assertion := by
              rw [onEvents, List.foldlM_cons, stuck]
              rfl
            exact decided.kind_of_error (whole.trans failed)
  · intro s done
    rw [decided.eq_of_ok done, calls]
  · rintro ⟨e, failed⟩ valid
    rw [decided.ok valid] at failed
    cases failed
  · intro invalid
    obtain ⟨e, -, failed⟩ := decided.error invalid
    exact ⟨e, failed⟩

end Runs

end Cgimap.Osmchange.XmlDocuments
