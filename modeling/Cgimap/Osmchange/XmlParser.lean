/- path: Cgimap/Osmchange/XmlParser
   generality: I
   source: include/cgimap/api06/changeset_upload/osmchange_xml_input_format.hpp,
     include/cgimap/api06/changeset_upload/{osmobject,node,way,relation}.hpp,
     contrib/libxml++/parsers/saxparser.cpp
   digest: The SAX parser of osmChange documents, one step for each event. -/

import Cgimap.Http.Requests
import Cgimap.Osmchange.Attributes

/-!
The parser hands what it reads to a `Parser_Callback`. The calls are recorded here; none
of them throws. Reading a floating point number is left open: the conversion is a parameter.
-/

set_option autoImplicit false
set_option relaxedAutoImplicit false

namespace Cgimap.Osmchange.XmlParser

open Cgimap.Http.Requests (iequals)
open Cgimap.Model.Types
open Cgimap.Osmchange.Attributes
open Cgimap.Osmchange.UploadRecords

abbrev Attrs := List (String × String)

/-- Line and column, unless `location` is a null pointer. -/
abbrev Location := Option (Nat × Nat)

inductive Event where
  | startElement (name : String) (attrs : Attrs) (location : Location)
  | endElement (name : String) (location : Location)

/-- What ends a run: an exception, which may be a `payload_error`, an `assert` that does
not hold, or the use of an object that is not there. -/
inductive Failure where
  | payloadError (e : Exception)
  | exception (e : Exception)
  | assertion
  | nullPointer
  deriving DecidableEq

def payload {α : Type} (message : String) : Except Failure α :=
  .error (.payloadError (.badRequest message))

/-- Every exception of the setters is a `payload_error`. -/
def liftPayload {α : Type} : Except Exception α → Except Failure α :=
  Except.mapError .payloadError

/-- `on_enhance_exception`: only a `payload_error` gets its place in the document. -/
def onEnhanceException (location : Location) : Failure → Failure
  | .payloadError (.http code message) =>
      match location with
      | none => .payloadError (.http code message)
      | some (line, col) =>
          .payloadError (.http code s!"{message} at line {line}, column {col}")
  | failure => failure

inductive FromCharsDouble where
  | finite (v : ℚ)
  | infinite
  | nan
  | invalidArgument
  | resultOutOfRange
  deriving DecidableEq

section Objects

structure Coordinates where
  lat : Option ℚ
  lon : Option ℚ
  deriving DecidableEq

/-- What `Node`, `Way` and `Relation` add to an `OSMObject`, while it is being read. -/
def PartialBody : ObjectType → Type
  | .node => Coordinates
  | .way => List Int
  | .relation => List RelationMember

/-- An `OSMObject` while it is being read. The entries of the `std::map` of tags stand in
the order in which they were inserted. -/
structure PartialObject (t : ObjectType) where
  header : Header
  tags : List (String × String)
  body : PartialBody t

def emptyBody : (t : ObjectType) → PartialBody t
  | .node => (⟨none, none⟩ : Coordinates)
  | .way => ([] : List Int)
  | .relation => ([] : List RelationMember)

def PartialObject.empty (t : ObjectType) : PartialObject t := ⟨⟨none, none, none⟩, [], emptyBody t⟩

def PartialObject.toString {t : ObjectType} (o : PartialObject t) : String :=
  s!"{t.name} {o.header.id.getD 0}"

def PartialObject.addTag {t : ObjectType} (o : PartialObject t) (key value : String) :
    Except Failure (PartialObject t) :=
  if key = "" then payload s!"Key may not be empty in {o.toString}"
  else if 255 < key.length then
    payload s!"Key has more than 255 unicode characters in {o.toString}"
  else if 255 < value.length then
    payload s!"Value has more than 255 unicode characters in {o.toString}"
  else if key ∈ o.tags.map Prod.fst then
    payload s!"{o.toString} has duplicate tags with key {key}"
  else .ok { o with tags := o.tags ++ [(key, value)] }

def wayNode : String → Except Exception Int :=
  setNumber "Way node is not numeric" "Way node value is too large" (fun waynode =>
    if waynode = 0 then .error (.badRequest "Way node value may not be 0") else .ok waynode)

def memberRef : String → Except Exception Int :=
  setNumber "Relation member 'ref' attribute is not numeric"
    "Relation member 'ref' attribute value is too large" (fun ref =>
      if ref = 0 then .error (.badRequest "Relation member 'ref' attribute may not be 0")
      else .ok ref)

def memberType (type : String) : Except Exception ObjectType :=
  if iequals type.toList "Node".toList then .ok .node
  else if iequals type.toList "Way".toList then .ok .way
  else if iequals type.toList "Relation".toList then .ok .relation
  else .error (.badRequest s!"Invalid type {type} in member relation")

def memberRole (role : String) : Except Exception String :=
  if 255 < role.length then
    .error (.badRequest "Relation Role has more than 255 unicode characters")
  else .ok role

structure PartialMember where
  memberType : Option ObjectType
  ref : Option Int
  role : String

def PartialMember.empty : PartialMember := ⟨none, none, ""⟩

/-- `set_lat` and `set_lon`, with the name and the bound of each. -/
def setCoordinate (what : String) (bound : ℚ) : FromCharsDouble → Except Exception ℚ
  | .finite v =>
      if v < -bound ∨ bound < v then .error (.badRequest s!"{what} outside of valid range")
      else .ok v
  | .infinite => .error (.badRequest s!"{what} outside of valid range")
  | .nan => .error (.badRequest s!"{what} not a valid finite number")
  | .invalidArgument => .error (.badRequest s!"{what} is not numeric")
  | .resultOutOfRange => .error (.badRequest s!"{what} value is too large")

def setLat : FromCharsDouble → Except Exception ℚ := setCoordinate "Latitude" 90

def setLon : FromCharsDouble → Except Exception ℚ := setCoordinate "Longitude" 180

variable (cfg : Settings)

def PartialObject.isValidObject {t : ObjectType} (o : PartialObject t) (op : Option Operation) :
    Except Failure Bool :=
  if o.header.changeset.isNone then
    payload "You need to supply a changeset to be able to make a change"
  else if cfg.elementMaxTags.any (fun max => decide (max < o.tags.length)) then
    payload s!"OSM element exceeds limit of {cfg.elementMaxTags.getD 0} tags"
  else
    let valid := o.header.changeset.isSome && o.header.id.isSome && o.header.version.isSome
    if valid ∧ op = some .create ∧ 0 ≤ o.header.id.getD 0 then
      payload "Placeholder IDs must be negative for created elements."
    else .ok valid

def isValidNode (o : PartialObject .node) (coordinates : Coordinates) (op : Option Operation) :
    Except Failure Bool :=
  if op = some .delete then o.isValidObject cfg op
  else do
    let valid ← o.isValidObject cfg op
    .ok (valid && coordinates.lat.isSome && coordinates.lon.isSome)

def isValidWay (o : PartialObject .way) (nodes : List Int) (op : Option Operation) :
    Except Failure Bool :=
  if op = some .delete then o.isValidObject cfg op
  else if nodes = [] then
    .error (.exception (.preconditionFailed
      s!"Way {o.header.id.getD 0} must have at least one node"))
  else if cfg.wayMaxNodes < nodes.length then
    .error (.exception (.badRequest
      s!"You tried to add {nodes.length} nodes to way {o.header.id.getD 0}, however only {cfg.wayMaxNodes} are allowed"))
  else o.isValidObject cfg op

def isValidRelation (o : PartialObject .relation) (members : List RelationMember)
    (op : Option Operation) : Except Failure Bool :=
  if op = some .delete then o.isValidObject cfg op
  else if cfg.relationMaxMembers.any (fun max => decide (max < members.length)) then
    .error (.exception (.badRequest
      s!"You tried to add {members.length} members to relation {o.header.id.getD 0}, however only {cfg.relationMaxMembers.getD 0} are allowed"))
  else o.isValidObject cfg op

def PartialObject.isValid : {t : ObjectType} → PartialObject t → Option Operation →
    Except Failure Bool
  | .node, o, op => isValidNode cfg o o.body op
  | .way, o, op => isValidWay cfg o o.body op
  | .relation, o, op => isValidRelation cfg o o.body op

end Objects

/-- `context`, with one constructor for the three actions and one for the three objects. -/
inductive Context where
  | root
  | top
  | action (op : Operation)
  | object (t : ObjectType)
  | inObject
  deriving DecidableEq

/-- A call of the `Parser_Callback`. No operation is `op_undefined`. -/
inductive Callback where
  | startDocument
  | process (t : ObjectType) (o : PartialObject t) (op : Option Operation) (ifUnused : Bool)
  | endDocument

/-- `OSMChangeXMLParser`. The head of `context` is the back of `m_context`; `object` holds
`m_node`, `m_way` and `m_relation`. -/
structure Parser where
  operation : Option Operation
  context : List Context
  object : (t : ObjectType) → Option (PartialObject t)
  ifUnused : Bool
  callbacks : List Callback

def Parser.initial : Parser where
  operation := none
  context := [.root]
  object := fun _ => none
  ifUnused := false
  callbacks := []

section Elements

/-- `init_object`. Between two actions the version would not be looked at. -/
def initHeader (t : ObjectType) (op : Option Operation) (attrs : Attrs) :
    Except Exception Header :=
  match op with
  | some op => do
      let (id, changeset, version) ← initObject t op attrs
      .ok ⟨some id, some changeset, some version⟩
  | none => do
      let h ← attrs.foldlM readAttribute ⟨none, none, none⟩
      match h.id with
      | none => .error (.badRequest "Mandatory field id missing in object")
      | some id =>
          match h.changeset with
          | none => .error (.badRequest s!"Changeset id is missing for {t.name} {id}")
          | some _ => .ok h

variable (fromCharsDouble : String → FromCharsDouble)

def readCoordinate (c : Coordinates) (attr : String × String) : Except Exception Coordinates :=
  if attr.1 = "lon" then do
    let lon ← setLon (fromCharsDouble attr.2)
    .ok { c with lon := some lon }
  else if attr.1 = "lat" then do
    let lat ← setLat (fromCharsDouble attr.2)
    .ok { c with lat := some lat }
  else .ok c

/-- `init_node`; ways and relations take nothing else from their attributes. -/
def initBody : (t : ObjectType) → Attrs → Except Exception (PartialBody t)
  | .node, attrs => attrs.foldlM (readCoordinate fromCharsDouble) (⟨none, none⟩ : Coordinates)
  | .way, _ => .ok ([] : List Int)
  | .relation, _ => .ok ([] : List RelationMember)

def lastAttr (name : String) (attrs : Attrs) : Option String :=
  attrs.foldl (fun found attr => if attr.1 = name then some attr.2 else found) none

def addTag {t : ObjectType} (o : PartialObject t) (attrs : Attrs) :
    Except Failure (PartialObject t) :=
  match lastAttr "k" attrs with
  | none => payload s!"Mandatory field k missing in tag element for {o.toString}"
  | some k =>
      match lastAttr "v" attrs with
      | none => payload s!"Mandatory field v missing in tag element for {o.toString}"
      | some v => o.addTag k v

def readWayNode (nodes : List Int) (attr : String × String) : Except Exception (List Int) :=
  if attr.1 = "ref" then do
    let waynode ← wayNode attr.2
    .ok (nodes ++ [waynode])
  else .ok nodes

def addWayNode (o : PartialObject .way) (attrs : Attrs) : Except Failure (PartialObject .way) := do
  let nodes ← liftPayload (attrs.foldlM readWayNode (show List Int from o.body))
  if attrs.any (fun attr => attr.1 = "ref") then .ok { o with body := nodes }
  else payload s!"Missing mandatory ref field on way node {o.toString}"

def readMember (m : PartialMember) (attr : String × String) : Except Exception PartialMember :=
  if attr.1 = "type" then do
    let type ← memberType attr.2
    .ok { m with memberType := some type }
  else if attr.1 = "ref" then do
    let ref ← memberRef attr.2
    .ok { m with ref := some ref }
  else if attr.1 = "role" then do
    let role ← memberRole attr.2
    .ok { m with role := role }
  else .ok m

/-- The mandatory fields of a member, checked by `RelationMember::is_valid`. -/
def addMember (o : PartialObject .relation) (attrs : Attrs) :
    Except Failure (PartialObject .relation) := do
  let m ← liftPayload (attrs.foldlM readMember PartialMember.empty)
  match m.memberType with
  | none => payload "Missing 'type' attribute in Relation member"
  | some type =>
      match m.ref with
      | none => payload "Missing 'ref' attribute in Relation member"
      | some ref =>
          let members : List RelationMember := o.body
          .ok { o with body := members ++ [⟨type, ref, m.role⟩] }

def childReader : (t : ObjectType) → String →
    Option (PartialObject t → Attrs → Except Failure (PartialObject t))
  | .node, element => if element = "tag" then some addTag else none
  | .way, element =>
      if element = "nd" then some addWayNode
      else if element = "tag" then some addTag
      else none
  | .relation, element =>
      if element = "member" then some addMember
      else if element = "tag" then some addTag
      else none

end Elements

section Steps

variable (cfg : Settings) (fromCharsDouble : String → FromCharsDouble) (s : Parser)

def Parser.setObject {t : ObjectType} (o : PartialObject t) : Parser :=
  { s with object := Function.update s.object t (some o) }

def Parser.push (c : Context) : Parser := { s with context := c :: s.context }

def Parser.call (c : Callback) : Parser := { s with callbacks := s.callbacks ++ [c] }

def startObject (t : ObjectType) (attrs : Attrs) : Except Failure Parser := do
  let header ← liftPayload (initHeader t s.operation attrs)
  let body ← liftPayload (initBody fromCharsDouble t attrs)
  .ok ((s.setObject (⟨header, [], body⟩ : PartialObject t)).push (.object t))

def startChild (t : ObjectType) (element : String) (attrs : Attrs) : Except Failure Parser :=
  match childReader t element with
  | none => .ok (s.push .inObject)
  | some read =>
      match s.object t with
      | none => .error .nullPointer
      | some o => do
          let o ← read o attrs
          .ok ((s.setObject o).push .inObject)

def onStartElement (element : String) (attrs : Attrs) : Except Failure Parser :=
  match s.context with
  | [] => .error .assertion
  | .root :: _ =>
      if element = "osmChange" then
        .ok ((s.call .startDocument).push .top)
      else payload s!"Unknown top-level element {element}, expecting osmChange"
  | .top :: _ =>
      if element = "create" then
        .ok { s with operation := some .create, context := .action .create :: s.context }
      else if element = "modify" then
        .ok { s with operation := some .modify, context := .action .modify :: s.context }
      else if element = "delete" then
        .ok { s with operation := some .delete, context := .action .delete :: s.context
                     ifUnused := attrs.any (fun attr => attr.1 = "if-unused") }
      else payload s!"Unknown action {element}, choices are create, modify, delete"
  | .action _ :: _ =>
      if element = "node" then startObject fromCharsDouble s .node attrs
      else if element = "way" then startObject fromCharsDouble s .way attrs
      else if element = "relation" then startObject fromCharsDouble s .relation attrs
      else payload s!"Unknown element {element}, expecting node, way or relation"
  | .object t :: _ => startChild s t element attrs
  | .inObject :: _ => payload "xml file nested too deep"

def actionName : Operation → String
  | .create => "create"
  | .modify => "modify"
  | .delete => "delete"

def endObject (t : ObjectType) (rest : List Context) : Except Failure Parser :=
  match s.object t with
  | none => .error .nullPointer
  | some o => do
      let valid ← o.isValid cfg s.operation
      if valid then
        .ok { (s.call (.process t o s.operation s.ifUnused)).setObject (PartialObject.empty t) with
              context := rest }
      else payload s!"{o.toString} does not include all mandatory fields"

def onEndElement (element : String) : Except Failure Parser :=
  match s.context with
  | [] => .error .assertion
  | .root :: _ => .error .assertion
  | .top :: rest =>
      if element = "osmChange" then
        .ok { s.call .endDocument with context := rest, operation := none }
      else .error .assertion
  | .action op :: rest =>
      if element = actionName op then
        .ok { s with context := rest, operation := none
                     ifUnused := if op = .delete then false else s.ifUnused }
      else .error .assertion
  | .object t :: rest =>
      if element = t.lowerName then endObject cfg s t rest else .error .assertion
  | .inObject :: rest => .ok { s with context := rest }

def onEvent : Event → Except Failure Parser
  | .startElement name attrs location =>
      (onStartElement fromCharsDouble s name attrs).mapError (onEnhanceException location)
  | .endElement name location =>
      (onEndElement cfg s name).mapError (onEnhanceException location)

def onEvents (events : List Event) : Except Failure Parser :=
  events.foldlM (onEvent cfg fromCharsDouble) s

end Steps

end Cgimap.Osmchange.XmlParser
