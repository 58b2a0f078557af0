/- path: Cgimap/Output/JsonFormatter
   generality: I
   source: src/json_formatter.cpp, src/json_writer.cpp
   digest: The JSON documents of the responders are one value each, which reads back. -/

import Cgimap.Library.JsonTree
import Cgimap.Output.Documents

/-!
The writer does not ask the generator whether it has taken a call. The end of the elements
closes the whole document, so that its end is refused; an error inside of a changeset is
refused as an object and becomes an entry of the changeset.
-/

set_option autoImplicit false
set_option relaxedAutoImplicit false

namespace Cgimap.Output.JsonFormatter

open Cgimap.Library.JsonTree
open Cgimap.Model.Types
open Cgimap.Model.Database
open Cgimap.Osmchange.DiffTracking
open Cgimap.Read.DataSelection
open Cgimap.Changeset.Updater (padded)
open Cgimap.Read.ArrayText (isDigit_of_mem)
open Cgimap.Read.Endpoints
open Cgimap.Read.OpenStatus
open Cgimap.Output.Documents

section Formatter

variable (cfg : Settings) (header : Header)

def property (key : String) (value : GenCall) : List GenCall := [.string key, value]

def natNumber (n : Nat) : GenCall := .number (toString n)

def intNumber (n : Int) : GenCall := .number (toString n)

def writeTags (tags : List (String × String)) : List GenCall :=
  if tags = [] then []
  else .string "tags" :: objectCalls (tags.flatMap (fun tag => property tag.1 (.string tag.2)))

def writeCommon (elem : ElementInfo) : List GenCall :=
  property "timestamp" (.string elem.timestamp) ++ property "version" (natNumber elem.version) ++
    property "changeset" (intNumber elem.changeset) ++
    (match elem.displayName, elem.uid with
      | some name, some uid => property "user" (.string name) ++ property "uid" (natNumber uid)
      | _, _ => []) ++
    (if elem.visible then [] else property "visible" (.bool elem.visible))

def writeNode (elem : ElementInfo) (lon lat : ℚ) (tags : List (String × String)) : List GenCall :=
  objectCalls (property "type" (.string "node") ++ property "id" (natNumber elem.id) ++
    (if elem.visible then
      property "lat" (.number (fixed7 lat)) ++ property "lon" (.number (fixed7 lon)) else []) ++
    writeCommon elem ++ writeTags tags)

def writeWay (elem : ElementInfo) (nodes : List Nat) (tags : List (String × String)) : List GenCall :=
  objectCalls (property "type" (.string "way") ++ property "id" (natNumber elem.id) ++
    writeCommon elem ++
    (if nodes = [] then []
      else .string "nodes" :: arrayCalls (nodes.flatMap (fun node => [natNumber node]))) ++
    writeTags tags)

def writeMember (member : Member) : List GenCall :=
  objectCalls (property "type" (.string (elementTypeName member.memberType)) ++
    property "ref" (natNumber member.memberId) ++ property "role" (.string member.memberRole))

def writeRelation (elem : ElementInfo) (members : List Member) (tags : List (String × String)) :
    List GenCall :=
  objectCalls (property "type" (.string "relation") ++ property "id" (natNumber elem.id) ++
    writeCommon elem ++
    (if members = [] then []
      else .string "members" :: arrayCalls (members.flatMap writeMember)) ++
    writeTags tags)

def writeObject : (t : ObjectType) → Written t → List GenCall
  | .node, ⟨elem, (c : Int × Int), tags⟩ => writeNode elem (degrees cfg c.1) (degrees cfg c.2) tags
  | .way, ⟨elem, (nodes : List Nat), tags⟩ => writeWay elem nodes tags
  | .relation, ⟨elem, (members : List Member), tags⟩ => writeRelation elem members tags

def writeComment (comment : CommentInfo) : List GenCall :=
  objectCalls (property "id" (natNumber comment.id) ++ property "visible" (.bool true) ++
    property "date" (.string comment.createdAt) ++ property "uid" (natNumber comment.authorId) ++
    property "user" (.string comment.authorDisplayName) ++ property "text" (.string comment.body))

def writeBox (b : Bbox) : List GenCall :=
  property "min_lat" (.number (fixed7 (degrees cfg b.minlat))) ++
    property "min_lon" (.number (fixed7 (degrees cfg b.minlon))) ++
    property "max_lat" (.number (fixed7 (degrees cfg b.maxlat))) ++
    property "max_lon" (.number (fixed7 (degrees cfg b.maxlon)))

def changesetHead (info : ChangesetInfo) : List GenCall :=
  property "id" (intNumber info.id) ++ property "created_at" (.string info.createdAt)

/-- `write_changeset`. Whether it is open is asked for behind the first properties, and that
may fail. -/
def writeChangeset (info : ChangesetInfo) (tags : List (String × String)) (includeComments : Bool)
    (comments : List CommentInfo) (now : Int) : List GenCall × Option Exception :=
  match isOpenAt cfg info now with
  | .error e => (.mapOpen :: changesetHead info, some e)
  | .ok isOpen =>
      (objectCalls (changesetHead info ++ property "open" (.bool isOpen) ++
        property "comments_count" (natNumber info.commentsCount) ++
        property "changes_count" (natNumber info.numChanges) ++
        (if isOpen then [] else property "closed_at" (.string info.closedAt)) ++
        (info.boundingBox.map (writeBox cfg)).getD [] ++
        (match info.displayName, info.uid with
          | some name, some uid => property "uid" (natNumber uid) ++ property "user" (.string name)
          | _, _ => []) ++
        writeTags tags ++
        (if includeComments = true ∧ comments ≠ [] then
          .string "comments" :: arrayCalls (comments.flatMap writeComment) else [])), none)

/-- The properties of `start_document`. -/
def headerCalls : List GenCall :=
  property "version" (.string apiVersion) ++ property "generator" (.string header.generator) ++
    property "copyright" (.string header.copyright) ++
    property "attribution" (.string header.attribution) ++ property "license" (.string header.license)

def writeError (message : String) : List GenCall := objectCalls (property "error" (.string message))

def json : Formatter GenCall
  | .startDocument _ => (.mapOpen :: headerCalls header, none)
  | .endDocument => ([.mapClose], none)
  | .writeBounds b => (.string "bounds" :: objectCalls (property "minlat" (.number (fixed7 b.minlat)) ++
      property "minlon" (.number (fixed7 b.minlon)) ++ property "maxlat" (.number (fixed7 b.maxlat)) ++
      property "maxlon" (.number (fixed7 b.maxlon))), none)
  | .startElement => ([.string "elements", .arrayOpen], none)
  | .endElement => ([.arrayClose, .mapClose], none)
  | .startChangeset multiSelection =>
      (if multiSelection then [.string "changesets", .arrayOpen] else [.string "changeset"], none)
  | .endChangeset multiSelection => (if multiSelection then [.arrayClose] else [], none)
  | .startAction _ | .endAction _ => ([], none)
  | .writeObject t w => (writeObject cfg t w, none)
  | .writeChangeset info tags includeComments comments now =>
      writeChangeset cfg info tags includeComments comments now
  | .writeDiffResult _ => ([], none)
  | .error e => (writeError (what e), none)
  | .errorText text => (writeError text, none)

end Formatter

section Values

variable (cfg : Settings) (header : Header)

def natValue (n : Nat) : Json := .number (toString n)

def intValue (n : Int) : Json := .number (toString n)

def tagEntries (tags : List (String × String)) : List (String × Json) :=
  if tags = [] then [] else [("tags", .object (tags.map (fun tag => (tag.1, .string tag.2))))]

def userEntries (displayName : Option String) (uid : Option Nat) : List (String × Json) :=
  match displayName, uid with
  | some name, some uid => [("user", .string name), ("uid", natValue uid)]
  | _, _ => []

def commonEntries (elem : ElementInfo) : List (String × Json) :=
  [("timestamp", .string elem.timestamp), ("version", natValue elem.version),
    ("changeset", intValue elem.changeset)] ++ userEntries elem.displayName elem.uid ++
    (if elem.visible then [] else [("visible", .bool elem.visible)])

def memberValue (member : Member) : Json :=
  .object [("type", .string (elementTypeName member.memberType)), ("ref", natValue member.memberId),
    ("role", .string member.memberRole)]

/-- The coordinates of a visible node stand before what all objects have. -/
def coordinateEntries (visible : Bool) : (t : ObjectType) → Extra t → List (String × Json)
  | .node, (c : Int × Int) =>
      if visible then [("lat", .number (fixed7 (degrees cfg c.2))),
        ("lon", .number (fixed7 (degrees cfg c.1)))] else []
  | .way, _ => []
  | .relation, _ => []

def nodesEntries (nodes : List Nat) : List (String × Json) :=
  if nodes = [] then [] else [("nodes", .array (nodes.map natValue))]

def membersEntries (members : List Member) : List (String × Json) :=
  if members = [] then [] else [("members", .array (members.map memberValue))]

/-- Nodes and members stand behind it, unless there are none. -/
def refEntries : (t : ObjectType) → Extra t → List (String × Json)
  | .node, _ => []
  | .way, nodes => nodesEntries nodes
  | .relation, members => membersEntries members

def objectEntries (t : ObjectType) (w : Written t) : List (String × Json) :=
  [("type", .string (elementTypeName t)), ("id", natValue w.elem.id)] ++
    coordinateEntries cfg w.elem.visible t w.extra ++ commonEntries w.elem ++
    refEntries t w.extra ++ tagEntries w.tags

def objectValue (t : ObjectType) (w : Written t) : Json := .object (objectEntries cfg t w)

def errorValue (message : String) : Json := .object [("error", .string message)]

def commentValue (comment : CommentInfo) : Json :=
  .object [("id", natValue comment.id), ("visible", .bool true), ("date", .string comment.createdAt),
    ("uid", natValue comment.authorId), ("user", .string comment.authorDisplayName),
    ("text", .string comment.body)]

def boxEntries (b : Bbox) : List (String × Json) :=
  [("min_lat", .number (fixed7 (degrees cfg b.minlat))),
    ("min_lon", .number (fixed7 (degrees cfg b.minlon))),
    ("max_lat", .number (fixed7 (degrees cfg b.maxlat))),
    ("max_lon", .number (fixed7 (degrees cfg b.maxlon)))]

def headEntries (info : ChangesetInfo) : List (String × Json) :=
  [("id", intValue info.id), ("created_at", .string info.createdAt)]

/-- Here the id stands before the name. -/
def authorEntries (displayName : Option String) (uid : Option Nat) : List (String × Json) :=
  match displayName, uid with
  | some name, some uid => [("uid", natValue uid), ("user", .string name)]
  | _, _ => []

def closedEntries (info : ChangesetInfo) (isOpen : Bool) : List (String × Json) :=
  if isOpen then [] else [("closed_at", .string info.closedAt)]

def commentsEntries (c : ChangesetCall) : List (String × Json) :=
  if c.includeComments = true ∧ c.comments ≠ [] then
    [("comments", .array (c.comments.map commentValue))] else []

def changesetEntries (c : ChangesetCall) (isOpen : Bool) : List (String × Json) :=
  headEntries c.info ++ [("open", .bool isOpen), ("comments_count", natValue c.info.commentsCount),
    ("changes_count", natValue c.info.numChanges)] ++ closedEntries c.info isOpen ++
    (c.info.boundingBox.map (boxEntries cfg)).getD [] ++
    authorEntries c.info.displayName c.info.uid ++ tagEntries c.tags ++ commentsEntries c

/-- A changeset; one that could not be finished ends with the error. -/
def changesetValue (c : ChangesetCall) : Json :=
  match isOpenAt cfg c.info c.now with
  | .error e => .object (headEntries c.info ++ [("error", .string (what e))])
  | .ok isOpen => .object (changesetEntries cfg c isOpen)

def headerEntries : List (String × Json) :=
  [("version", .string apiVersion), ("generator", .string header.generator),
    ("copyright", .string header.copyright), ("attribution", .string header.attribution),
    ("license", .string header.license)]

def boundsEntry (b : GeoBox) : String × Json :=
  ("bounds", .object [("minlat", .number (fixed7 b.minlat)), ("minlon", .number (fixed7 b.minlon)),
    ("maxlat", .number (fixed7 b.maxlat)), ("maxlon", .number (fixed7 b.maxlon))])

def contentEntries : DocumentBody → List (String × Json)
  | .current bounds elements failed =>
      (bounds.map boundsEntry).toList ++
        [("elements", .array (elements.map (fun w => objectValue cfg w.1 w.2) ++
          (failed.map (fun e => errorValue (what e))).toList))]
  | .changeset (.ok c) => [("changeset", changesetValue cfg c)]
  | .changeset (.error e) => [("changeset", errorValue (what e))]
  | .changes _ => []
  | .diffResult _ => []

def documentValue (body : DocumentBody) : Json := .object (headerEntries header ++ contentEntries cfg body)

end Values

section Writing

variable (cfg : Settings) (header : Header)

private theorem puts_property (key : String) {call : GenCall} {value : Json} (puts : Puts [call] value) :
    PutsEntries (property key call) [(key, value)] := .entry key puts

private theorem puts_text (key s : String) : PutsEntries (property key (.string s)) [(key, .string s)] :=
  puts_property key (.string s)

private theorem puts_nat (key : String) (n : Nat) :
    PutsEntries (property key (natNumber n)) [(key, natValue n)] := puts_property key (.number _)

private theorem puts_int (key : String) (n : Int) :
    PutsEntries (property key (intNumber n)) [(key, intValue n)] := puts_property key (.number _)

private theorem puts_number (key s : String) :
    PutsEntries (property key (.number s)) [(key, .number s)] := puts_property key (.number s)

private theorem puts_bool (key : String) (b : Bool) :
    PutsEntries (property key (.bool b)) [(key, .bool b)] := puts_property key (.bool b)

private theorem puts_tags (tags : List (String × String)) :
    PutsEntries (writeTags tags) (tagEntries tags) := by
  unfold writeTags tagEntries
  split
  · exact .nil
  · have each (tag : String × String) : PutsEntries (property tag.1 (.string tag.2))
        [(tag.1, .string tag.2)] := puts_text tag.1 tag.2
    have all := PutsEntries.flatMap each tags
    rw [← List.map_eq_flatMap] at all
    exact .entry "tags" (.object all)

private theorem puts_common (elem : ElementInfo) :
    PutsEntries (writeCommon elem) (commonEntries elem) := by
  have user : PutsEntries (match elem.displayName, elem.uid with
      | some name, some uid => property "user" (.string name) ++ property "uid" (natNumber uid)
      | _, _ => []) (userEntries elem.displayName elem.uid) := by
    unfold userEntries
    cases elem.displayName with
    | none => exact .nil
    | some name =>
        cases elem.uid with
        | none => exact .nil
        | some uid => exact (puts_text "user" name).append (puts_nat "uid" uid)
  have visible : PutsEntries (if elem.visible then [] else property "visible" (.bool elem.visible))
      (if elem.visible then [] else [("visible", .bool elem.visible)]) := by
    cases elem.visible with
    | true => exact .nil
    | false => exact puts_bool "visible" false
  exact ((((puts_text "timestamp" elem.timestamp).append (puts_nat "version" elem.version)).append
    (puts_int "changeset" elem.changeset)).append user).append visible

private theorem puts_member (member : Member) : Puts (writeMember member) (memberValue member) :=
  .object (((puts_text "type" _).append (puts_nat "ref" _)).append (puts_text "role" _))

private theorem puts_node (elem : ElementInfo) (c : Int × Int) (tags : List (String × String)) :
    Puts (writeNode elem (degrees cfg c.1) (degrees cfg c.2) tags)
      (objectValue cfg .node ⟨elem, c, tags⟩) := by
  have coordinates : PutsEntries (if elem.visible then
      property "lat" (.number (fixed7 (degrees cfg c.2))) ++
        property "lon" (.number (fixed7 (degrees cfg c.1))) else [])
      (coordinateEntries cfg elem.visible .node c) := by
    unfold coordinateEntries
    cases elem.visible with
    | true => exact (puts_number "lat" _).append (puts_number "lon" _)
    | false => exact .nil
  have all := ((((puts_text "type" "node").append (puts_nat "id" elem.id)).append coordinates).append
    (puts_common elem)).append (puts_tags tags)
  have same : objectValue cfg .node ⟨elem, c, tags⟩ = .object ([("type", .string "node")] ++
      [("id", natValue elem.id)] ++ coordinateEntries cfg elem.visible .node c ++
      commonEntries elem ++ tagEntries tags) := by
    simp [objectValue, objectEntries, refEntries, elementTypeName, ObjectType.lowerName]
  rw [same]
  exact .object all

private theorem puts_way (elem : ElementInfo) (nodes : List Nat) (tags : List (String × String)) :
    Puts (writeWay elem nodes tags) (objectValue cfg .way ⟨elem, nodes, tags⟩) := by
  have refs : PutsEntries (if nodes = [] then []
      else .string "nodes" :: arrayCalls (nodes.flatMap (fun node => [natNumber node])))
      (nodesEntries nodes) := by
    have each (node : Nat) : Puts [natNumber node] (natValue node) := .number _
    unfold nodesEntries
    split
    · exact .nil
    · exact .entry "nodes" (.array (.flatMap each nodes))
  have all := ((((puts_text "type" "way").append (puts_nat "id" elem.id)).append
    (puts_common elem)).append refs).append (puts_tags tags)
  have same : objectValue cfg .way ⟨elem, nodes, tags⟩ = .object ([("type", .string "way")] ++
      [("id", natValue elem.id)] ++ commonEntries elem ++ nodesEntries nodes ++
      tagEntries tags) := by
    simp [objectValue, objectEntries, refEntries, coordinateEntries, elementTypeName, ObjectType.lowerName]
  rw [same]
  exact .object all

private theorem puts_relation (elem : ElementInfo) (members : List Member)
    (tags : List (String × String)) :
    Puts (writeRelation elem members tags) (objectValue cfg .relation ⟨elem, members, tags⟩) := by
  have refs : PutsEntries (if members = [] then []
      else .string "members" :: arrayCalls (members.flatMap writeMember))
      (membersEntries members) := by
    unfold membersEntries
    split
    · exact .nil
    · exact .entry "members" (.array (.flatMap puts_member members))
  have all := ((((puts_text "type" "relation").append (puts_nat "id" elem.id)).append
    (puts_common elem)).append refs).append (puts_tags tags)
  have same : objectValue cfg .relation ⟨elem, members, tags⟩ = .object
      ([("type", .string "relation")] ++ [("id", natValue elem.id)] ++ commonEntries elem ++
      membersEntries members ++ tagEntries tags) := by
    simp [objectValue, objectEntries, refEntries, coordinateEntries, elementTypeName, ObjectType.lowerName]
  rw [same]
  exact .object all

private theorem puts_object (w : AnyWritten) :
    Puts (writeObject cfg w.1 w.2) (objectValue cfg w.1 w.2) := by
  obtain ⟨t, elem, extra, tags⟩ := w
  cases t with
  | node => exact puts_node cfg elem extra tags
  | way => exact puts_way cfg elem extra tags
  | relation => exact puts_relation cfg elem extra tags

private theorem puts_error (message : String) : Puts (writeError message) (errorValue message) :=
  .object (puts_text "error" message)

private theorem puts_comment (comment : CommentInfo) :
    Puts (writeComment comment) (commentValue comment) :=
  .object ((((((puts_nat "id" _).append (puts_bool "visible" true)).append
    (puts_text "date" _)).append (puts_nat "uid" _)).append (puts_text "user" _)).append
    (puts_text "text" _))

private theorem puts_box (b : Bbox) : PutsEntries (writeBox cfg b) (boxEntries cfg b) :=
  (((puts_number "min_lat" _).append (puts_number "min_lon" _)).append
    (puts_number "max_lat" _)).append (puts_number "max_lon" _)

private theorem puts_head (info : ChangesetInfo) :
    PutsEntries (changesetHead info) (headEntries info) :=
  (puts_int "id" info.id).append (puts_text "created_at" info.createdAt)

private theorem puts_changeset (c : ChangesetCall) {isOpen : Bool}
    (asked : isOpenAt cfg c.info c.now = .ok isOpen) :
    Puts (json cfg header c.call).1 (changesetValue cfg c) := by
  have closed : PutsEntries (if isOpen then [] else property "closed_at" (.string c.info.closedAt))
      (closedEntries c.info isOpen) := by
    cases isOpen with
    | true => exact .nil
    | false => exact puts_text "closed_at" _
  have box : PutsEntries ((c.info.boundingBox.map (writeBox cfg)).getD [])
      ((c.info.boundingBox.map (boxEntries cfg)).getD []) := by
    cases c.info.boundingBox with
    | none => exact .nil
    | some b => exact puts_box cfg b
  have author : PutsEntries (match c.info.displayName, c.info.uid with
      | some name, some uid => property "uid" (natNumber uid) ++ property "user" (.string name)
      | _, _ => []) (authorEntries c.info.displayName c.info.uid) := by
    unfold authorEntries
    cases c.info.displayName with
    | none => exact .nil
    | some name =>
        cases c.info.uid with
        | none => exact .nil
        | some uid => exact (puts_nat "uid" uid).append (puts_text "user" name)
  have comments : PutsEntries (if c.includeComments = true ∧ c.comments ≠ [] then
      .string "comments" :: arrayCalls (c.comments.flatMap writeComment) else [])
      (commentsEntries c) := by
    unfold commentsEntries
    split
    · exact .entry "comments" (.array (.flatMap puts_comment c.comments))
    · exact .nil
  have all := ((((((((puts_head c.info).append (puts_bool "open" isOpen)).append
    (puts_nat "comments_count" c.info.commentsCount)).append
    (puts_nat "changes_count" c.info.numChanges)).append closed).append box).append author).append
    (puts_tags c.tags)).append comments
  have calls : (json cfg header c.call).1 = (writeChangeset cfg c.info c.tags c.includeComments
      c.comments c.now).1 := rfl
  have value : changesetValue cfg c = .object (headEntries c.info ++ [("open", .bool isOpen)] ++
      [("comments_count", natValue c.info.commentsCount)] ++
      [("changes_count", natValue c.info.numChanges)] ++ closedEntries c.info isOpen ++
      (c.info.boundingBox.map (boxEntries cfg)).getD [] ++
      authorEntries c.info.displayName c.info.uid ++ tagEntries c.tags ++ commentsEntries c) := by
    simp [changesetValue, changesetEntries, asked]
  rw [calls, value, writeChangeset, asked]
  exact .object all

private theorem puts_header : PutsEntries (headerCalls header) (headerEntries header) :=
  ((((puts_text "version" _).append (puts_text "generator" _)).append
    (puts_text "copyright" _)).append (puts_text "attribution" _)).append (puts_text "license" _)

/-- The document around entries behind its header, whatever is called behind its end. -/
private theorem run_document {inner : List GenCall} {entries : List (String × Json)}
    (puts : PutsEntries inner entries) (more : List GenCall) :
    Gen.start.run (.mapOpen :: (headerCalls header ++ inner ++ [.mapClose]) ++ more) =
      .complete (.object (headerEntries header ++ entries)) :=
  run_value (.object ((puts_header header).append puts)) more

def emit (calls : List Call) : List GenCall := calls.flatMap (fun call => (json cfg header call).1)

private theorem quiet_current (bounds : Option GeoBox) (elements : List AnyWritten)
    (failed : Option Exception) :
    ∀ call ∈ (DocumentBody.current bounds elements failed).calls, (json cfg header call).2 = none := by
  intro call member
  simp only [DocumentBody.calls, List.mem_append, List.mem_map, List.mem_cons, Option.mem_toList,
    Option.map_eq_some_iff, List.not_mem_nil, or_false] at member
  rcases member with ((((rfl | ⟨b, -, rfl⟩) | rfl) | ⟨w, -, rfl⟩) | ⟨e, -, rfl⟩) | rfl | rfl
  all_goals rfl

private theorem quiet_rows (rows : List DiffResult) :
    ∀ call ∈ (DocumentBody.diffResult rows).calls, (json cfg header call).2 = none := by
  intro call member
  simp only [DocumentBody.calls, List.mem_append, List.mem_singleton, List.mem_map] at member
  rcases member with (rfl | ⟨row, -, rfl⟩) | rfl
  all_goals rfl

private theorem run_current (bounds : Option GeoBox) (elements : List AnyWritten)
    (failed : Option Exception) :
    Gen.start.run (render (json cfg header) false (DocumentBody.current bounds elements failed).calls) =
      .complete (documentValue cfg header (.current bounds elements failed)) := by
  have head : PutsEntries (emit cfg header (bounds.map Call.writeBounds).toList)
      (bounds.map boundsEntry).toList := by
    cases bounds with
    | none => exact .nil
    | some b =>
        have box := Puts.object ((((puts_number "minlat" (fixed7 b.minlat)).append
          (puts_number "minlon" (fixed7 b.minlon))).append (puts_number "maxlat" (fixed7 b.maxlat))).append
          (puts_number "maxlon" (fixed7 b.maxlon)))
        have written : emit cfg header [.writeBounds b] = (json cfg header (.writeBounds b)).1 :=
          List.append_nil _
        change PutsEntries (emit cfg header [.writeBounds b]) [boundsEntry b]
        rw [written]
        exact .entry "bounds" box
  have objects : PutsItems (elements.flatMap (fun w => writeObject cfg w.1 w.2))
      (elements.map (fun w => objectValue cfg w.1 w.2)) := .flatMap (puts_object cfg) elements
  have failure : PutsItems (emit cfg header (failed.map Call.error).toList)
      (failed.map (fun e => errorValue (what e))).toList := by
    cases failed with
    | none => exact .nil
    | some e =>
        have written : emit cfg header [.error e] = writeError (what e) := List.append_nil _
        change PutsItems (emit cfg header [.error e]) [errorValue (what e)]
        rw [written]
        exact .of_puts (puts_error (what e))
  have inner := head.append (.entry "elements" (.array (objects.append failure)))
  have same : emit cfg header (DocumentBody.current bounds elements failed).calls =
      .mapOpen :: (headerCalls header ++ (emit cfg header (bounds.map Call.writeBounds).toList ++
        .string "elements" :: arrayCalls (elements.flatMap (fun w => writeObject cfg w.1 w.2) ++
          emit cfg header (failed.map Call.error).toList)) ++ [.mapClose]) ++ [.mapClose] := by
    simp [emit, DocumentBody.calls, json, arrayCalls, List.flatMap_map]
  rw [render_quiet (quiet_current cfg header bounds elements failed)]
  change Gen.start.run (emit cfg header (DocumentBody.current bounds elements failed).calls) = _
  rw [same]
  exact run_document header inner [.mapClose]

private theorem run_changeset (c : Except Exception ChangesetCall) :
    Gen.start.run (render (json cfg header) false (DocumentBody.changeset c).calls) =
      .complete (documentValue cfg header (.changeset c)) := by
  cases c with
  | error e =>
      have inner := PutsEntries.entry "changeset" (puts_error (what e))
      have calls : render (json cfg header) false (DocumentBody.changeset (.error e)).calls =
          .mapOpen :: (headerCalls header ++ (.string "changeset" :: writeError (what e)) ++
            [.mapClose]) ++ [] := by
        simp [DocumentBody.calls, render, json]
      rw [calls]
      exact run_document header inner []
  | ok c =>
      cases asked : isOpenAt cfg c.info c.now with
      | error e =>
          have entries := (puts_head c.info).append
            (PutsEntries.refused.append (puts_text "error" (what e)))
          have inner := PutsEntries.entry "changeset" (.object entries)
          have value : documentValue cfg header (.changeset (.ok c)) = .object
              (headerEntries header ++ [("changeset", .object (headEntries c.info ++
                ([] ++ [("error", .string (what e))])))]) := by
            simp [documentValue, contentEntries, changesetValue, asked]
          have calls : render (json cfg header) false (DocumentBody.changeset (.ok c)).calls =
              .mapOpen :: (headerCalls header ++ (.string "changeset" :: objectCalls
                (changesetHead c.info ++ ([.mapOpen] ++ property "error" (.string (what e))))) ++
                [.mapClose]) ++ [] := by
            simp [DocumentBody.calls, render, json, ChangesetCall.call, writeChangeset, asked, isClosing,
              writeError, objectCalls]
          rw [calls, value]
          exact run_document header inner []
      | ok isOpen =>
          have inner := PutsEntries.entry "changeset" (puts_changeset cfg header c asked)
          have quiet : ∀ call ∈ (DocumentBody.changeset (.ok c)).calls,
              (json cfg header call).2 = none := by
            simp [DocumentBody.calls, json, ChangesetCall.call, writeChangeset, asked]
          have calls : (DocumentBody.changeset (.ok c)).calls.flatMap (fun call => (json cfg header call).1) =
              .mapOpen :: (headerCalls header ++ (.string "changeset" :: (json cfg header c.call).1) ++
                [.mapClose]) ++ [] := by
            simp only [DocumentBody.calls, List.flatMap_cons, List.flatMap_nil]
            generalize (json cfg header c.call).1 = written
            simp [json]
          rw [render_quiet quiet, calls]
          exact run_document header inner []

/-- A document that can be asked for in JSON is one value. -/
theorem run_body (body : DocumentBody) (available : ∀ c, body ≠ .changes c) :
    Gen.start.run (render (json cfg header) false body.calls) =
      .complete (documentValue cfg header body) := by
  cases body with
  | current bounds elements failed => exact run_current cfg header bounds elements failed
  | changeset c => exact run_changeset cfg header c
  | changes c => exact absurd rfl (available c)
  | diffResult rows =>
      have nothing : (rows.map Call.writeDiffResult).flatMap (fun call =>
          (json cfg header call).1) = [] := by
        rw [List.flatMap_map]
        exact List.flatMap_eq_nil_iff.mpr fun row _ => rfl
      have calls : (DocumentBody.diffResult rows).calls.flatMap (fun call => (json cfg header call).1) =
          .mapOpen :: (headerCalls header ++ [] ++ [.mapClose]) ++ [] := by
        simp only [DocumentBody.calls, List.flatMap_append, nothing]
        simp [json]
      rw [render_quiet (quiet_rows cfg header rows), calls]
      exact run_document header .nil []

end Writing

section Fitting

variable (cfg : Settings) (header : Header) {d : Nat}

private theorem toString_nonneg {n : Int} (nonneg : 0 ≤ n) : toString n = toString n.toNat := by
  obtain ⟨n, rfl⟩ := Int.eq_ofNat_of_zero_le nonneg
  rfl

private theorem digits_padded (width : Nat) {n : Int} (nonneg : 0 ≤ n) :
    ∃ digits, padded width n = String.ofList digits ∧ digits ≠ [] ∧
      ∀ c ∈ digits, c.isDigit = true := by
  refine ⟨List.replicate (width - (toString n).length) '0' ++ Nat.toDigits 10 n.toNat, ?_, ?_, ?_⟩
  · have digits : (toString n).toList = Nat.toDigits 10 n.toNat := by
      rw [toString_nonneg nonneg, Nat.toString_eq_ofList_toDigits, String.toList_ofList]
    refine String.toList_injective ?_
    simp only [padded, String.toList_append, String.toList_ofList, digits]
  · simp [Nat.toDigits_ne_nil]
  · intro c member
    rcases List.mem_append.mp member with zero | digit
    · rw [(List.mem_replicate.mp zero).2]
      rfl
    · exact isDigit_of_mem digit

@[simp] private theorem isNumber_fixed7 (v : ℚ) : IsNumber (fixed7 v) := by
  have scaled : 0 ≤ roundEven (|v| * 10000000) := roundEven_nonneg (by positivity)
  obtain ⟨digits, text, some, each⟩ := digits_padded 7
    (Int.emod_nonneg (roundEven (|v| * 10000000)) (by decide : (10000000 : Int) ≠ 0))
  refine ⟨if v < 0 then "-" else "", (roundEven (|v| * 10000000) / 10000000).toNat, digits, ?_, each, ?_⟩
  · split
    · exact .inr rfl
    · exact .inl rfl
  · rw [if_neg some, ← toString_nonneg (Int.ediv_nonneg scaled (by decide)), ← text, fixed7]
    simp only [String.append_assoc]

@[simp] private theorem fits_nat (n : Nat) : Fits d (natValue n) := (fits_number _).mpr (isNumber_nat n)

@[simp] private theorem fits_int (n : Int) : Fits d (intValue n) := (fits_number _).mpr (isNumber_int n)

private theorem allFit_tagEntries (tags : List (String × String)) : AllFit (d + 1) (tagEntries tags) := by
  unfold tagEntries
  split
  · exact allFit_nil
  · have texts : AllFit d (tags.map (fun tag => (tag.1, Json.string tag.2))) :=
      List.forall_mem_map.mpr fun tag _ => fits_string tag.2
    simp [texts]

private theorem allFit_userEntries (displayName : Option String) (uid : Option Nat) :
    AllFit d (userEntries displayName uid) := by
  unfold userEntries
  split <;> simp

private theorem allFit_authorEntries (displayName : Option String) (uid : Option Nat) :
    AllFit d (authorEntries displayName uid) := by
  unfold authorEntries
  split <;> simp

private theorem allFit_coordinateEntries (visible : Bool) (t : ObjectType) (extra : Extra t) :
    AllFit d (coordinateEntries cfg visible t extra) := by
  cases t with
  | node =>
      cases visible with
      | true => exact (allFit_cons _ _ _).mpr ⟨by simp, by simp⟩
      | false => exact allFit_nil
  | way => exact allFit_nil
  | relation => exact allFit_nil

private theorem fits_memberValue (member : Member) : Fits (d + 1) (memberValue member) := by
  simp [memberValue]

private theorem allFit_refEntries (t : ObjectType) (extra : Extra t) :
    AllFit (d + 2) (refEntries t extra) := by
  cases t with
  | node => exact allFit_nil
  | way =>
      change AllFit (d + 2) (nodesEntries _)
      unfold nodesEntries
      split
      · exact allFit_nil
      · exact (allFit_cons _ _ _).mpr ⟨fits_map fits_nat _, allFit_nil⟩
  | relation =>
      change AllFit (d + 2) (membersEntries _)
      unfold membersEntries
      split
      · exact allFit_nil
      · exact (allFit_cons _ _ _).mpr ⟨fits_map fits_memberValue _, allFit_nil⟩

private theorem fits_objectValue (t : ObjectType) (w : Written t) : Fits (d + 3) (objectValue cfg t w) := by
  have visible : AllFit (d + 2) (if w.elem.visible then [] else [("visible", .bool w.elem.visible)]) := by
    split <;> simp
  simp [objectValue, objectEntries, commonEntries, allFit_coordinateEntries, allFit_userEntries,
    allFit_refEntries, allFit_tagEntries, visible]

private theorem fits_errorValue (message : String) : Fits (d + 1) (errorValue message) := by
  simp [errorValue]

private theorem fits_commentValue (comment : CommentInfo) : Fits (d + 1) (commentValue comment) := by
  simp [commentValue]

private theorem fits_changesetValue (c : ChangesetCall) : Fits (d + 3) (changesetValue cfg c) := by
  unfold changesetValue
  split
  · simp [headEntries]
  · have comments : AllFit (d + 2) (commentsEntries c) := by
      unfold commentsEntries
      split
      · simp [fits_map fits_commentValue]
      · exact allFit_nil
    have box : AllFit (d + 2) ((c.info.boundingBox.map (boxEntries cfg)).getD []) := by
      cases c.info.boundingBox <;> simp [boxEntries]
    have closed (isOpen : Bool) : AllFit (d + 2) (closedEntries c.info isOpen) := by
      cases isOpen <;> simp [closedEntries]
    simp [changesetEntries, headEntries, allFit_authorEntries, allFit_tagEntries, comments, box,
      closed]

theorem fits_documentValue (body : DocumentBody) : Fits 5 (documentValue cfg header body) := by
  rw [documentValue, fits_object, allFit_append]
  refine ⟨by simp [headerEntries], ?_⟩
  cases body with
  | current bounds elements failed =>
      have head : AllFit 4 (bounds.map boundsEntry).toList := by
        cases bounds with
        | none => exact allFit_nil
        | some b => simp [boundsEntry]
      have errors : ∀ item ∈ (failed.map (fun e => errorValue (what e))).toList, Fits 3 item := by
        cases failed with
        | none => exact List.forall_mem_nil _
        | some e => simp [fits_errorValue]
      rw [contentEntries, allFit_append, allFit_cons, fits_array, List.forall_mem_append]
      exact ⟨head, ⟨fits_map (fun w : AnyWritten => fits_objectValue cfg w.1 w.2) elements, errors⟩,
        allFit_nil⟩
  | changeset c =>
      cases c with
      | error e => simp [contentEntries, fits_errorValue]
      | ok c => simp [contentEntries, fits_changesetValue]
  | changes c => exact allFit_nil
  | diffResult rows => exact allFit_nil

end Fitting

section Reading

def textOf (key : String) (entries : List (String × Json)) : String :=
  ((entries.lookup key).map Json.text).getD ""

/-- The elements of an array; an array that is not there has none. -/
def itemsOf (key : String) (entries : List (String × Json)) : List Json :=
  ((entries.lookup key).map Json.items).getD []

def readUser (entries : List (String × Json)) : Option (String × Nat) :=
  match entries.lookup "user", entries.lookup "uid" with
  | some name, some uid => some (name.text, readNat uid.text)
  | _, _ => none

def readTags (entries : List (String × Json)) : List (String × String) :=
  ((entries.lookup "tags").map (fun tags => tags.entries.map (fun e => (e.1, e.2.text)))).getD []

/-- An object is visible unless it says that it is not. -/
def readVisible (entries : List (String × Json)) : Bool :=
  match entries.lookup "visible" with
  | some (.bool b) => b
  | _ => true

def readExtra (entries : List (String × Json)) : (t : ObjectType) → ShownExtra t
  | .node =>
      match entries.lookup "lat", entries.lookup "lon" with
      | some lat, some lon => some (lat.text, lon.text)
      | _, _ => none
  | .way => (itemsOf "nodes" entries).map (fun node => readNat node.text)
  | .relation => (itemsOf "members" entries).map (fun member =>
      (⟨readType (textOf "type" member.entries), readNat (textOf "ref" member.entries),
        textOf "role" member.entries⟩ : Member))

def readObject (t : ObjectType) (entries : List (String × Json)) : Shown t where
  id := readNat (textOf "id" entries)
  visible := readVisible entries
  version := readNat (textOf "version" entries)
  changeset := readInt (textOf "changeset" entries)
  timestamp := textOf "timestamp" entries
  user := readUser entries
  extra := readExtra entries t
  tags := readTags entries

def readElement (value : Json) : Item :=
  match value.entries.lookup "error" with
  | some message => .error message.text
  | none => .object none (readType (textOf "type" value.entries))
      (readObject (readType (textOf "type" value.entries)) value.entries)

def readComment (entries : List (String × Json)) : CommentInfo where
  id := readNat (textOf "id" entries)
  authorId := readNat (textOf "uid" entries)
  body := textOf "text" entries
  createdAt := textOf "date" entries
  authorDisplayName := textOf "user" entries

def readBox (entries : List (String × Json)) : Option ShownBox :=
  (entries.lookup "min_lat").map (fun minlat =>
    ⟨minlat.text, textOf "min_lon" entries, textOf "max_lat" entries, textOf "max_lon" entries⟩)

def readChangeset (entries : List (String × Json)) : Item :=
  match entries.lookup "error", entries.lookup "id" with
  | some message, none => .error message.text
  | some message, some id =>
      .unfinished (readInt id.text) (textOf "created_at" entries) message.text
  | none, _ => .changeset {
      id := readInt (textOf "id" entries)
      createdAt := textOf "created_at" entries
      closedAt := (entries.lookup "closed_at").map Json.text
      user := readUser entries
      box := readBox entries
      commentsCount := readNat (textOf "comments_count" entries)
      changesCount := readNat (textOf "changes_count" entries)
      tags := readTags entries
      comments := (itemsOf "comments" entries).map (fun comment => readComment comment.entries) }

def readEntry (entry : String × Json) : List Item :=
  if entry.1 = "bounds" then
    [.bounds ⟨textOf "minlat" entry.2.entries, textOf "minlon" entry.2.entries,
      textOf "maxlat" entry.2.entries, textOf "maxlon" entry.2.entries⟩]
  else if entry.1 = "elements" then entry.2.items.map readElement
  else if entry.1 = "changeset" then [readChangeset entry.2.entries]
  else []

def readHeader (entries : List (String × Json)) : Header :=
  ⟨textOf "generator" entries, textOf "copyright" entries, textOf "attribution" entries,
    textOf "license" entries⟩

def readDocument : Json → Option (Header × List Item)
  | .object entries => some (readHeader entries, entries.flatMap readEntry)
  | _ => none

end Reading

section Readback

variable (cfg : Settings) (header : Header)

private theorem lookup_coordinates {key : String} (visible : Bool) (t : ObjectType) (extra : Extra t)
    (lat : (key == "lat") = false) (lon : (key == "lon") = false) :
    (coordinateEntries cfg visible t extra).lookup key = none := by
  cases t with
  | node =>
      cases visible with
      | false => rfl
      | true => simp [coordinateEntries, List.lookup_cons, lat, lon]
  | way => rfl
  | relation => rfl

private theorem lookup_user {key : String} (displayName : Option String) (uid : Option Nat)
    (name : (key == "user") = false) (id : (key == "uid") = false) :
    (userEntries displayName uid).lookup key = none ∧
      (authorEntries displayName uid).lookup key = none := by
  unfold userEntries authorEntries
  constructor
  · split
    · simp only [List.lookup_cons, name, id, List.lookup_nil]
    · rfl
  · split
    · simp only [List.lookup_cons, name, id, List.lookup_nil]
    · rfl

private theorem lookup_refs {key : String} (t : ObjectType) (extra : Extra t)
    (nodes : (key == "nodes") = false) (members : (key == "members") = false) :
    (refEntries t extra).lookup key = none := by
  cases t with
  | node => rfl
  | way =>
      change (nodesEntries extra).lookup key = none
      unfold nodesEntries
      split
      · rfl
      · simp only [List.lookup_cons, nodes, List.lookup_nil]
  | relation =>
      change (membersEntries extra).lookup key = none
      unfold membersEntries
      split
      · rfl
      · simp only [List.lookup_cons, members, List.lookup_nil]

private theorem lookup_tags {key : String} (tags : List (String × String))
    (other : (key == "tags") = false) : (tagEntries tags).lookup key = none := by
  unfold tagEntries
  split
  · rfl
  · simp only [List.lookup_cons, other, List.lookup_nil]

private theorem readTags_tagEntries (before after : List (String × Json))
    (tags : List (String × String)) (first : before.lookup "tags" = none)
    (last : after.lookup "tags" = none) : readTags (before ++ tagEntries tags ++ after) = tags := by
  unfold readTags tagEntries
  rw [List.lookup_append, List.lookup_append, first, last, Option.none_or, Option.or_none]
  split
  · rename_i none
    rw [none]
    rfl
  · simp [Json.entries, Json.text, Function.comp_def]

section Objects

variable {key : String} (t : ObjectType) (w : Written t)

private theorem lookup_common (type : (key == "type") = false) (id : (key == "id") = false)
    (lat : (key == "lat") = false) (lon : (key == "lon") = false) (nodes : (key == "nodes") = false)
    (members : (key == "members") = false) (tags : (key == "tags") = false) :
    (objectEntries cfg t w).lookup key = (commonEntries w.elem).lookup key := by
  have head : List.lookup key [("type", Json.string (elementTypeName t)), ("id", natValue w.elem.id)] =
      none := by
    simp only [List.lookup_cons, type, id, List.lookup_nil]
  rw [objectEntries, List.lookup_append, List.lookup_append, List.lookup_append, List.lookup_append,
    head, lookup_coordinates cfg _ _ _ lat lon, lookup_refs _ _ nodes members,
    lookup_tags _ tags, Option.none_or, Option.none_or, Option.or_none, Option.or_none]

private theorem readUser_object : readUser (objectEntries cfg t w) =
    shownUser w.elem.displayName w.elem.uid := by
  unfold readUser
  rw [lookup_common cfg t w rfl rfl rfl rfl rfl rfl rfl,
    lookup_common cfg t w rfl rfl rfl rfl rfl rfl rfl, commonEntries]
  cases w.elem.displayName with
  | none => cases w.elem.visible <;> rfl
  | some name =>
      cases w.elem.uid with
      | none => cases w.elem.visible <;> rfl
      | some uid => simp [userEntries, shownUser, List.lookup_cons, Json.text, natValue]

private theorem readVisible_object : readVisible (objectEntries cfg t w) = w.elem.visible := by
  unfold readVisible
  rw [lookup_common cfg t w rfl rfl rfl rfl rfl rfl rfl, commonEntries, List.lookup_append,
    List.lookup_append, (lookup_user _ _ rfl rfl).1]
  cases w.elem.visible with
  | true => rfl
  | false => rfl

private theorem readTags_object : readTags (objectEntries cfg t w) = w.tags := by
  have before : ([("type", Json.string (elementTypeName t)), ("id", natValue w.elem.id)] ++
      coordinateEntries cfg w.elem.visible t w.extra ++ commonEntries w.elem ++
      refEntries t w.extra).lookup "tags" = none := by
    rw [List.lookup_append, List.lookup_append, List.lookup_append, lookup_refs _ _ rfl rfl,
      lookup_coordinates cfg _ _ _ rfl rfl, commonEntries, List.lookup_append, List.lookup_append,
      (lookup_user _ _ rfl rfl).1]
    cases w.elem.visible <;> rfl
  have read := readTags_tagEntries _ [] w.tags before rfl
  rwa [List.append_nil] at read

private theorem lookup_extra (type : (key == "type") = false) (id : (key == "id") = false)
    (name : (key == "user") = false) (uid : (key == "uid") = false)
    (timestamp : (key == "timestamp") = false) (version : (key == "version") = false)
    (changeset : (key == "changeset") = false) (visible : (key == "visible") = false)
    (tags : (key == "tags") = false) :
    (objectEntries cfg t w).lookup key =
      ((coordinateEntries cfg w.elem.visible t w.extra).lookup key).or
        ((refEntries t w.extra).lookup key) := by
  have head : List.lookup key [("type", Json.string (elementTypeName t)), ("id", natValue w.elem.id)] =
      none := by
    simp only [List.lookup_cons, type, id, List.lookup_nil]
  have common : (commonEntries w.elem).lookup key = none := by
    rw [commonEntries, List.lookup_append, List.lookup_append, (lookup_user _ _ name uid).1]
    cases w.elem.visible with
    | true => simp [List.lookup_cons, timestamp, version, changeset]
    | false => simp [List.lookup_cons, timestamp, version, changeset, visible]
  rw [objectEntries, List.lookup_append, List.lookup_append, List.lookup_append, List.lookup_append,
    head, common, lookup_tags _ tags, Option.none_or, Option.or_none, Option.or_none]

private theorem read_nodes (nodes : List Nat) :
    ((((nodesEntries nodes).lookup "nodes").map Json.items).getD []).map
      (fun node => readNat node.text) = nodes := by
  unfold nodesEntries
  split
  · rename_i none
    rw [none]
    rfl
  · have back : (nodes.map natValue).map (fun node => readNat node.text) = nodes := by
      rw [List.map_map]
      exact (List.map_congr_left fun node _ => readNat_repr node).trans (List.map_id' nodes)
    exact back

private theorem read_members (members : List Member) :
    ((((membersEntries members).lookup "members").map Json.items).getD []).map (fun member =>
      (⟨readType (textOf "type" member.entries), readNat (textOf "ref" member.entries),
        textOf "role" member.entries⟩ : Member)) = members := by
  have each (member : Member) : (⟨readType (textOf "type" (memberValue member).entries),
      readNat (textOf "ref" (memberValue member).entries),
      textOf "role" (memberValue member).entries⟩ : Member) = member := by
    simp [textOf, memberValue, Json.entries, Json.text, List.lookup_cons, natValue]
  unfold membersEntries
  split
  · rename_i none
    rw [none]
    rfl
  · have back : (members.map memberValue).map (fun member =>
        (⟨readType (textOf "type" member.entries), readNat (textOf "ref" member.entries),
          textOf "role" member.entries⟩ : Member)) = members := by
      rw [List.map_map]
      exact (List.map_congr_left fun member _ => each member).trans (List.map_id' members)
    exact back

private theorem readExtra_object : readExtra (objectEntries cfg t w) t =
    shownExtra cfg w.elem.visible t w.extra := by
  obtain ⟨elem, extra, tags⟩ := w
  cases t with
  | node =>
      unfold readExtra
      rw [lookup_extra cfg _ _ rfl rfl rfl rfl rfl rfl rfl rfl rfl,
        lookup_extra cfg _ _ rfl rfl rfl rfl rfl rfl rfl rfl rfl]
      cases elem with
      | mk id version changeset timestamp uid displayName visible =>
          cases visible with
          | true => rfl
          | false => rfl
  | way =>
      have found : itemsOf "nodes" (objectEntries cfg .way ⟨elem, extra, tags⟩) =
          (((nodesEntries extra).lookup "nodes").map Json.items).getD [] := by
        unfold itemsOf
        rw [lookup_extra cfg _ _ rfl rfl rfl rfl rfl rfl rfl rfl rfl]
        rfl
      unfold readExtra
      rw [found]
      exact read_nodes extra
  | relation =>
      have found : itemsOf "members" (objectEntries cfg .relation ⟨elem, extra, tags⟩) =
          (((membersEntries extra).lookup "members").map Json.items).getD [] := by
        unfold itemsOf
        rw [lookup_extra cfg _ _ rfl rfl rfl rfl rfl rfl rfl rfl rfl]
        rfl
      unfold readExtra
      rw [found]
      exact read_members extra

private theorem readObject_object : readObject t (objectEntries cfg t w) = shown cfg w := by
  have timestamp : textOf "timestamp" (objectEntries cfg t w) = w.elem.timestamp := by
    unfold textOf
    rw [lookup_common cfg t w rfl rfl rfl rfl rfl rfl rfl]
    rfl
  have version : textOf "version" (objectEntries cfg t w) = toString w.elem.version := by
    unfold textOf
    rw [lookup_common cfg t w rfl rfl rfl rfl rfl rfl rfl]
    rfl
  have changeset : textOf "changeset" (objectEntries cfg t w) = toString w.elem.changeset := by
    unfold textOf
    rw [lookup_common cfg t w rfl rfl rfl rfl rfl rfl rfl]
    rfl
  have id : textOf "id" (objectEntries cfg t w) = toString w.elem.id := rfl
  unfold readObject shown
  rw [id, readVisible_object, version, changeset, timestamp, readUser_object, readExtra_object,
    readTags_object]
  simp

private theorem readElement_object : readElement (objectValue cfg t w) = .object none t (shown cfg w) := by
  have noError : (objectEntries cfg t w).lookup "error" = none := by
    rw [lookup_common cfg t w rfl rfl rfl rfl rfl rfl rfl, commonEntries, List.lookup_append,
      List.lookup_append, (lookup_user _ _ rfl rfl).1]
    cases w.elem.visible <;> rfl
  have type : readType (textOf "type" (objectEntries cfg t w)) = t :=
    readType_elementTypeName t
  unfold readElement objectValue
  simp only [Json.entries, noError]
  rw [type, readObject_object]

end Objects

section Changesets

variable {key : String} (c : ChangesetCall) (isOpen : Bool)

private theorem lookup_closed (info : ChangesetInfo) (closed : (key == "closed_at") = false) :
    (closedEntries info isOpen).lookup key = none := by
  cases isOpen with
  | true => rfl
  | false => simp only [closedEntries, Bool.false_eq_true, if_false, List.lookup_cons, closed,
      List.lookup_nil]

private theorem lookup_box (box : Option Bbox) (minlat : (key == "min_lat") = false)
    (minlon : (key == "min_lon") = false) (maxlat : (key == "max_lat") = false)
    (maxlon : (key == "max_lon") = false) :
    ((box.map (boxEntries cfg)).getD []).lookup key = none := by
  cases box with
  | none => rfl
  | some b => simp [boxEntries, List.lookup_cons, minlat, minlon, maxlat, maxlon]

private theorem lookup_comments (comments : (key == "comments") = false) :
    (commentsEntries c).lookup key = none := by
  unfold commentsEntries
  split
  · simp only [List.lookup_cons, comments, List.lookup_nil]
  · rfl

private def first : List (String × Json) :=
  headEntries c.info ++ [("open", .bool isOpen), ("comments_count", natValue c.info.commentsCount),
    ("changes_count", natValue c.info.numChanges)]

private theorem lookup_changeset : (changesetEntries cfg c isOpen).lookup key =
    ((first c isOpen).lookup key).or (((closedEntries c.info isOpen).lookup key).or
      ((((c.info.boundingBox.map (boxEntries cfg)).getD []).lookup key).or
        (((authorEntries c.info.displayName c.info.uid).lookup key).or
          (((tagEntries c.tags).lookup key).or ((commentsEntries c).lookup key))))) := by
  unfold changesetEntries first
  simp only [List.lookup_append, Option.or_assoc]

private theorem textOf_first (there : (first c isOpen).lookup key ≠ none) :
    textOf key (changesetEntries cfg c isOpen) = textOf key (first c isOpen) := by
  unfold textOf
  rw [lookup_changeset]
  cases found : (first c isOpen).lookup key with
  | none => exact absurd found there
  | some value => rfl

private theorem readClosed_changeset :
    ((changesetEntries cfg c isOpen).lookup "closed_at").map Json.text =
      if isOpen then none else some c.info.closedAt := by
  rw [lookup_changeset, lookup_box cfg _ rfl rfl rfl rfl, (lookup_user _ _ rfl rfl).2,
    lookup_tags _ rfl, lookup_comments c rfl]
  cases isOpen with
  | true => rfl
  | false => rfl

private theorem readUser_changeset : readUser (changesetEntries cfg c isOpen) =
    shownUser c.info.displayName c.info.uid := by
  unfold readUser
  rw [lookup_changeset, lookup_changeset, lookup_closed isOpen _ rfl, lookup_closed isOpen _ rfl,
    lookup_box cfg _ rfl rfl rfl rfl, lookup_box cfg _ rfl rfl rfl rfl, lookup_tags _ rfl,
    lookup_tags _ rfl, lookup_comments c rfl, lookup_comments c rfl]
  cases c.info.displayName with
  | none => rfl
  | some name =>
      cases c.info.uid with
      | none => rfl
      | some uid => simp [first, headEntries, authorEntries, shownUser, List.lookup_cons, Json.text,
          natValue]

private theorem readBox_changeset : readBox (changesetEntries cfg c isOpen) =
    c.info.boundingBox.map (shownBox cfg) := by
  have found (key : String) (box : (key == "min_lat") = true ∨ (key == "min_lon") = true ∨
      (key == "max_lat") = true ∨ (key == "max_lon") = true) :
      (changesetEntries cfg c isOpen).lookup key =
        ((c.info.boundingBox.map (boxEntries cfg)).getD []).lookup key := by
    have named : key = "min_lat" ∨ key = "min_lon" ∨ key = "max_lat" ∨ key = "max_lon" := by
      simpa using box
    rw [lookup_changeset]
    rcases named with rfl | rfl | rfl | rfl
    all_goals
      rw [lookup_closed isOpen _ rfl, (lookup_user _ _ rfl rfl).2, lookup_tags _ rfl,
        lookup_comments c rfl, Option.or_none, Option.or_none, Option.or_none]
      rfl
  unfold readBox textOf
  rw [found _ (by decide), found _ (by decide), found _ (by decide), found _ (by decide)]
  cases c.info.boundingBox with
  | none => rfl
  | some b => rfl

private theorem readTags_changeset : readTags (changesetEntries cfg c isOpen) = c.tags := by
  refine readTags_tagEntries _ (commentsEntries c) c.tags ?_ (lookup_comments c rfl)
  rw [List.lookup_append, List.lookup_append, List.lookup_append, lookup_closed isOpen _ rfl,
    lookup_box cfg _ rfl rfl rfl rfl, (lookup_user _ _ rfl rfl).2]
  rfl

private theorem readComments_changeset :
    (itemsOf "comments" (changesetEntries cfg c isOpen)).map (fun comment =>
      readComment comment.entries) = if c.includeComments then c.comments else [] := by
  have each (comment : CommentInfo) : readComment (commentValue comment).entries = comment := by
    simp [readComment, commentValue, textOf, Json.entries, Json.text, List.lookup_cons, natValue]
  have back : (c.comments.map commentValue).map (fun comment => readComment comment.entries) =
      c.comments := by
    rw [List.map_map]
    exact (List.map_congr_left fun comment _ => each comment).trans (List.map_id' c.comments)
  have found : (changesetEntries cfg c isOpen).lookup "comments" =
      (commentsEntries c).lookup "comments" := by
    rw [lookup_changeset, lookup_closed isOpen _ rfl, lookup_box cfg _ rfl rfl rfl rfl,
      (lookup_user _ _ rfl rfl).2, lookup_tags _ rfl]
    rfl
  unfold itemsOf
  rw [found]
  unfold commentsEntries
  cases c.includeComments with
  | false => rfl
  | true =>
      by_cases none : c.comments = []
      · rw [none]
        rfl
      · rw [if_pos ⟨rfl, none⟩]
        exact back

private theorem readChangeset_value : readChangeset (changesetValue cfg c).entries =
    shownChangeset cfg c.info c.tags c.includeComments c.comments c.now := by
  unfold changesetValue shownChangeset
  cases asked : isOpenAt cfg c.info c.now with
  | error e =>
      simp [Json.entries, readChangeset, headEntries, List.lookup_cons, textOf, Json.text, intValue]
  | ok isOpen =>
      have noError : (changesetEntries cfg c isOpen).lookup "error" = none := by
        rw [lookup_changeset, lookup_closed isOpen _ rfl, lookup_box cfg _ rfl rfl rfl rfl,
          (lookup_user _ _ rfl rfl).2, lookup_tags _ rfl, lookup_comments c rfl]
        rfl
      have there : textOf "id" (changesetEntries cfg c isOpen) = toString c.info.id ∧
          textOf "created_at" (changesetEntries cfg c isOpen) = c.info.createdAt ∧
          textOf "comments_count" (changesetEntries cfg c isOpen) = toString c.info.commentsCount ∧
          textOf "changes_count" (changesetEntries cfg c isOpen) = toString c.info.numChanges := by
        refine ⟨?_, ?_, ?_, ?_⟩
        all_goals
          rw [textOf_first cfg c isOpen (by simp [first, headEntries, List.lookup_cons])]
          rfl
      obtain ⟨id, createdAt, commentsCount, changesCount⟩ := there
      change readChangeset (changesetEntries cfg c isOpen) = _
      unfold readChangeset
      simp only [noError]
      rw [id, createdAt, commentsCount, changesCount, readClosed_changeset, readUser_changeset,
        readBox_changeset, readTags_changeset, readComments_changeset]
      simp

end Changesets

/-- The value tells what the body does, except for the rows of a diffResult. -/
theorem readDocument_documentValue (body : DocumentBody) (available : ∀ c, body ≠ .changes c) :
    readDocument (documentValue cfg header body) =
      some (header, (body.items cfg).filter (fun item => !item.isRow)) := by
  have head (content : List (String × Json)) : readHeader (headerEntries header ++ content) = header := by
    simp [readHeader, headerEntries, textOf, List.lookup_cons, Json.text]
  have silent : (headerEntries header).flatMap readEntry = [] := by
    simp [headerEntries, readEntry]
  have failures (failed : Option Exception) :
      (failed.map (fun e => errorValue (what e))).toList.map readElement =
        (failed.map (fun e => Item.error (what e))).toList := by
    cases failed with
    | none => rfl
    | some e => rfl
  rw [documentValue, readDocument, head, List.flatMap_append, silent, List.nil_append, filter_items]
  congr 2
  cases body with
  | current bounds elements failed =>
      have head : (bounds.map boundsEntry).toList.flatMap readEntry =
          (bounds.map (fun b => Item.bounds (shownBounds b))).toList := by
        cases bounds with
        | none => rfl
        | some b => rfl
      have objects : (elements.map (fun w => objectValue cfg w.1 w.2)).map readElement =
          elements.map (fun w => .object none w.1 (shown cfg w.2)) := by
        rw [List.map_map]
        exact List.map_congr_left fun w _ => readElement_object cfg w.1 w.2
      have read (items : List Json) : [("elements", Json.array items)].flatMap readEntry =
          items.map readElement := List.append_nil _
      simp only [contentEntries, List.flatMap_append, head, read, List.map_append, objects, failures,
        DocumentBody.items, List.append_assoc]
  | changeset c =>
      cases c with
      | error e => rfl
      | ok c =>
          exact congrArg (fun item => [item]) (readChangeset_value cfg c)
  | changes c => exact absurd rfl (available c)
  | diffResult rows => rfl

end Readback

end Cgimap.Output.JsonFormatter
