/- path: Cgimap/Output/XmlFormatter
   generality: I
   source: src/xml_formatter.cpp, src/xml_writer.cpp
   digest: The XML documents of the responders are one element each, which reads back. -/

import Cgimap.Library.MarkupTree
import Cgimap.Output.Documents

/-!
The writer of the XML library makes one element of the calls. When the document is given up,
the library closes what is still open.
-/

set_option autoImplicit false
set_option relaxedAutoImplicit false

namespace Cgimap.Output.XmlFormatter

open Cgimap.Library.MarkupTree
open Cgimap.Model.Types
open Cgimap.Model.Database
open Cgimap.Osmchange.DiffTracking
open Cgimap.Read.DataSelection
open Cgimap.Read.Endpoints
open Cgimap.Read.OpenStatus
open Cgimap.Output.Documents

section Formatter

variable (cfg : Settings) (header : Header)

def boolText (b : Bool) : String := if b then "true" else "false"

def writeTags (tags : List (String × String)) : List WriterCall :=
  tags.flatMap (fun tag => elementCalls "tag" [("k", tag.1), ("v", tag.2)] [])

def writeNodeRef (node : Nat) : List WriterCall := elementCalls "nd" [("ref", toString node)] []

def writeMember (member : Member) : List WriterCall :=
  elementCalls "member" [("type", elementTypeName member.memberType),
    ("ref", toString member.memberId), ("role", member.memberRole)] []

def userAttrs (displayName : Option String) (uid : Option Nat) : List (String × String) :=
  match displayName, uid with
  | some name, some id => [("user", name), ("uid", toString id)]
  | _, _ => []

def writeCommon (elem : ElementInfo) : List (String × String) :=
  [("id", toString elem.id), ("visible", boolText elem.visible), ("version", toString elem.version),
    ("changeset", toString elem.changeset), ("timestamp", elem.timestamp)] ++
    userAttrs elem.displayName elem.uid

def writeNode (elem : ElementInfo) (lon lat : ℚ) (tags : List (String × String)) : List WriterCall :=
  elementCalls "node" (writeCommon elem ++
    (if elem.visible then [("lat", fixed7 lat), ("lon", fixed7 lon)] else [])) (writeTags tags)

def writeWay (elem : ElementInfo) (nodes : List Nat) (tags : List (String × String)) :
    List WriterCall :=
  elementCalls "way" (writeCommon elem)
    (nodes.flatMap writeNodeRef ++ writeTags tags)

def writeRelation (elem : ElementInfo) (members : List Member) (tags : List (String × String)) :
    List WriterCall :=
  elementCalls "relation" (writeCommon elem)
    (members.flatMap writeMember ++ writeTags tags)

def writeObject : (t : ObjectType) → Written t → List WriterCall
  | .node, ⟨elem, (c : Int × Int), tags⟩ => writeNode elem (degrees cfg c.1) (degrees cfg c.2) tags
  | .way, ⟨elem, (nodes : List Nat), tags⟩ => writeWay elem nodes tags
  | .relation, ⟨elem, (members : List Member), tags⟩ => writeRelation elem members tags

def writeComment (comment : CommentInfo) : List WriterCall :=
  elementCalls "comment" [("id", toString comment.id), ("date", comment.createdAt),
    ("uid", toString comment.authorId), ("user", comment.authorDisplayName)]
    (elementCalls "text" [] [.text comment.body])

def boxAttrs (b : Bbox) : List (String × String) :=
  [("min_lat", fixed7 (degrees cfg b.minlat)), ("min_lon", fixed7 (degrees cfg b.minlon)),
    ("max_lat", fixed7 (degrees cfg b.maxlat)), ("max_lon", fixed7 (degrees cfg b.maxlon))]

def changesetHead (info : ChangesetInfo) : List (String × String) :=
  [("id", toString info.id), ("created_at", info.createdAt)]

def changesetAttrs (info : ChangesetInfo) (isOpen : Bool) : List (String × String) :=
  changesetHead info ++ (if isOpen then [] else [("closed_at", info.closedAt)]) ++
    [("open", boolText isOpen)] ++ userAttrs info.displayName info.uid ++
    (info.boundingBox.map (boxAttrs cfg)).getD [] ++
    [("comments_count", toString info.commentsCount), ("changes_count", toString info.numChanges)]

/-- `write_changeset`. Whether it is open is asked for behind the first attributes, and that
may fail. -/
def writeChangeset (info : ChangesetInfo) (tags : List (String × String)) (includeComments : Bool)
    (comments : List CommentInfo) (now : Int) : List WriterCall × Option Exception :=
  match isOpenAt cfg info now with
  | .error e => (.start "changeset" :: (changesetHead info).map (fun a => .attr a.1 a.2), some e)
  | .ok isOpen =>
      (elementCalls "changeset" (changesetAttrs cfg info isOpen)
        (writeTags tags ++ (if includeComments then
          elementCalls "discussion" [] (comments.flatMap writeComment) else [])), none)

def writeDiffresultCreateModify (t : ObjectType) (oldId : Int) (newId newVersion : Nat) :
    List WriterCall :=
  elementCalls (elementTypeName t) [("old_id", toString oldId), ("new_id", toString newId),
    ("new_version", toString newVersion)] []

def writeDiffresultDelete (t : ObjectType) (oldId : Int) : List WriterCall :=
  elementCalls (elementTypeName t) [("old_id", toString oldId)] []

/-- The `switch` of the responder. -/
def writeDiffResult (row : DiffResult) : List WriterCall :=
  match row.op with
  | .create | .modify =>
      writeDiffresultCreateModify row.objType row.oldId row.newId row.newVersion
  | .delete =>
      if row.deletionSkipped then
        writeDiffresultCreateModify row.objType row.oldId row.newId row.newVersion
      else writeDiffresultDelete row.objType row.oldId

def headerAttrs : List (String × String) :=
  [("version", apiVersion), ("generator", header.generator), ("copyright", header.copyright),
    ("attribution", header.attribution), ("license", header.license)]

def actionName : ActionType → String
  | .create => "create"
  | .modify => "modify"
  | .del => "delete"

def writeError (message : String) : List WriterCall := elementCalls "error" [] [.text message]

def xml : Formatter WriterCall
  | .startDocument name => (.start name :: (headerAttrs header).map (fun a => .attr a.1 a.2), none)
  | .endDocument => ([.close], none)
  | .writeBounds b => (elementCalls "bounds" [("minlat", fixed7 b.minlat), ("minlon", fixed7 b.minlon),
      ("maxlat", fixed7 b.maxlat), ("maxlon", fixed7 b.maxlon)] [], none)
  | .startElement | .endElement | .startChangeset _ | .endChangeset _ => ([], none)
  | .startAction action => ([.start (actionName action)], none)
  | .endAction _ => ([.close], none)
  | .writeObject t w => (writeObject cfg t w, none)
  | .writeChangeset info tags includeComments comments now =>
      writeChangeset cfg info tags includeComments comments now
  | .writeDiffResult row => (writeDiffResult row, none)
  | .error e => (writeError (what e), none)
  | .errorText text => (writeError text, none)

end Formatter

section Trees

variable (cfg : Settings)

def tagTree (tag : String × String) : Markup := .element "tag" [("k", tag.1), ("v", tag.2)] []

def nodeRef (node : Nat) : Markup := .element "nd" [("ref", toString node)] []

def memberTree (member : Member) : Markup :=
  .element "member" [("type", elementTypeName member.memberType), ("ref", toString member.memberId),
    ("role", member.memberRole)] []

def coordinateAttrs (visible : Bool) : (t : ObjectType) → Extra t → List (String × String)
  | .node, (c : Int × Int) =>
      if visible then [("lat", fixed7 (degrees cfg c.2)), ("lon", fixed7 (degrees cfg c.1))] else []
  | .way, _ => []
  | .relation, _ => []

def objectAttrs (t : ObjectType) (w : Written t) : List (String × String) :=
  writeCommon w.elem ++ coordinateAttrs cfg w.elem.visible t w.extra

def refTrees : (t : ObjectType) → Extra t → List Markup
  | .node, _ => []
  | .way, (nodes : List Nat) => nodes.map nodeRef
  | .relation, (members : List Member) => members.map memberTree

def objectTree (t : ObjectType) (w : Written t) : Markup :=
  .element (elementTypeName t) (objectAttrs cfg t w) (refTrees t w.extra ++ w.tags.map tagTree)

def commentTree (comment : CommentInfo) : Markup :=
  .element "comment" [("id", toString comment.id), ("date", comment.createdAt),
    ("uid", toString comment.authorId), ("user", comment.authorDisplayName)]
    [.element "text" [] (textContent comment.body)]

def errorTree (message : String) : Markup := .element "error" [] (textContent message)

/-- The element of a changeset; one that could not be finished ends with the error. -/
def changesetTree (c : ChangesetCall) : Markup :=
  match isOpenAt cfg c.info c.now with
  | .error e => .element "changeset" (changesetHead c.info) [errorTree (what e)]
  | .ok isOpen => .element "changeset" (changesetAttrs cfg c.info isOpen)
      (c.tags.map tagTree ++ (if c.includeComments then
        [.element "discussion" [] (c.comments.map commentTree)] else []))

def rowTree (row : DiffResult) : Markup :=
  .element (elementTypeName row.objType) (("old_id", toString row.oldId) ::
    (if row.op = .delete ∧ row.deletionSkipped = false then []
      else [("new_id", toString row.newId), ("new_version", toString row.newVersion)])) []

def boundsTree (b : GeoBox) : Markup :=
  .element "bounds" [("minlat", fixed7 b.minlat), ("minlon", fixed7 b.minlon),
    ("maxlat", fixed7 b.maxlat), ("maxlon", fixed7 b.maxlon)] []

def actionTree (w : AnyWritten) : Markup :=
  .element (actionName (actionOf w)) [] [objectTree cfg w.1 w.2]

def contentTrees : DocumentBody → List Markup
  | .current bounds elements failed =>
      (bounds.map boundsTree).toList ++ elements.map (fun w => objectTree cfg w.1 w.2) ++
        (failed.map (fun e => errorTree (what e))).toList
  | .changeset (.ok c) => [changesetTree cfg c]
  | .changeset (.error e) => [errorTree (what e)]
  | .changes (.ok elements) => elements.map (actionTree cfg)
  | .changes (.error e) => [errorTree (what e)]
  | .diffResult rows => rows.map rowTree

def documentTree (header : Header) (body : DocumentBody) : Markup :=
  .element body.rootName (headerAttrs header) (contentTrees cfg body)

end Trees

section Writing

variable (cfg : Settings) (header : Header)

private theorem writes_tags (tags : List (String × String)) :
    Writes (writeTags tags) (tags.map tagTree) := by
  have each (tag : String × String) : Writes (elementCalls "tag" [("k", tag.1), ("v", tag.2)] [])
      [tagTree tag] := .element (isHead_of_sublist ["k", "v"] (.refl _) (by decide)) .nil
  exact .map each tags

private theorem writes_nodeRef (node : Nat) : Writes (writeNodeRef node) [nodeRef node] :=
  .element (isHead_of_sublist ["ref"] (.refl _) (by decide)) .nil

private theorem writes_member (member : Member) : Writes (writeMember member) [memberTree member] :=
  .element (isHead_of_sublist ["type", "ref", "role"] (.refl _) (by decide)) .nil

private theorem keys_userAttrs (displayName : Option String) (uid : Option Nat) :
    ((userAttrs displayName uid).map Prod.fst).Sublist ["user", "uid"] := by
  unfold userAttrs
  split
  · exact .refl _
  · exact List.nil_sublist _

private theorem head_objectAttrs (t : ObjectType) (w : Written t) :
    isHead (elementTypeName t) ((objectAttrs cfg t w).map Prod.fst) = true := by
  have coordinates : ((coordinateAttrs cfg w.elem.visible t w.extra).map Prod.fst).Sublist
      ["lat", "lon"] := by
    cases t with
    | node =>
        cases visible : w.elem.visible with
        | true => exact .refl _
        | false => exact List.nil_sublist _
    | way => exact List.nil_sublist _
    | relation => exact List.nil_sublist _
  refine isHead_of_sublist (["id", "visible", "version", "changeset", "timestamp"] ++
    ["user", "uid"] ++ ["lat", "lon"]) ?_ ?_
  · rw [objectAttrs, writeCommon, List.map_append, List.map_append]
    exact ((List.Sublist.refl _).append (keys_userAttrs _ _)).append coordinates
  · cases t <;> decide

private theorem writes_object (t : ObjectType) (w : Written t) :
    Writes (writeObject cfg t w) [objectTree cfg t w] := by
  obtain ⟨elem, extra, tags⟩ := w
  cases t with
  | node => exact .element (head_objectAttrs cfg .node ⟨elem, extra, tags⟩) (writes_tags tags)
  | way =>
      have attrs : objectAttrs cfg .way ⟨elem, extra, tags⟩ = writeCommon elem := List.append_nil _
      have head := head_objectAttrs cfg .way ⟨elem, extra, tags⟩
      rw [attrs] at head
      rw [objectTree, attrs]
      exact .element head
        ((Writes.map writes_nodeRef (extra : List Nat)).append (writes_tags tags))
  | relation =>
      have attrs : objectAttrs cfg .relation ⟨elem, extra, tags⟩ = writeCommon elem :=
        List.append_nil _
      have head := head_objectAttrs cfg .relation ⟨elem, extra, tags⟩
      rw [attrs] at head
      rw [objectTree, attrs]
      exact .element head
        ((Writes.map writes_member (extra : List Member)).append (writes_tags tags))

private theorem writes_error (message : String) : Writes (writeError message) [errorTree message] :=
  .text message (isHead_of_sublist [] (.refl _) (by decide))

private theorem writes_comment (comment : CommentInfo) :
    Writes (writeComment comment) [commentTree comment] :=
  .element (isHead_of_sublist ["id", "date", "uid", "user"] (.refl _) (by decide))
    (.text comment.body (isHead_of_sublist [] (.refl _) (by decide)))

private theorem writes_row (row : DiffResult) : Writes (writeDiffResult row) [rowTree row] := by
  obtain ⟨op, t, oldId, newId, newVersion, skipped⟩ := row
  have known : isHead (elementTypeName t) ["old_id", "new_id", "new_version"] = true := by
    cases t <;> decide
  have full : isHead (elementTypeName t) ([("old_id", toString oldId), ("new_id", toString newId),
      ("new_version", toString newVersion)].map Prod.fst) = true :=
    isHead_of_sublist _ (.refl _) known
  cases op with
  | create => exact .element full .nil
  | modify => exact .element full .nil
  | delete =>
      cases skipped with
      | true => exact .element full .nil
      | false =>
          exact .element (isHead_of_sublist _ (List.sublist_append_left ["old_id"] _) known) .nil

def put (calls : List Call) : List WriterCall := calls.flatMap (fun call => (xml cfg header call).1)

private theorem put_singleton (call : Call) : put cfg header [call] = (xml cfg header call).1 :=
  List.append_nil _

private theorem put_append (calls calls' : List Call) :
    put cfg header (calls ++ calls') = put cfg header calls ++ put cfg header calls' :=
  List.flatMap_append

private theorem put_map {α : Type} (call : α → Call) (l : List α) :
    put cfg header (l.map call) = l.flatMap (fun a => (xml cfg header (call a)).1) :=
  List.flatMap_map ..

private theorem head_headerAttrs {name : String} (named : isHead name
    ["version", "generator", "copyright", "attribution", "license"] = true) :
    isHead name ((headerAttrs header).map Prod.fst) = true :=
  isHead_of_sublist _ (.refl _) named

private theorem run_document {name : String} {inner : List Call} {content : List Markup}
    (head : isHead name ((headerAttrs header).map Prod.fst) = true)
    (writes : Writes (put cfg header inner) content) :
    ∃ w, Writer.empty.run (put cfg header ([.startDocument name] ++ inner ++ [.endDocument])) =
      some w ∧ w.document = [.element name (headerAttrs header) content] := by
  have whole := run_element (w := Writer.empty) rfl head writes
  have same : put cfg header ([.startDocument name] ++ inner ++ [.endDocument]) =
      elementCalls name (headerAttrs header) (put cfg header inner) := by
    simp [put, xml, elementCalls]
  rw [same]
  exact ⟨_, whole, rfl⟩

private theorem writes_failure (failed : Option Exception) :
    Writes (put cfg header (failed.map Call.error).toList)
      (failed.map (fun e => errorTree (what e))).toList := by
  cases failed with
  | none => exact .nil
  | some e =>
      change Writes (put cfg header [.error e]) [errorTree (what e)]
      rw [put_singleton]
      exact writes_error (what e)

private theorem writes_current (bounds : Option GeoBox) (elements : List AnyWritten)
    (failed : Option Exception) :
    Writes (put cfg header ((bounds.map Call.writeBounds).toList ++ [.startElement] ++
      elements.map (fun w => .writeObject w.1 w.2) ++ (failed.map Call.error).toList ++
      [.endElement])) (contentTrees cfg (.current bounds elements failed)) := by
  have head : Writes (put cfg header (bounds.map Call.writeBounds).toList)
      (bounds.map boundsTree).toList := by
    cases bounds with
    | none => exact .nil
    | some b =>
        change Writes (put cfg header [.writeBounds b]) [boundsTree b]
        rw [put_singleton]
        exact .element (isHead_of_sublist ["minlat", "minlon", "maxlat", "maxlon"] (.refl _)
          (by decide)) .nil
  have objects : Writes (put cfg header (elements.map (fun w => .writeObject w.1 w.2)))
      (elements.map (fun w => objectTree cfg w.1 w.2)) := by
    rw [put_map]
    exact .map (fun w => writes_object cfg w.1 w.2) elements
  have silent : Writes (put cfg header [.startElement]) [] := .nil
  have silent' : Writes (put cfg header [.endElement]) [] := .nil
  have all := (((head.append silent).append objects).append
    (writes_failure cfg header failed)).append silent'
  rw [put_append, put_append, put_append, put_append]
  simpa [contentTrees] using all

private theorem writes_action (w : AnyWritten) :
    Writes (put cfg header (changeCalls w)) [actionTree cfg w] := by
  have known : isHead (actionName (actionOf w)) [] = true := by
    cases actionOf w <;> decide
  have inner : Writes (elementCalls (actionName (actionOf w)) [] (writeObject cfg w.1 w.2))
      [actionTree cfg w] := .element known (writes_object cfg w.1 w.2)
  have same : put cfg header (changeCalls w) =
      elementCalls (actionName (actionOf w)) [] (writeObject cfg w.1 w.2) := by
    simp [put, changeCalls, xml, elementCalls]
  rw [same]
  exact inner

private theorem writes_actions (elements : List AnyWritten) :
    Writes (put cfg header (elements.flatMap changeCalls)) (elements.map (actionTree cfg)) := by
  have split : put cfg header (elements.flatMap changeCalls) =
      elements.flatMap (fun w => put cfg header (changeCalls w)) := List.flatMap_assoc
  rw [split]
  exact .map (writes_action cfg header) elements

private theorem head_changesetAttrs (info : ChangesetInfo) (isOpen : Bool) :
    isHead "changeset" ((changesetAttrs cfg info isOpen).map Prod.fst) = true := by
  have closed : ((if isOpen then [] else [("closed_at", info.closedAt)]).map Prod.fst).Sublist
      ["closed_at"] := by
    cases isOpen with
    | true => exact List.nil_sublist _
    | false => exact .refl _
  have box : (((info.boundingBox.map (boxAttrs cfg)).getD []).map Prod.fst).Sublist
      ["min_lat", "min_lon", "max_lat", "max_lon"] := by
    cases info.boundingBox with
    | none => exact List.nil_sublist _
    | some b => exact .refl _
  refine isHead_of_sublist (["id", "created_at"] ++ ["closed_at"] ++ ["open"] ++ ["user", "uid"] ++
    ["min_lat", "min_lon", "max_lat", "max_lon"] ++ ["comments_count", "changes_count"]) ?_ (by decide)
  simp only [changesetAttrs, List.map_append]
  exact (((((List.Sublist.refl _).append closed).append (.refl _)).append (keys_userAttrs _ _)).append
    box).append (.refl _)

private theorem writes_changeset (c : ChangesetCall) {isOpen : Bool}
    (asked : isOpenAt cfg c.info c.now = .ok isOpen) :
    Writes (put cfg header [.startChangeset false, c.call, .endChangeset false])
      [changesetTree cfg c] := by
  have discussion : Writes (if c.includeComments then
      elementCalls "discussion" [] (c.comments.flatMap writeComment) else [])
      (if c.includeComments then [.element "discussion" [] (c.comments.map commentTree)] else []) := by
    split
    · exact .element (isHead_of_sublist [] (.refl _) (by decide)) (.map writes_comment c.comments)
    · exact .nil
  have written := Writes.element (head_changesetAttrs cfg c.info isOpen)
    ((writes_tags c.tags).append discussion)
  have same : put cfg header [.startChangeset false, c.call, .endChangeset false] =
      elementCalls "changeset" (changesetAttrs cfg c.info isOpen)
        (writeTags c.tags ++ (if c.includeComments then
          elementCalls "discussion" [] (c.comments.flatMap writeComment) else [])) := by
    simp [put, ChangesetCall.call, xml, writeChangeset, asked]
  rw [same, changesetTree, asked]
  exact written

/-- A changeset that cannot be finished is left open, and so is the root element: the end of
the document closes only one of the two. -/
private theorem run_unfinished (c : ChangesetCall) {e : Exception}
    (asked : isOpenAt cfg c.info c.now = .error e) :
    ∃ w, Writer.empty.run (render (xml cfg header) false (DocumentBody.changeset (.ok c)).calls) = some w ∧
      w.document = [documentTree cfg header (.changeset (.ok c))] := by
  have calls : render (xml cfg header) false (DocumentBody.changeset (.ok c)).calls =
      (.start "osm" :: (headerAttrs header).map (fun a => .attr a.1 a.2)) ++
        ((.start "changeset" :: (changesetHead c.info).map (fun a => .attr a.1 a.2)) ++
          (writeError (what e) ++ [.close])) := by
    simp [DocumentBody.calls, render, xml, ChangesetCall.call, writeChangeset, asked, isClosing]
  have root : isHead "osm" ((headerAttrs header).map Prod.fst) = true :=
    head_headerAttrs header (by decide)
  have head : isHead "changeset" ((changesetHead c.info).map Prod.fst) = true :=
    isHead_of_sublist ["id", "created_at"] (.refl _) (by decide)
  rw [calls, run_append, run_start rfl root, Option.bind_some, run_append, run_start rfl head,
    Option.bind_some, run_append, writes_error (what e) _ (List.cons_ne_nil _ _) rfl, Option.bind_some]
  refine ⟨_, rfl, ?_⟩
  simp [Writer.add, Writer.empty, Writer.document, Writer.finish, documentTree, contentTrees,
    changesetTree, asked, DocumentBody.rootName]

private theorem render_eq {calls : List Call} (quiet : ∀ call ∈ calls, (xml cfg header call).2 = none) :
    render (xml cfg header) false calls = put cfg header calls := render_quiet quiet

private theorem quiet_current (bounds : Option GeoBox) (elements : List AnyWritten)
    (failed : Option Exception) :
    ∀ call ∈ (DocumentBody.current bounds elements failed).calls, (xml cfg header call).2 = none := by
  intro call member
  simp only [DocumentBody.calls, List.mem_append, List.mem_map, List.mem_cons, Option.mem_toList,
    Option.map_eq_some_iff, List.not_mem_nil, or_false] at member
  rcases member with ((((rfl | ⟨b, -, rfl⟩) | rfl) | ⟨w, -, rfl⟩) | ⟨e, -, rfl⟩) | rfl | rfl
  all_goals rfl

private theorem quiet_changes (elements : List AnyWritten) :
    ∀ call ∈ (DocumentBody.changes (.ok elements)).calls, (xml cfg header call).2 = none := by
  intro call member
  simp only [DocumentBody.calls, changeCalls, List.mem_append, List.mem_flatMap, List.mem_cons,
    List.not_mem_nil, or_false] at member
  rcases member with (rfl | ⟨w, -, rfl | rfl | rfl⟩) | rfl
  all_goals rfl

private theorem quiet_rows (rows : List DiffResult) :
    ∀ call ∈ (DocumentBody.diffResult rows).calls, (xml cfg header call).2 = none := by
  intro call member
  simp only [DocumentBody.calls, List.mem_append, List.mem_singleton, List.mem_map] at member
  rcases member with (rfl | ⟨row, -, rfl⟩) | rfl
  all_goals rfl

private theorem run_quiet (body : DocumentBody) {inner : List Call}
    (quiet : ∀ call ∈ body.calls, (xml cfg header call).2 = none)
    (split : body.calls = [.startDocument body.rootName] ++ inner ++ [.endDocument])
    (writes : Writes (put cfg header inner) (contentTrees cfg body)) :
    ∃ w, Writer.empty.run (render (xml cfg header) false body.calls) = some w ∧
      w.document = [documentTree cfg header body] := by
  have head : isHead body.rootName ((headerAttrs header).map Prod.fst) = true := by
    have known : ∀ name ∈ ["osm", "osmChange", "diffResult"], isHead name
        ["version", "generator", "copyright", "attribution", "license"] = true := by
      decide
    refine head_headerAttrs header (known body.rootName ?_)
    cases body <;> simp [DocumentBody.rootName]
  rw [render_eq cfg header quiet, split]
  exact run_document cfg header head writes

/-- The document of a responder is written without a refused call, and is one element. -/
theorem run_body (body : DocumentBody) :
    ∃ w, Writer.empty.run (render (xml cfg header) false body.calls) = some w ∧
      w.document = [documentTree cfg header body] := by
  cases body with
  | current bounds elements failed =>
      have split : (DocumentBody.current bounds elements failed).calls = [.startDocument "osm"] ++
          ((bounds.map Call.writeBounds).toList ++ [.startElement] ++
            elements.map (fun w => .writeObject w.1 w.2) ++ (failed.map Call.error).toList ++
            [.endElement]) ++ [.endDocument] := by
        simp [DocumentBody.calls]
      exact run_quiet cfg header _ (quiet_current cfg header bounds elements failed) split
        (writes_current cfg header bounds elements failed)
  | changeset c =>
      cases c with
      | error e =>
          have quiet : ∀ call ∈ (DocumentBody.changeset (.error e)).calls,
              (xml cfg header call).2 = none := by
            simp [DocumentBody.calls, xml]
          have writes : Writes (put cfg header [.startChangeset false, .error e, .endChangeset false])
              [errorTree (what e)] := by
            simpa [put, xml] using writes_error (what e)
          exact run_quiet cfg header _ quiet rfl writes
      | ok c =>
          cases asked : isOpenAt cfg c.info c.now with
          | error e => exact run_unfinished cfg header c asked
          | ok isOpen =>
              have quiet : ∀ call ∈ (DocumentBody.changeset (.ok c)).calls,
                  (xml cfg header call).2 = none := by
                simp [DocumentBody.calls, xml, ChangesetCall.call, writeChangeset, asked]
              exact run_quiet cfg header _ quiet rfl (writes_changeset cfg header c asked)
  | changes c =>
      cases c with
      | error e =>
          have quiet : ∀ call ∈ (DocumentBody.changes (.error e)).calls,
              (xml cfg header call).2 = none := by
            simp [DocumentBody.calls, xml]
          have writes : Writes (put cfg header [.error e]) [errorTree (what e)] := by
            simpa [put, xml] using writes_error (what e)
          exact run_quiet cfg header _ quiet rfl writes
      | ok elements =>
          exact run_quiet cfg header _ (quiet_changes cfg header elements) rfl
            (writes_actions cfg header elements)
  | diffResult rows =>
      have writes : Writes (put cfg header (rows.map Call.writeDiffResult)) (rows.map rowTree) := by
        rw [put_map]
        exact .map writes_row rows
      exact run_quiet cfg header _ (quiet_rows cfg header rows) rfl writes

end Writing

section Reading

def textOf (name : String) (attrs : List (String × String)) : String := (valueOf name attrs).getD ""

def readUser (attrs : List (String × String)) : Option (String × Nat) :=
  match valueOf "user" attrs, valueOf "uid" attrs with
  | some name, some id => some (name, readNat id)
  | _, _ => none

def readTags (content : List Markup) : List (String × String) :=
  (named "tag" content).map (fun e => (textOf "k" e.1, textOf "v" e.1))

def readExtra (attrs : List (String × String)) (content : List Markup) :
    (t : ObjectType) → ShownExtra t
  | .node =>
      match valueOf "lat" attrs, valueOf "lon" attrs with
      | some lat, some lon => some (lat, lon)
      | _, _ => none
  | .way => (named "nd" content).map (fun e => readNat (textOf "ref" e.1))
  | .relation => (named "member" content).map (fun e =>
      (⟨readType (textOf "type" e.1), readNat (textOf "ref" e.1), textOf "role" e.1⟩ : Member))

def readObject (t : ObjectType) (attrs : List (String × String)) (content : List Markup) :
    Shown t where
  id := readNat (textOf "id" attrs)
  visible := textOf "visible" attrs = "true"
  version := readNat (textOf "version" attrs)
  changeset := readInt (textOf "changeset" attrs)
  timestamp := textOf "timestamp" attrs
  user := readUser attrs
  extra := readExtra attrs content t
  tags := readTags content

def innerText : List Markup → String
  | [.text s] => s
  | _ => ""

@[simp] theorem innerText_textContent (s : String) : innerText (textContent s) = s := by
  unfold textContent
  split
  · rename_i empty
    exact empty.symm
  · rfl

def readComment (attrs : List (String × String)) (content : List Markup) : CommentInfo where
  id := readNat (textOf "id" attrs)
  authorId := readNat (textOf "uid" attrs)
  body := String.join ((named "text" content).map (fun e => innerText e.2))
  createdAt := textOf "date" attrs
  authorDisplayName := textOf "user" attrs

def readBox (attrs : List (String × String)) : Option ShownBox :=
  (valueOf "min_lat" attrs).map (fun minlat =>
    ⟨minlat, textOf "min_lon" attrs, textOf "max_lat" attrs, textOf "max_lon" attrs⟩)

/-- Only a changeset that was finished says whether it is open. -/
def readChangeset (attrs : List (String × String)) (content : List Markup) : Item :=
  if (valueOf "open" attrs).isNone then
    .unfinished (readInt (textOf "id" attrs)) (textOf "created_at" attrs)
      (String.join ((named "error" content).map (fun e => innerText e.2)))
  else .changeset {
    id := readInt (textOf "id" attrs)
    createdAt := textOf "created_at" attrs
    closedAt := valueOf "closed_at" attrs
    user := readUser attrs
    box := readBox attrs
    commentsCount := readNat (textOf "comments_count" attrs)
    changesCount := readNat (textOf "changes_count" attrs)
    tags := readTags content
    comments := (named "discussion" content).flatMap (fun d =>
      (named "comment" d.2).map (fun e => readComment e.1 e.2)) }

def readRow (t : ObjectType) (attrs : List (String × String)) : Item :=
  .row t (readInt (textOf "old_id" attrs)) ((valueOf "new_id" attrs).map (fun id =>
    (readNat id, readNat (textOf "new_version" attrs))))

def actionNamed (name : String) : Option ActionType :=
  [ActionType.create, ActionType.modify, ActionType.del].find? (fun action => actionName action = name)

def typeNamed (name : String) : Option ObjectType :=
  [ObjectType.node, ObjectType.way, ObjectType.relation].find? (fun t => elementTypeName t = name)

def readElement (action : Option ActionType) : Markup → List Item
  | .element name attrs content =>
      (typeNamed name).toList.map (fun t => .object action t (readObject t attrs content))
  | .text _ => []

def readItem : Markup → List Item
  | .element name attrs content =>
      if name = "bounds" then
        [.bounds ⟨textOf "minlat" attrs, textOf "minlon" attrs, textOf "maxlat" attrs,
          textOf "maxlon" attrs⟩]
      else if name = "changeset" then [readChangeset attrs content]
      else if name = "error" then [.error (innerText content)]
      else
        match actionNamed name with
        | some action => content.flatMap (readElement (some action))
        | none => readElement none (.element name attrs content)
  | .text _ => []

def readRowItem : Markup → List Item
  | .element name attrs _ => (typeNamed name).toList.map (fun t => readRow t attrs)
  | .text _ => []

def readHeader (attrs : List (String × String)) : Header :=
  ⟨textOf "generator" attrs, textOf "copyright" attrs, textOf "attribution" attrs,
    textOf "license" attrs⟩

def readDocument : Markup → Option (Header × List Item)
  | .element name attrs content =>
      some (readHeader attrs,
        content.flatMap (if name = "diffResult" then readRowItem else readItem))
  | .text _ => none

end Reading

section Readback

variable (cfg : Settings) (header : Header)

@[simp] private theorem readTags_append (content content' : List Markup) :
    readTags (content ++ content') = readTags content ++ readTags content' := by
  unfold readTags
  rw [named_append, List.map_append]

private theorem readTags_tagTree (tags : List (String × String)) :
    readTags (tags.map tagTree) = tags := by
  unfold readTags tagTree
  rw [named_map, if_pos rfl, List.map_map]
  exact List.map_id' tags

private theorem named_nodes (name : String) (nodes : List Nat) : named name (nodes.map nodeRef) =
    if "nd" = name then nodes.map (fun node => ([("ref", toString node)], [])) else [] :=
  named_map name "nd" _ _ nodes

private theorem named_members (name : String) (members : List Member) :
    named name (members.map memberTree) = if "member" = name then members.map (fun member =>
      ([("type", elementTypeName member.memberType), ("ref", toString member.memberId),
        ("role", member.memberRole)], [])) else [] :=
  named_map name "member" _ _ members

private theorem named_tags (name : String) (tags : List (String × String)) :
    named name (tags.map tagTree) =
      if "tag" = name then tags.map (fun tag => ([("k", tag.1), ("v", tag.2)], [])) else [] :=
  named_map name "tag" _ _ tags

private theorem readTags_refTrees (t : ObjectType) (extra : Extra t) :
    readTags (refTrees t extra) = [] := by
  cases t with
  | node => rfl
  | way => exact congrArg (List.map _) (named_nodes "tag" extra)
  | relation => exact congrArg (List.map _) (named_members "tag" extra)

private theorem typeNamed_elementTypeName (t : ObjectType) :
    typeNamed (elementTypeName t) = some t := by
  cases t <;> rfl

private theorem readUser_userAttrs {attrs attrs' : List (String × String)}
    (displayName : Option String) (uid : Option Nat) (name : attrs.lookup "user" = none)
    (id : attrs.lookup "uid" = none) (name' : attrs'.lookup "user" = none)
    (id' : attrs'.lookup "uid" = none) :
    readUser (attrs ++ userAttrs displayName uid ++ attrs') = shownUser displayName uid := by
  unfold readUser valueOf
  cases displayName with
  | none => simp [userAttrs, shownUser, List.lookup_append, name, id, name', id']
  | some displayName =>
      cases uid with
      | none => simp [userAttrs, shownUser, List.lookup_append, name, id, name', id']
      | some uid => simp [userAttrs, shownUser, List.lookup_append, List.lookup_cons, name, id]

private theorem lookup_userAttrs {key : String} (displayName : Option String) (uid : Option Nat)
    (name : (key == "user") = false) (id : (key == "uid") = false) :
    (userAttrs displayName uid).lookup key = none := by
  unfold userAttrs
  split
  · simp only [List.lookup_cons, name, id, List.lookup_nil]
  · rfl

private theorem lookup_coordinateAttrs {key : String} (visible : Bool) (t : ObjectType)
    (extra : Extra t) (lat : (key == "lat") = false) (lon : (key == "lon") = false) :
    (coordinateAttrs cfg visible t extra).lookup key = none := by
  cases t with
  | node =>
      cases visible with
      | false => rfl
      | true => simp [coordinateAttrs, List.lookup_cons, lat, lon]
  | way => rfl
  | relation => rfl

private theorem read_nodes (nodes : List Nat) (tags : List (String × String)) :
    (named "nd" (nodes.map nodeRef ++ tags.map tagTree)).map
      (fun e => readNat (textOf "ref" e.1)) = nodes := by
  rw [named_append, named_nodes, named_tags, if_pos rfl, if_neg (by decide), List.append_nil,
    List.map_map]
  exact (List.map_congr_left fun node _ => readNat_repr node).trans (List.map_id' nodes)

private theorem read_members (members : List Member) (tags : List (String × String)) :
    (named "member" (members.map memberTree ++ tags.map tagTree)).map (fun e =>
      (⟨readType (textOf "type" e.1), readNat (textOf "ref" e.1), textOf "role" e.1⟩ : Member)) =
        members := by
  have back (member : Member) : (⟨readType (elementTypeName member.memberType),
      readNat (toString member.memberId), member.memberRole⟩ : Member) = member := by
    rw [readType_elementTypeName]
    exact congrArg (fun id => (⟨member.memberType, id, member.memberRole⟩ : Member))
      (readNat_repr member.memberId)
  rw [named_append, named_members, named_tags, if_pos rfl, if_neg (by decide), List.append_nil,
    List.map_map]
  exact (List.map_congr_left fun member _ => back member).trans (List.map_id' members)

private theorem textOf_objectAttrs {key : String} (t : ObjectType) (w : Written t)
    (name : (key == "user") = false) (id : (key == "uid") = false)
    (lat : (key == "lat") = false) (lon : (key == "lon") = false) :
    textOf key (objectAttrs cfg t w) = textOf key [("id", toString w.elem.id),
      ("visible", boolText w.elem.visible), ("version", toString w.elem.version),
      ("changeset", toString w.elem.changeset), ("timestamp", w.elem.timestamp)] := by
  unfold textOf valueOf objectAttrs writeCommon
  rw [List.lookup_append, List.lookup_append, lookup_userAttrs _ _ name id,
    lookup_coordinateAttrs cfg _ _ _ lat lon, Option.or_none, Option.or_none]

private theorem readExtra_tree (t : ObjectType) (w : Written t) :
    readExtra (objectAttrs cfg t w) (refTrees t w.extra ++ w.tags.map tagTree) t =
      shownExtra cfg w.elem.visible t w.extra := by
  obtain ⟨elem, extra, tags⟩ := w
  cases t with
  | node =>
      have common : ∀ key, key = "lat" ∨ key = "lon" → (writeCommon elem).lookup key = none := by
        rintro key (rfl | rfl)
        · rw [writeCommon, List.lookup_append, lookup_userAttrs _ _ (by decide) (by decide)]
          rfl
        · rw [writeCommon, List.lookup_append, lookup_userAttrs _ _ (by decide) (by decide)]
          rfl
      simp only [readExtra, valueOf, objectAttrs, List.lookup_append, common "lat" (.inl rfl),
        common "lon" (.inr rfl), Option.none_or, coordinateAttrs, shownExtra]
      cases elem.visible with
      | true => rfl
      | false => rfl
  | way => exact read_nodes extra tags
  | relation => exact read_members extra tags

private theorem readObject_tree (t : ObjectType) (w : Written t) :
    readObject t (objectAttrs cfg t w) (refTrees t w.extra ++ w.tags.map tagTree) = shown cfg w := by
  have text {key : String} := @textOf_objectAttrs cfg key t w
  have user : readUser (objectAttrs cfg t w) = shownUser w.elem.displayName w.elem.uid :=
    readUser_userAttrs _ _ rfl rfl (lookup_coordinateAttrs cfg _ _ _ rfl rfl)
      (lookup_coordinateAttrs cfg _ _ _ rfl rfl)
  have visible : decide (boolText w.elem.visible = "true") = w.elem.visible := by
    cases w.elem.visible with
    | true => rfl
    | false => rfl
  unfold readObject shown
  rw [text rfl rfl rfl rfl, text rfl rfl rfl rfl, text rfl rfl rfl rfl, text rfl rfl rfl rfl,
    text rfl rfl rfl rfl, user, readExtra_tree, readTags_append, readTags_refTrees,
    readTags_tagTree]
  simp [textOf, valueOf, List.lookup_cons, visible]

private theorem readElement_tree (action : Option ActionType) (t : ObjectType) (w : Written t) :
    readElement action (objectTree cfg t w) = [.object action t (shown cfg w)] := by
  rw [objectTree, readElement, typeNamed_elementTypeName]
  exact congrArg (fun o => [Item.object action t o]) (readObject_tree cfg t w)

private theorem readItem_objectTree (t : ObjectType) (w : Written t) :
    readItem (objectTree cfg t w) = [.object none t (shown cfg w)] := by
  rw [← readElement_tree cfg none t w]
  cases t with
  | node => rfl
  | way => rfl
  | relation => rfl

private theorem readItem_actionTree (w : AnyWritten) :
    readItem (actionTree cfg w) = [.object (some (actionOf w)) w.1 (shown cfg w.2)] := by
  have content : readItem (actionTree cfg w) =
      [objectTree cfg w.1 w.2].flatMap (readElement (some (actionOf w))) := by
    unfold actionTree
    cases actionOf w with
    | create => rfl
    | modify => rfl
    | del => rfl
  rw [content, List.flatMap_singleton, readElement_tree]

private theorem readRowItem_rowTree (row : DiffResult) : readRowItem (rowTree row) = [shownRow row] := by
  have read : readRow row.objType (("old_id", toString row.oldId) ::
      (if row.op = .delete ∧ row.deletionSkipped = false then []
        else [("new_id", toString row.newId), ("new_version", toString row.newVersion)])) =
        shownRow row := by
    unfold readRow shownRow
    split
    · simp [textOf, valueOf, List.lookup_cons]
    · simp [textOf, valueOf, List.lookup_cons]
  rw [rowTree, readRowItem, typeNamed_elementTypeName]
  exact congrArg (fun item => [item]) read

private theorem readComment_tree (comment : CommentInfo) :
    readComment [("id", toString comment.id), ("date", comment.createdAt),
      ("uid", toString comment.authorId), ("user", comment.authorDisplayName)]
      [.element "text" [] (textContent comment.body)] = comment := by
  simp [readComment, textOf, valueOf, List.lookup_cons, named, String.join]

private theorem lookup_box {key : String} (box : Option Bbox) (minlat : (key == "min_lat") = false)
    (minlon : (key == "min_lon") = false) (maxlat : (key == "max_lat") = false)
    (maxlon : (key == "max_lon") = false) :
    ((box.map (boxAttrs cfg)).getD []).lookup key = none := by
  cases box with
  | none => rfl
  | some b => simp [boxAttrs, List.lookup_cons, minlat, minlon, maxlat, maxlon]

private def early (info : ChangesetInfo) (isOpen : Bool) : List (String × String) :=
  changesetHead info ++ (if isOpen then [] else [("closed_at", info.closedAt)]) ++
    [("open", boolText isOpen)]

private def late (info : ChangesetInfo) : List (String × String) :=
  (info.boundingBox.map (boxAttrs cfg)).getD [] ++
    [("comments_count", toString info.commentsCount), ("changes_count", toString info.numChanges)]

private theorem changesetAttrs_eq (info : ChangesetInfo) (isOpen : Bool) :
    changesetAttrs cfg info isOpen =
      early info isOpen ++ userAttrs info.displayName info.uid ++ late cfg info := by
  simp [changesetAttrs, early, late]

private theorem valueOf_early {key : String} (info : ChangesetInfo) (isOpen : Bool)
    (name : (key == "user") = false) (id : (key == "uid") = false)
    (later : (late cfg info).lookup key = none) :
    valueOf key (changesetAttrs cfg info isOpen) = (early info isOpen).lookup key := by
  rw [changesetAttrs_eq, valueOf, List.lookup_append, List.lookup_append,
    lookup_userAttrs _ _ name id, later, Option.or_none, Option.or_none]

private theorem valueOf_late {key : String} (info : ChangesetInfo) (isOpen : Bool)
    (name : (key == "user") = false) (id : (key == "uid") = false)
    (earlier : (early info isOpen).lookup key = none) :
    valueOf key (changesetAttrs cfg info isOpen) = (late cfg info).lookup key := by
  rw [changesetAttrs_eq, valueOf, List.lookup_append, List.lookup_append,
    lookup_userAttrs _ _ name id, earlier, Option.none_or, Option.none_or]

private theorem late_none {key : String} (info : ChangesetInfo) (minlat : (key == "min_lat") = false)
    (minlon : (key == "min_lon") = false) (maxlat : (key == "max_lat") = false)
    (maxlon : (key == "max_lon") = false) (comments : (key == "comments_count") = false)
    (changes : (key == "changes_count") = false) : (late cfg info).lookup key = none := by
  rw [late, List.lookup_append, lookup_box cfg _ minlat minlon maxlat maxlon]
  simp [List.lookup_cons, comments, changes]

private theorem early_none {key : String} (info : ChangesetInfo) (isOpen : Bool)
    (id : (key == "id") = false) (created : (key == "created_at") = false)
    (closed : (key == "closed_at") = false) (open' : (key == "open") = false) :
    (early info isOpen).lookup key = none := by
  cases isOpen with
  | true => simp [early, changesetHead, List.lookup_cons, id, created, open']
  | false => simp [early, changesetHead, List.lookup_cons, id, created, closed, open']

private theorem readBox_changeset (info : ChangesetInfo) (isOpen : Bool) :
    readBox (changesetAttrs cfg info isOpen) = info.boundingBox.map (shownBox cfg) := by
  have behind {key : String} := @valueOf_late cfg key info isOpen
  unfold readBox textOf
  rw [behind rfl rfl (early_none info isOpen rfl rfl rfl rfl),
    behind rfl rfl (early_none info isOpen rfl rfl rfl rfl),
    behind rfl rfl (early_none info isOpen rfl rfl rfl rfl),
    behind rfl rfl (early_none info isOpen rfl rfl rfl rfl)]
  cases box : info.boundingBox with
  | none => simp [late, box, List.lookup_cons]
  | some b => simp [late, box, boxAttrs, shownBox, List.lookup_cons]

private theorem counts_changeset (info : ChangesetInfo) (isOpen : Bool) :
    readNat (textOf "comments_count" (changesetAttrs cfg info isOpen)) = info.commentsCount ∧
      readNat (textOf "changes_count" (changesetAttrs cfg info isOpen)) = info.numChanges := by
  have behind {key : String} := @valueOf_late cfg key info isOpen
  unfold textOf
  rw [behind rfl rfl (early_none info isOpen rfl rfl rfl rfl),
    behind rfl rfl (early_none info isOpen rfl rfl rfl rfl), late, List.lookup_append,
    List.lookup_append, lookup_box cfg _ rfl rfl rfl rfl, lookup_box cfg _ rfl rfl rfl rfl]
  simp [List.lookup_cons]

private theorem readTags_discussion (c : ChangesetCall) :
    readTags (c.tags.map tagTree ++ (if c.includeComments then
      [.element "discussion" [] (c.comments.map commentTree)] else [])) = c.tags := by
  rw [readTags_append, readTags_tagTree]
  cases c.includeComments with
  | true => simp [readTags, named]
  | false => simp [readTags, named]

private theorem comments_discussion (c : ChangesetCall) :
    (named "discussion" (c.tags.map tagTree ++ (if c.includeComments then
      [.element "discussion" [] (c.comments.map commentTree)] else []))).flatMap (fun d =>
        (named "comment" d.2).map (fun e => readComment e.1 e.2)) =
      if c.includeComments then c.comments else [] := by
  have inner : named "comment" (c.comments.map commentTree) = c.comments.map (fun comment =>
      ([("id", toString comment.id), ("date", comment.createdAt), ("uid", toString comment.authorId),
        ("user", comment.authorDisplayName)], [.element "text" [] (textContent comment.body)])) := by
    exact (named_map "comment" "comment" _ _ c.comments).trans (if_pos rfl)
  have back : (c.comments.map (fun comment =>
      ([("id", toString comment.id), ("date", comment.createdAt), ("uid", toString comment.authorId),
        ("user", comment.authorDisplayName)], [Markup.element "text" [] (textContent comment.body)]))).map
          (fun e => readComment e.1 e.2) = c.comments := by
    rw [List.map_map]
    exact (List.map_congr_left fun comment _ => readComment_tree comment).trans (List.map_id' _)
  rw [named_append, named_tags, if_neg (by decide), List.nil_append]
  cases c.includeComments with
  | true =>
      change ([([], c.comments.map commentTree)] : List (List (String × String) × List Markup)).flatMap
        _ = c.comments
      rw [List.flatMap_singleton, inner, back]
  | false => rfl

private theorem readItem_changesetTree (c : ChangesetCall) :
    readItem (changesetTree cfg c) =
      [shownChangeset cfg c.info c.tags c.includeComments c.comments c.now] := by
  unfold changesetTree shownChangeset
  cases asked : isOpenAt cfg c.info c.now with
  | error e =>
      have read : readChangeset (changesetHead c.info) [errorTree (what e)] =
          .unfinished c.info.id c.info.createdAt (what e) := by
        simp [readChangeset, changesetHead, valueOf, textOf, List.lookup_cons, named, errorTree,
          String.join]
      exact congrArg (fun item => [item]) read
  | ok isOpen =>
      have before {key : String} := @valueOf_early cfg key c.info isOpen
      have user : readUser (changesetAttrs cfg c.info isOpen) =
          shownUser c.info.displayName c.info.uid := by
        rw [changesetAttrs_eq]
        exact readUser_userAttrs _ _ (early_none c.info isOpen rfl rfl rfl rfl)
          (early_none c.info isOpen rfl rfl rfl rfl) (late_none cfg c.info rfl rfl rfl rfl rfl rfl)
          (late_none cfg c.info rfl rfl rfl rfl rfl rfl)
      have finished : (valueOf "open" (changesetAttrs cfg c.info isOpen)).isNone = false := by
        rw [before rfl rfl (late_none cfg c.info rfl rfl rfl rfl rfl rfl)]
        cases isOpen <;> rfl
      have closed : valueOf "closed_at" (changesetAttrs cfg c.info isOpen) =
          if isOpen then none else some c.info.closedAt := by
        rw [before rfl rfl (late_none cfg c.info rfl rfl rfl rfl rfl rfl)]
        cases isOpen <;> rfl
      have head : valueOf "id" (changesetAttrs cfg c.info isOpen) = some (toString c.info.id) ∧
          valueOf "created_at" (changesetAttrs cfg c.info isOpen) = some c.info.createdAt := by
        rw [before rfl rfl (late_none cfg c.info rfl rfl rfl rfl rfl rfl),
          before rfl rfl (late_none cfg c.info rfl rfl rfl rfl rfl rfl)]
        exact ⟨rfl, rfl⟩
      obtain ⟨commentsCount, changesCount⟩ := counts_changeset cfg c.info isOpen
      refine congrArg (fun item => [item]) ?_
      unfold readChangeset
      rw [finished, user, closed, readBox_changeset, commentsCount, changesCount,
        readTags_discussion, comments_discussion]
      simp [textOf, head]

private theorem flatMap_items {α : Type} {tree : α → Markup} {item : α → Item}
    {read : Markup → List Item} (each : ∀ a, read (tree a) = [item a]) (l : List α) :
    (l.map tree).flatMap read = l.map item := by
  rw [List.flatMap_map]
  exact (List.flatMap_congr fun a _ => each a).trans List.map_eq_flatMap.symm

/-- The root element tells what the body does. -/
theorem readDocument_documentTree (body : DocumentBody) :
    readDocument (documentTree cfg header body) = some (header, body.items cfg) := by
  have head : readHeader (headerAttrs header) = header := by
    simp [readHeader, headerAttrs, textOf, valueOf, List.lookup_cons]
  have failure (e : Exception) : readItem (errorTree (what e)) = [.error (what e)] :=
    congrArg (fun text => [Item.error text]) (innerText_textContent (what e))
  have failures (failed : Option Exception) :
      (failed.map (fun e => errorTree (what e))).toList.flatMap readItem =
        (failed.map (fun e => Item.error (what e))).toList := by
    cases failed with
    | none => rfl
    | some e => exact (List.append_nil _).trans (failure e)
  have content : (contentTrees cfg body).flatMap
      (if body.rootName = "diffResult" then readRowItem else readItem) = body.items cfg := by
    cases body with
    | current bounds elements failed =>
        have head : (bounds.map boundsTree).toList.flatMap readItem =
            (bounds.map (fun b => Item.bounds (shownBounds b))).toList := by
          cases bounds with
          | none => rfl
          | some b => rfl
        rw [DocumentBody.rootName, if_neg (by decide), contentTrees, List.flatMap_append,
          List.flatMap_append, head, flatMap_items (fun w : AnyWritten => readItem_objectTree cfg w.1 w.2),
          failures]
        rfl
    | changeset c =>
        rw [DocumentBody.rootName, if_neg (by decide)]
        cases c with
        | error e => exact (List.append_nil _).trans (failure e)
        | ok c => exact (List.append_nil _).trans (readItem_changesetTree cfg c)
    | changes c =>
        rw [DocumentBody.rootName, if_neg (by decide)]
        cases c with
        | error e => exact (List.append_nil _).trans (failure e)
        | ok elements => exact flatMap_items (readItem_actionTree cfg) elements
    | diffResult rows =>
        rw [DocumentBody.rootName, if_pos rfl]
        exact flatMap_items readRowItem_rowTree rows
  rw [documentTree, readDocument, head, content]

end Readback

end Cgimap.Output.XmlFormatter
