/- path: Cgimap/Read/Endpoints
   generality: I
   source: src/api06/*_handler.cpp (the handlers of GET routes), src/osm_current_responder.cpp,
     src/osm_changeset_responder.cpp, src/osmchange_responder.cpp,
     src/backend/apidb/{readonly,common}_pgsql_selection.cpp
   digest: What each reading endpoint selects and which calls its responder makes. -/

import Cgimap.Osmchange.DiffTracking
import Cgimap.Read.DataSelection

set_option autoImplicit false
set_option relaxedAutoImplicit false

namespace Cgimap.Read.Endpoints

open Cgimap.Model.Types
open Cgimap.Model.Database
open Cgimap.Model.Users
open Cgimap.Osmchange.DiffTracking
open Cgimap.Read.ArrayText
open Cgimap.Read.DataSelection

structure IdVersion where
  id : Nat
  version : Option Nat
  deriving DecidableEq, Repr

/-- The limits of the map call among the settings. -/
structure MapLimits where
  maxNodes : Nat
  areaMax : ℚ

/-- A handler of a GET route with the parameters it was constructed with. -/
inductive Endpoint where
  | map (bounds : GeoBox)
  | object (t : ObjectType) (id : Nat)
  | version (t : ObjectType) (id v : Nat)
  | history (t : ObjectType) (id : Nat)
  | objects (t : ObjectType) (ids : List IdVersion)
  | wayFull (id : Nat)
  | relationFull (id : Nat)
  | nodeWays (id : Nat)
  | nodeRelations (id : Nat)
  | wayRelations (id : Nat)
  | relationRelations (id : Nat)
  | changeset (id : Int) (includeDiscussion : Bool)
  | changesetDownload (id : Int)
  deriving DecidableEq, Repr

section Responders

variable (cfg : Settings) (limits : MapLimits) (db : Db) (sel : Selection)

def mapResponder (bounds : GeoBox) : Except Exception Selection :=
  let (numNodes, sel) := selectNodesFromBbox db sel cfg bounds limits.maxNodes
  if limits.maxNodes < numNodes then
    .error (.badRequest s!"You requested too many nodes (limit is {limits.maxNodes}). Either request a smaller area, or use planet.osm")
  else if 0 < numNodes then
    let sel := selectParents db .way .node sel
    let sel := selectMembers db .way .node sel
    let sel := selectParents db .relation .way sel
    let sel := selectParents db .relation .node sel
    .ok (selectRelationsFromRelations db sel false)
  else .ok sel

/-- `node_responder`, `way_responder` and `relation_responder`. -/
def objectResponder (t : ObjectType) (id : Nat) : Except Exception Selection :=
  let (count, sel) := selectObjects db t sel [id]
  if count = 0 then .error (.notFound s!"{t.name} {id} was not found.")
  else if checkVisibility db t id = .deleted then .error (.gone "")
  else .ok sel

def versionResponder (t : ObjectType) (id v : Nat) : Except Exception Selection := do
  let (count, sel) ← selectHistorical db t sel [toLex (id, v)]
  if count = 0 then .error (.notFound "") else .ok sel

def historyResponder (t : ObjectType) (id : Nat) : Except Exception Selection := do
  let (count, sel) ← selectWithHistory db t sel [id]
  if count = 0 then .error (.notFound "") else .ok sel

def currentIds (ids : List IdVersion) : List Nat :=
  ids.filterMap (fun idv => if idv.version.isNone then some idv.id else none)

def historicIds (ids : List IdVersion) : List Edition :=
  ids.filterMap (fun idv => idv.version.map (fun v => toLex (idv.id, v)))

/-- The conversion of an array of ids to `bigint[]`, which the queries begin with. -/
def bigintArray (ids : List Nat) : Except Exception Unit :=
  match ids.find? (fun id => decide (2 ^ 63 ≤ id)) with
  | some id => .error (.std s!"ERROR:  value \"{id}\" is out of range for type bigint")
  | none => .ok ()

/-- `nodes_responder`, `ways_responder` and `relations_responder`. -/
def objectsResponder (t : ObjectType) (ids : List IdVersion) : Except Exception Selection := do
  bigintArray (currentIds ids)
  let (numCurrent, sel) := selectObjects db t sel (currentIds ids)
  bigintArray ((historicIds ids).map (fun ed => (ofLex ed).1))
  let (numHistoric, sel) ← selectHistorical db t sel (historicIds ids)
  if numCurrent + numHistoric ≠ ids.length then
    .error (.notFound s!"One or more of the {t.lowerName}s were not found.")
  else .ok sel

/-- `check_visibility` of the two full responders. -/
def checkFull (t : ObjectType) (id : Nat) : Except Exception Unit :=
  match checkVisibility db t id with
  | .nonExist => .error (.notFound s!"{t.name} {id} was not found.")
  | .deleted => .error (.gone "")
  | .exists => .ok ()

def wayFullResponder (id : Nat) : Except Exception Selection := do
  let (count, sel) := selectObjects db .way sel [id]
  if count = 0 then .error (.notFound s!"Way {id} was not found.")
  else
    checkFull db .way id
    .ok (selectMembers db .way .node sel)

def relationFullResponder (id : Nat) : Except Exception Selection := do
  let (count, sel) := selectObjects db .relation sel [id]
  if count = 0 then .error (.notFound s!"Relation {id} was not found.")
  else
    checkFull db .relation id
    let sel := selectMembers db .relation .node sel
    let sel := selectMembers db .relation .way sel
    let sel := selectMembers db .way .node sel
    .ok (selectMembers db .relation .relation sel)

/-- `node_ways_responder`, `node_relations_responder` and `way_relations_responder`: the
objects of type `t` that refer to the object of type `t'`. -/
def parentsResponder (t t' : ObjectType) (id : Nat) : Except Exception Selection :=
  let (count, sel) := selectObjects db t' sel [id]
  let sel := if 0 < count ∧ checkVisibility db t' id ≠ .deleted then selectParents db t t' sel
    else sel
  .ok (dropObjects t' sel)

def relationRelationsResponder (id : Nat) : Except Exception Selection :=
  let (count, sel) := selectObjects db .relation sel [id]
  if 0 < count ∧ checkVisibility db .relation id ≠ .deleted then
    .ok (selectRelationsFromRelations db sel true)
  else .ok (dropObjects .relation sel)

def changesetResponder (id : Int) (includeDiscussion : Bool) : Except Exception Selection :=
  let (count, sel) := selectChangesets db sel [id]
  if count = 0 then .error (.notFound s!"Changeset {id} was not found.")
  else .ok (if includeDiscussion then { sel with includeChangesetDiscussions := true } else sel)

def changesetDownloadResponder (id : Int) : Except Exception Selection := do
  let (count, sel) := selectChangesets db sel [id]
  if count = 0 then .error (.notFound s!"Changeset {id} was not found.")
  else
    let (_, sel) ← selectHistoricalByChangesets db sel [id]
    .ok sel

def Endpoint.responder : Endpoint → Except Exception Selection
  | .map bounds => mapResponder cfg limits db sel bounds
  | .object t id => objectResponder db sel t id
  | .version t id v => versionResponder db sel t id v
  | .history t id => historyResponder db sel t id
  | .objects t ids => objectsResponder db sel t ids
  | .wayFull id => wayFullResponder db sel id
  | .relationFull id => relationFullResponder db sel id
  | .nodeWays id => parentsResponder db sel .way .node id
  | .nodeRelations id => parentsResponder db sel .relation .node id
  | .wayRelations id => parentsResponder db sel .relation .way id
  | .relationRelations id => relationRelationsResponder db sel id
  | .changeset id includeDiscussion => changesetResponder db sel id includeDiscussion
  | .changesetDownload id => changesetDownloadResponder db sel id

end Responders

section Documents

inductive ActionType where
  | create
  | modify
  | del
  deriving DecidableEq, Repr

structure CommentInfo where
  id : Nat
  authorId : Nat
  body : String
  createdAt : String
  authorDisplayName : String
  deriving DecidableEq, Repr

/-- `changeset_info`; the box in scaled coordinates. -/
structure ChangesetInfo where
  id : Int
  createdAt : String
  closedAt : String
  uid : Option Nat
  displayName : Option String
  boundingBox : Option Bbox
  numChanges : Nat
  commentsCount : Nat
  deriving DecidableEq, Repr

inductive Call where
  | startDocument (name : String)
  | endDocument
  | writeBounds (bounds : GeoBox)
  | startElement
  | endElement
  | startChangeset (multiSelection : Bool)
  | endChangeset (multiSelection : Bool)
  | startAction (action : ActionType)
  | endAction (action : ActionType)
  | writeObject (t : ObjectType) (w : Written t)
  | writeChangeset (info : ChangesetInfo) (tags : List (String × String))
      (includeComments : Bool) (comments : List CommentInfo) (now : Int)
  | writeDiffResult (row : DiffResult)
  | error (e : Exception)
  | errorText (text : String)

variable (store : Store) (sel : Selection)

def andThen {α : Type} (first next : List α × Option Exception) : List α × Option Exception :=
  match first.2 with
  | some e => (first.1, some e)
  | none => (first.1 ++ next.1, next.2)

def writeCalls (t : ObjectType) : List Call × Option Exception :=
  ((writeObjects store t sel).1.map (Call.writeObject t), (writeObjects store t sel).2)

/-- The handler of the exceptions that a `write` meets. -/
def caught (out : List Call × Option Exception) : List Call :=
  out.1 ++ (out.2.map Call.error).toList

def writeCurrent (bounds : Option GeoBox) : List Call :=
  caught (andThen
    ([.startDocument "osm"] ++ (bounds.map Call.writeBounds).toList ++ [.startElement], none)
    (andThen (writeCalls store sel .node)
      (andThen (writeCalls store sel .way) (writeCalls store sel .relation)))) ++
    [.endElement, .endDocument]

abbrev AnyWritten := (t : ObjectType) × Written t

def typeRank : ObjectType → Nat
  | .node => 1
  | .way => 2
  | .relation => 3

/-- The comparison of two elements in `osmchange_responder.cpp`. -/
def beforeOrEqual (a b : AnyWritten) : Bool :=
  if a.2.elem.timestamp ≠ b.2.elem.timestamp then
    decide (a.2.elem.timestamp < b.2.elem.timestamp)
  else if a.2.elem.version ≠ b.2.elem.version then decide (a.2.elem.version < b.2.elem.version)
  else if a.1 ≠ b.1 then decide (typeRank a.1 < typeRank b.1)
  else decide (a.2.elem.id ≤ b.2.elem.id)

def actionOf (w : AnyWritten) : ActionType :=
  if w.2.elem.version = 1 then .create else if w.2.elem.visible then .modify else .del

def writeSorted (elements : List AnyWritten) : List Call :=
  (elements.insertionSort (fun a b => beforeOrEqual a b = true)).flatMap (fun w =>
    [.startAction (actionOf w), .writeObject w.1 w.2, .endAction (actionOf w)])

def sortable (t : ObjectType) : List AnyWritten × Option Exception :=
  ((writeObjects store t sel).1.map (Sigma.mk t), (writeObjects store t sel).2)

/-- `osmchange_responder::write`. Nothing is written before everything is read. -/
def writeOsmChange : List Call :=
  let read := andThen (sortable store sel .node)
    (andThen (sortable store sel .way) (sortable store sel .relation))
  [.startDocument "osmChange"] ++
    (match read.2 with
      | some e => [.error e]
      | none => writeSorted read.1) ++ [.endDocument]

/-- The visible comments of a changeset whose author exists, oldest first. -/
def commentsOf (id : Int) : List CommentRow :=
  (store.accounts.comments.filter (fun c =>
    decide (c.changesetId = id) && c.visible && (store.db.users.find? c.authorId).isSome)).insertionSort
    (fun a b => a.createdAt ≤ b.createdAt)

def extractComments (rows : List CommentRow) : Except Exception (List CommentInfo) := do
  let ids ← psqlArrayIdsToVector (arrayAgg (rows.map (fun c => toString c.id)))
  let authors ← psqlArrayIdsToVector (arrayAgg (rows.map (fun c => toString c.authorId)))
  let names := psqlArrayToVector (arrayAgg (rows.map (fun c =>
    (store.accounts.details c.authorId).displayName)))
  let bodies := psqlArrayToVector (arrayAgg (rows.map CommentRow.body))
  let created := psqlArrayToVector (arrayAgg (rows.map (fun c => toCharIso c.createdAt)))
  if ids.length = authors.length ∧ authors.length = names.length ∧
      names.length = bodies.length ∧ bodies.length = created.length then
    .ok ((ids.zip (authors.zip (bodies.zip (created.zip names)))).map (fun c =>
      ⟨c.1, c.2.1, c.2.2.1, c.2.2.2.1, c.2.2.2.2⟩))
  else .error (.std "Mismatch in comments author_id, display_name, body and created_at size")

def extractChangeset (now : Int) (c : ChangesetRow) : Except Exception Call := do
  let tags := orderByKey ((store.db.changesetTags.select (fun r =>
    decide (r.changesetId = c.id))).map (fun r => (r.k, r.v)))
  let tags ← extractTags (arrayAgg (tags.map Prod.fst)) (arrayAgg (tags.map Prod.snd))
  let comments ← extractComments store (commentsOf store c.id)
  .ok (.writeChangeset ⟨c.id, toCharIso c.createdAt, toCharIso c.closedAt, (userOf store c.id).1,
    (userOf store c.id).2, c.bbox, c.numChanges, comments.length⟩ tags
    sel.includeChangesetDiscussions comments now)

def writeChangesets (now : Int) : List Call × Option Exception :=
  if sel.changesets = ∅ then ([], none)
  else
    match fetchChangesets store sel.changesets with
    | .error e => ([], some e)
    | .ok _ => untilError (((inOrder sel.changesets).filterMap (fun id =>
        store.db.changesets.find? id)).map (extractChangeset store sel now))

def writeChangesetDocument (now : Int) : List Call :=
  caught (andThen ([.startDocument "osm", .startChangeset false], none)
    (writeChangesets store sel now)) ++ [.endChangeset false, .endDocument]

def Endpoint.write (now : Int) : Endpoint → List Call
  | .map bounds => writeCurrent store sel (some bounds)
  | .changeset _ _ => writeChangesetDocument store sel now
  | .changesetDownload _ => writeOsmChange store sel
  | .object _ _ | .version _ _ _ | .history _ _ | .objects _ _ | .wayFull _ | .relationFull _
  | .nodeWays _ | .nodeRelations _ | .wayRelations _ | .relationRelations _ =>
      writeCurrent store sel none

end Documents

end Cgimap.Read.Endpoints
