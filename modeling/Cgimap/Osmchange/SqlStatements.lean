/- path: Cgimap/Osmchange/SqlStatements
   generality: I
   source: src/backend/apidb/changeset_upload/{node,way,relation}_updater.cpp
   digest: The prepared statements of the three updaters, by name. -/

import Cgimap.Osmchange.UploadRecords

set_option autoImplicit false
set_option relaxedAutoImplicit false

namespace Cgimap.Osmchange.SqlStatements

open Cgimap.Library.KeyedTable
open Cgimap.Library.StatementProgram
open Cgimap.Model.Types
open Cgimap.Model.Database
open Cgimap.Osmchange.UploadRecords

def uniqueViolation : Exception := .std "duplicate key value violates unique constraint"

def objectLocks (t : ObjectType) (mode : LockMode) (ids : List Nat) : List (Lockable × LockMode) :=
  ids.map (fun id => (.object (t, id), mode))

section PerType

variable (t : ObjectType)

/-- `ids_mapping`: one sequence value for each placeholder, in array order. -/
def idsMapping (db : Db) (es : List (Elem t)) : List (Int × Nat) :=
  es.zipIdx.map (fun p => (p.1.oldId, db.objectSeq t + p.2))

/-- `tmp_* INNER JOIN ids_mapping ON old_id`. -/
def newCurrentRows (now : Int) (db : Db) (es : List (Elem t)) : List (CurrentRow t) :=
  es.flatMap (fun e => ((idsMapping t db es).filter (fun m => decide (m.1 = e.oldId))).map
    (fun m => ⟨m.2, 1, e.changesetId, true, now, e.coord⟩))

/-- `insert_new_*_to_current_table`; the result rows are `(old_id, id)`. -/
def insertNewToCurrentTable (now : Int) (es : List (Elem t)) : SqlStmt (List (Int × Nat)) where
  exec db :=
    match (db.current t).insert (newCurrentRows t now db es) with
    | none => .error uniqueViolation
    | some T => .ok (idsMapping t db es,
        { db.setCurrent t T with
          objectSeq := Function.update db.objectSeq t (db.objectSeq t + es.length) })
  locks db := objectLocks t .exclusive ((idsMapping t db es).map Prod.snd)

def lockCurrentIds (ids : List Nat) : SqlStmt (List Nat) where
  exec db := .ok ((sortUnique ids).filter (fun id => ((db.current t).find? id).isNone), db)
  locks db := objectLocks t .exclusive (ids.filter (fun id => ((db.current t).find? id).isSome))

/-- `lock_future_*`, `FOR SHARE` on the visible rows: the ids that could not be
locked because they do not exist or are not visible. -/
def lockFutureIds (ids : List Nat) : SqlStmt (List Nat) where
  exec db := .ok ((sortUnique ids).filter (fun id => !db.visible (t, id)), db)
  locks db := objectLocks t .shared (ids.filter (fun id => db.visible (t, id)))

/-- `t.version <> cn.version` in the join of one pair with its current row. -/
def versionMismatch (db : Db) (p : Nat × Nat) : Option (Nat × Nat × Nat) :=
  match (db.current t).find? p.1 with
  | some r => if p.2 = r.version then none else some (p.1, p.2, r.version)
  | none => none

/-- `check_current_*_versions`: id, expected and actual version of one mismatch. -/
def checkVersions (ids : List (Nat × Nat)) : SqlStmt (Option (Nat × Nat × Nat)) :=
  .query fun db => ids.findSome? (versionMismatch t db)

def alreadyDeleted (ids : List Nat) : SqlStmt (List (Nat × Nat)) :=
  .query fun db => ((db.current t).select (fun r => decide (r.id ∈ ids) && !r.visible)).map
    (fun r => (r.id, r.version))

def stillReferenced (ids : List Nat) : SqlStmt (List (Nat × Nat)) :=
  .query fun db => ((db.current t).select (fun r => decide (r.id ∈ ids))).map
    (fun r => (r.id, r.version))

/-- The row of `u` joined to a current row. A row of the target table is updated
once, whatever the number of joined rows. -/
def joined (es : List (Elem t)) (r : CurrentRow t) : Option (Elem t) :=
  es.find? (fun e => decide (e.id = r.id ∧ e.version = r.version))

/-- The `SET` clause. Coordinates are only set by `update_current_nodes`. -/
def setRow (now : Int) (visible : Bool) (r : CurrentRow t) (e : Elem t) : CurrentRow t :=
  { r with
    version := e.version + 1
    changesetId := e.changesetId
    visible := visible
    timestamp := now
    coord := if visible then e.coord else r.coord }

def updateRow (now : Int) (visible : Bool) (es : List (Elem t)) (r : CurrentRow t) :
    CurrentRow t :=
  match joined t es r with
  | some e => setRow t now visible r e
  | none => r

theorem updateRow_id (now : Int) (visible : Bool) (es : List (Elem t)) (r : CurrentRow t) :
    (updateRow t now visible es r).id = r.id := by
  unfold updateRow
  cases joined t es r <;> rfl

/-- `update_current_*` and `delete_current_nodes`; returns id and new version. -/
def updateCurrentRows (now : Int) (visible : Bool) (es : List (Elem t)) :
    SqlStmt (List (Nat × Nat)) where
  exec db := .ok (((db.current t).select (fun r => (joined t es r).isSome)).map
      (fun r => (r.id, r.version + 1)),
    db.setCurrent t
      ((db.current t).update (updateRow t now visible es) (updateRow_id t now visible es)))
  locks db := objectLocks t .exclusive
    (((db.current t).select (fun r => (joined t es r).isSome)).map CurrentRow.id)

def insertTagRows (rows : List TagRow) : SqlStmt Unit where
  exec db :=
    match (db.currentTags t).insert rows with
    | none => .error uniqueViolation
    | some T => .ok ((), db.setTags t T)

def insertRefRows (rows : List (RefRow t)) : SqlStmt Unit where
  exec db :=
    match (db.currentRefs t).insert rows with
    | none => .error uniqueViolation
    | some T => .ok ((), db.setRefs t T)

def deleteTagRows (ids : List Nat) : SqlStmt Unit where
  exec db := .ok ((), db.setTags t ((db.currentTags t).delete (fun r => decide (r.owner ∈ ids))))

def deleteRefRows (ids : List Nat) : SqlStmt Unit where
  exec db := .ok ((), db.setRefs t ((db.currentRefs t).delete (fun r => decide (r.owner ∈ ids))))

/-- `current_*_to_history`; returns the number of copied rows. -/
def currentToHistory (ids : List Nat) : SqlStmt Nat where
  exec db :=
    let rows := ((db.current t).select (fun r => decide (r.id ∈ ids))).map
      (fun r => (⟨r, none⟩ : HistoryRow t))
    match (db.history t).insert rows with
    | none => .error uniqueViolation
    | some T => .ok (rows.length, db.setHistory t T)

/-- `current_*_tags_to_history`: the version comes from the joined current row. -/
def currentTagsToHistory (ids : List Nat) : SqlStmt Unit where
  exec db :=
    let rows := ((db.currentTags t).select (fun r => decide (r.owner ∈ ids))).filterMap
      (fun r => (db.version? t r.owner).map (fun v => (⟨r, v⟩ : HistoryTagRow)))
    match (db.historyTags t).insert rows with
    | none => .error uniqueViolation
    | some T => .ok ((), db.setHistoryTags t T)

def currentRefsToHistory (ids : List Nat) : SqlStmt Unit where
  exec db :=
    let rows := ((db.currentRefs t).select (fun r => decide (r.owner ∈ ids))).filterMap
      (fun r => (db.version? t r.owner).map (fun v => (⟨r, v⟩ : HistoryRefRow t)))
    match (db.historyRefs t).insert rows with
    | none => .error uniqueViolation
    | some T => .ok ((), db.setHistoryRefs t T)

end PerType

/-- `GROUP BY` the first component, collecting the second ones. -/
def groupBy (rows : List (Nat × Nat)) : List (Nat × List Nat) :=
  (rows.map Prod.fst).dedup.map
    (fun k => (k, (rows.filter (fun r => decide (r.1 = k))).map Prod.snd))

/-- References held by rows of type `owner` to objects of type `target` among
`ids`: `node_still_referenced_by_way`, `node_still_referenced_by_relation` and
`way_still_referenced_by_relation`. -/
def referencedBy (owner target : ObjectType) (ids : List Nat) : SqlStmt (List (Nat × List Nat)) :=
  .query fun db => groupBy (((db.currentRefs owner).select
    (fun r => decide (r.ref.target.1 = target ∧ r.ref.target.2 ∈ ids))).map
      (fun r => (r.ref.target.2, r.owner)))

/-- `MIN` and `MAX` over latitude and longitude; null when there is no row. -/
def bounds : List NodeCoord → Option Bbox
  | [] => none
  | c :: cs => some (cs.foldl (fun b c => b.expand (Bbox.ofPoint c.lat c.lon))
      (Bbox.ofPoint c.lat c.lon))

def nodeCoord? (db : Db) (id : Nat) : Option NodeCoord :=
  ((db.current .node).find? id).map (fun r => (r.coord : NodeCoord))

def nodeCoords (db : Db) (ids : List Nat) : List NodeCoord :=
  ((db.current .node).select (fun r => decide (r.id ∈ ids))).map (fun r => (r.coord : NodeCoord))

/-- `current_nodes` joined to `current_way_nodes` and `current_ways`. -/
def wayCoords (db : Db) (ids : List Nat) : List NodeCoord :=
  ((db.currentRefs .way).select (fun wn => decide (wn.owner ∈ ids) &&
      ((db.current .way).find? wn.owner).isSome)).filterMap
    (fun wn => nodeCoord? db wn.ref.target.2)

def calcNodeBboxRow (ids : List Nat) : SqlStmt (Option Bbox) :=
  .query fun db => bounds (nodeCoords db ids)

def calcWayBboxRow (ids : List Nat) : SqlStmt (Option Bbox) :=
  .query fun db => bounds (wayCoords db ids)

/-- The ids of the members of one type in the given relations, with repetition. -/
def memberIds (db : Db) (ty : ObjectType) (ids : List Nat) : List Nat :=
  ((db.currentRefs .relation).select
    (fun m => decide (m.owner ∈ ids) && decide (m.ref.target.1 = ty))).map
      (fun m => m.ref.target.2)

def calcRelationBboxNodesRow (ids : List Nat) : SqlStmt (Option Bbox) :=
  .query fun db => bounds ((memberIds db .node ids).filterMap (nodeCoord? db))

def calcRelationBboxWaysRow (ids : List Nat) : SqlStmt (Option Bbox) :=
  .query fun db => bounds ((memberIds db .way ids).flatMap (fun w => wayCoords db [w]))

/-- `relations_with_new_relation_members`: pairs of relation and member id that
are not in `current_relation_members`. -/
def relationsWithNewRelationMembersRows (pairs : List (Nat × Nat)) : SqlStmt (List Nat) :=
  .query fun db => sortUnique ((pairs.filter (fun p =>
    !(db.currentRefs .relation).rows.any (fun m =>
      decide (m.owner = p.1 ∧ m.ref.target = (.relation, p.2))))).map Prod.fst)

/-- `relations_with_changed_relation_tags`. The second branch joins the current
tags to `tmp_relation_tags`, so it only sees relations with a new tag. -/
def relationsWithChangedRelationTagsRows (tmp : List TagRow) : SqlStmt (List Nat) :=
  .query fun db =>
    let added := tmp.filter (fun t => !decide (t ∈ (db.currentTags .relation).rows))
    let removed := (db.currentTags .relation).rows.filter (fun c =>
      tmp.any (fun t => decide (t.owner = c.owner)) && !decide (c ∈ tmp))
    sortUnique ((added ++ removed).map TagRow.owner)

abbrev TmpMember := Nat × Obj

def relationsWithAddedMembersRows (tmp : List TmpMember) : SqlStmt (List Obj) :=
  .query fun db => (tmp.filter (fun tm => !(db.currentRefs .relation).rows.any
    (fun cm => decide (cm.owner = tm.1 ∧ cm.ref.target = tm.2)))).map Prod.snd

/-- `relations_with_removed_way_node_members`: members of every type of the
relations that occur in `tmp_member`. -/
def relationsWithRemovedMembersRows (tmp : List TmpMember) : SqlStmt (List Obj) :=
  .query fun db => ((db.currentRefs .relation).select (fun cm =>
    tmp.any (fun tm => decide (tm.1 = cm.owner)) &&
      !tmp.any (fun tm => decide (tm.1 = cm.owner ∧ tm.2 = cm.ref.target)))).map
        (fun cm => cm.ref.target)

def childRelationIds (ids : List Nat) : SqlStmt (List Nat) :=
  .query fun db => (((db.currentRefs .relation).select (fun m =>
    decide (m.owner ∈ ids ∧ m.ref.target.1 = .relation) &&
      ((db.current .relation).find? m.owner).isSome)).map (fun m => m.ref.target.2)).dedup

/-- `relation_still_referenced_by_relation`: members among `ids` of visible
relations outside `ids`. -/
def relationStillReferencedByRelation (ids : List Nat) : SqlStmt (List (Nat × List Nat)) :=
  .query fun db => groupBy (((db.currentRefs .relation).select (fun m =>
    db.visible (.relation, m.owner) && decide (m.ref.target.1 = .relation) &&
      decide (m.ref.target.2 ∈ ids) && !decide (m.owner ∈ ids))).map
        (fun m => (m.ref.target.2, m.owner)))

end Cgimap.Osmchange.SqlStatements
