/- path: Cgimap/Osmchange/UpdaterProcess
   generality: I
   source: src/backend/apidb/changeset_upload/{node,way,relation}_updater.cpp
   digest: The nine process functions and what they write. -/

import Cgimap.Osmchange.UpdaterChecks

set_option autoImplicit false
set_option relaxedAutoImplicit false

namespace Cgimap.Osmchange.UpdaterProcess

open Cgimap.Library.KeyedTable
open Cgimap.Library.StatementProgram
open Cgimap.Library.StatementProgram.Prog
open Cgimap.Model.Types
open Cgimap.Model.Database
open Cgimap.Osmchange.DiffTracking
open Cgimap.Osmchange.UploadRecords
open Cgimap.Osmchange.SqlStatements
open Cgimap.Osmchange.UpdaterChecks

section Writes

variable (t : ObjectType) (env : Env)

def couldNotCreate : ObjectType → String
  | .node => "Could not create all new nodes in current_nodes table"
  | .way => "Could not create all new ways in current table"
  | .relation => "Could not create all new relations in current table"

/-- `insert_new_nodes_to_current_table` and its siblings. The node updater returns
early for an empty list, where the others insert nothing. -/
def insertNew (es : List (Elem t)) : DbProg (List ObjectIdMapping) := do
  let rows ← perform (insertNewToCurrentTable t env.now es)
  if rows.length ≠ es.length then throw (.serverError (couldNotCreate t))
  else return rows.map (fun row => ⟨row.1, row.2, 1⟩)

/-- The message when an update affects fewer rows than there are elements. Only
`update_current_nodes` names the element. -/
def couldNotUpdate (visible : Bool) (es : List (Elem t)) (processed : List Nat) : String :=
  match t, visible, es with
  | .node, true, es =>
      let unknown := ((sortUnique (es.map Elem.id)).find? (fun id => decide (id ∉ processed))).bind
        (fun id => es.find? (fun e => decide (e.id = id)))
      let id := (unknown.map Elem.id).getD 0
      let version := (unknown.map Elem.version).getD 0
      s!"Could not update Node {id} with version {version} on the database."
  | .node, false, _ => "Could not delete all current nodes"
  | .way, _, _ => "Could not update all current ways"
  | .relation, _, _ => "Could not update all current relations"

def updateCurrent (visible : Bool) (es : List (Elem t)) : DbProg (List (Nat × Nat)) :=
  if es.isEmpty then return []
  else do
    let rows ← perform (updateCurrentRows t env.now visible es)
    if rows.length ≠ es.length then
      throw (.serverError (couldNotUpdate t visible es (rows.map Prod.fst)))
    else return rows

/-- `update_current_*` with `visible = true`: entries of `modified_*_ids`. -/
def modifyCurrent (es : List (Elem t)) : DbProg (List ObjectIdMapping) := do
  let rows ← updateCurrent t env true es
  liftExcept (rows.mapM (idMapping es))

/-- `delete_current_nodes`, and `update_current_*` with `visible = false`: entries
of `deleted_*_ids`. -/
def deleteCurrent (es : List (Elem t)) : DbProg (List Int) := do
  let rows ← updateCurrent t env false es
  return rows.map (fun row => idToOldId es row.1)

def tagRows {t : ObjectType} (es : List (Elem t)) : List TagRow :=
  es.flatMap (fun e => e.tags.map (fun tag => ⟨e.id, tag.1, tag.2⟩))

def refRows {t : ObjectType} (es : List (Elem t)) : List (RefRow t) :=
  es.flatMap (fun e => e.refs.map (fun r => ⟨e.id, r.sequenceId, r.ref⟩))

/-- `insert_new_current_*_tags`; returns the ids that have tags. -/
def insertNewCurrentTags (es : List (Elem t)) : DbProg (List Nat) :=
  if es.isEmpty then return []
  else do
    perform (insertTagRows t (tagRows es))
    return sortUnique ((tagRows es).map TagRow.owner)

def insertNewCurrentRefs (es : List (Elem t)) : DbProg Unit :=
  if es.isEmpty || decide (t = .node) then return ()
  else perform (insertRefRows t (refRows es))

def deleteCurrentTags (ids : List Nat) : DbProg Unit :=
  if ids.isEmpty then return () else perform (deleteTagRows t ids)

def deleteCurrentRefs (ids : List Nat) : DbProg Unit :=
  if ids.isEmpty || decide (t = .node) then return () else perform (deleteRefRows t ids)

def saveCurrentToHistory (ids : List Nat) : DbProg Unit :=
  if ids.isEmpty then return ()
  else do
    let affected ← perform (currentToHistory t ids)
    if affected ≠ ids.length then
      throw (.serverError s!"Could not save current {t.lowerName}s to history")
    else return ()

def saveCurrentTagsToHistory (ids : List Nat) : DbProg Unit :=
  if ids.isEmpty then return () else perform (currentTagsToHistory t ids)

def saveCurrentRefsToHistory (ids : List Nat) : DbProg Unit :=
  if ids.isEmpty || decide (t = .node) then return () else perform (currentRefsToHistory t ids)

end Writes

section Boxes

variable (env : Env)

def extractBbox (row : Option Bbox) : Bbox := row.getD (Bbox.undefined env.cfg)

def calcNodeBbox (ids : List Nat) : DbProg Bbox :=
  if ids.isEmpty then return Bbox.undefined env.cfg
  else do
    let row ← perform (calcNodeBboxRow ids)
    return extractBbox env row

def calcWayBbox (ids : List Nat) : DbProg Bbox :=
  if ids.isEmpty then return Bbox.undefined env.cfg
  else do
    let row ← perform (calcWayBboxRow ids)
    return extractBbox env row

def calcRelationBbox (ids : List Nat) : DbProg Bbox :=
  if ids.isEmpty then return Bbox.undefined env.cfg
  else do
    let nodes ← perform (calcRelationBboxNodesRow ids)
    let ways ← perform (calcRelationBboxWaysRow ids)
    return (extractBbox env nodes).expand (extractBbox env ways)

def calcBbox : ObjectType → List Nat → DbProg Bbox
  | .node, ids => calcNodeBbox env ids
  | .way, ids => calcWayBbox env ids
  | .relation, ids => calcRelationBbox env ids

structure RelMemberDifference where
  member : Obj
  newMember : Bool

def relationsWithNewRelationMembers (es : List (Elem .relation)) : DbProg (List Nat) :=
  if es.isEmpty then return []
  else perform (relationsWithNewRelationMembersRows (es.flatMap (fun e =>
    (e.refs.filter (fun r => decide (r.ref.target.1 = .relation))).map
      (fun r => (e.id, r.ref.target.2)))))

def relationsWithChangedRelationTags (es : List (Elem .relation)) : DbProg (List Nat) :=
  if es.isEmpty then return [] else perform (relationsWithChangedRelationTagsRows (tagRows es))

/-- `tmp_member`: only node and way members. -/
def wayNodeMembers (es : List (Elem .relation)) : List TmpMember :=
  es.flatMap (fun e => (e.refs.filter (fun r => decide (r.ref.target.1 ≠ .relation))).map
    (fun r => (e.id, r.ref.target)))

def relationsWithChangedWayNodeMembers (es : List (Elem .relation)) :
    DbProg (List RelMemberDifference) :=
  if es.isEmpty then return []
  else do
    let added ← perform (relationsWithAddedMembersRows (wayNodeMembers es))
    let removed ← perform (relationsWithRemovedMembersRows (wayNodeMembers es))
    return added.map (fun o => ⟨o, true⟩) ++ removed.map (fun o => ⟨o, false⟩)

def differenceIds (diff : List RelMemberDifference) (processNew : Bool) (ty : ObjectType) :
    List Nat :=
  (diff.filter (fun d => decide (d.newMember = processNew ∧ d.member.1 = ty))).map
    (fun d => d.member.2)

/-- `calc_rel_member_difference_bbox`; members that are relations do not count. -/
def calcRelMemberDifferenceBbox (diff : List RelMemberDifference) (processNew : Bool) :
    DbProg Bbox := do
  let nodes ← calcNodeBbox env (differenceIds diff processNew .node)
  let ways ← calcWayBbox env (differenceIds diff processNew .way)
  return ((Bbox.undefined env.cfg).expand nodes).expand ways

/-- What the bounding box of a package depends on: the ids whose box counts after
the update, and for relations the members that came or went. -/
structure BboxUpdate where
  ids : List Nat
  difference : List RelMemberDifference

def bboxBefore (ids : List Nat) : (t : ObjectType) → List (Elem t) → DbProg (BboxUpdate × Bbox)
  | .node, es => do
      let box ← calcNodeBbox env (uniqueIds es)
      return (⟨uniqueIds es, []⟩, box)
  | .way, es => do
      -- after the update the source counts every way of the batch, not of the package
      let box ← calcWayBbox env (uniqueIds es)
      return (⟨ids, []⟩, box)
  | .relation, es => do
      let newMembers ← relationsWithNewRelationMembers es
      let changedTags ← relationsWithChangedRelationTags es
      let full := sortUnique (newMembers ++ changedTags)
      let box ← calcRelationBbox env full
      let difference ← relationsWithChangedWayNodeMembers es
      let removed ← calcRelMemberDifferenceBbox env difference false
      return (⟨full, difference⟩, box.expand removed)

def bboxAfter (t : ObjectType) (upd : BboxUpdate) : DbProg Bbox := do
  let box ← calcBbox env t upd.ids
  match t with
  | .relation => do
      let added ← calcRelMemberDifferenceBbox env upd.difference true
      return box.expand added
  | _ => return box

end Boxes

section Process

variable (env : Env) (t : ObjectType)

def processNew (st : Upload) : DbProg Upload := do
  let u := st.updater t
  let placeholders ← liftExcept
    (checkUniquePlaceholderIds u.createPlaceholderIds (u.createBuf.map Elem.oldId))
  liftExcept (checkForwardPlaceholders t u.createBuf)
  let created ← insertNew t env u.createBuf
  let ct := st.ct.addCreated t created
  let es ← liftExcept (replaceOldIds ct u.createBuf)
  let ids := uniqueIds es
  lockFuture t es ids
  let idsWithTags ← insertNewCurrentTags t es
  insertNewCurrentRefs t es
  saveCurrentToHistory t ids
  saveCurrentTagsToHistory t idsWithTags
  saveCurrentRefsToHistory t ids
  let box ← calcBbox env t ids
  return { st with ct := ct }.setUpdater
    { u with
      bbox := u.bbox.expand box
      createBuf := []
      createPlaceholderIds := placeholders }

/-- One round of the loop of `build_packages`. `seen` holds the ids met so far, so
`id_to_package` of an id is the number of its occurrences there. -/
def addToPackages {t : ObjectType} (acc : List Nat × List (List (Elem t))) (e : Elem t) :
    List Nat × List (List (Elem t)) :=
  let k := acc.1.count e.id
  let result := if acc.2.length < k + 1 then acc.2 ++ [[]] else acc.2
  (acc.1 ++ [e.id], result.modify k (fun p => p ++ [e]))

/-- `build_packages`: the elements of one id go into consecutive packages. -/
def buildPackages {t : ObjectType} (es : List (Elem t)) : List (List (Elem t)) :=
  (es.foldl addToPackages ([], [])).2

def modifyPackage (ids : List Nat) (acc : Tracking × Bbox) (es : List (Elem t)) :
    DbProg (Tracking × Bbox) := do
  let idsPackage := uniqueIds es
  checkCurrentVersions t es
  lockFuture t es ids
  let (upd, before) ← bboxBefore env ids t es
  deleteCurrentTags t idsPackage
  deleteCurrentRefs t idsPackage
  let modified ← modifyCurrent t env es
  let idsWithTags ← insertNewCurrentTags t es
  insertNewCurrentRefs t es
  saveCurrentToHistory t idsPackage
  saveCurrentTagsToHistory t idsWithTags
  saveCurrentRefsToHistory t idsPackage
  let after ← bboxAfter env t upd
  return (acc.1.addModified t modified, (acc.2.expand before).expand after)

def processModify (st : Upload) : DbProg Upload := do
  let u := st.updater t
  let es ← liftExcept (replaceOldIds st.ct u.modifyBuf)
  let ids := uniqueIds es
  lockCurrent t ids
  let (ct, box) ← (buildPackages es).foldlM (modifyPackage env t ids) (st.ct, u.bbox)
  return { st with ct := ct }.setUpdater { u with bbox := box, modifyBuf := [] }

def processDelete (st : Upload) : DbProg Upload := do
  let u := st.updater t
  let es ← liftExcept (replaceOldIds st.ct u.deleteBuf)
  let ids := uniqueIds es
  lockCurrent t ids
  let (alreadyDeleted, gone) ← determineAlreadyDeleted t es
  let visible := es.filter (fun e => decide (e.id ∉ alreadyDeleted))
  checkCurrentVersions t visible
  let (unreferenced, used) ← isStillReferenced env.fuel t visible
  let box ← calcBbox env t ids
  let deleted ← deleteCurrent t env unreferenced
  let idsDeleted := unreferenced.map Elem.id
  deleteCurrentTags t idsDeleted
  deleteCurrentRefs t idsDeleted
  saveCurrentToHistory t idsDeleted
  let ct := ((st.ct.addSkipDeleted t gone).addSkipDeleted t used).addDeleted t deleted
  return { st with ct := ct }.setUpdater
    { u with bbox := u.bbox.expand box, deleteBuf := [] }

end Process

end Cgimap.Osmchange.UpdaterProcess
