/- path: Cgimap/Osmchange/DiffTracking
   generality: I
   source: src/api06/changeset_upload/osmchange_tracking.cpp,
     include/cgimap/api06/changeset_upload/osmchange_tracking.hpp
   digest: What an upload remembers about its elements, and the diffResult rows. -/

import Cgimap.Model.Types
import Mathlib.Logic.Function.Basic

set_option autoImplicit false
set_option relaxedAutoImplicit false

namespace Cgimap.Osmchange.DiffTracking

open Cgimap.Model.Types

structure ObjectIdMapping where
  oldId : Int
  newId : Nat
  newVersion : Nat
  deriving DecidableEq, Repr

/-- `osmchange_t`: one element of the document as it was handed to an updater. -/
structure OsmChange where
  op : Operation
  objType : ObjectType
  origId : Int
  origVersion : Nat
  ifUnused : Bool
  deriving DecidableEq, Repr

structure DiffResult where
  op : Operation
  objType : ObjectType
  oldId : Int
  newId : Nat
  newVersion : Nat
  deletionSkipped : Bool
  deriving DecidableEq, Repr

/-- `OSMChange_Tracking`. The vectors exist once per object type in the source. -/
structure Tracking where
  created : ObjectType → List ObjectIdMapping
  modified : ObjectType → List ObjectIdMapping
  deleted : ObjectType → List Int
  skipDeleted : ObjectType → List ObjectIdMapping
  origSequence : List OsmChange

def Tracking.empty : Tracking where
  created _ := []
  modified _ := []
  deleted _ := []
  skipDeleted _ := []
  origSequence := []

namespace Tracking

variable (ct : Tracking) (t : ObjectType)

@[simps] def addCreated (ms : List ObjectIdMapping) : Tracking :=
  { ct with created := Function.update ct.created t (ct.created t ++ ms) }

@[simps] def addModified (ms : List ObjectIdMapping) : Tracking :=
  { ct with modified := Function.update ct.modified t (ct.modified t ++ ms) }

@[simps] def addDeleted (ids : List Int) : Tracking :=
  { ct with deleted := Function.update ct.deleted t (ct.deleted t ++ ids) }

@[simps] def addSkipDeleted (ms : List ObjectIdMapping) : Tracking :=
  { ct with skipDeleted := Function.update ct.skipDeleted t (ct.skipDeleted t ++ ms) }

@[simps] def pushOrig (c : OsmChange) : Tracking :=
  { ct with origSequence := ct.origSequence ++ [c] }

theorem addModified_nil : ct.addModified t [] = ct := by
  simp [addModified]

theorem addModified_append (ms ms' : List ObjectIdMapping) :
    (ct.addModified t ms).addModified t ms' = ct.addModified t (ms ++ ms') := by
  simp [addModified]

end Tracking

def notProcessed : Exception := .std "Element in osmChange message was not processed"

/-- The row for one element. `std::map::insert` keeps the first entry of a key, so
each lookup takes the first entry of the vector that the map was filled from. -/
def assembleRow (ct : Tracking) (item : OsmChange) : Except Exception DiffResult :=
  let executedDelete : Except Exception DiffResult :=
    if item.origId ∈ ct.deleted item.objType then
      .ok ⟨item.op, item.objType, item.origId, 0, 0, false⟩
    else .error notProcessed
  match item.op with
  | .create =>
      match (ct.created item.objType).find? (fun m => decide (m.oldId = item.origId)) with
      | none => .error notProcessed
      | some m => .ok ⟨item.op, item.objType, m.oldId, m.newId, m.newVersion, false⟩
  | .modify =>
      match (ct.modified item.objType).find? (fun m => decide (m.oldId = item.origId ∧
          m.newVersion = (item.origVersion + 1) % versionBound)) with
      | none => .error notProcessed
      | some m => .ok ⟨item.op, item.objType, m.oldId, m.newId, m.newVersion, false⟩
  | .delete =>
      if item.ifUnused then
        match (ct.skipDeleted item.objType).find? (fun m => decide (m.oldId = item.origId)) with
        | some m => .ok ⟨item.op, item.objType, m.oldId, m.newId, m.newVersion, true⟩
        | none => executedDelete
      else executedDelete

def assembleDiffresult (ct : Tracking) : Except Exception (List DiffResult) :=
  ct.origSequence.mapM (assembleRow ct)

end Cgimap.Osmchange.DiffTracking
