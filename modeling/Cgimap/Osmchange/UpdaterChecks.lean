/- path: Cgimap/Osmchange/UpdaterChecks
   generality: I
   source: src/backend/apidb/changeset_upload/{node,way,relation}_updater.cpp
   digest: Placeholders, locks, version checks and the decision what to delete. -/

import Cgimap.Osmchange.SqlStatements

/-!
The three updaters repeat the same functions with other table names. Each function
stands here once, with the object type as a parameter and the texts of its
messages per type. A function that only one updater has keeps its own body.
-/

set_option autoImplicit false
set_option relaxedAutoImplicit false

namespace Cgimap.Osmchange.UpdaterChecks

open Cgimap.Library.KeyedTable
open Cgimap.Library.StatementProgram
open Cgimap.Library.StatementProgram.Prog
open Cgimap.Model.Types
open Cgimap.Model.Database
open Cgimap.Osmchange.DiffTracking
open Cgimap.Osmchange.UploadRecords
open Cgimap.Osmchange.SqlStatements

def joinIds (ids : List Nat) : String := ",".intercalate (ids.map toString)

/-- `string_agg(distinct id::text, ',')`: the texts in their own order. -/
def stringAggDistinct (ids : List Nat) : String :=
  ",".intercalate ((ids.map toString).dedup.insertionSort (fun a b => decide (a ≤ b)))

/-- The first value that `std::map::insert` finds taken. -/
def firstDuplicate (seen : List Int) : List Int → Option Int
  | [] => none
  | i :: rest => if i ∈ seen then some i else firstDuplicate (i :: seen) rest

theorem firstDuplicate_eq_none {l seen : List Int} :
    firstDuplicate seen l = none ↔ l.Nodup ∧ ∀ i ∈ l, i ∉ seen := by
  induction l generalizing seen with
  | nil => simp [firstDuplicate]
  | cons i rest ih =>
      rw [firstDuplicate]
      split
      · rename_i taken
        simp [taken]
      · rename_i fresh
        rw [ih, List.nodup_cons]
        constructor
        · rintro ⟨distinct, apart⟩
          refine ⟨⟨fun again => apart i again List.mem_cons_self, distinct⟩, ?_⟩
          intro j member
          rcases List.mem_cons.mp member with rfl | member
          · exact fresh
          · exact fun taken => apart j member (List.mem_cons_of_mem i taken)
        · rintro ⟨⟨new, distinct⟩, apart⟩
          refine ⟨distinct, fun j member taken => ?_⟩
          rcases List.mem_cons.mp taken with rfl | taken
          · exact new member
          · exact apart j (List.mem_cons_of_mem i member) taken

def mappedTypes : ObjectType → List ObjectType
  | .node => [.node]
  | .way => [.way, .node]
  | .relation => [.relation, .way, .node]

def buildMap (ct : Tracking) (t : ObjectType) : Except Exception Unit :=
  match firstDuplicate [] ((ct.created t).map ObjectIdMapping.oldId) with
  | some id => .error (.badRequest s!"Duplicate {t.lowerName} placeholder id {id}.")
  | none => .ok ()

def lookup (ct : Tracking) (t : ObjectType) (oldId : Int) : Option Nat :=
  ((ct.created t).find? (fun m => decide (m.oldId = oldId))).map ObjectIdMapping.newId

section Replace

variable {t : ObjectType}

/-- `replace_old_ids_in_way_member` and `replace_old_ids_in_relation_member`. -/
def replaceOldIdInMember (ct : Tracking) (owner : Int) (r : RefElem t) :
    Except Exception (RefElem t) :=
  if 0 ≤ r.oldId then .ok r
  else
    match lookup ct r.ref.target.1 r.oldId with
    | none => .error (.badRequest (s!"Placeholder {r.ref.target.1.lowerName} not found for " ++
        s!"reference {r.oldId} in {t.lowerName} {owner}"))
    | some id => .ok { r with ref := r.ref.withId id }

def replaceOldId (ct : Tracking) (e : Elem t) : Except Exception Nat :=
  if 0 ≤ e.oldId then .ok e.id
  else
    match lookup ct t e.oldId with
    | none => .error (.badRequest
        s!"Placeholder id not found for {t.lowerName} reference {e.oldId}")
    | some id => .ok id

def replaceOldIdsInElem (ct : Tracking) (e : Elem t) : Except Exception (Elem t) := do
  let id ← replaceOldId ct e
  let refs ← e.refs.mapM (replaceOldIdInMember ct e.oldId)
  .ok { e with id := id, refs := refs }

def replaceOldIds (ct : Tracking) (es : List (Elem t)) : Except Exception (List (Elem t)) := do
  (mappedTypes t).forM (buildMap ct)
  es.mapM (replaceOldIdsInElem ct)

end Replace

def checkUniquePlaceholderIds (seen : List Int) (ids : List Int) : Except Exception (List Int) :=
  match firstDuplicate seen ids with
  | some _ => .error (.badRequest "Placeholder IDs must be unique for created elements.")
  | none => .ok (ids.reverse ++ seen)

/-- `check_forward_relation_placeholders`: a child relation comes before its
parents, and no relation is its own member. -/
def checkForwardRelationPlaceholders : List Int → List (Elem .relation) → Except Exception Unit
  | _, [] => .ok ()
  | placeholders, cr :: rest =>
      match cr.refs.find? (fun mbr => decide (mbr.oldId < 0 ∧ mbr.ref.target.1 = .relation ∧
          mbr.oldId ∉ placeholders)) with
      | some mbr => .error (.badRequest ("Placeholder relation not found for reference " ++
          s!"{mbr.oldId} in relation {cr.oldId}"))
      | none => checkForwardRelationPlaceholders
          (if cr.oldId < 0 then cr.oldId :: placeholders else placeholders) rest

/-- Only the relation updater checks for forward references. -/
def checkForwardPlaceholders : (t : ObjectType) → List (Elem t) → Except Exception Unit
  | .relation, es => checkForwardRelationPlaceholders [] es
  | _, _ => .ok ()

/-- `id_to_old_id[id]`: the last element written for the id. -/
def idToOldId {t : ObjectType} (es : List (Elem t)) (id : Nat) : Int :=
  ((es.reverse.find? (fun e => decide (e.id = id))).map Elem.oldId).getD 0

def idsWithoutIfUnused {t : ObjectType} (es : List (Elem t)) : List Nat :=
  (es.filter (fun e => !e.ifUnused)).map Elem.id

def idsIfUnused {t : ObjectType} (es : List (Elem t)) : List Nat :=
  (es.filter (fun e => e.ifUnused)).map Elem.id

section Checks

variable (t : ObjectType)

def uniqueIds {t : ObjectType} (es : List (Elem t)) : List Nat := sortUnique (es.map Elem.id)

def unknownIds : ObjectType → List Nat → String
  | .node, ids => s!"The following node ids are not known on the database: {joinIds ids}"
  | .way, ids => s!"The following way ids are unknown: {joinIds ids}"
  | .relation, ids => s!"The following relation ids are unknown: {joinIds ids}"

def lockCurrent (ids : List Nat) : DbProg Unit :=
  if ids.isEmpty then return ()
  else do
    let missing ← perform (lockCurrentIds t ids)
    if missing.isEmpty then return ()
    else throw (.notFound (unknownIds t missing))

def checkCurrentVersions (es : List (Elem t)) : DbProg Unit :=
  if es.isEmpty then return ()
  else do
    let row ← perform (checkVersions t (es.map (fun e => (e.id, e.version))))
    match row with
    | none => return ()
    | some (id, expected, actual) => do
        let expected ← liftExcept (asVersion expected)
        let actual ← liftExcept (asVersion actual)
        throw (.conflict
          s!"Version mismatch: Provided {expected}, server had: {actual} of {t.name} {id}")

def idMapping {t : ObjectType} (es : List (Elem t)) (row : Nat × Nat) :
    Except Exception ObjectIdMapping := do
  let version ← asVersion row.2
  .ok ⟨idToOldId es row.1, row.1, version⟩

/-- `determine_already_deleted_nodes` and its siblings: the deleted ids and the
entries for the elements with the if-unused flag. -/
def determineAlreadyDeleted (es : List (Elem t)) :
    DbProg (List Nat × List ObjectIdMapping) :=
  if es.isEmpty then return ([], [])
  else do
    let rows ← perform (alreadyDeleted t (es.map Elem.id))
    let skipped ← liftExcept (rows.mapM (fun row =>
      if row.1 ∈ idsWithoutIfUnused es then
        .error (.gone s!"The {t.lowerName} with the id {row.1} has already been deleted")
      else idMapping es row))
    return (rows.map Prod.fst, skipped)

/-- The loop over the rows of a reference query: an id without if-unused flag is
an error, the others are excluded from deletion. -/
def excludeReferenced {t : ObjectType} (es : List (Elem t)) (message : Nat → List Nat → String)
    (rows : List (Nat × List Nat)) : Except Exception (List Nat) :=
  rows.mapM (fun row =>
    if row.1 ∈ idsWithoutIfUnused es then
      .error (.preconditionFailed (message row.1 row.2))
    else .ok row.1)

/-- Drops the excluded elements and looks up the versions to be reported for
them. -/
def removeBlocked (es : List (Elem t)) (excluded : List Nat) :
    DbProg (List (Elem t) × List ObjectIdMapping) :=
  if excluded.isEmpty then return (es, [])
  else do
    let rows ← perform (stillReferenced t excluded)
    if rows.length ≠ excluded.length then
      throw (.serverError s!"Could not get details about still referenced {t.lowerName}s")
    else do
      let skipped ← liftExcept (rows.mapM (idMapping es))
      return (es.filter (fun e => decide (e.id ∉ excluded)), skipped)

end Checks

def isNodeStillReferenced (es : List (Elem .node)) :
    DbProg (List (Elem .node) × List ObjectIdMapping) :=
  if es.isEmpty then return (es, [])
  else do
    let byWay ← perform (referencedBy .way .node (es.map Elem.id))
    let usedByWays ← liftExcept (excludeReferenced es (fun id ways =>
      s!"Node {id} is still used by ways {stringAggDistinct ways}.") byWay)
    let byRelation ← perform (referencedBy .relation .node (es.map Elem.id))
    let usedByRelations ← liftExcept (excludeReferenced es (fun id relations =>
      s!"Node {id} is still used by relations {stringAggDistinct relations}.") byRelation)
    removeBlocked .node es (sortUnique (usedByWays ++ usedByRelations))

def isWayStillReferenced (es : List (Elem .way)) :
    DbProg (List (Elem .way) × List ObjectIdMapping) :=
  if es.isEmpty then return (es, [])
  else do
    let rows ← perform (referencedBy .relation .way (es.map Elem.id))
    let used ← liftExcept (excludeReferenced es (fun id relations =>
      s!"Way {id} is still used by relations {stringAggDistinct relations}.") rows)
    removeBlocked .way es (sortUnique used)

/-- The loop of `collect_recursive_relation_rel_member_ids`. The ids in `found` are
`transitive_relation_children_ids`; only the new ones are asked for again. -/
def collectChildren : Nat → List Nat → List Nat → DbProg (List Nat)
  | 0, _, _ => throw .outOfFuel
  | fuel + 1, frontier, found => do
      let children ← perform (childRelationIds frontier)
      let next := children.filter (fun id => decide (id ∉ found))
      if next.isEmpty then return found
      else collectChildren fuel next (found ++ next)

def collectRecursiveRelationRelMemberIds (fuel : Nat) (direct : List Nat) : DbProg (List Nat) :=
  if direct.isEmpty then return []
  else collectChildren fuel direct []

def extendDeletionBlockToRelationChildren (fuel : Nat) (direct ifUnused : List Nat) :
    DbProg (List Nat) :=
  if direct.isEmpty || ifUnused.isEmpty then return []
  else do
    let children ← collectRecursiveRelationRelMemberIds fuel direct
    return children.filter (fun id => decide (id ∈ ifUnused))

def isRelationStillReferenced (fuel : Nat) (es : List (Elem .relation)) :
    DbProg (List (Elem .relation) × List ObjectIdMapping) :=
  if es.isEmpty then return (es, [])
  else do
    let rows ← perform (relationStillReferencedByRelation (es.map Elem.id))
    let used ← liftExcept (excludeReferenced es (fun id relations =>
      s!"The relation {id} is used in relations {joinIds relations}.") rows)
    let children ← extendDeletionBlockToRelationChildren fuel (rows.map Prod.fst) (idsIfUnused es)
    removeBlocked .relation es (sortUnique (used ++ children))

def isStillReferenced (fuel : Nat) : (t : ObjectType) → List (Elem t) →
    DbProg (List (Elem t) × List ObjectIdMapping)
  | .node, es => isNodeStillReferenced es
  | .way, es => isWayStillReferenced es
  | .relation, es => isRelationStillReferenced fuel es

def futureIds {t : ObjectType} (ty : ObjectType) (es : List (Elem t)) : List Nat :=
  es.flatMap (fun e => (e.refs.filter (fun r => decide (r.ref.target.1 = ty))).map
    (fun r => r.ref.target.2))

/-- `absent_way_node_ids.begin()` and its siblings: the smallest written id with a
missing reference, and the missing ids it requires. -/
def firstAbsent {t : ObjectType} (ty : ObjectType) (es : List (Elem t)) (missing : List Nat) :
    Int × List Nat :=
  let absent := es.flatMap (fun e => (e.refs.filter (fun r =>
    decide (r.ref.target.1 = ty ∧ r.ref.target.2 ∈ missing))).map
      (fun r => (e.oldId, r.ref.target.2)))
  let first := ((absent.map Prod.fst).min?).getD 0
  (first, sortUnique ((absent.filter (fun a => decide (a.1 = first))).map Prod.snd))

/-- `lock_future_nodes`, `lock_future_members_nodes`, `lock_future_members_ways` and
`lock_future_members_relations`, for the given ids of type `ty`. -/
def lockFutureOf {t : ObjectType} (ty : ObjectType) (ids : List Nat) (es : List (Elem t)) :
    DbProg Unit :=
  if ids.isEmpty then return ()
  else do
    let missing ← perform (lockFutureIds ty (sortUnique ids))
    if missing.isEmpty then return ()
    else
      let absent := firstAbsent ty es missing
      throw (.preconditionFailed (s!"{t.name} {absent.1} requires the {ty.lowerName}s with id in "
        ++ s!"{joinIds absent.2}, which either do not exist, or are not visible."))

/-- `lock_future_members`: relations that `lock_current_relations` has locked are
left out, also when they are not visible yet. -/
def lockFutureMembers (es : List (Elem .relation)) (alreadyLocked : List Nat) : DbProg Unit := do
  lockFutureOf .node (futureIds .node es) es
  lockFutureOf .way (futureIds .way es) es
  lockFutureOf .relation
    ((futureIds .relation es).filter (fun id => decide (id ∉ alreadyLocked))) es

def lockFuture : (t : ObjectType) → List (Elem t) → List Nat → DbProg Unit
  | .node, _, _ => return ()
  | .way, es, _ => lockFutureOf .node (futureIds .node es) es
  | .relation, es, alreadyLocked => lockFutureMembers es alreadyLocked

end Cgimap.Osmchange.UpdaterChecks
