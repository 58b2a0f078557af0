/- path: Cgimap/Read/DataSelection
   generality: I
   source: src/backend/apidb/readonly_pgsql_selection.cpp,
     src/backend/apidb/common_pgsql_selection.cpp, src/backend/apidb/quad_tile.cpp
   digest: Selecting objects and editions, and reading what was selected. -/

import Cgimap.Changeset.Updater
import Cgimap.Model.Users
import Cgimap.Read.ArrayText
import Mathlib.Data.Finset.Sort
import Mathlib.Data.Finset.Card
import Mathlib.Data.Prod.Lex

/-!
The source has each function once per object type. Here the type is a parameter, so
`selectObjects .way` is `select_ways` and `writeObjects .relation` is
`write_relations`. The changeset cache of the source only keeps the answers of
`fetch_changesets`, so it does not occur.
-/

set_option autoImplicit false
set_option relaxedAutoImplicit false

namespace Cgimap.Read.DataSelection

open Cgimap.Library.KeyedTable
open Cgimap.Model.Types
open Cgimap.Model.Database
open Cgimap.Model.Users
open Cgimap.Changeset.Updater
open Cgimap.Read.ArrayText

/-- `osm_edition_t`, an id and a version, ordered as a pair. -/
abbrev Edition := Nat ×ₗ Nat

structure Selection where
  current : ObjectType → Finset Nat
  historic : ObjectType → Finset Edition
  changesets : Finset Int
  redactionsVisible : Bool
  includeChangesetDiscussions : Bool

def Selection.empty : Selection := ⟨fun _ => ∅, fun _ => ∅, ∅, false, false⟩

section Conversions

/-- Reading a `bigint` column through `.as<int>()`. -/
def asInt (v : Nat) : Except Exception Nat :=
  if v < 2 ^ 31 then .ok v
  else .error (.std "Could not convert string to int: value out of range.")

def readEditions {t : ObjectType} (rows : List (CurrentRow t)) : Except Exception (Finset Edition) :=
  if rows.all (fun r => decide (r.version < versionBound)) then
    .ok (rows.map (fun r => toLex (r.id, r.version))).toFinset
  else .error (.std "Could not convert string to osm_version_t: value out of range.")

end Conversions

section Select

variable (db : Db) (t t' : ObjectType) (sel : Selection)

/-- `insert_results` into one of the current sets, with the number of new elements. -/
def insertResults (found : Finset Nat) : Nat × Selection :=
  ((sel.current t ∪ found).card - (sel.current t).card,
    { sel with current := Function.update sel.current t (sel.current t ∪ found) })

def insertEditions (rows : List (CurrentRow t)) : Except Exception (Nat × Selection) := do
  let found ← readEditions rows
  .ok ((sel.historic t ∪ found).card - (sel.historic t).card,
    { sel with historic := Function.update sel.historic t (sel.historic t ∪ found) })

inductive Visibility where
  | nonExist
  | deleted
  | exists
  deriving DecidableEq, Repr

def checkVisibility (id : Nat) : Visibility :=
  match (db.current t).find? id with
  | none => .nonExist
  | some r => if r.visible then .exists else .deleted

/-- `select_nodes`, `select_ways`, `select_relations`. -/
def selectObjects (ids : List Nat) : Nat × Selection :=
  insertResults t sel (ids.toFinset.filter (fun id => ((db.current t).find? id).isSome))

/-- Ids of the type `t'` that the selected objects of type `t` refer to, as in
`select_nodes_from_relations`, `select_ways_from_relations`,
`select_nodes_from_way_nodes` and `select_relations_members_of_relations`. -/
def selectMembers : Selection :=
  if sel.current t = ∅ then sel
  else (insertResults t' sel (((db.currentRefs t).select (fun r =>
    decide (r.owner ∈ sel.current t ∧ r.ref.target.1 = t'))).map (fun r => r.ref.target.2)).toFinset).2

def parents (ids : Finset Nat) : Finset Nat :=
  (((db.currentRefs t).select (fun r =>
    decide (r.ref.target.1 = t' ∧ r.ref.target.2 ∈ ids))).map RefRow.owner).toFinset

def selectParents : Selection :=
  if sel.current t' = ∅ then sel
  else (insertResults t sel (parents db t t' (sel.current t'))).2

def selectRelationsFromRelations (dropRelations : Bool) : Selection :=
  if sel.current .relation = ∅ then sel
  else
    let ids := sel.current .relation
    let sel := if dropRelations then
      { sel with current := Function.update sel.current .relation ∅ } else sel
    (insertResults .relation sel (parents db .relation .relation ids)).2

def dropObjects : Selection := { sel with current := Function.update sel.current t ∅ }

/-- Rows that are not redacted, or all where redactions are visible. -/
def unredacted (r : HistoryRow t) : Bool := r.redactionId.isNone || sel.redactionsVisible

def selectHistorical (eds : List Edition) : Except Exception (Nat × Selection) :=
  if eds = [] then .ok (0, sel)
  else insertEditions t sel (((db.history t).select (fun r =>
    decide (toLex r.key ∈ eds) && unredacted t sel r)).map HistoryRow.toCurrentRow)

def selectWithHistory (ids : List Nat) : Except Exception (Nat × Selection) :=
  if ids = [] then .ok (0, sel)
  else insertEditions t sel (((db.history t).select (fun r =>
    decide (r.id ∈ ids) && unredacted t sel r)).map HistoryRow.toCurrentRow)

def selectByChangesets (ids : List Int) : Except Exception (Nat × Selection) :=
  insertEditions t sel (((db.history t).select (fun r =>
    decide (r.changesetId ∈ ids) && unredacted t sel r)).map HistoryRow.toCurrentRow)

def selectHistoricalByChangesets (ids : List Int) : Except Exception (Nat × Selection) :=
  if ids = [] then .ok (0, sel)
  else do
    let (nodes, sel) ← selectByChangesets db .node sel ids
    let (ways, sel) ← selectByChangesets db .way sel ids
    let (relations, sel) ← selectByChangesets db .relation sel ids
    .ok (nodes + ways + relations, sel)

def selectChangesets (ids : List Int) : Nat × Selection :=
  let found := ids.toFinset.filter (fun id => (db.changesets.find? id).isSome)
  ((sel.changesets ∪ found).card - sel.changesets.card,
    { sel with changesets := sel.changesets ∪ found })

/-- A `bbox` in degrees, taken as exact rationals. -/
structure GeoBox where
  minlat : ℚ
  minlon : ℚ
  maxlat : ℚ
  maxlon : ℚ
  deriving DecidableEq, Repr

/-- Conversion of a `double` to `int`. -/
def truncate (q : ℚ) : Int := if 0 ≤ q then ⌊q⌋ else ⌈q⌉

def tilesForArea (b : GeoBox) : List Nat :=
  (List.range (lon2x b.maxlon + 1)).flatMap (fun x =>
    (List.range (lat2y b.maxlat + 1)).filterMap (fun y =>
      if lon2x b.minlon ≤ x ∧ lat2y b.minlat ≤ y then some (xy2tile x y) else none))

def selectNodesFromBbox (cfg : Settings) (b : GeoBox) (maxNodes : Nat) : Nat × Selection :=
  let tiles := tilesForArea b
  let rows := (db.current .node).select (fun r =>
    let c : NodeCoord := r.coord
    decide (c.tile ∈ tiles ∧ truncate (b.minlat * cfg.scale) ≤ c.lat ∧
      c.lat ≤ truncate (b.maxlat * cfg.scale) ∧ truncate (b.minlon * cfg.scale) ≤ c.lon ∧
      c.lon ≤ truncate (b.maxlon * cfg.scale) ∧ r.visible = true))
  insertResults .node sel ((rows.take (maxNodes + 1)).map CurrentRow.id).toFinset

end Select

section Extract

/-- `element_info`; an anonymous user has no uid and no name. -/
structure ElementInfo where
  id : Nat
  version : Nat
  changeset : Int
  timestamp : String
  uid : Option Nat
  displayName : Option String
  visible : Bool
  deriving DecidableEq, Repr

/-- What `write_node`, `write_way` and `write_relation` get beside the element and its
tags: scaled coordinates, node ids or members. -/
def Extra : ObjectType → Type
  | .node => Int × Int
  | .way => List Nat
  | .relation => List Member

instance Extra.decidableEq : (t : ObjectType) → DecidableEq (Extra t)
  | .node => inferInstanceAs (DecidableEq (Int × Int))
  | .way => inferInstanceAs (DecidableEq (List Nat))
  | .relation => inferInstanceAs (DecidableEq (List Member))

structure Written (t : ObjectType) where
  elem : ElementInfo
  extra : Extra t
  tags : List (String × String)
  deriving DecidableEq

/-- `to_char(…, 'YYYY-MM-DD"T"HH24:MI:SS"Z"')`. -/
def toCharIso (time : Int) : String :=
  let second := time / 1000000
  let (year, month, day) := civil (second / 86400)
  let ofDay := second % 86400
  padded 4 year ++ "-" ++ padded 2 month ++ "-" ++ padded 2 day ++ "T" ++
    padded 2 (ofDay / 3600) ++ ":" ++ padded 2 (ofDay / 60 % 60) ++ ":" ++
    padded 2 (ofDay % 60) ++ "Z"

structure ChangesetUser where
  dataPublic : Bool
  displayName : String
  userId : Nat
  deriving DecidableEq, Repr

variable (store : Store)

def changesetUser (id : Int) : Option ChangesetUser :=
  (store.db.changesets.find? id).bind (fun c =>
    (store.db.users.find? c.userId).map (fun u =>
      if u.id = 0 then ⟨false, "", 0⟩
      else ⟨(store.accounts.details u.id).dataPublic, (store.accounts.details u.id).displayName,
        u.id⟩))

def inOrder (ids : Finset Int) : List Int := ids.sort

/-- `fetch_changesets`: the first of the ids that has no user is reported. -/
def fetchChangesets (ids : Finset Int) : Except Exception Unit :=
  match (inOrder ids).find? (fun id => (changesetUser store id).isNone) with
  | none => .ok ()
  | some id => .error (.serverError s!"Possible database inconsistency with changeset {id}.")

def userOf (changeset : Int) : Option Nat × Option String :=
  match changesetUser store changeset with
  | some cs => if cs.dataPublic then (some cs.userId, some cs.displayName) else (none, none)
  | none => (none, none)

def extractElem {t : ObjectType} (r : CurrentRow t) : Except Exception ElementInfo := do
  let version ← asInt r.version
  .ok ⟨r.id, version, r.changesetId, toCharIso r.timestamp, (userOf store r.changesetId).1,
    (userOf store r.changesetId).2, r.visible⟩

def orderByKey (tags : List (String × String)) : List (String × String) :=
  tags.insertionSort (fun a b => a.1 ≤ b.1)

def orderBySequence {t : ObjectType} (refs : List (Nat × Ref t)) : List (Ref t) :=
  (refs.insertionSort (fun a b => a.1 ≤ b.1)).map Prod.snd

/-- The columns `tag_k` and `tag_v`: nodes join their tags, the others aggregate them in
a subquery. -/
def tagColumn (t : ObjectType) (texts : List String) : List Char :=
  match t with
  | .node => arrayAggJoined texts
  | .way | .relation => arrayAgg texts

def extractTags (keys values : List Char) : Except Exception (List (String × String)) :=
  let ks := psqlArrayToVector keys
  let vs := psqlArrayToVector values
  if ks.length = vs.length then .ok (ks.zip vs)
  else .error (.std "Mismatch in tags key and value size")

def typeFromName (name : String) : Except Exception ObjectType :=
  match name.toList.head? with
  | some 'N' | some 'n' => .ok .node
  | some 'W' | some 'w' => .ok .way
  | some 'R' | some 'r' => .ok .relation
  | _ => .error (.std "Unexpected name not matched to type in type_from_name().")

def extractMembers (idsText typesText rolesText : List Char) : Except Exception (List Member) := do
  let ids ← psqlArrayIdsToVector idsText
  let types := psqlArrayToVector typesText
  let roles := psqlArrayToVector rolesText
  if types.length = ids.length ∧ ids.length = roles.length then
    (types.zip (ids.zip roles)).mapM (fun m => do
      let memberType ← typeFromName m.1
      .ok ⟨memberType, m.2.1, m.2.2⟩)
  else .error (.std "Mismatch in members types, ids and roles size")

def extractExtra : {t : ObjectType} → CurrentRow t → List (Ref t) → Except Exception (Extra t)
  | .node, r, _ => .ok ((r.coord : NodeCoord).lon, (r.coord : NodeCoord).lat)
  | .way, _, refs =>
      psqlArrayIdsToVector (arrayAgg ((refs : List WayNode).map (fun w => toString w.nodeId)))
  | .relation, _, refs =>
      extractMembers (arrayAgg ((refs : List Member).map (fun m => toString m.memberId)))
        (arrayAgg ((refs : List Member).map (fun m => m.memberType.name)))
        (arrayAgg ((refs : List Member).map Member.memberRole))

/-- A row of the extraction queries: the columns of the object, its tags and its
references. -/
structure Extracted (t : ObjectType) where
  row : CurrentRow t
  tags : List (String × String)
  refs : List (Nat × Ref t)

def extract {t : ObjectType} (x : Extracted t) : Except Exception (Written t) := do
  let extra ← extractExtra x.row (orderBySequence x.refs)
  let elem ← extractElem store x.row
  let tags := orderByKey x.tags
  let tags ← extractTags (tagColumn t (tags.map Prod.fst)) (tagColumn t (tags.map Prod.snd))
  .ok ⟨elem, extra, tags⟩

end Extract

section Write

variable (store : Store) (t : ObjectType) (sel : Selection)

def untilError {α : Type} : List (Except Exception α) → List α × Option Exception
  | [] => ([], none)
  | .error e :: _ => ([], some e)
  | .ok a :: rest => (a :: (untilError rest).1, (untilError rest).2)

def currentRows : List (Extracted t) :=
  (sel.current t).sort.filterMap (fun id =>
    ((store.db.current t).find? id).map (fun r =>
      ⟨r, store.db.tagsOf t id, store.db.refsOf t id⟩))

def historicRows : List (Extracted t) :=
  (sel.historic t).sort.filterMap (fun ed =>
    ((store.db.history t).find? (ofLex ed)).map (fun r =>
      ⟨r.toCurrentRow, store.db.historyTagsOf t r.id r.version,
        store.db.historyRefsOf t r.id r.version⟩))

/-- Current objects are read as editions when editions are selected too. -/
def mergeCurrent : Except Exception Selection :=
  if sel.current t ≠ ∅ ∧ sel.historic t ≠ ∅ then do
    let found ← readEditions ((sel.current t).sort.filterMap (fun id =>
      (store.db.current t).find? id))
    .ok { sel with
      historic := Function.update sel.historic t (sel.historic t ∪ found)
      current := Function.update sel.current t ∅ }
  else .ok sel

/-- Fetches the users of the changesets, then writes row by row. -/
def writeRows (rows : List (Extracted t)) : List (Written t) × Option Exception :=
  match fetchChangesets store (rows.map (fun x => x.row.changesetId)).toFinset with
  | .error e => ([], some e)
  | .ok _ => untilError (rows.map (extract store))

def writeObjects : List (Written t) × Option Exception :=
  match mergeCurrent store t sel with
  | .error e => ([], some e)
  | .ok sel =>
      if sel.current t ≠ ∅ then writeRows store t (currentRows store t sel)
      else if sel.historic t ≠ ∅ then writeRows store t (historicRows store t sel)
      else ([], none)

end Write

end Cgimap.Read.DataSelection
