/- path: Cgimap/Model/Database
   generality: I
   source: test/structure.sql
   digest: The API database: current tables, history tables, changesets. -/

import Cgimap.Library.KeyedTable
import Cgimap.Library.StatementProgram
import Cgimap.Model.Types

/-!
Nodes, ways and relations share the columns and the statements that handle them,
so every table of the schema that exists once per object type is one family
indexed by the type. `current .way` is `current_ways`, `currentRefs .way` is
`current_way_nodes`, `historyRefs .relation` is `relation_members`. A node has
coordinates and no references, which the dependent column types express.
-/

set_option autoImplicit false
set_option relaxedAutoImplicit false

namespace Cgimap.Model.Database

open Cgimap.Library.KeyedTable
open Cgimap.Library.StatementProgram
open Cgimap.Model.Types

/-- An object of the map: its type and its id. -/
abbrev Obj := ObjectType × Nat

@[ext] structure NodeCoord where
  lat : Int
  lon : Int
  tile : Nat
  deriving DecidableEq, Repr

/-- The columns `latitude`, `longitude` and `tile`, which only nodes have. -/
def Coord : ObjectType → Type
  | .node => NodeCoord
  | .way => Unit
  | .relation => Unit

instance Coord.decidableEq : (t : ObjectType) → DecidableEq (Coord t)
  | .node => inferInstanceAs (DecidableEq NodeCoord)
  | .way => inferInstanceAs (DecidableEq Unit)
  | .relation => inferInstanceAs (DecidableEq Unit)

structure WayNode where
  nodeId : Nat
  deriving DecidableEq, Repr

structure Member where
  memberType : ObjectType
  memberId : Nat
  memberRole : String
  deriving DecidableEq, Repr

/-- The body of a `*_way_nodes` or `*_relation_members` row. -/
def Ref : ObjectType → Type
  | .node => Empty
  | .way => WayNode
  | .relation => Member

instance Ref.decidableEq : (t : ObjectType) → DecidableEq (Ref t)
  | .node => inferInstanceAs (DecidableEq Empty)
  | .way => inferInstanceAs (DecidableEq WayNode)
  | .relation => inferInstanceAs (DecidableEq Member)

def Ref.target : {t : ObjectType} → Ref t → Obj
  | .way, (w : WayNode) => (.node, w.nodeId)
  | .relation, (m : Member) => (m.memberType, m.memberId)

/-- The same reference with another id, for placeholder replacement. -/
def Ref.withId : {t : ObjectType} → Ref t → Nat → Ref t
  | .way, _, id => (⟨id⟩ : WayNode)
  | .relation, (m : Member), id => ({ m with memberId := id } : Member)

@[simp] theorem Ref.target_withId {t : ObjectType} (r : Ref t) (id : Nat) :
    (r.withId id).target = (r.target.1, id) := by
  cases t with
  | node => exact nomatch r
  | way => rfl
  | relation => rfl

theorem Ref.target_own {t : ObjectType} (r : Ref t) (own : r.target.1 = t) : t = .relation := by
  cases t with
  | node => exact nomatch r
  | way => cases own
  | relation => rfl

theorem Ref.target_relation {t : ObjectType} (r : Ref t) (relation : r.target.1 = .relation) :
    t = .relation := by
  cases t with
  | node => exact nomatch r
  | way => cases relation
  | relation => rfl

/-- A row of `current_nodes`, `current_ways` or `current_relations`. -/
@[ext] structure CurrentRow (t : ObjectType) where
  id : Nat
  version : Nat
  changesetId : Int
  visible : Bool
  timestamp : Int
  coord : Coord t
  deriving DecidableEq

/-- A row of `nodes`, `ways` or `relations`. -/
@[ext] structure HistoryRow (t : ObjectType) extends CurrentRow t where
  redactionId : Option Nat
  deriving DecidableEq

def HistoryRow.key {t : ObjectType} (r : HistoryRow t) : Nat × Nat := (r.id, r.version)

/-- A row of a `current_*_tags` table; `owner` is the id column. -/
@[ext] structure TagRow where
  owner : Nat
  k : String
  v : String
  deriving DecidableEq, Repr

def TagRow.key (r : TagRow) : Nat × String := (r.owner, r.k)

@[ext] structure HistoryTagRow extends TagRow where
  version : Nat
  deriving DecidableEq, Repr

def HistoryTagRow.key (r : HistoryTagRow) : Nat × Nat × String := (r.owner, r.version, r.k)

/-- A row of `current_way_nodes` or `current_relation_members`. -/
@[ext] structure RefRow (t : ObjectType) where
  owner : Nat
  sequenceId : Nat
  ref : Ref t
  deriving DecidableEq

def RefRow.key {t : ObjectType} (r : RefRow t) : Nat × Nat := (r.owner, r.sequenceId)

@[ext] structure HistoryRefRow (t : ObjectType) extends RefRow t where
  version : Nat
  deriving DecidableEq

def HistoryRefRow.key {t : ObjectType} (r : HistoryRefRow t) : Nat × Nat × Nat :=
  (r.owner, r.version, r.sequenceId)

structure ElementStats where
  numCreate : Nat
  numModify : Nat
  numDelete : Nat
  deriving DecidableEq, Repr

def ElementStats.total (s : ElementStats) : Nat := s.numCreate + s.numModify + s.numDelete

def ElementStats.add (s t : ElementStats) : ElementStats :=
  ⟨s.numCreate + t.numCreate, s.numModify + t.numModify, s.numDelete + t.numDelete⟩

structure UploadStats where
  node : ElementStats
  way : ElementStats
  relation : ElementStats
  deriving DecidableEq, Repr

def UploadStats.zero : UploadStats := ⟨⟨0, 0, 0⟩, ⟨0, 0, 0⟩, ⟨0, 0, 0⟩⟩

def UploadStats.total (s : UploadStats) : Nat := s.node.total + s.way.total + s.relation.total

def UploadStats.add (s t : UploadStats) : UploadStats :=
  ⟨s.node.add t.node, s.way.add t.way, s.relation.add t.relation⟩

/-- A row of `changesets`. The four bounding-box columns are null together. -/
@[ext] structure ChangesetRow where
  id : Int
  userId : Nat
  createdAt : Int
  closedAt : Int
  bbox : Option Bbox
  numChanges : Nat
  stats : UploadStats
  deriving DecidableEq

structure ChangesetTagRow where
  changesetId : Int
  k : String
  v : String
  deriving DecidableEq, Repr

def ChangesetTagRow.key (r : ChangesetTagRow) : Int × String := (r.changesetId, r.k)

structure UserRow where
  id : Nat
  changesetsCount : Nat
  deriving DecidableEq, Repr

structure SubscriberRow where
  subscriberId : Nat
  changesetId : Int
  deriving DecidableEq, Repr

def SubscriberRow.key (r : SubscriberRow) : Nat × Int := (r.subscriberId, r.changesetId)

structure Db where
  current : (t : ObjectType) → Table (CurrentRow.id (t := t))
  currentTags : ObjectType → Table TagRow.key
  currentRefs : (t : ObjectType) → Table (RefRow.key (t := t))
  history : (t : ObjectType) → Table (HistoryRow.key (t := t))
  historyTags : ObjectType → Table HistoryTagRow.key
  historyRefs : (t : ObjectType) → Table (HistoryRefRow.key (t := t))
  objectSeq : ObjectType → Nat
  changesets : Table ChangesetRow.id
  changesetTags : Table ChangesetTagRow.key
  subscribers : Table SubscriberRow.key
  users : Table UserRow.id
  changesetSeq : Int

def Db.empty : Db where
  current _ := .empty
  currentTags _ := .empty
  currentRefs _ := .empty
  history _ := .empty
  historyTags _ := .empty
  historyRefs _ := .empty
  objectSeq _ := 1
  changesets := .empty
  changesetTags := .empty
  subscribers := .empty
  users := .empty
  changesetSeq := 1

/-- What a transaction can hold a row lock on. The rows of an object's tags,
references and versions are written only under the lock of its current row. -/
inductive Lockable where
  | object (o : Obj)
  | changeset (id : Int)
  | user (id : Nat)
  deriving DecidableEq, Repr

abbrev SqlStmt (ρ : Type) := Stmt Db Lockable Exception ρ

abbrev DbProg (α : Type) := Prog Db Lockable Exception α

namespace Db

/-- Whether the current row of an object exists and is visible. -/
def visible (db : Db) (o : Obj) : Bool :=
  match (db.current o.1).find? o.2 with
  | some r => r.visible
  | none => false

def version? (db : Db) (t : ObjectType) (id : Nat) : Option Nat :=
  ((db.current t).find? id).map CurrentRow.version

def tagsOf (db : Db) (t : ObjectType) (id : Nat) : List (String × String) :=
  ((db.currentTags t).select (fun r => decide (r.owner = id))).map (fun r => (r.k, r.v))

def refsOf (db : Db) (t : ObjectType) (id : Nat) : List (Nat × Ref t) :=
  ((db.currentRefs t).select (fun r => decide (r.owner = id))).map (fun r => (r.sequenceId, r.ref))

def historyTagsOf (db : Db) (t : ObjectType) (id version : Nat) : List (String × String) :=
  ((db.historyTags t).select (fun r => decide (r.owner = id ∧ r.version = version))).map
    (fun r => (r.k, r.v))

def historyRefsOf (db : Db) (t : ObjectType) (id version : Nat) : List (Nat × Ref t) :=
  ((db.historyRefs t).select (fun r => decide (r.owner = id ∧ r.version = version))).map
    (fun r => (r.sequenceId, r.ref))

/-- The store a transaction sees: its own rows for what it has locked
exclusively, the committed rows for everything else. Sequences are not
transactional, so they always come from `base`. -/
def overlay (owned : Lockable → Bool) (mine base : Db) : Db where
  current t := (mine.current t).overlay (fun id => owned (.object (t, id))) (base.current t)
  currentTags t := (mine.currentTags t).overlay (fun k => owned (.object (t, k.1)))
    (base.currentTags t)
  currentRefs t := (mine.currentRefs t).overlay (fun k => owned (.object (t, k.1)))
    (base.currentRefs t)
  history t := (mine.history t).overlay (fun k => owned (.object (t, k.1))) (base.history t)
  historyTags t := (mine.historyTags t).overlay (fun k => owned (.object (t, k.1)))
    (base.historyTags t)
  historyRefs t := (mine.historyRefs t).overlay (fun k => owned (.object (t, k.1)))
    (base.historyRefs t)
  objectSeq := base.objectSeq
  changesets := mine.changesets.overlay (fun id => owned (.changeset id)) base.changesets
  changesetTags := mine.changesetTags.overlay (fun k => owned (.changeset k.1)) base.changesetTags
  subscribers := mine.subscribers.overlay (fun k => owned (.changeset k.2)) base.subscribers
  users := mine.users.overlay (fun id => owned (.user id)) base.users
  changesetSeq := base.changesetSeq

/-- Copies the sequences, which survive a rollback. -/
def sync (db next : Db) : Db :=
  { db with objectSeq := next.objectSeq, changesetSeq := next.changesetSeq }

section Setters

variable (db : Db) (t : ObjectType)

@[simps] def setCurrent (T : Table (CurrentRow.id (t := t))) : Db :=
  { db with current := Function.update db.current t T }

@[simps] def setTags (T : Table TagRow.key) : Db :=
  { db with currentTags := Function.update db.currentTags t T }

@[simps] def setRefs (T : Table (RefRow.key (t := t))) : Db :=
  { db with currentRefs := Function.update db.currentRefs t T }

@[simps] def setHistory (T : Table (HistoryRow.key (t := t))) : Db :=
  { db with history := Function.update db.history t T }

@[simps] def setHistoryTags (T : Table HistoryTagRow.key) : Db :=
  { db with historyTags := Function.update db.historyTags t T }

@[simps] def setHistoryRefs (T : Table (HistoryRefRow.key (t := t))) : Db :=
  { db with historyRefs := Function.update db.historyRefs t T }

end Setters

end Db

end Cgimap.Model.Database
