/- path: Cgimap/Osmchange/UploadRecords
   generality: I
   source: include/cgimap/api06/changeset_upload/{osmobject,node,way,relation}.hpp,
     include/cgimap/backend/apidb/changeset_upload/{node,way,relation}_updater.hpp
   digest: Elements of a document, updater records and the state of an upload. -/

import Cgimap.Model.Database
import Cgimap.Osmchange.DiffTracking

set_option autoImplicit false
set_option relaxedAutoImplicit false

namespace Cgimap.Osmchange.UploadRecords

open Cgimap.Model.Types
open Cgimap.Model.Database
open Cgimap.Osmchange.DiffTracking

structure RelationMember where
  memberType : ObjectType
  ref : Int
  role : String
  deriving DecidableEq, Repr

/-- Latitude and longitude, taken as exact rationals. -/
structure Position where
  lat : ℚ
  lon : ℚ
  deriving DecidableEq

/-- What `Node`, `Way` and `Relation` add to an `OSMObject`. -/
def Body : ObjectType → Type
  | .node => Position
  | .way => List Int
  | .relation => List RelationMember

/-- `OSMObject` with its optional fields set. `version` is an `osm_version_t`, and
`tags` a `std::map`, so no key occurs twice. -/
structure OsmObject (t : ObjectType) where
  changeset : Int
  id : Int
  version : Nat
  tags : List (String × String)
  body : Body t
  tags_nodup : (tags.map Prod.fst).Nodup

/-- One call of `process_node`, `process_way` or `process_relation`. -/
structure Element where
  op : Operation
  objType : ObjectType
  object : OsmObject objType
  ifUnused : Bool

/-- `way_node_t` and `member_t`: the reference with its resolved id, and the id
as it stands in the document. -/
structure RefElem (t : ObjectType) where
  ref : Ref t
  sequenceId : Nat
  oldId : Int

structure Elem (t : ObjectType) where
  id : Nat
  version : Nat
  changesetId : Int
  oldId : Int
  tags : List (String × String)
  ifUnused : Bool
  coord : Coord t
  refs : List (RefElem t)

structure Updater (t : ObjectType) where
  bbox : Bbox
  createBuf : List (Elem t)
  modifyBuf : List (Elem t)
  deleteBuf : List (Elem t)
  createPlaceholderIds : List Int

inductive HandlerState where
  | initial
  | create (t : ObjectType)
  | modify
  | delete (t : ObjectType)
  | finished
  deriving DecidableEq, Repr

/-- The handler, its three updaters and the tracking they share. -/
structure Upload where
  ct : Tracking
  updater : (t : ObjectType) → Updater t
  state : HandlerState

/-- What stays fixed during one upload: the settings, the transaction time, the
changeset, and the fuel for the one loop whose length depends on the data. -/
structure Env where
  cfg : Settings
  now : Int
  changeset : Int
  fuel : Nat

def Updater.empty (env : Env) (t : ObjectType) : Updater t where
  bbox := Bbox.undefined env.cfg
  createBuf := []
  modifyBuf := []
  deleteBuf := []
  createPlaceholderIds := []

def Upload.empty (env : Env) : Upload where
  ct := Tracking.empty
  updater := Updater.empty env
  state := .initial

def Upload.setUpdater (st : Upload) {t : ObjectType} (u : Updater t) : Upload :=
  { st with updater := Function.update st.updater t u }

@[simp] theorem Upload.setUpdater_ct (st : Upload) {t : ObjectType} (u : Updater t) :
    (st.setUpdater u).ct = st.ct := rfl

@[simp] theorem Upload.setUpdater_state (st : Upload) {t : ObjectType} (u : Updater t) :
    (st.setUpdater u).state = st.state := rfl

@[simp] theorem Upload.setUpdater_updater (st : Upload) {t : ObjectType} (u : Updater t) :
    (st.setUpdater u).updater t = u := Function.update_self ..

theorem Upload.setUpdater_other (st : Upload) {t s : ObjectType} (u : Updater t) (h : s ≠ t) :
    (st.setUpdater u).updater s = st.updater s := Function.update_of_ne h ..

end Cgimap.Osmchange.UploadRecords
