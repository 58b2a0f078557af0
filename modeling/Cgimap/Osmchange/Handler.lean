/- path: Cgimap/Osmchange/Handler
   generality: I
   source: src/api06/changeset_upload/osmchange_handler.cpp,
     src/backend/apidb/changeset_upload/{node,way,relation}_updater.cpp
   digest: Elements are buffered and flushed when the kind of work changes. -/

import Cgimap.Osmchange.UpdaterProcess

set_option autoImplicit false
set_option relaxedAutoImplicit false

namespace Cgimap.Osmchange.Handler

open Cgimap.Library.StatementProgram
open Cgimap.Library.StatementProgram.Prog
open Cgimap.Model.Types
open Cgimap.Model.Database
open Cgimap.Osmchange.DiffTracking
open Cgimap.Osmchange.UploadRecords
open Cgimap.Osmchange.UpdaterProcess

section Records

variable (env : Env)

def coordOf : (t : ObjectType) → Body t → Coord t
  | .node, (p : Position) => (⟨cround (p.lat * env.cfg.scale), cround (p.lon * env.cfg.scale),
      xy2tile (lon2x p.lon) (lat2y p.lat)⟩ : NodeCoord)
  | .way, _ => ()
  | .relation, _ => ()

/-- The value of the coordinate fields that `delete_node` leaves out. -/
def defaultCoord : (t : ObjectType) → Coord t
  | .node => (⟨0, 0, 0⟩ : NodeCoord)
  | .way => ()
  | .relation => ()

/-- A placeholder counts as id zero until it is replaced. -/
def refId (id : Int) : Nat := if id < 0 then 0 else toUnsigned id

def refsOfBody : (t : ObjectType) → Body t → List (RefElem t)
  | .node, _ => []
  | .way, (nodes : List Int) => nodes.zipIdx.map (fun p =>
      ⟨(⟨refId p.1⟩ : WayNode), p.2 + 1, p.1⟩)
  | .relation, (members : List RelationMember) => members.zipIdx.map (fun p =>
      ⟨(⟨p.1.memberType, refId p.1.ref, p.1.role⟩ : Member), p.2 + 1, p.1.ref⟩)

variable {t : ObjectType}

/-- The record that `add_node`, `add_way` or `add_relation` appends. -/
def newElem (o : OsmObject t) : Elem t where
  id := 0
  version := 1
  changesetId := env.changeset
  oldId := o.id
  tags := o.tags
  ifUnused := false
  coord := coordOf env t o.body
  refs := refsOfBody t o.body

/-- The record that `modify_node`, `modify_way` or `modify_relation` appends. -/
def modifiedElem (o : OsmObject t) : Elem t where
  id := toUnsigned o.id
  version := o.version
  changesetId := env.changeset
  oldId := o.id
  tags := o.tags
  ifUnused := false
  coord := coordOf env t o.body
  refs := refsOfBody t o.body

/-- The record that `delete_node`, `delete_way` or `delete_relation` appends. -/
def deletedElem (o : OsmObject t) (ifUnused : Bool) : Elem t where
  id := toUnsigned o.id
  version := o.version
  changesetId := env.changeset
  oldId := o.id
  tags := []
  ifUnused := ifUnused
  coord := defaultCoord t
  refs := []

end Records

section Push

variable (env : Env) {t : ObjectType}

def add (o : OsmObject t) (st : Upload) : Except Exception Upload :=
  if 0 ≤ o.id then
    .error (.badRequest "Placeholder IDs must be negative for created elements.")
  else
    let e := newElem env o
    let u := st.updater t
    .ok ({ st with ct := st.ct.pushOrig ⟨.create, t, e.oldId, e.version, false⟩ }.setUpdater
      { u with createBuf := u.createBuf ++ [e] })

def modify (o : OsmObject t) (st : Upload) : Upload :=
  let e := modifiedElem env o
  let u := st.updater t
  { st with ct := st.ct.pushOrig ⟨.modify, t, e.oldId, e.version, false⟩ }.setUpdater
    { u with modifyBuf := u.modifyBuf ++ [e] }

def delete (o : OsmObject t) (ifUnused : Bool) (st : Upload) : Upload :=
  let e := deletedElem env o ifUnused
  let u := st.updater t
  { st with ct := st.ct.pushOrig ⟨.delete, t, e.oldId, e.version, ifUnused⟩ }.setUpdater
    { u with deleteBuf := u.deleteBuf ++ [e] }

end Push

section Handle

variable (env : Env)

/-- The work for the current state, done before a transition. -/
def flush (st : Upload) : DbProg Upload :=
  match st.state with
  | .initial => return st
  | .create t => processNew env t st
  | .modify => do
      let st ← processModify env .node st
      let st ← processModify env .way st
      processModify env .relation st
  | .delete t => processDelete env t st
  | .finished => return st

def handleNewState (new : HandlerState) (st : Upload) : DbProg Upload :=
  if new = st.state then return st
  else do
    let st ← flush env st
    return { st with state := new }

def Element.state (el : Element) : HandlerState :=
  match el.op with
  | .create => .create el.objType
  | .modify => .modify
  | .delete => .delete el.objType

def checkOsmObject (el : Element) : Except Exception Unit :=
  if el.object.changeset ≠ env.changeset then
    .error (.conflict (s!"Changeset mismatch: Provided {el.object.changeset} " ++
      s!"but only {env.changeset} is allowed"))
  else .ok ()

/-- The call of the updater for one element. -/
def push (el : Element) (st : Upload) : Except Exception Upload :=
  match el.op with
  | .create => add env el.object st
  | .modify => .ok (modify env el.object st)
  | .delete => .ok (delete env el.object el.ifUnused st)

/-- `process_node`, `process_way` and `process_relation`. -/
def processElement (st : Upload) (el : Element) : DbProg Upload := do
  liftExcept (checkOsmObject env el)
  let st ← handleNewState env (Element.state el) st
  liftExcept (push env el st)

/-- The callbacks of one document, `end_document` included. -/
def processDocument (doc : List Element) : DbProg Upload := do
  let st ← doc.foldlM (processElement env) (Upload.empty env)
  handleNewState env .finished st

def getBbox (st : Upload) : Bbox :=
  (((Bbox.undefined env.cfg).expand (st.updater .node).bbox).expand (st.updater .way).bbox).expand
    (st.updater .relation).bbox

def elementStats (st : Upload) (t : ObjectType) : ElementStats :=
  ⟨(st.ct.created t).length, (st.ct.modified t).length, (st.ct.deleted t).length⟩

def getStats (st : Upload) : UploadStats :=
  ⟨elementStats st .node, elementStats st .way, elementStats st .relation⟩

end Handle

section Samples

def sampleEnv : Env := ⟨Settings.default, 5, 7, 10⟩

variable (op : Operation) (id : Int) (version : Nat) (ifUnused : Bool)

def sampleNode : Element :=
  ⟨op, .node, ⟨7, id, version, [], (⟨1, 2⟩ : Position), List.nodup_nil⟩, ifUnused⟩

def sampleWay (nodes : List Int) : Element :=
  ⟨op, .way, ⟨7, id, version, [], nodes, List.nodup_nil⟩, ifUnused⟩

def sampleRelation (members : List Int) : Element :=
  ⟨op, .relation, ⟨7, id, version, [],
    members.map (fun ref => (⟨.relation, ref, ""⟩ : RelationMember)), List.nodup_nil⟩, ifUnused⟩

/-- A node in use is kept, and deleted after the way has let go of it. -/
def sampleUse (ifUnused : Bool) : List Element :=
  [sampleNode .create (-1) 0 false, sampleNode .create (-2) 0 false,
    sampleWay .create (-1) 0 false [-1], sampleNode .delete (-1) 1 true,
    sampleWay .modify (-1) 1 false [-2], sampleNode .delete (-1) 1 ifUnused]

def sampleTwice : List Element :=
  [sampleNode .create (-1) 0 false, sampleNode .delete (-1) 1 false,
    sampleNode .delete (-1) 1 false]

end Samples

end Cgimap.Osmchange.Handler
