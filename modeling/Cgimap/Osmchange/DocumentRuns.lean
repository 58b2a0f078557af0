/- path: Cgimap/Osmchange/DocumentRuns
   generality: I
   source: none
   digest: A processed document is a sequence of executed batches. -/

import Cgimap.Osmchange.CreateEffects
import Cgimap.Osmchange.DeleteEffects
import Cgimap.Osmchange.Handler
import Cgimap.Osmchange.ModifyEffects

set_option autoImplicit false
set_option relaxedAutoImplicit false

namespace Cgimap.Osmchange.DocumentRuns

open Cgimap.Library.ExceptLists
open Cgimap.Library.StatementProgram
open Cgimap.Library.StatementProgram.Prog
open Cgimap.Model.Types
open Cgimap.Model.Database
open Cgimap.Osmchange.DiffTracking
open Cgimap.Osmchange.UploadRecords
open Cgimap.Osmchange.UpdaterChecks
open Cgimap.Osmchange.UpdaterProcess
open Cgimap.Osmchange.Handler
open Cgimap.Osmchange.ObjectState
open Cgimap.Osmchange.WriteEffects
open Cgimap.Osmchange.CheckEffects
open Cgimap.Osmchange.Placeholders
open Cgimap.Osmchange.CreateEffects
open Cgimap.Osmchange.ModifyEffects
open Cgimap.Osmchange.DeleteEffects

variable {env : Env}

/-- The elements between two transitions, and the states around their execution. -/
structure Batch where
  els : List Element
  pushed : Upload
  flushed : Upload
  before : Db
  after : Db

def pushAll (env : Env) (els : List Element) (st : Upload) : Except Exception Upload :=
  els.foldlM (fun st el => push env el st) st

/-- The batch is buffered on top of `st` and executed. -/
structure Batch.Executes (env : Env) (st : Upload) (b : Batch) : Prop where
  nonempty : b.els ≠ []
  uniform : ∀ el ∈ b.els, Element.state el = b.pushed.state
  changeset : ∀ el ∈ b.els, el.object.changeset = env.changeset
  pushes : pushAll env b.els { st with state := b.pushed.state } = .ok b.pushed
  flushes : (flush env b.pushed).run b.before = .ok (b.flushed, b.after)

/-- Batches executed one after the other. A batch ends where the kind of work changes. -/
inductive Runs (env : Env) : Upload → Db → List Batch → Upload → Db → Prop
  | nil (st : Upload) (db : Db) : Runs env st db [] st db
  | snoc {st : Upload} {db : Db} {batches : List Batch} {st₁ : Upload} {b : Batch} :
      Runs env st db batches st₁ b.before → b.Executes env st₁ → st₁.state ≠ b.pushed.state →
      Runs env st db (batches ++ [b]) b.flushed b.after

section States

variable {el : Element} {t : ObjectType}

theorem state_eq_create : Element.state el = .create t ↔ el.op = .create ∧ el.objType = t := by
  obtain ⟨op, t', object, ifUnused⟩ := el
  cases op <;> simp [Element.state]

theorem state_eq_modify : Element.state el = .modify ↔ el.op = .modify := by
  obtain ⟨op, t', object, ifUnused⟩ := el
  cases op <;> simp [Element.state]

theorem state_eq_delete : Element.state el = .delete t ↔ el.op = .delete ∧ el.objType = t := by
  obtain ⟨op, t', object, ifUnused⟩ := el
  cases op <;> simp [Element.state]

end States

section Push

theorem push_state {el : Element} {st st' : Upload} (done : push env el st = .ok st') :
    st'.state = st.state := by
  unfold push at done
  split at done
  · unfold add at done
    split at done
    · cases done
    · cases done
      rfl
  · cases done
    rfl
  · cases done
    rfl

theorem pushAll_state {els : List Element} {st st' : Upload} (done : pushAll env els st = .ok st') :
    st'.state = st.state := by
  induction els generalizing st with
  | nil =>
      cases done
      rfl
  | cons el els ih =>
      rw [pushAll, List.foldlM_cons, bind_eq_ok] at done
      obtain ⟨st₁, first, rest⟩ := done
      rw [ih rest, push_state first]

theorem pushAll_snoc {els : List Element} {el : Element} {st st₁ st₂ : Upload}
    (first : pushAll env els st = .ok st₁) (last : push env el st₁ = .ok st₂) :
    pushAll env (els ++ [el]) st = .ok st₂ := by
  rw [pushAll, List.foldlM_append, bind_eq_ok]
  refine ⟨st₁, first, ?_⟩
  rw [List.foldlM_cons, bind_eq_ok]
  exact ⟨st₂, last, rfl⟩

/-- The record that is buffered for an element. -/
def elemOf (env : Env) (el : Element) : Elem el.objType :=
  match el.op with
  | .create => newElem env el.object
  | .modify => modifiedElem env el.object
  | .delete => deletedElem env el.object el.ifUnused

theorem elemOf_oldId (el : Element) : (elemOf env el).oldId = el.object.id := by
  unfold elemOf
  split <;> rfl

def elemOf? (env : Env) (t : ObjectType) (el : Element) : Option (Elem t) :=
  if h : el.objType = t then some (h ▸ elemOf env el) else none

def elemsIn (env : Env) (t : ObjectType) (els : List Element) : List (Elem t) :=
  els.filterMap (elemOf? env t)

/-- The entry of `osmchange_orig_sequence` for an element. -/
def origOf (env : Env) (el : Element) : OsmChange :=
  ⟨el.op, el.objType, (elemOf env el).oldId, (elemOf env el).version, (elemOf env el).ifUnused⟩

@[simp] theorem elemOf?_self (el : Element) : elemOf? env el.objType el = some (elemOf env el) := by
  simp [elemOf?]

theorem elemOf?_other {t : ObjectType} {el : Element} (ne : t ≠ el.objType) :
    elemOf? env t el = none := by
  simp [elemOf?, ne.symm]

theorem elemsIn_cons_self (el : Element) (els : List Element) :
    elemsIn env el.objType (el :: els) = elemOf env el :: elemsIn env el.objType els := by
  simp [elemsIn]

theorem elemsIn_cons_other {t : ObjectType} {el : Element} (ne : t ≠ el.objType)
    (els : List Element) : elemsIn env t (el :: els) = elemsIn env t els := by
  simp [elemsIn, elemOf?_other ne]

theorem elemsIn_other {t t' : ObjectType} {els : List Element}
    (all : ∀ el ∈ els, el.objType = t) (ne : t' ≠ t) : elemsIn env t' els = [] :=
  List.filterMap_eq_nil_iff.mpr fun el member => elemOf?_other (by rw [all el member]; exact ne)

def buffer (st : Upload) (op : Operation) (t : ObjectType) : List (Elem t) :=
  match op with
  | .create => (st.updater t).createBuf
  | .modify => (st.updater t).modifyBuf
  | .delete => (st.updater t).deleteBuf

/-- What buffering one element does. -/
structure Pushed (env : Env) (els : List Element) (st st' : Upload) : Prop where
  buffers : ∀ op t, buffer st' op t =
    buffer st op t ++ elemsIn env t (els.filter (fun el => decide (el.op = op)))
  bbox : ∀ t, (st'.updater t).bbox = (st.updater t).bbox
  placeholders : ∀ t, (st'.updater t).createPlaceholderIds = (st.updater t).createPlaceholderIds
  tracking : st'.ct = { st.ct with origSequence := st.ct.origSequence ++ els.map (origOf env) }
  negative : ∀ el ∈ els, el.op = .create → el.object.id < 0

private theorem pushed_of_setUpdater {el : Element} {st st' : Upload} {u : Updater el.objType}
    (result : st' = { st with ct := st.ct.pushOrig (origOf env el) : Upload }.setUpdater u)
    (bbox : u.bbox = (st.updater el.objType).bbox)
    (placeholders : u.createPlaceholderIds = (st.updater el.objType).createPlaceholderIds)
    (buffers : ∀ op, buffer st' op el.objType = buffer st op el.objType ++
      if el.op = op then [elemOf env el] else [])
    (negative : el.op = .create → el.object.id < 0) : Pushed env [el] st st' := by
  subst result
  refine ⟨fun op t => ?_, fun t => ?_, fun t => ?_, rfl, by simpa using negative⟩
  · by_cases own : t = el.objType
    · subst own
      rw [buffers]
      by_cases same : el.op = op
      · simp [elemsIn, same]
      · simp [elemsIn, same]
    · have none : elemsIn env t ([el].filter (fun el => decide (el.op = op))) = [] := by
        rw [List.filter_singleton]
        cases decide (el.op = op)
        · rfl
        · simp [elemsIn, elemOf?_other own]
      rw [none, List.append_nil]
      simp only [buffer, Upload.setUpdater_other _ _ own]
  · by_cases own : t = el.objType
    · subst own
      simpa using bbox
    · rw [Upload.setUpdater_other _ _ own]
  · by_cases own : t = el.objType
    · subst own
      simpa using placeholders
    · rw [Upload.setUpdater_other _ _ own]

theorem push_pushed {el : Element} {st st' : Upload} (done : push env el st = .ok st') :
    Pushed env [el] st st' := by
  obtain ⟨op, t, object, ifUnused⟩ := el
  cases op with
  | create =>
      simp only [push, add] at done
      split at done
      · cases done
      · rename_i negative
        cases done
        refine pushed_of_setUpdater rfl rfl rfl (fun op => ?_) fun _ => not_le.mp negative
        cases op <;> simp [buffer, elemOf]
  | modify =>
      simp only [push] at done
      cases done
      refine pushed_of_setUpdater rfl rfl rfl (fun op => ?_) fun same => nomatch same
      cases op <;> simp [buffer, elemOf, Handler.modify]
  | delete =>
      simp only [push] at done
      cases done
      refine pushed_of_setUpdater rfl rfl rfl (fun op => ?_) fun same => nomatch same
      cases op <;> simp [buffer, elemOf, Handler.delete]

theorem pushAll_pushed {els : List Element} {st st' : Upload}
    (done : pushAll env els st = .ok st') : Pushed env els st st' := by
  induction els generalizing st with
  | nil =>
      cases done
      exact ⟨by simp [elemsIn], by simp, by simp, by simp, by simp⟩
  | cons el els ih =>
      rw [pushAll, List.foldlM_cons, bind_eq_ok] at done
      obtain ⟨st₁, first, rest⟩ := done
      have one := push_pushed first
      have more := ih rest
      refine ⟨fun op t => ?_, fun t => ?_, fun t => ?_, ?_, ?_⟩
      · rw [more.buffers, one.buffers, List.append_assoc, elemsIn, elemsIn, ← List.filterMap_append,
          ← List.filter_append]
        rfl
      · rw [more.bbox, one.bbox]
      · rw [more.placeholders, one.placeholders]
      · rw [more.tracking, one.tracking]
        simp
      · intro d member create
        rcases List.mem_cons.mp member with rfl | later
        · exact one.negative d (by simp) create
        · exact more.negative d later create

end Push

def Idle (st : Upload) : Prop := ∀ op t, buffer st op t = []

theorem idle_empty (env : Env) : Idle (Upload.empty env) := by
  intro op t
  cases op <;> rfl

namespace Batch.Executes

variable {st : Upload} {b : Batch}

theorem pushed (ex : b.Executes env st) : Pushed env b.els { st with state := b.pushed.state } b.pushed :=
  pushAll_pushed ex.pushes

theorem buffer_eq (idle : Idle st) (ex : b.Executes env st) (op : Operation) (t : ObjectType) :
    buffer b.pushed op t = elemsIn env t (b.els.filter (fun el => decide (el.op = op))) := by
  rw [ex.pushed.buffers]
  have none : buffer { st with state := b.pushed.state } op t = [] := idle op t
  rw [none, List.nil_append]

/-- The state says which operation all elements of the batch have. -/
theorem op_eq (ex : b.Executes env st) :
    (∃ t, b.pushed.state = .create t ∧ ∀ el ∈ b.els, el.op = .create ∧ el.objType = t) ∨
      (b.pushed.state = .modify ∧ ∀ el ∈ b.els, el.op = .modify) ∨
      ∃ t, b.pushed.state = .delete t ∧ ∀ el ∈ b.els, el.op = .delete ∧ el.objType = t := by
  obtain ⟨el, member⟩ := List.exists_mem_of_ne_nil _ ex.nonempty
  have first := ex.uniform el member
  cases op : el.op with
  | create =>
      have here := (state_eq_create (t := el.objType)).mpr ⟨op, rfl⟩
      refine .inl ⟨el.objType, first.symm.trans here, fun d inside => state_eq_create.mp ?_⟩
      rw [ex.uniform d inside, ← first, here]
  | modify =>
      have here := state_eq_modify.mpr op
      refine .inr (.inl ⟨first.symm.trans here, fun d inside => state_eq_modify.mp ?_⟩)
      rw [ex.uniform d inside, ← first, here]
  | delete =>
      have here := (state_eq_delete (t := el.objType)).mpr ⟨op, rfl⟩
      refine .inr (.inr ⟨el.objType, first.symm.trans here, fun d inside => state_eq_delete.mp ?_⟩)
      rw [ex.uniform d inside, ← first, here]

end Batch.Executes

structure CreateBatch (env : Env) (b : Batch) (t : ObjectType) (es : List (Elem t)) : Prop where
  ops : ∀ el ∈ b.els, el.op = .create ∧ el.objType = t
  replaced : replaceOldIds b.flushed.ct (elemsIn env t b.els) = .ok es
  effect : CreateEffect env es b.before b.after
  tracking : b.flushed.ct = b.pushed.ct.addCreated t (createdEntries b.before (elemsIn env t b.els))
  placeholders : checkUniquePlaceholderIds (b.pushed.updater t).createPlaceholderIds
    ((elemsIn env t b.els).map Elem.oldId) = .ok (b.flushed.updater t).createPlaceholderIds
  others : ∀ t', t' ≠ t → (b.flushed.updater t').createPlaceholderIds =
    (b.pushed.updater t').createPlaceholderIds

/-- A modify batch: all nodes, then all ways, then all relations. -/
structure ModifyBatch (env : Env) (b : Batch) (es : (t : ObjectType) → List (Elem t)) (db₁ db₂ : Db)
    (modified : ObjectType → List ObjectIdMapping) : Prop where
  ops : ∀ el ∈ b.els, el.op = .modify
  replaced : ∀ t, replaceOldIds b.pushed.ct (elemsIn env t b.els) = .ok (es t)
  nodes : ModifyEffect env (es .node) b.before db₁
  ways : ModifyEffect env (es .way) db₁ db₂
  relations : ModifyEffect env (es .relation) db₂ b.after
  entries : ∀ t, (modified t).Perm (modifiedEntries (es t))
  tracking : b.flushed.ct = ((b.pushed.ct.addModified .node (modified .node)).addModified .way
    (modified .way)).addModified .relation (modified .relation)
  placeholders : ∀ t, (b.flushed.updater t).createPlaceholderIds =
    (b.pushed.updater t).createPlaceholderIds

structure DeleteBatch (env : Env) (b : Batch) (t : ObjectType) (es executed : List (Elem t))
    (used : List ObjectIdMapping) (deleted : List Int) : Prop where
  ops : ∀ el ∈ b.els, el.op = .delete ∧ el.objType = t
  replaced : replaceOldIds b.pushed.ct (elemsIn env t b.els) = .ok es
  effect : DeleteEffect env es executed used b.before b.after
  entries : deleted.Perm (executed.map Elem.oldId)
  tracking : b.flushed.ct = ((b.pushed.ct.addSkipDeleted t
    ((deletedRows b.before es).map (skippedEntry es))).addSkipDeleted t used).addDeleted t deleted
  placeholders : ∀ t, (b.flushed.updater t).createPlaceholderIds =
    (b.pushed.updater t).createPlaceholderIds

theorem ModifyBatch.object {b : Batch} {es : (t : ObjectType) → List (Elem t)} {db₁ db₂ : Db}
    {modified : ObjectType → List ObjectIdMapping}
    (batch : ModifyBatch env b es db₁ db₂ modified) (t : ObjectType) (id : Nat) :
    ObjState.Accepts env.now (object b.before t id) (elemsOf (es t) id) ∧
      object b.after t id =
        ObjState.modifyAll env.now (elemsOf (es t) id) (object b.before t id) := by
  cases t with
  | node =>
      rw [batch.relations.acts.other _ (by decide), batch.ways.acts.other _ (by decide)]
      exact ⟨batch.nodes.accepts id, batch.nodes.acts.same id⟩
  | way =>
      rw [batch.relations.acts.other _ (by decide), ← batch.nodes.acts.other _ (by decide)]
      exact ⟨batch.ways.accepts id, batch.ways.acts.same id⟩
  | relation =>
      rw [← batch.nodes.acts.other _ (by decide), ← batch.ways.acts.other _ (by decide)]
      exact ⟨batch.relations.accepts id, batch.relations.acts.same id⟩

inductive BatchEffect (env : Env) (b : Batch) : Prop
  | create (t : ObjectType) (es : List (Elem t)) : CreateBatch env b t es → BatchEffect env b
  | modify (es : (t : ObjectType) → List (Elem t)) (db₁ db₂ : Db)
      (modified : ObjectType → List ObjectIdMapping) :
      ModifyBatch env b es db₁ db₂ modified → BatchEffect env b
  | delete (t : ObjectType) (es executed : List (Elem t)) (used : List ObjectIdMapping)
      (deleted : List Int) : DeleteBatch env b t es executed used deleted → BatchEffect env b

namespace Batch.Executes

variable {st : Upload} {b : Batch}

theorem filter_op {op : Operation} {els : List Element} (all : ∀ el ∈ els, el.op = op) :
    els.filter (fun el => decide (el.op = op)) = els :=
  List.filter_eq_self.mpr fun el member => by simp [all el member]

theorem filter_other {op op' : Operation} {els : List Element}
    (all : ∀ el ∈ els, el.op = op) (ne : op ≠ op') :
    els.filter (fun el => decide (el.op = op')) = [] :=
  List.filter_eq_nil_iff.mpr fun el member => by simp [all el member, ne]

theorem oldId_of_elemsIn {t : ObjectType} {els : List Element} {e : Elem t}
    (member : e ∈ elemsIn env t els) : ∃ el ∈ els, e.oldId = el.object.id := by
  obtain ⟨el, inside, found⟩ := List.mem_filterMap.mp member
  unfold elemOf? at found
  split at found
  · rename_i own
    subst own
    cases found
    exact ⟨el, inside, by unfold elemOf; split <;> rfl⟩
  · cases found

theorem create_effect {t : ObjectType} (idle : Idle st) (ex : b.Executes env st)
    (ops : ∀ el ∈ b.els, el.op = .create ∧ el.objType = t)
    (flushes : (processNew env t b.pushed).run b.before = .ok (b.flushed, b.after)) :
    (∃ es, CreateBatch env b t es) ∧ Idle b.flushed ∧ b.flushed.state = b.pushed.state := by
  have creates : ∀ el ∈ b.els, el.op = .create := fun el member => (ops el member).1
  have typed : ∀ el ∈ b.els, el.objType = t := fun el member => (ops el member).2
  have own : (b.pushed.updater t).createBuf = elemsIn env t b.els :=
    (ex.buffer_eq idle .create t).trans (by rw [filter_op creates])
  have negative : ∀ e ∈ (b.pushed.updater t).createBuf, e.oldId < 0 := by
    rw [own]
    intro e member
    obtain ⟨el, inside, same⟩ := oldId_of_elemsIn member
    rw [same]
    exact ex.pushed.negative el inside (creates el inside)
  obtain ⟨es, placeholders, box, unique, replaced, effect, result⟩ := processNew_ok negative flushes
  rw [own] at unique replaced result
  refine ⟨⟨es, ops, ?_, effect, ?_, ?_, fun t' ne => ?_⟩, fun op t' => ?_, by rw [result]; rfl⟩
  · rw [result]
    exact replaced
  · rw [result]
    rfl
  · rw [result, Upload.setUpdater_updater]
    exact unique
  · rw [result, Upload.setUpdater_other _ _ ne]
  · have before := ex.buffer_eq idle op t'
    by_cases same : t' = t
    · subst same
      rw [result]
      cases op with
      | create => simp [buffer]
      | modify => simpa [buffer, filter_other creates, elemsIn] using before
      | delete => simpa [buffer, filter_other creates, elemsIn] using before
    · have kept : buffer b.flushed op t' = buffer b.pushed op t' := by
        rw [result]
        simp only [buffer, Upload.setUpdater_other _ _ same]
      rw [kept, before]
      refine elemsIn_other (fun el member => typed el (List.mem_of_mem_filter member)) same

theorem modify_effect (idle : Idle st) (ex : b.Executes env st)
    (ops : ∀ el ∈ b.els, el.op = .modify)
    (nodes : ∃ st₁ db₁, (processModify env .node b.pushed).run b.before = .ok (st₁, db₁) ∧
      ∃ st₂ db₂, (processModify env .way st₁).run db₁ = .ok (st₂, db₂) ∧
        (processModify env .relation st₂).run db₂ = .ok (b.flushed, b.after)) :
    (∃ es db₁ db₂ modified, ModifyBatch env b es db₁ db₂ modified) ∧ Idle b.flushed ∧
      b.flushed.state = b.pushed.state := by
  obtain ⟨st₁, db₁, nodes, st₂, db₂, ways, relations⟩ := nodes
  have own : ∀ t, (b.pushed.updater t).modifyBuf = elemsIn env t b.els := fun t =>
    (ex.buffer_eq idle .modify t).trans (by rw [filter_op ops])
  obtain ⟨ns, box₁, modified₁, replaced₁, effect₁, perm₁, result₁⟩ := processModify_ok nodes
  obtain ⟨ws, box₂, modified₂, replaced₂, effect₂, perm₂, result₂⟩ := processModify_ok ways
  obtain ⟨rs, box₃, modified₃, replaced₃, effect₃, perm₃, result₃⟩ := processModify_ok relations
  have wayBuf : (st₁.updater .way).modifyBuf = elemsIn env .way b.els := by
    rw [result₁, Upload.setUpdater_other _ _ (by decide)]
    exact own .way
  have relationBuf : (st₂.updater .relation).modifyBuf = elemsIn env .relation b.els := by
    rw [result₂, Upload.setUpdater_other _ _ (by decide), result₁,
      Upload.setUpdater_other _ _ (by decide)]
    exact own .relation
  have created₁ : st₁.ct.created = b.pushed.ct.created := by rw [result₁]; rfl
  have created₂ : st₂.ct.created = b.pushed.ct.created := by rw [result₂, ← created₁]; rfl
  rw [own] at replaced₁
  rw [wayBuf, replaceOldIds_congr created₁] at replaced₂
  rw [relationBuf, replaceOldIds_congr created₂] at replaced₃
  let es : (t : ObjectType) → List (Elem t) := ObjectType.pick ns ws rs
  let modified : ObjectType → List ObjectIdMapping := ObjectType.pick modified₁ modified₂ modified₃
  have placeholders : ∀ t, (b.flushed.updater t).createPlaceholderIds =
      (b.pushed.updater t).createPlaceholderIds := by
    intro t
    rw [result₃, result₂, result₁]
    cases t <;> rfl
  refine ⟨⟨es, db₁, db₂, modified, ops, ?_, effect₁, effect₂, effect₃, ?_, ?_, placeholders⟩,
    fun op t => ?_, by rw [result₃, result₂, result₁]; rfl⟩
  · intro t
    cases t with
    | node => exact replaced₁
    | way => exact replaced₂
    | relation => exact replaced₃
  · intro t
    cases t with
    | node => exact perm₁
    | way => exact perm₂
    | relation => exact perm₃
  · rw [result₃, result₂, result₁]
    rfl
  · have before := ex.buffer_eq idle op t
    rw [result₃, result₂, result₁]
    cases op with
    | create =>
        rw [filter_other ops (by decide)] at before
        cases t <;> exact before
    | modify => cases t <;> rfl
    | delete =>
        rw [filter_other ops (by decide)] at before
        cases t <;> exact before

theorem delete_effect {t : ObjectType} (idle : Idle st) (ex : b.Executes env st)
    (ops : ∀ el ∈ b.els, el.op = .delete ∧ el.objType = t)
    (flushes : (processDelete env t b.pushed).run b.before = .ok (b.flushed, b.after)) :
    (∃ es executed used deleted, DeleteBatch env b t es executed used deleted) ∧
      Idle b.flushed ∧ b.flushed.state = b.pushed.state := by
  have deletes : ∀ el ∈ b.els, el.op = .delete := fun el member => (ops el member).1
  have typed : ∀ el ∈ b.els, el.objType = t := fun el member => (ops el member).2
  have own : (b.pushed.updater t).deleteBuf = elemsIn env t b.els :=
    (ex.buffer_eq idle .delete t).trans (by rw [filter_op deletes])
  obtain ⟨es, executed, used, box, deleted, replaced, effect, perm, result⟩ :=
    processDelete_ok flushes
  rw [own] at replaced
  refine ⟨⟨es, executed, used, deleted, ops, replaced, effect, perm, ?_, fun t' => ?_⟩,
    fun op t' => ?_, by rw [result]; rfl⟩
  · rw [result]
    rfl
  · rw [result]
    by_cases same : t' = t
    · subst same
      rw [Upload.setUpdater_updater]
    · rw [Upload.setUpdater_other _ _ same]
  · have before := ex.buffer_eq idle op t'
    by_cases same : t' = t
    · subst same
      rw [result]
      cases op with
      | create => simpa [buffer, filter_other deletes, elemsIn] using before
      | modify => simpa [buffer, filter_other deletes, elemsIn] using before
      | delete => simp [buffer]
    · have kept : buffer b.flushed op t' = buffer b.pushed op t' := by
        rw [result]
        simp only [buffer, Upload.setUpdater_other _ _ same]
      rw [kept, before]
      refine elemsIn_other (fun el member => typed el (List.mem_of_mem_filter member)) same

theorem settled (idle : Idle st) (ex : b.Executes env st) :
    BatchEffect env b ∧ Idle b.flushed ∧ b.flushed.state = b.pushed.state := by
  have flushes := ex.flushes
  unfold flush at flushes
  rcases ex.op_eq with ⟨t, state, ops⟩ | ⟨state, ops⟩ | ⟨t, state, ops⟩
  · rw [state] at flushes
    obtain ⟨⟨es, batch⟩, after⟩ := create_effect idle ex ops flushes
    exact ⟨.create t es batch, after⟩
  · simp only [state, run_bind_eq_ok] at flushes
    obtain ⟨⟨es, db₁, db₂, modified, batch⟩, after⟩ := modify_effect idle ex ops flushes
    exact ⟨.modify es db₁ db₂ modified batch, after⟩
  · rw [state] at flushes
    obtain ⟨⟨es, executed, used, deleted, batch⟩, after⟩ := delete_effect idle ex ops flushes
    exact ⟨.delete t es executed used deleted batch, after⟩

end Batch.Executes

theorem Runs.idle {st st' : Upload} {db db' : Db} {batches : List Batch}
    (runs : Runs env st db batches st' db') (start : Idle st) : Idle st' := by
  induction runs with
  | nil => exact start
  | snoc runs executes _ ih => exact (executes.settled ih).2.1

/-- What every batch keeps, a document keeps. -/
theorem Runs.invariant {I : List Batch → Upload → Db → Prop} {st st' : Upload} {db db' : Db}
    {batches : List Batch} (runs : Runs env st db batches st' db') (idle : Idle st)
    (start : I [] st db)
    (step : ∀ done st₁ b, b ∈ batches → I done st₁ b.before → b.Executes env st₁ →
      BatchEffect env b → I (done ++ [b]) b.flushed b.after) : I batches st' db' := by
  induction runs with
  | nil => exact start
  | snoc runs executes fresh ih =>
      rename_i batches st₁ b
      have before := ih fun done st₂ c member => step done st₂ c
        (List.mem_append_left _ member)
      exact step batches st₁ b (by simp) before executes (executes.settled (runs.idle idle)).1

/-- The elements processed so far: executed batches and a pending one. -/
private inductive Sofar (env : Env) (db₀ : Db) : List Element → Upload → Db → Prop
  | start : Sofar env db₀ [] (Upload.empty env) db₀
  | pending {batches : List Batch} {st₁ st : Upload} {db : Db} {els : List Element} :
      Runs env (Upload.empty env) db₀ batches st₁ db → els ≠ [] → st₁.state ≠ st.state →
      (∀ el ∈ els, Element.state el = st.state) →
      (∀ el ∈ els, el.object.changeset = env.changeset) →
      pushAll env els { st₁ with state := st.state } = .ok st →
      Sofar env db₀ (batches.flatMap Batch.els ++ els) st db

theorem checkOsmObject_ok {el : Element} {u : Unit}
    (done : checkOsmObject env el = .ok u) : el.object.changeset = env.changeset := by
  unfold checkOsmObject at done
  split at done
  · cases done
  · rename_i same
    simpa using same

private theorem sofar_step {db₀ db db' : Db} {els : List Element} {st st' : Upload} {el : Element}
    (sofar : Sofar env db₀ els st db) (run : (processElement env st el).run db = .ok (st', db')) :
    Sofar env db₀ (els ++ [el]) st' db' := by
  rw [processElement, run_bind_eq_ok] at run
  obtain ⟨_, db₁, check, run⟩ := run
  obtain ⟨checked, rfl⟩ := run_liftExcept_eq_ok.mp check
  have own := checkOsmObject_ok checked
  rw [run_bind_eq_ok] at run
  obtain ⟨st₁, db₂, handled, last⟩ := run
  obtain ⟨pushed, rfl⟩ := run_liftExcept_eq_ok.mp last
  unfold handleNewState at handled
  split at handled
  · rename_i same
    cases handled
    cases sofar with
    | start =>
        simp only [Upload.empty, Element.state] at same
        split at same <;> cases same
    | pending runs nonempty fresh uniform changeset pushes =>
        rw [List.append_assoc]
        have keeps := push_state pushed
        refine .pending runs (by simp) (by rwa [keeps]) ?_ ?_ ?_
        · intro d member
          rw [keeps]
          rcases List.mem_append.mp member with before | here
          · exact uniform d before
          · rw [List.mem_singleton.mp here]
            exact same
        · intro d member
          rcases List.mem_append.mp member with before | here
          · exact changeset d before
          · rw [List.mem_singleton.mp here]
            exact own
        · rw [keeps]
          exact pushAll_snoc pushes pushed
  · rename_i other
    rw [run_bind_eq_ok] at handled
    obtain ⟨st₂, db₃, flushed, rest⟩ := handled
    cases rest
    have keeps := push_state pushed
    -- the new element alone is the next pending batch
    have next : ∀ {batches : List Batch}, Runs env (Upload.empty env) db₀ batches st₂ db' →
        st₂.state = st.state → Sofar env db₀ (batches.flatMap Batch.els ++ [el]) st' db' := by
      intro batches runs still
      refine .pending runs (by simp) ?_ ?_ ?_ ?_
      · rw [keeps, still]
        exact fun same => other same.symm
      · intro d member
        rw [List.mem_singleton.mp member, keeps]
      · intro d member
        rw [List.mem_singleton.mp member]
        exact own
      · rw [keeps]
        exact pushAll_snoc (show pushAll env [] _ = .ok _ from rfl) pushed
    cases sofar with
    | start =>
        cases flushed
        exact next (.nil _ _) rfl
    | pending runs nonempty fresh uniform changeset pushes =>
        rename_i batches st₀ els
        have executes : Batch.Executes env st₀ ⟨els, st, st₂, db₁, db'⟩ :=
          ⟨nonempty, uniform, changeset, pushes, flushed⟩
        have settled := executes.settled (runs.idle (idle_empty env))
        have all := next (.snoc (b := ⟨els, st, st₂, db₁, db'⟩) runs executes fresh) settled.2.2
        simpa using all

private theorem Runs.getLast_state {st st' : Upload} {db db' : Db} {batches : List Batch}
    (runs : Runs env st db batches st' db') (start : Idle st) :
    ∀ el ∈ (batches.flatMap Batch.els).getLast?, Element.state el = st'.state := by
  cases runs with
  | nil => simp
  | snoc runs executes fresh =>
      rename_i batches st₁ b
      intro el last
      have inside : el ∈ b.els := by
        rw [List.flatMap_append, List.flatMap_singleton, List.getLast?_append_of_ne_nil _
          executes.nonempty] at last
        exact List.mem_of_getLast? last
      rw [(executes.settled (runs.idle start)).2.2]
      exact executes.uniform el inside

/-- After some elements the buffers hold the longest run of elements in the current state. -/
theorem buffered_of_elements {db₀ db : Db} {els : List Element} {st : Upload}
    (run : (els.foldlM (processElement env) (Upload.empty env)).run db₀ = .ok (st, db)) :
    ∃ done pending, els = done ++ pending ∧ (∀ el ∈ pending, Element.state el = st.state) ∧
      (∀ el ∈ done.getLast?, Element.state el ≠ st.state) ∧
      ∀ op t, buffer st op t = elemsIn env t (pending.filter (fun el => decide (el.op = op))) := by
  have sofar := run_foldlM_invariant (Sofar env db₀) els
    (fun _ _ _ _ _ _ _ sofar run => sofar_step sofar run) Sofar.start run
  rw [List.nil_append] at sofar
  cases sofar with
  | start => exact ⟨[], [], rfl, by simp, by simp, fun op t => idle_empty env op t⟩
  | pending runs nonempty fresh uniform changeset pushes =>
      rename_i batches st₁ els
      have idle := runs.idle (idle_empty env)
      refine ⟨batches.flatMap Batch.els, els, rfl, uniform, fun el last => ?_, fun op t => ?_⟩
      · rw [runs.getLast_state (idle_empty env) el last]
        exact fresh
      · rw [(pushAll_pushed pushes).buffers]
        have none : buffer { st₁ with state := st.state } op t = [] := idle op t
        rw [none, List.nil_append]

/-- A document processed without error, and the batches of its execution. -/
structure Executed (env : Env) (doc : List Element) (db : Db) (batches : List Batch) (st : Upload)
    (db' : Db) : Prop where
  processed : (processDocument env doc).run db = .ok (st, db')
  elements : batches.flatMap Batch.els = doc
  runs : ∃ st₁, Runs env (Upload.empty env) db batches st₁ db' ∧
    st = { st₁ with state := .finished }

theorem executed_of_processDocument {doc : List Element} {db db' : Db} {st : Upload}
    (done : (processDocument env doc).run db = .ok (st, db')) :
    ∃ batches, Executed env doc db batches st db' := by
  have processed := done
  rw [processDocument, run_bind_eq_ok] at done
  obtain ⟨st₁, db₁, elements, finish⟩ := done
  have sofar := run_foldlM_invariant (Sofar env db) doc
    (fun _ _ _ _ _ _ _ sofar run => sofar_step sofar run) Sofar.start elements
  rw [List.nil_append] at sofar
  unfold handleNewState at finish
  cases sofar with
  | start =>
      cases finish
      exact ⟨[], processed, rfl, Upload.empty env, .nil _ _, rfl⟩
  | pending runs nonempty fresh uniform changeset pushes =>
      rename_i batches st₀ els
      obtain ⟨el, member⟩ := List.exists_mem_of_ne_nil _ nonempty
      have open' : HandlerState.finished ≠ st₁.state := by
        rw [← uniform el member, Element.state]
        split <;> exact HandlerState.noConfusion
      rw [if_neg open', run_bind_eq_ok] at finish
      obtain ⟨st₂, db₂, flushed, rest⟩ := finish
      cases rest
      exact ⟨batches ++ [⟨els, st₁, st₂, db₁, db'⟩], processed, by simp, st₂,
        .snoc (b := ⟨els, st₁, st₂, db₁, db'⟩) runs
          ⟨nonempty, uniform, changeset, pushes, flushed⟩ fresh, rfl⟩

end Cgimap.Osmchange.DocumentRuns
