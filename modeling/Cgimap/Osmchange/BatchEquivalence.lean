/- path: Cgimap/Osmchange/BatchEquivalence
   generality: I
   source: src/api06/changeset_upload/osmchange_handler.cpp,
     src/backend/apidb/changeset_upload/{node,way,relation}_updater.cpp
   digest: Modifications succeed as one batch when they succeed one at a time. -/

import Cgimap.Osmchange.DocumentRuns
import Cgimap.Osmchange.ModifySchedules

set_option autoImplicit false
set_option relaxedAutoImplicit false

namespace Cgimap.Osmchange.BatchEquivalence

open Cgimap.Library.ExceptLists
open Cgimap.Library.KeyedTable
open Cgimap.Library.StatementProgram
open Cgimap.Library.StatementProgram.Prog
open Cgimap.Model.Types
open Cgimap.Model.Database
open Cgimap.Osmchange.DiffTracking
open Cgimap.Osmchange.UploadRecords
open Cgimap.Osmchange.UpdaterChecks
open Cgimap.Osmchange.UpdaterProcess
open Cgimap.Osmchange.Handler
open Cgimap.Osmchange.ObjectState
open Cgimap.Osmchange.WriteEffects
open Cgimap.Osmchange.WriteProgress
open Cgimap.Osmchange.CheckEffects
open Cgimap.Osmchange.Placeholders
open Cgimap.Osmchange.ModifyEffects
open Cgimap.Osmchange.SoundDatabase
open Cgimap.Osmchange.BatchProgress
open Cgimap.Osmchange.BoxReach
open Cgimap.Osmchange.DocumentRuns
open Cgimap.Osmchange.ModifySchedules

section Handler

variable (env : Env)

/-- The callbacks for a list of elements, up to the end of their last batch. -/
def runElements (st : Upload) (els : List Element) : DbProg Upload := do
  let st ← els.foldlM (processElement env) st
  handleNewState env .finished st

/-- Each element as a batch of its own. -/
def runOneByOne (st : Upload) (els : List Element) : DbProg Upload :=
  els.foldlM (fun st el => runElements env st [el]) st

structure Settled (st : Upload) : Prop where
  state : st.state = .initial ∨ st.state = .finished
  idle : Idle st

end Handler

structure SameTables (db db' : Db) : Prop where
  current : ∀ t, (db.current t).Same (db'.current t)
  currentTags : ∀ t, (db.currentTags t).Same (db'.currentTags t)
  currentRefs : ∀ t, (db.currentRefs t).Same (db'.currentRefs t)
  history : ∀ t, (db.history t).Same (db'.history t)
  historyTags : ∀ t, (db.historyTags t).Same (db'.historyTags t)
  historyRefs : ∀ t, (db.historyRefs t).Same (db'.historyRefs t)
  rest : SameRest db db'

section Tables

variable {db db' : Db} {t : ObjectType}

theorem mem_currentTags {r : TagRow} :
    r ∈ db.currentTags t ↔ (r.k, r.v) ∈ (object db t r.owner).tags := by
  simp only [object, Db.tagsOf, List.mem_map, Table.mem_select, decide_eq_true_eq, Prod.mk.injEq]
  constructor
  · exact fun member => ⟨r, ⟨member, rfl⟩, rfl, rfl⟩
  · rintro ⟨r', ⟨member, owner⟩, key, value⟩
    rwa [show r' = r from TagRow.ext owner key value] at member

theorem mem_currentRefs {r : RefRow t} :
    r ∈ db.currentRefs t ↔ (r.sequenceId, r.ref) ∈ (object db t r.owner).refs := by
  simp only [object, Db.refsOf, List.mem_map, Table.mem_select, decide_eq_true_eq, Prod.mk.injEq]
  constructor
  · exact fun member => ⟨r, ⟨member, rfl⟩, rfl, rfl⟩
  · rintro ⟨r', ⟨member, owner⟩, number, ref⟩
    rwa [show r' = r from RefRow.ext owner number ref] at member

theorem mem_historyTags {r : HistoryTagRow} :
    r ∈ db.historyTags t ↔ (r.k, r.v) ∈ (object db t r.owner).historyTags r.version := by
  simp only [object, Db.historyTagsOf, List.mem_map, Table.mem_select, decide_eq_true_eq,
    Prod.mk.injEq]
  constructor
  · exact fun member => ⟨r, ⟨member, rfl, rfl⟩, rfl, rfl⟩
  · rintro ⟨r', ⟨member, owner, version⟩, key, value⟩
    rwa [show r' = r from HistoryTagRow.ext owner key value version] at member

theorem mem_historyRefs {r : HistoryRefRow t} :
    r ∈ db.historyRefs t ↔ (r.sequenceId, r.ref) ∈ (object db t r.owner).historyRefs r.version := by
  simp only [object, Db.historyRefsOf, List.mem_map, Table.mem_select, decide_eq_true_eq,
    Prod.mk.injEq]
  constructor
  · exact fun member => ⟨r, ⟨member, rfl, rfl⟩, rfl, rfl⟩
  · rintro ⟨r', ⟨member, owner, version⟩, number, ref⟩
    rwa [show r' = r from HistoryRefRow.ext owner number ref version] at member

theorem sameTables_of_object (same : object db' = object db) (rest : SameRest db db') :
    SameTables db db' := by
  refine ⟨fun t r => ?_, fun t r => ?_, fun t r => ?_, fun t r => ?_, fun t r => ?_, fun t r => ?_,
    rest⟩
  · have row : (db'.current t).find? r.id = (db.current t).find? r.id :=
      congrArg ObjState.row (congrFun (congrFun same t) r.id)
    constructor
    · intro member
      exact (Table.find?_eq_some.mp (row.trans (Table.find?_key member))).1
    · intro member
      exact (Table.find?_eq_some.mp (row.symm.trans (Table.find?_key member))).1
  · rw [mem_currentTags, mem_currentTags, same]
  · rw [mem_currentRefs, mem_currentRefs, same]
  · have row : (db'.history t).find? r.key = (db.history t).find? r.key :=
      congrFun (congrArg ObjState.history (congrFun (congrFun same t) r.id)) r.version
    constructor
    · intro member
      exact (Table.find?_eq_some.mp (row.trans (Table.find?_key member))).1
    · intro member
      exact (Table.find?_eq_some.mp (row.symm.trans (Table.find?_key member))).1
  · rw [mem_historyTags, mem_historyTags, same]
  · rw [mem_historyRefs, mem_historyRefs, same]

end Tables

section Packages

variable {env : Env} {t : ObjectType} {db db' : Db}

def view (st : Upload) : Tracking × (ObjectType → Bbox) := (st.ct, fun t => (st.updater t).bbox)

def packagesOf (es : List (Elem t)) : List Package :=
  (buildPackages es).map (fun p => ⟨t, uniqueIds es, p⟩)

def batchPackages (es : (t : ObjectType) → List (Elem t)) : List Package :=
  packagesOf (es .node) ++ (packagesOf (es .way) ++ packagesOf (es .relation))

private theorem foldlM_packages (ids : List Nat) (ps : List (List (Elem t)))
    (acc : Tracking × (ObjectType → Bbox)) :
    (ps.map (fun p => (⟨t, ids, p⟩ : Package))).foldlM (runPackage env) acc =
      (fun r => (r.1, Function.update acc.2 t r.2)) <$>
        ps.foldlM (modifyPackage env t ids) (acc.1, acc.2 t) := by
  induction ps generalizing acc with
  | nil => simp
  | cons p ps ih =>
      rw [List.map_cons, List.foldlM_cons, List.foldlM_cons, map_bind]
      simp only [runPackage, bind_assoc, pure_bind]
      refine bind_congr fun r => ?_
      rw [ih]
      simp

def afterPackages (st : Upload) (t : ObjectType) (acc : Tracking × (ObjectType → Bbox)) : Upload :=
  { st with ct := acc.1 }.setUpdater { st.updater t with bbox := acc.2 t, modifyBuf := [] }

/-- `process_modify_*`, with its packages in the form in which they can be compared. -/
theorem processModify_eq_ok {st st' : Upload} : (processModify env t st).run db = .ok (st', db') ↔
    ∃ es acc, replaceOldIds st.ct (st.updater t).modifyBuf = .ok es ∧
      (∀ id ∈ uniqueIds es, (object db t id).row.isSome) ∧
      ((packagesOf es).foldlM (runPackage env) (view st)).run db = .ok (acc, db') ∧
      st' = afterPackages st t acc := by
  simp only [processModify, run_bind_eq_ok, run_liftExcept_eq_ok, packagesOf, foldlM_packages, view,
    map_eq_pure_bind]
  constructor
  · rintro ⟨es, _, ⟨replaced, rfl⟩, _, db₁, lock, ⟨ct, box⟩, db₂, packages, done⟩
    obtain ⟨rfl, known⟩ := lockCurrent_ok lock
    cases done
    refine ⟨es, _, replaced, known, ⟨(ct, box), db', packages, rfl⟩, ?_⟩
    simp [afterPackages]
  · rintro ⟨es, acc, replaced, known, ⟨⟨ct, box⟩, db₂, packages, done⟩, rfl⟩
    cases done
    have lock : (lockCurrent t (uniqueIds es)).run db = .ok ((), db) := by
      rcases lockCurrent_cases db t (uniqueIds es) with ⟨-, run⟩ | ⟨⟨id, member, unknown⟩, -⟩
      · exact run
      · have row := known id member
        rw [unknown] at row
        cases row
    refine ⟨es, db, ⟨replaced, rfl⟩, (), db, lock, (ct, box), db', packages, ?_⟩
    simp [afterPackages]

theorem created_of_packages {qs : List Package} {acc acc' : Tracking × (ObjectType → Bbox)}
    (run : (qs.foldlM (runPackage env) acc).run db = .ok (acc', db')) :
    acc'.1.created = acc.1.created := by
  induction qs generalizing acc db with
  | nil =>
      cases run
      rfl
  | cons q qs ih =>
      rw [List.foldlM_cons, run_bind_eq_ok] at run
      obtain ⟨acc₁, db₁, first, rest⟩ := run
      rw [runPackage, run_bind_eq_ok] at first
      obtain ⟨⟨ct, box⟩, db₂, package, last⟩ := first
      cases last
      obtain ⟨-, modified, -, tracked⟩ := modifyPackage_ok package
      rw [ih rest, show ct = _ from tracked]
      rfl

theorem rows_of_packages {qs : List Package} {acc acc' : Tracking × (ObjectType → Bbox)}
    (run : (qs.foldlM (runPackage env) acc).run db = .ok (acc', db')) (t : ObjectType) (id : Nat) :
    (object db' t id).row.isSome = (object db t id).row.isSome := by
  rw [(executed_of_run run).states]
  exact modifyAll_row _ _

theorem view_afterPackages {st : Upload} {es : List (Elem t)} {acc : Tracking × (ObjectType → Bbox)}
    (run : ((packagesOf es).foldlM (runPackage env) (view st)).run db = .ok (acc, db')) :
    view (afterPackages st t acc) = acc := by
  rw [packagesOf, foldlM_packages, map_eq_pure_bind, run_bind_eq_ok] at run
  obtain ⟨⟨ct, box⟩, db₁, -, done⟩ := run
  cases done
  refine Prod.ext rfl (funext fun t' => ?_)
  by_cases own : t' = t
  · subst own
    simp [view, afterPackages]
  · simp [view, afterPackages, Upload.setUpdater_other _ _ own, Function.update_of_ne own]

private theorem afterPackages_other {st : Upload} {t' : ObjectType} (ne : t' ≠ t)
    (acc : Tracking × (ObjectType → Bbox)) :
    (afterPackages st t acc).updater t' = st.updater t' :=
  Upload.setUpdater_other _ _ ne

def afterBatch (st : Upload) (acc : Tracking × (ObjectType → Bbox)) : Upload where
  ct := acc.1
  updater t := { st.updater t with bbox := acc.2 t, modifyBuf := [] }
  state := st.state

private theorem afterBatch_eq {st : Upload} {acc₁ acc₂ acc₃ : Tracking × (ObjectType → Bbox)}
    (node₂ : acc₂.2 .node = acc₁.2 .node) (node₃ : acc₃.2 .node = acc₂.2 .node)
    (way₃ : acc₃.2 .way = acc₂.2 .way) :
    afterPackages (afterPackages (afterPackages st .node acc₁) .way acc₂) .relation acc₃ =
      afterBatch st acc₃ := by
  unfold afterBatch
  rw [afterPackages, Upload.setUpdater]
  congr 1
  funext t
  cases t with
  | node =>
      rw [Function.update_of_ne (by decide)]
      simp [afterPackages, Upload.setUpdater, node₃, node₂]
  | way =>
      rw [Function.update_of_ne (by decide)]
      simp [afterPackages, Upload.setUpdater, way₃]
  | relation => simp [afterPackages, Upload.setUpdater]

private theorem boxes_of_packages {es : List (Elem t)} {acc acc' : Tracking × (ObjectType → Bbox)}
    (run : ((packagesOf es).foldlM (runPackage env) acc).run db = .ok (acc', db')) {t' : ObjectType}
    (ne : t' ≠ t) : acc'.2 t' = acc.2 t' := by
  rw [packagesOf, foldlM_packages, map_eq_pure_bind, run_bind_eq_ok] at run
  obtain ⟨⟨ct, box⟩, db₁, -, done⟩ := run
  cases done
  exact Function.update_of_ne ne ..

theorem flush_modify_eq_ok {st st' : Upload} (state : st.state = .modify) :
    (flush env st).run db = .ok (st', db') ↔
      ∃ es acc, (∀ t, replaceOldIds st.ct (st.updater t).modifyBuf = .ok (es t)) ∧
        (∀ t, ∀ id ∈ uniqueIds (es t), (object db t id).row.isSome) ∧
        ((batchPackages es).foldlM (runPackage env) (view st)).run db = .ok (acc, db') ∧
        st' = afterBatch st acc := by
  simp only [flush, state, run_bind_eq_ok, processModify_eq_ok, batchPackages, List.foldlM_append]
  constructor
  · rintro ⟨_, db₁, ⟨ns, acc₁, replaced₁, known₁, run₁, rfl⟩, _, db₂,
      ⟨ws, acc₂, replaced₂, known₂, run₂, rfl⟩, rs, acc₃, replaced₃, known₃, run₃, rfl⟩
    have view₁ := view_afterPackages run₁
    have view₂ := view_afterPackages run₂
    rw [view₂] at run₃
    rw [view₁] at run₂
    have created₁ : acc₁.1.created = st.ct.created := created_of_packages run₁
    have created₂ : acc₂.1.created = st.ct.created := (created_of_packages run₂).trans created₁
    refine ⟨ObjectType.pick ns ws rs, acc₃, fun t => ?_, fun t => ?_,
      ⟨acc₁, db₁, run₁, acc₂, db₂, run₂, run₃⟩, ?_⟩
    · cases t with
      | node => exact replaced₁
      | way =>
          rw [afterPackages_other (by decide)] at replaced₂
          exact (replaceOldIds_congr created₁).symm.trans replaced₂
      | relation =>
          rw [afterPackages_other (by decide), afterPackages_other (by decide)] at replaced₃
          exact (replaceOldIds_congr created₂).symm.trans replaced₃
    · cases t with
      | node => exact known₁
      | way =>
          intro id member
          rw [← rows_of_packages run₁]
          exact known₂ id member
      | relation =>
          intro id member
          rw [← rows_of_packages run₁, ← rows_of_packages run₂]
          exact known₃ id member
    · exact afterBatch_eq (boxes_of_packages run₂ (by decide)) (boxes_of_packages run₃ (by decide))
        (boxes_of_packages run₃ (by decide))
  · rintro ⟨es, acc₃, replaced, known, ⟨acc₁, db₁, run₁, acc₂, db₂, run₂, run₃⟩, rfl⟩
    have view₁ := view_afterPackages run₁
    have created₁ : acc₁.1.created = st.ct.created := created_of_packages run₁
    have created₂ : acc₂.1.created = st.ct.created := (created_of_packages run₂).trans created₁
    have run₂' := run₂
    rw [← view₁] at run₂'
    have view₂ := view_afterPackages run₂'
    have run₃' := run₃
    rw [← view₂] at run₃'
    refine ⟨_, db₁, ⟨es .node, acc₁, replaced .node, known .node, run₁, rfl⟩, _, db₂,
      ⟨es .way, acc₂, ?_, fun id member => ?_, run₂', rfl⟩, es .relation, acc₃, ?_,
      fun id member => ?_, run₃', ?_⟩
    · rw [afterPackages_other (by decide)]
      exact (replaceOldIds_congr created₁).trans (replaced .way)
    · rw [rows_of_packages run₁]
      exact known .way id member
    · rw [afterPackages_other (by decide), afterPackages_other (by decide)]
      exact (replaceOldIds_congr created₂).trans (replaced .relation)
    · rw [rows_of_packages run₂, rows_of_packages run₁]
      exact known .relation id member
    · exact (afterBatch_eq (boxes_of_packages run₂ (by decide)) (boxes_of_packages run₃ (by decide))
        (boxes_of_packages run₃ (by decide))).symm

end Packages

section Elements

variable {env : Env} {st st' : Upload} {els : List Element} {db db' : Db}

private theorem processElement_settled (settled : Settled st) {el : Element}
    (op : el.op = .modify) :
    processElement env st el = processElement env { st with state := .modify } el := by
  unfold processElement
  refine bind_congr fun _ => ?_
  have state : Element.state el = .modify := state_eq_modify.mpr op
  have opens : handleNewState env (Element.state el) st = pure { st with state := .modify } := by
    unfold handleNewState flush
    rcases settled.state with initial | finished
    · rw [state, initial, if_neg (by decide)]
      rfl
    · rw [state, finished, if_neg (by decide)]
      rfl
  have stays : handleNewState env (Element.state el) { st with state := .modify } =
      pure { st with state := .modify } := by
    unfold handleNewState
    exact if_pos state
  rw [opens, stays]

private theorem elements_eq_ok (ops : ∀ el ∈ els, el.op = .modify) (state : st.state = .modify) :
    (els.foldlM (processElement env) st).run db = .ok (st', db') ↔
      (∀ el ∈ els, el.object.changeset = env.changeset) ∧ pushAll env els st = .ok st' ∧ db' = db := by
  induction els generalizing st with
  | nil =>
      rw [List.foldlM_nil, run_pure, pushAll, List.foldlM_nil]
      constructor
      · intro same
        cases same
        exact ⟨fun _ member => (List.not_mem_nil member).elim, rfl, rfl⟩
      · rintro ⟨-, same, rfl⟩
        cases same
        rfl
  | cons el els ih =>
      have first : el.op = .modify := ops el List.mem_cons_self
      have others : ∀ d ∈ els, d.op = .modify := fun d member => ops d (List.mem_cons_of_mem el member)
      have here : handleNewState env (Element.state el) st = pure st := by
        unfold handleNewState
        rw [if_pos (by rw [state_eq_modify.mpr first, state])]
      rw [List.foldlM_cons, run_bind_eq_ok, pushAll, List.foldlM_cons, bind_eq_ok]
      simp only [processElement, run_bind_eq_ok, run_liftExcept_eq_ok, here, run_pure]
      constructor
      · rintro ⟨st₁, db₁, ⟨u, _, ⟨check, rfl⟩, st₂, db₂, same, pushed, rfl⟩, rest⟩
        cases same
        have own := checkOsmObject_ok check
        have next : st₁.state = .modify := (push_state pushed).trans state
        obtain ⟨changeset, pushes, same⟩ := (ih others next).mp rest
        exact ⟨List.forall_mem_cons.mpr ⟨own, changeset⟩, ⟨st₁, pushed, pushes⟩, same⟩
      · rintro ⟨changeset, ⟨st₁, pushed, pushes⟩, rfl⟩
        obtain ⟨own, changeset⟩ := List.forall_mem_cons.mp changeset
        have next : st₁.state = .modify := (push_state pushed).trans state
        have check : checkOsmObject env el = .ok () := by
          unfold checkOsmObject
          rw [if_neg (not_not.mpr own)]
        exact ⟨st₁, db', ⟨(), db', ⟨check, rfl⟩, st, db', rfl, pushed, rfl⟩,
          (ih others next).mpr ⟨changeset, pushes, rfl⟩⟩

private theorem pushAll_modify (env : Env) (st : Upload) (ops : ∀ el ∈ els, el.op = .modify) :
    ∃ pushed, pushAll env els st = .ok pushed := by
  induction els generalizing st with
  | nil => exact ⟨st, rfl⟩
  | cons el els ih =>
      have first : push env el st = .ok (modify env el.object st) := by
        unfold push
        rw [ops el List.mem_cons_self]
      obtain ⟨pushed, rest⟩ := ih (modify env el.object st)
        (fun d member => ops d (List.mem_cons_of_mem el member))
      refine ⟨pushed, ?_⟩
      rw [pushAll, List.foldlM_cons, bind_eq_ok]
      exact ⟨_, first, rest⟩

/-- What buffering modifications leaves as it was. -/
private structure Buffered (env : Env) (els : List Element) (st pushed : Upload) : Prop where
  state : pushed.state = .modify
  created : pushed.ct.created = st.ct.created
  modified : pushed.ct.modified = st.ct.modified
  boxes : (view pushed).2 = (view st).2
  buffers : ∀ t, (pushed.updater t).modifyBuf = elemsIn env t els
  idle : ∀ acc, Idle (afterBatch pushed acc)

private theorem buffered_of_pushAll (settled : Settled st) (ops : ∀ el ∈ els, el.op = .modify)
    {pushed : Upload} (pushes : pushAll env els { st with state := .modify } = .ok pushed) :
    Buffered env els st pushed := by
  have effect := pushAll_pushed pushes
  have none : ∀ op t, buffer { st with state := .modify } op t = [] := settled.idle
  have same : ∀ op, op ≠ .modify → els.filter (fun el => decide (el.op = op)) = [] := by
    intro op other
    refine List.filter_eq_nil_iff.mpr fun el member => ?_
    simp [ops el member, Ne.symm other]
  have all : els.filter (fun el => decide (el.op = .modify)) = els :=
    List.filter_eq_self.mpr fun el member => by simp [ops el member]
  refine ⟨pushAll_state pushes, ?_, ?_, funext effect.bbox, fun t => ?_, fun acc op t => ?_⟩
  · rw [effect.tracking]
  · rw [effect.tracking]
  · have held := effect.buffers .modify t
    rwa [none, List.nil_append, all] at held
  · have held := effect.buffers op t
    rw [none, List.nil_append] at held
    cases op with
    | create =>
        rw [same _ (by decide)] at held
        exact held
    | modify => rfl
    | delete =>
        rw [same _ (by decide)] at held
        exact held

theorem runElements_eq_ok (settled : Settled st) (ops : ∀ el ∈ els, el.op = .modify)
    (nonempty : els ≠ []) : (runElements env st els).run db = .ok (st', db') ↔
      (∀ el ∈ els, el.object.changeset = env.changeset) ∧
      ∃ pushed es acc, pushAll env els { st with state := .modify } = .ok pushed ∧
        (∀ t, replaceOldIds st.ct (elemsIn env t els) = .ok (es t)) ∧
        (∀ t, ∀ id ∈ uniqueIds (es t), (object db t id).row.isSome) ∧
        ((batchPackages es).foldlM (runPackage env) (view pushed)).run db = .ok (acc, db') ∧
        st' = { afterBatch pushed acc with state := .finished } := by
  have opens : els.foldlM (processElement env) st =
      els.foldlM (processElement env) { st with state := .modify } := by
    cases els with
    | nil => exact absurd rfl nonempty
    | cons el els =>
        rw [List.foldlM_cons, List.foldlM_cons,
          processElement_settled settled (ops el List.mem_cons_self)]
  have closes : ∀ {pushed : Upload}, Buffered env els st pushed →
      ((handleNewState env .finished pushed).run db = .ok (st', db') ↔
        ∃ es acc, (∀ t, replaceOldIds st.ct (elemsIn env t els) = .ok (es t)) ∧
          (∀ t, ∀ id ∈ uniqueIds (es t), (object db t id).row.isSome) ∧
          ((batchPackages es).foldlM (runPackage env) (view pushed)).run db = .ok (acc, db') ∧
          st' = { afterBatch pushed acc with state := .finished }) := by
    intro pushed held
    have ends : HandlerState.finished ≠ pushed.state := by
      rw [held.state]
      decide
    have replace : ∀ t, replaceOldIds pushed.ct (pushed.updater t).modifyBuf =
        replaceOldIds st.ct (elemsIn env t els) := by
      intro t
      rw [held.buffers]
      exact replaceOldIds_congr held.created
    unfold handleNewState
    rw [if_neg ends, run_bind_eq_ok]
    simp only [flush_modify_eq_ok held.state, replace, run_pure]
    constructor
    · rintro ⟨_, _, ⟨es, acc, replaced, known, run, rfl⟩, done⟩
      cases done
      exact ⟨es, acc, replaced, known, run, rfl⟩
    · rintro ⟨es, acc, replaced, known, run, rfl⟩
      exact ⟨_, _, ⟨es, acc, replaced, known, run, rfl⟩, rfl⟩
  rw [runElements, opens, run_bind_eq_ok]
  simp only [elements_eq_ok ops (show ({ st with state := .modify } : Upload).state = .modify from rfl)]
  constructor
  · rintro ⟨pushed, _, ⟨changeset, pushes, rfl⟩, rest⟩
    have held := buffered_of_pushAll settled ops pushes
    obtain ⟨es, acc, batch⟩ := (closes held).mp rest
    exact ⟨changeset, pushed, es, acc, pushes, batch⟩
  · rintro ⟨changeset, pushed, es, acc, pushes, batch⟩
    have held := buffered_of_pushAll settled ops pushes
    exact ⟨pushed, db, ⟨changeset, pushes, rfl⟩, (closes held).mpr ⟨es, acc, batch⟩⟩

end Elements

section Serial

variable {env : Env} {ct : Tracking} {els : List Element} {qs : List Package} {t : ObjectType}

def Single (env : Env) (ct : Tracking) (el : Element) (q : Package) : Prop :=
  ∃ e, Resolved ct (elemOf env el) e ∧ q = ⟨el.objType, [e.id], [e]⟩

def Package.typed (t : ObjectType) (q : Package) : List (Elem t) :=
  if own : q.objType = t then own ▸ q.elems else []

/-- The elements of all packages, sorted by type. -/
def elemsOfAll (qs : List Package) (t : ObjectType) : List (Elem t) := qs.flatMap (Package.typed t)

@[simp] theorem Package.typed_own (locked : List Nat) (es : List (Elem t)) :
    Package.typed t ⟨t, locked, es⟩ = es := dif_pos rfl

theorem Package.typed_other {q : Package} (other : q.objType ≠ t) : Package.typed t q = [] :=
  dif_neg other

private theorem elemsFor_typed (q : Package) (id : Nat) :
    q.elemsFor t id = elemsOf (Package.typed t q) id := by
  by_cases own : q.objType = t
  · obtain ⟨t', locked, es⟩ := q
    cases own
    rw [Package.elemsFor_own, Package.typed_own]
  · rw [Package.elemsFor_other own, Package.typed_other own]
    rfl

private theorem elemsFor_all (qs : List Package) (id : Nat) :
    elemsFor qs t id = elemsOf (elemsOfAll qs t) id := by
  rw [elemsFor, elemsOfAll, elemsOf, List.filter_flatMap]
  congr 1
  funext q
  exact elemsFor_typed q id

theorem elemsFor_packagesOf (es : List (Elem t)) (t' : ObjectType) (id : Nat) :
    elemsFor (packagesOf es) t' id = if own : t = t' then elemsOf (own ▸ es) id else [] := by
  rw [elemsFor, packagesOf, List.flatMap_map]
  split
  · rename_i own
    subst own
    rw [← buildPackages_elemsOf]
    congr 1
    funext p
    exact Package.elemsFor_own _ _
  · rename_i other
    refine List.flatMap_eq_nil_iff.mpr fun p _ => ?_
    exact Package.elemsFor_other other

theorem elemsFor_batchPackages (es : (t : ObjectType) → List (Elem t)) (t : ObjectType) (id : Nat) :
    elemsFor (batchPackages es) t id = elemsOf (es t) id := by
  rw [batchPackages, elemsFor_append, elemsFor_append]
  simp only [elemsFor_packagesOf]
  cases t <;> simp

theorem elemsFor_singles (qs : List Package) :
    elemsFor (batchPackages (elemsOfAll qs)) = elemsFor qs := by
  funext t id
  rw [elemsFor_batchPackages, elemsFor_all]

private theorem resolved_all (singles : List.Forall₂ (Single env ct) els qs) (t : ObjectType) :
    List.Forall₂ (Resolved ct) (elemsIn env t els) (elemsOfAll qs t) := by
  induction singles with
  | nil => exact .nil
  | cons head _ ih =>
      rename_i el q els qs _
      obtain ⟨e, resolved, rfl⟩ := head
      rw [elemsOfAll, List.flatMap_cons]
      by_cases own : t = el.objType
      · subst own
        rw [elemsIn_cons_self, Package.typed_own]
        exact .cons resolved ih
      · rw [elemsIn_cons_other own, Package.typed_other (Ne.symm own)]
        exact ih

theorem mem_packagesOf {es : List (Elem t)} {q : Package} :
    q ∈ packagesOf es ↔ ∃ p ∈ buildPackages es, q = ⟨t, uniqueIds es, p⟩ := by
  simp only [packagesOf, List.mem_map, eq_comm]

private theorem mem_batchPackages {es : (t : ObjectType) → List (Elem t)} {q : Package} :
    q ∈ batchPackages es ↔
      ∃ t, ∃ p ∈ buildPackages (es t), q = ⟨t, uniqueIds (es t), p⟩ := by
  simp only [batchPackages, List.mem_append, mem_packagesOf]
  constructor
  · rintro (nodes | ways | relations)
    · exact ⟨.node, nodes⟩
    · exact ⟨.way, ways⟩
    · exact ⟨.relation, relations⟩
  · rintro ⟨t, member⟩
    cases t with
    | node => exact .inl member
    | way => exact .inr (.inl member)
    | relation => exact .inr (.inr member)

/-- Nodes before ways, ways before relations. -/
private def rank : ObjectType → Nat
  | .node => 0
  | .way => 1
  | .relation => 2

private theorem ranked (es : (t : ObjectType) → List (Elem t)) :
    (batchPackages es).Pairwise (fun p q => rank p.objType ≤ rank q.objType) := by
  have typed : ∀ (t : ObjectType) {q : Package}, q ∈ packagesOf (es t) → q.objType = t := by
    intro t q member
    obtain ⟨p, -, rfl⟩ := mem_packagesOf.mp member
    rfl
  have one : ∀ t, (packagesOf (es t)).Pairwise (fun p q => rank p.objType ≤ rank q.objType) := by
    intro t
    refine List.pairwise_of_forall_mem_list fun p first q second => ?_
    rw [typed t first, typed t second]
  refine List.pairwise_append.mpr ⟨one .node, List.pairwise_append.mpr ⟨one .way, one .relation, ?_⟩,
    ?_⟩
  · intro p first q second
    rw [typed .way first, typed .relation second]
    decide
  · intro p first q second
    rw [typed .node first]
    exact Nat.zero_le _

private theorem elemsFor_before {es : (t : ObjectType) → List (Elem t)} {pre post : List Package}
    {q : Package} (split : batchPackages es = pre ++ q :: post) (lower : rank t < rank q.objType)
    (id : Nat) : elemsFor pre t id = elemsFor (batchPackages es) t id := by
  have order := ranked es
  rw [split] at order ⊢
  have later := (List.pairwise_append.mp order).2.1
  have none : elemsFor (q :: post) t id = [] := by
    refine List.flatMap_eq_nil_iff.mpr fun p member => Package.elemsFor_other fun own => ?_
    rcases List.mem_cons.mp member with rfl | behind
    · rw [own] at lower
      exact lt_irrefl _ lower
    · have above := (List.pairwise_cons.mp later).1 p behind
      rw [own] at above
      omega
  rw [elemsFor_append, none, List.append_nil]

private theorem rank_target {r : Ref t} (other : r.target.1 ≠ .relation) :
    rank r.target.1 < rank t := by
  cases t with
  | node => exact nomatch r
  | way => exact Nat.zero_lt_one
  | relation =>
      cases found : r.target.1 with
      | node => decide
      | way => decide
      | relation => exact absurd found other

private theorem visible_modifyAll {now : Int} {l : List (Elem t)} {s : ObjState t}
    (nonempty : l ≠ []) (known : s.row.isSome) : (ObjState.modifyAll now l s).visible = true := by
  rcases List.eq_nil_or_concat l with rfl | ⟨before, e, rfl⟩
  · exact absurd rfl nonempty
  · rw [List.concat_eq_append, ObjState.modifyAll_append]
    have row : (ObjState.modifyAll now before s).row.isSome := by rwa [modifyAll_row]
    obtain ⟨r, found⟩ := Option.isSome_iff_exists.mp row
    change (ObjState.modify now e _).visible = true
    simp [ObjState.visible, found, SqlStatements.setRow]

theorem touched_iff (qs : List Package) (id : Nat) :
    Touched (elemsFor qs) (t, id) ↔ id ∈ uniqueIds (elemsOfAll qs t) := by
  rw [mem_uniqueIds, Touched, elemsFor_all, List.mem_map]
  exact elemsOf_ne_nil

private theorem locksOwn_singles (singles : List.Forall₂ (Single env ct) els qs) :
    ∀ q ∈ qs, LocksOwn qs q := by
  intro q member
  obtain ⟨el, -, e, -, rfl⟩ := exists_of_mem_right singles member
  refine ⟨fun d inside => ?_, fun id named => ?_⟩
  · rw [List.mem_singleton.mp inside]
    exact List.mem_singleton_self e.id
  · rw [touched_iff, mem_uniqueIds, List.mem_singleton.mp named]
    refine List.mem_map_of_mem (List.mem_flatMap.mpr ⟨_, member, ?_⟩)
    rw [Package.typed_own]
    exact List.mem_singleton_self e

private theorem locksOwn_batch (qs : List Package) :
    ∀ q ∈ batchPackages (elemsOfAll qs), LocksOwn (batchPackages (elemsOfAll qs)) q := by
  intro q member
  obtain ⟨t, p, inside, rfl⟩ := mem_batchPackages.mp member
  refine ⟨fun e here => ?_, fun id named => ?_⟩
  · exact mem_uniqueIds.mpr (List.mem_map_of_mem (mem_buildPackages.mp ⟨p, inside, here⟩))
  · rw [elemsFor_singles]
    exact (touched_iff qs id).mpr named

private theorem distinct_batch (qs : List Package) :
    ∀ q ∈ batchPackages (elemsOfAll qs), q.Distinct := by
  intro q member
  obtain ⟨t, p, inside, rfl⟩ := mem_batchPackages.mp member
  exact buildPackages_distinct inside

private theorem distinct_executed {db₀ db : Db} {acc₀ acc : Tracking × (ObjectType → Bbox)}
    (executed : Executed env db₀ acc₀ qs acc db) : ∀ q ∈ qs, q.Distinct := by
  intro q member
  obtain ⟨pre, post, split⟩ := List.append_of_mem member
  exact (executed.fits pre q post split).distinct

private theorem untouched_part {all part rest : List Package} {o : Obj}
    (untouched : ¬Touched (elemsFor qs) o) (same : elemsFor all = elemsFor qs)
    (split : all = part ++ rest) (now : Int) (S : States) : after now S part o.1 o.2 = S o.1 o.2 := by
  have none : elemsFor part o.1 o.2 ++ elemsFor rest o.1 o.2 = [] := by
    rw [← elemsFor_append, ← split, same]
    exact not_not.mp untouched
  rw [after, (List.append_eq_nil_iff.mp none).1]
  rfl

/-- The batch passes the checks that the elements pass one at a time. -/
theorem fits_batch {db₀ db : Db} {acc₀ acc : Tracking × (ObjectType → Bbox)}
    (executed : Executed env db₀ acc₀ qs acc db) (locks : ∀ q ∈ qs, LocksOwn qs q)
    {pre post : List Package} {q : Package}
    (split : batchPackages (elemsOfAll qs) = pre ++ q :: post) :
    Fits env.now (after env.now (object db₀) pre) q := by
  have distinct := distinct_executed executed
  have same := elemsFor_singles qs
  have member : q ∈ batchPackages (elemsOfAll qs) := by
    rw [split]
    exact List.mem_append_right _ List.mem_cons_self
  have unique := distinct_batch qs q member
  obtain ⟨t, p, inside, rfl⟩ := mem_batchPackages.mp member
  -- the package that executes the same element alone
  have serial : ∀ e ∈ p, ∃ pre' q' post', qs = pre' ++ q' :: post' ∧ q' ∈ qs ∧ q'.objType = t ∧
      elemsFor pre' t e.id = elemsFor pre t e.id ∧
      Ready env.now (after env.now (object db₀) pre' t e.id) e ∧
      ∀ r ∈ e.refs, (after env.now (object db₀) pre' r.ref.target.1 r.ref.target.2).visible = true ∨
        (r.ref.target.1 = .relation ∧ r.ref.target.2 ∈ q'.locked) := by
    intro e here
    have found : elemsFor qs t e.id = elemsFor pre t e.id ++ e :: elemsFor post t e.id := by
      rw [← same, split, elemsFor_append]
      congr 1
      rw [elemsFor, List.flatMap_cons, Package.elemsFor_of_mem unique here]
      rfl
    obtain ⟨pre', locked, es', post', cut, start, own, -⟩ := exists_package distinct found
    have fits := executed.fits pre' _ post' cut
    refine ⟨pre', ⟨t, locked, es'⟩, post', cut, ?_, rfl, start, fits.ready e own, fits.future e own⟩
    rw [cut]
    exact List.mem_append_right _ List.mem_cons_self
  refine ⟨unique, fun e here => ?_, fun e here r ref => ?_⟩
  · obtain ⟨pre', q', post', -, -, -, start, ready, -⟩ := serial e here
    rw [after, start] at ready
    exact ready
  · obtain ⟨pre', q', post', cut, named, typed, -, -, future⟩ := serial e here
    have own : r.ref.target.1 = .relation → (t, r.ref.target.2) = r.ref.target := by
      intro relation
      exact Prod.ext ((r.ref.target_relation relation).trans relation.symm) rfl
    have touches : r.ref.target.1 = .relation → Touched (elemsFor qs) r.ref.target →
        r.ref.target.1 = .relation ∧ r.ref.target.2 ∈ uniqueIds (elemsOfAll qs t) := by
      intro relation touched
      refine ⟨relation, ?_⟩
      rw [← touched_iff, own relation]
      exact touched
    rcases future r ref with shown | ⟨relation, locked⟩
    · by_cases touched : Touched (elemsFor qs) r.ref.target
      · by_cases relation : r.ref.target.1 = .relation
        · exact .inr (touches relation touched)
        · refine .inl ?_
          have all := elemsFor_before split (rank_target relation) r.ref.target.2
          rw [after, all, same]
          apply visible_modifyAll touched
          have known : (after env.now (object db₀) pre' r.ref.target.1 r.ref.target.2).row.isSome := by
            cases found : (after env.now (object db₀) pre' r.ref.target.1 r.ref.target.2).row with
            | none => simp [ObjState.visible, found] at shown
            | some row => rfl
          rwa [after, modifyAll_row] at known
      · refine .inl ?_
        rw [untouched_part touched rfl cut] at shown
        rw [untouched_part touched same split]
        exact shown
    · refine .inr (touches relation ?_)
      have touched := (locks q' named).2 _ locked
      rwa [typed, own relation] at touched

private theorem entries_all (qs : List Package) (t : ObjectType) :
    entriesFor qs t = modifiedEntries (elemsOfAll qs t) := by
  rw [entriesFor, elemsOfAll, modifiedEntries, List.map_flatMap]
  congr 1
  funext q
  by_cases own : q.objType = t
  · obtain ⟨t', locked, es⟩ := q
    cases own
    rw [if_pos rfl, Package.typed_own]
    rfl
  · rw [if_neg own, Package.typed_other own]
    rfl

private theorem elemsOfAll_packagesOf (es : List (Elem t)) (t' : ObjectType) :
    elemsOfAll (packagesOf es) t' = if own : t = t' then own ▸ (buildPackages es).flatten else [] := by
  rw [elemsOfAll, packagesOf, List.flatMap_map]
  split
  · rename_i own
    subst own
    simp only [Package.typed_own, List.flatMap_id']
  · rename_i other
    exact List.flatMap_eq_nil_iff.mpr fun p _ => Package.typed_other other

theorem elemsOfAll_batch (es : (t : ObjectType) → List (Elem t)) (t : ObjectType) :
    (elemsOfAll (batchPackages es) t).Perm (es t) := by
  have whole : elemsOfAll (batchPackages es) t = (buildPackages (es t)).flatten := by
    have parts : elemsOfAll (batchPackages es) t = elemsOfAll (packagesOf (es .node)) t ++
        (elemsOfAll (packagesOf (es .way)) t ++ elemsOfAll (packagesOf (es .relation)) t) := by
      simp [elemsOfAll, batchPackages]
    rw [parts]
    simp only [elemsOfAll_packagesOf]
    cases t <;> simp
  rw [whole]
  exact buildPackages_perm _

private theorem retrack {db₀ db : Db} {acc₀ acc : Tracking × (ObjectType → Bbox)}
    (executed : Executed env db₀ acc₀ qs acc db) (acc' : Tracking × (ObjectType → Bbox))
    (modified : acc'.1.modified = acc.1.modified)
    (boxes : acc'.2 = acc.2) : Executed env db₀ acc₀ qs acc' db := by
  refine ⟨executed.states, executed.rest, fun t => ?_, fun s x => ?_, executed.fits⟩
  · rw [modified]
    exact executed.modified t
  · rw [boxes]
    exact executed.boxes s x

/-- The elements executed one at a time so far. -/
private structure Serial (env : Env) (st₀ : Upload) (db₀ : Db) (done : List Element) (st : Upload)
    (db : Db) (qs : List Package) : Prop where
  settled : Settled st
  created : st.ct.created = st₀.ct.created
  executed : Executed env db₀ (view st₀) qs (view st) db
  changeset : ∀ el ∈ done, el.object.changeset = env.changeset
  singles : List.Forall₂ (Single env st₀.ct) done qs
  unique : done ≠ [] → ∀ t, UniquePlaceholders st₀.ct t

private theorem batchPackages_single {es : (t : ObjectType) → List (Elem t)} {e : Elem t}
    (own : es t = [e]) (others : ∀ t', t' ≠ t → es t' = []) :
    batchPackages es = [⟨t, [e.id], [e]⟩] := by
  have alone : packagesOf [e] = [⟨t, [e.id], [e]⟩] := rfl
  have none : ∀ t' : ObjectType, packagesOf ([] : List (Elem t')) = [] := fun _ => rfl
  unfold batchPackages
  cases t with
  | node =>
      rw [own, others .way (by decide), others .relation (by decide), none, none, alone]
      rfl
  | way =>
      rw [own, others .node (by decide), others .relation (by decide), none, none, alone]
      rfl
  | relation => rw [own, others .node (by decide), others .way (by decide), none, none, alone]; rfl

private theorem Serial.step {st₀ st st' : Upload} {db₀ db db' : Db} {done : List Element}
    {el : Element} (serial : Serial env st₀ db₀ done st db qs) (op : el.op = .modify)
    (run : (runElements env st [el]).run db = .ok (st', db')) :
    ∃ q, Serial env st₀ db₀ (done ++ [el]) st' db' (qs ++ [q]) := by
  have ops : ∀ d ∈ [el], d.op = .modify := by
    intro d member
    rw [List.mem_singleton.mp member]
    exact op
  obtain ⟨changeset, pushed, es, acc, pushes, replaced, -, packages, rfl⟩ :=
    (runElements_eq_ok serial.settled ops (by simp)).mp run
  have held := buffered_of_pushAll serial.settled ops pushes
  have placed : ∀ t, UniquePlaceholders st₀.ct t ∧
      List.Forall₂ (Resolved st₀.ct) (elemsIn env t [el]) (es t) := by
    intro t
    apply replaceOldIds_eq_ok.mp
    rw [← replaceOldIds_congr serial.created]
    exact replaced t
  obtain ⟨e, own, resolved⟩ : ∃ e, es el.objType = [e] ∧ Resolved st₀.ct (elemOf env el) e := by
    have all := (placed el.objType).2
    rw [elemsIn_cons_self] at all
    obtain ⟨e, rest, resolved, nothing, same⟩ := List.forall₂_cons_left_iff.mp all
    rw [show elemsIn env el.objType [] = [] from rfl, List.forall₂_nil_left_iff] at nothing
    rw [nothing] at same
    exact ⟨e, same, resolved⟩
  have others : ∀ t, t ≠ el.objType → es t = [] := by
    intro t other
    have all := (placed t).2
    rw [elemsIn_cons_other other] at all
    exact List.forall₂_nil_left_iff.mp all
  have created : acc.1.created = st.ct.created :=
    (created_of_packages packages).trans held.created
  rw [batchPackages_single own others, List.foldlM_cons, run_bind_eq_ok] at packages
  obtain ⟨acc₁, db₁, package, last⟩ := packages
  cases last
  have executed := (retrack serial.executed (view pushed)
    (show pushed.ct.modified = st.ct.modified from held.modified) held.boxes).step package
  refine ⟨⟨el.objType, [e.id], [e]⟩, ⟨.inr rfl, held.idle acc⟩, created.trans serial.created, executed,
    ?_, ?_, fun _ t => (placed t).1⟩
  · intro d member
    rcases List.mem_append.mp member with before | here
    · exact serial.changeset d before
    · exact changeset d here
  · exact List.rel_append serial.singles (.cons ⟨e, resolved, rfl⟩ .nil)

private theorem serial_of_run {st₀ st : Upload} {db₀ db : Db} (settled : Settled st₀)
    (ops : ∀ el ∈ els, el.op = .modify)
    (run : (runOneByOne env st₀ els).run db₀ = .ok (st, db)) :
    ∃ qs, Serial env st₀ db₀ els st db qs := by
  have start : ∃ qs, Serial env st₀ db₀ [] st₀ db₀ qs :=
    ⟨[], settled, rfl, executed_of_run rfl, by simp, .nil, fun some => absurd rfl some⟩
  have all := run_foldlM_invariant (fun done st db => ∃ qs, Serial env st₀ db₀ done st db qs) els
    (fun done el member st₁ db₁ st₂ db₂ before step => by
      obtain ⟨qs, serial⟩ := before
      obtain ⟨q, next⟩ := serial.step (ops el member) step
      exact ⟨qs ++ [q], next⟩) start run
  rwa [List.nil_append] at all

private theorem formed_elemsIn (ops : ∀ el ∈ els, el.op = .modify) {e : Elem t}
    (member : e ∈ elemsIn env t els) : WellFormed e := by
  obtain ⟨el, inside, found⟩ := List.mem_filterMap.mp member
  by_cases own : t = el.objType
  · subst own
    rw [elemOf?_self] at found
    cases found
    unfold elemOf
    rw [ops el inside]
    exact wellFormed_modifiedElem env el.object
  · rw [elemOf?_other own] at found
    cases found

private theorem boxes_batch {db₀ db₁ db₂ : Db} {acc₀ acc₀' acc₁ acc₂ : Tracking × (ObjectType → Bbox)}
    (serial : Executed env db₀ acc₀ qs acc₁ db₁)
    (batch : Executed env db₀ acc₀' (batchPackages (elemsOfAll qs)) acc₂ db₂)
    (locks : ∀ q ∈ qs, LocksOwn qs q) (same : acc₀'.2 = acc₀.2) :
    total env acc₂.2 = total env acc₁.2 := by
  apply ext_le_reach
  intro s x
  rw [serial.boxes, batch.boxes, same]
  simp only [traceShows_iff (distinct_executed serial) locks,
    traceShows_iff (distinct_batch qs) (locksOwn_batch qs), elemsFor_singles]

end Serial

section Equivalence

variable {env : Env} {st st₁ : Upload} {els : List Element} {db db₁ : Db}

/-- A list of modifications that succeeds one at a time succeeds as one batch, with the same
tables, the same modified objects and the same bounding box. -/
theorem batch_of_oneByOne (settled : Settled st) (ops : ∀ el ∈ els, el.op = .modify)
    (run : (runOneByOne env st els).run db = .ok (st₁, db₁)) :
    ∃ st₂ db₂, (runElements env st els).run db = .ok (st₂, db₂) ∧ SameTables db₁ db₂ ∧
      (∀ t, (st₂.ct.modified t).Perm (st₁.ct.modified t)) ∧ getBbox env st₂ = getBbox env st₁ := by
  obtain ⟨qs, serial⟩ := serial_of_run settled ops run
  by_cases empty : els = []
  · subst empty
    cases run
    refine ⟨{ st with state := .finished }, db, ?_, sameTables_of_object rfl (SameRest.refl db),
      fun t => List.Perm.refl _, rfl⟩
    have ends : (handleNewState env .finished st).run db = .ok ({ st with state := .finished }, db) := by
      obtain ⟨ct, updater, state⟩ := st
      rcases settled.state with initial | finished
      · cases initial
        rfl
      · cases finished
        rfl
    exact ends
  · have locks := locksOwn_singles serial.singles
    obtain ⟨pushed, pushes⟩ := pushAll_modify env { st with state := .modify } ops
    have held := buffered_of_pushAll settled ops pushes
    have resolved := resolved_all serial.singles
    have formed : ∀ q ∈ batchPackages (elemsOfAll qs), ∀ e ∈ q.elems, WellFormed e := by
      intro q member e here
      obtain ⟨t, p, inside, rfl⟩ := mem_batchPackages.mp member
      obtain ⟨d, found, replaced⟩ :=
        exists_of_mem_right (resolved t) (mem_buildPackages.mp ⟨p, inside, here⟩)
      exact wellFormed_of_resolved replaced (formed_elemsIn ops found)
    have known : ∀ t, ∀ id ∈ uniqueIds (elemsOfAll qs t), (object db t id).row.isSome := by
      intro t id named
      obtain ⟨e, member, rfl⟩ := List.mem_map.mp (mem_uniqueIds.mp named)
      obtain ⟨p, inside, here⟩ := mem_buildPackages.mpr member
      obtain ⟨pre, post, split⟩ := List.append_of_mem (mem_batchPackages.mpr ⟨t, p, inside, rfl⟩)
      have version := ((fits_batch serial.executed locks split).ready e here).version
      obtain ⟨row, found, -⟩ := Option.map_eq_some_iff.mp version
      have some : (after env.now (object db) pre t e.id).row.isSome := by
        rw [found]
        rfl
      rwa [after, modifyAll_row] at some
    obtain ⟨acc, db₂, packages⟩ : ∃ acc db₂,
        ((batchPackages (elemsOfAll qs)).foldlM (runPackage env) (view pushed)).run db =
          .ok (acc, db₂) :=
      run_of_fits formed fun pre q post split => fits_batch serial.executed locks split
    have batch := executed_of_run packages
    refine ⟨{ afterBatch pushed acc with state := .finished }, db₂,
      (runElements_eq_ok settled ops empty).mpr ⟨serial.changeset, pushed, elemsOfAll qs, acc, pushes,
        fun t => replaceOldIds_eq_ok.mpr ⟨serial.unique empty t, resolved t⟩, known, packages, rfl⟩,
      sameTables_of_object ?_ ?_, fun t => ?_, ?_⟩
    · rw [batch.states, serial.executed.states]
      funext t id
      rw [after, after, elemsFor_singles]
    · exact serial.executed.rest.symm.trans batch.rest
    · have first := serial.executed.modified t
      have second := batch.modified t
      have start : (view pushed).1.modified t = (view st).1.modified t := congrFun held.modified t
      rw [entries_all] at first second
      rw [start] at second
      exact second.trans (((elemsOfAll_batch (elemsOfAll qs) t).map _).append_left _ |>.trans first.symm)
    · exact boxes_batch serial.executed batch locks held.boxes

def sampleObjects : List Element :=
  [sampleNode .create (-1) 0 false, sampleNode .create (-2) 0 false,
    sampleWay .create (-1) 0 false [-1], sampleRelation .create (-1) 0 false []]

def sampleChanges : List Element :=
  [sampleWay .modify 1 1 false [2], sampleRelation .modify 1 1 false [1],
    sampleNode .modify 1 1 false, sampleWay .modify 1 2 false [1, 2], sampleNode .modify 2 1 false]

theorem batch_of_oneByOne_sampleChanges : ∃ db st₁ db₁ st₂ db₂,
    (runOneByOne sampleEnv (Upload.empty sampleEnv) sampleChanges).run db = .ok (st₁, db₁) ∧
      (runElements sampleEnv (Upload.empty sampleEnv) sampleChanges).run db = .ok (st₂, db₂) ∧
      SameTables db₁ db₂ ∧ (∀ t, (st₂.ct.modified t).Perm (st₁.ct.modified t)) ∧
      getBbox sampleEnv st₂ = getBbox sampleEnv st₁ := by
  obtain ⟨st₁, db₁, run, -⟩ := of_check
    (processDocument sampleEnv sampleObjects >>= fun _ =>
      runOneByOne sampleEnv (Upload.empty sampleEnv) sampleChanges) Db.empty (fun _ _ => true)
    (by decide +kernel)
  rw [run_bind_eq_ok] at run
  obtain ⟨_, db, -, run⟩ := run
  obtain ⟨st₂, db₂, batch⟩ := batch_of_oneByOne ⟨.inl rfl, idle_empty sampleEnv⟩ (by decide) run
  exact ⟨db, st₁, db₁, st₂, db₂, run, batch⟩

end Equivalence

end Cgimap.Osmchange.BatchEquivalence
