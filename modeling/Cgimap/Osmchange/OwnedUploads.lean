/- path: Cgimap/Osmchange/OwnedUploads
   generality: I
   source: src/api06/changeset_upload/osmchange_handler.cpp
   digest: An upload plays its elements on the objects it has locked, whatever others do. -/

import Cgimap.Osmchange.ElementCounts
import Cgimap.Osmchange.OwnedWrites

/-!
Between two statements of an upload other transactions can commit. The objects it has
written are locked by then, so its elements still happen to them as if nobody else was
there: each batch is a part of one lawful log.
-/

set_option autoImplicit false
set_option relaxedAutoImplicit false

namespace Cgimap.Osmchange.OwnedUploads

open Cgimap.Library.ExceptLists
open Cgimap.Library.EventLog
open Cgimap.Library.StatementProgram
open Cgimap.Library.StatementProgram.Prog
open Cgimap.Library.OwnedRecords
open Cgimap.Model.Types
open Cgimap.Model.Database
open Cgimap.Osmchange.DiffTracking
open Cgimap.Osmchange.UploadRecords
open Cgimap.Osmchange.UpdaterChecks
open Cgimap.Osmchange.UpdaterProcess
open Cgimap.Osmchange.Handler
open Cgimap.Osmchange.ObjectState
open Cgimap.Osmchange.WriteEffects
open Cgimap.Osmchange.Placeholders
open Cgimap.Osmchange.CreateEffects
open Cgimap.Osmchange.ModifyEffects
open Cgimap.Osmchange.DocumentRuns
open Cgimap.Osmchange.DocumentRuns.Batch.Executes
open Cgimap.Osmchange.ElementTrace
open Cgimap.Osmchange.ElementCounts
open Cgimap.Osmchange.OwnedWrites

variable {t : ObjectType} {env : Env} {ct ct' ct'' : Tracking}

section Growth

/-- Created objects are only added. -/
def Grows (ct ct' : Tracking) : Prop := ∀ t, ct.created t <+: ct'.created t

theorem Grows.trans (first : Grows ct ct') (next : Grows ct' ct'') : Grows ct ct'' :=
  fun t => (first t).trans (next t)

theorem grows_of_eq (same : ct'.created = ct.created) : Grows ct ct' := fun t => by
  rw [same]

theorem grows_addCreated (ct : Tracking) (t : ObjectType) (ms : List ObjectIdMapping) :
    Grows ct (ct.addCreated t ms) := by
  intro t'
  by_cases own : t' = t
  · subst own
    rw [Tracking.addCreated_created, Function.update_self]
    exact List.prefix_append ..
  · rw [Tracking.addCreated_created, Function.update_of_ne own]

private theorem lookup_of_grows (grows : Grows ct ct') {oldId : Int} {id : Nat}
    (found : lookup ct t oldId = some id) : lookup ct' t oldId = some id := by
  obtain ⟨more, split⟩ := grows t
  obtain ⟨m, first, rfl⟩ := Option.map_eq_some_iff.mp found
  rw [lookup, ← split, List.find?_append, first]
  rfl

theorem resolved_of_grows (grows : Grows ct ct') {e e' : Elem t} (resolves : Resolved ct e e') :
    Resolved ct' e e' where
  id := resolves.id.imp id fun ⟨negative, found⟩ => ⟨negative, lookup_of_grows grows found⟩
  version := resolves.version
  changesetId := resolves.changesetId
  oldId := resolves.oldId
  tags := resolves.tags
  ifUnused := resolves.ifUnused
  coord := resolves.coord
  refs := by
    refine mapM_eq_ok.mpr ((mapM_eq_ok.mp resolves.refs).imp fun r r' done => ?_)
    unfold replaceOldIdInMember at done ⊢
    split
    · rename_i known
      rwa [if_pos known] at done
    · rename_i placeholder
      rw [if_neg placeholder] at done
      cases found : lookup ct r.ref.target.1 r.oldId with
      | none =>
          rw [found] at done
          cases done
      | some id =>
          rw [found] at done
          rw [lookup_of_grows grows found]
          exact done

end Growth

/-- An event is an element with its ids resolved; a deletion may have been skipped. -/
def Stems (env : Env) (ct : Tracking) (el : Element) (x : (o : Obj) × Event o.1) : Prop :=
  ∃ e skipped, Resolved ct (elemOf env el) e ∧ x = ⟨(el.objType, e.id), ⟨el.op, e, skipped⟩⟩

/-- Some elements happen to the objects, as `log` says, and to nothing else. -/
structure Plays (env : Env) (els : List Element) (log : Trace) (ct ct' : Tracking)
    (σ σ' : dbRecords.Contents) : Prop where
  stems : List.Forall₂ (Stems env ct') els log
  lawful : (machine env.now).Lawful (objectsOf σ) log
  replayed : (machine env.now).replay (objectsOf σ) log = objectsOf σ'
  other : ∀ x, (∀ o, x ≠ .object o) → σ' x = σ x
  grows : Grows ct ct'
  counts : entries ct' = entries ct + executedCount log

namespace Plays

variable {els els' : List Element} {log log' : Trace} {σ σ' σ'' : dbRecords.Contents}

theorem refl (env : Env) (ct : Tracking) (σ : dbRecords.Contents) : Plays env [] [] ct ct σ σ :=
  ⟨.nil, trivial, rfl, fun _ _ => rfl, grows_of_eq rfl, rfl⟩

theorem trans (first : Plays env els log ct ct' σ σ') (next : Plays env els' log' ct' ct'' σ' σ'') :
    Plays env (els ++ els') (log ++ log') ct ct'' σ σ'' where
  stems := by
    refine List.rel_append (first.stems.imp ?_) next.stems
    rintro el x ⟨e, skipped, resolves, rfl⟩
    exact ⟨e, skipped, resolved_of_grows next.grows resolves, rfl⟩
  lawful := by
    rw [lawful_append, first.replayed]
    exact ⟨first.lawful, next.lawful⟩
  replayed := by rw [replay_append, first.replayed, next.replayed]
  other x ne := (next.other x ne).trans (first.other x ne)
  grows := first.grows.trans next.grows
  counts := by rw [next.counts, first.counts, executedCount_append, Nat.add_assoc]

theorem congr (plays : Plays env els log ct ct' σ σ') (created : ct''.created = ct'.created)
    (modified : ct''.modified = ct'.modified) (deleted : ct''.deleted = ct'.deleted) :
    Plays env els log ct ct'' σ σ' where
  stems := by
    refine plays.stems.imp ?_
    rintro el x ⟨e, skipped, resolves, rfl⟩
    exact ⟨e, skipped, resolved_of_grows (grows_of_eq created) resolves, rfl⟩
  lawful := plays.lawful
  replayed := plays.replayed
  other := plays.other
  grows := plays.grows.trans (grows_of_eq created)
  counts := by rw [entries_congr created modified deleted, plays.counts]

end Plays

section Batches

variable {els : List Element} {σ σ' : dbRecords.Contents}

private theorem stems_traceBy {spared : Obj → Bool} (grows : Grows ct ct')
    (resolves : ∀ el ∈ els, Resolved ct (elemOf env el) (resolved ct (elemOf env el))) :
    List.Forall₂ (Stems env ct') els (traceBy env ct spared els) := by
  rw [traceBy, List.forall₂_map_right_iff, List.forall₂_same]
  exact fun el member => ⟨_, _, resolved_of_grows grows (resolves el member), rfl⟩

private theorem other_of_wrote {f : Nat → ObjState t → ObjState t} (wrote : Wrote t f σ σ')
    (x : Lockable) (ne : ∀ o, x ≠ .object o) : σ' x = σ x :=
  wrote.other x fun id => ne (t, id)

private theorem objects_of_wrote {f : Nat → ObjState t → ObjState t} (wrote : Wrote t f σ σ')
    {t' : ObjectType} (ne : t' ≠ t) (id : Nat) : objectsOf σ' (t', id) = objectsOf σ (t', id) := by
  refine wrote.other _ fun id' same => ne ?_
  cases same
  rfl

theorem creations_play {es : List (Elem t)} {ms : List ObjectIdMapping}
    (ops : ∀ el ∈ els, el.op = .create ∧ el.objType = t)
    (replaced : replaceOldIds (ct.addCreated t ms) (elemsIn env t els) = .ok es)
    (count : ms.length = (elemsIn env t els).length) (created : Created env es σ σ') :
    ∃ log, Plays env els log ct (ct.addCreated t ms) σ σ' := by
  have refinesAt : ∀ o, RefinesAt env.now (objectsOf σ) (objectsOf σ')
      (traceBy env (ct.addCreated t ms) (fun _ => false) els) o :=
    creations_refine ops replaced created.distinct created.fresh created.unsaved
      created.wrote.same fun t' ne id => objects_of_wrote created.wrote ne id
  have refines := refines_of_each refinesAt
  refine ⟨_, stems_traceBy (grows_of_eq rfl) fun el member => ?_, refines.1, refines.2,
    other_of_wrote created.wrote, grows_addCreated ct t ms, ?_⟩
  · obtain rfl := (ops el member).2
    exact resolved_of_mem replaced member
  · rw [entries_addCreated, count, executedCount_traceBy (fun el member => (ops el member).1)
      (by decide), length_elemsIn, List.countP_eq_length.mpr]
    exact fun el member => decide_eq_true (ops el member).2

theorem modifications_play {es : (t : ObjectType) → List (Elem t)}
    {modified : ObjectType → List ObjectIdMapping} {σ₁ σ₂ : dbRecords.Contents}
    (ops : ∀ el ∈ els, el.op = .modify)
    (replaced : ∀ t, replaceOldIds ct (elemsIn env t els) = .ok (es t))
    (nodes : Modified env (es .node) σ σ₁) (ways : Modified env (es .way) σ₁ σ₂)
    (relations : Modified env (es .relation) σ₂ σ')
    (perm : ∀ t, (modified t).Perm (modifiedEntries (es t))) :
    ∃ log, Plays env els log ct (((ct.addModified .node (modified .node)).addModified .way
      (modified .way)).addModified .relation (modified .relation)) σ σ' := by
  have each : ∀ t id, ObjState.Accepts env.now (objectsOf σ (t, id)) (elemsOf (es t) id) ∧
      objectsOf σ' (t, id) =
        ObjState.modifyAll env.now (elemsOf (es t) id) (objectsOf σ (t, id)) := by
    intro t id
    cases t with
    | node =>
        rw [objects_of_wrote relations.wrote (by decide), objects_of_wrote ways.wrote (by decide)]
        exact ⟨nodes.accepts id, nodes.wrote.same id⟩
    | way =>
        rw [objects_of_wrote relations.wrote (by decide),
          ← objects_of_wrote nodes.wrote (by decide)]
        exact ⟨ways.accepts id, ways.wrote.same id⟩
    | relation =>
        rw [← objects_of_wrote nodes.wrote (by decide), ← objects_of_wrote ways.wrote (by decide)]
        exact ⟨relations.accepts id, relations.wrote.same id⟩
  have refinesAt : ∀ o, RefinesAt env.now (objectsOf σ) (objectsOf σ')
      (traceBy env ct (fun _ => false) els) o :=
    modifications_refine ops replaced (fun t id => (each t id).1) fun t id => (each t id).2
  have refines := refines_of_each refinesAt
  refine ⟨traceBy env ct _ els, stems_traceBy (grows_of_eq rfl)
    fun el member => resolved_of_mem (replaced el.objType) member, refines.1, refines.2,
    fun x ne => ?_, grows_of_eq rfl, ?_⟩
  · rw [other_of_wrote relations.wrote x ne, other_of_wrote ways.wrote x ne,
      other_of_wrote nodes.wrote x ne]
  · have counts : ∀ t, (modified t).length = (elemsIn env t els).length := fun t => by
      rw [(perm t).length_eq, modifiedEntries, List.length_map, length_replaced (replaced t)]
    rw [executedCount_traceBy ops (by decide), entries_addModified, entries_addModified,
      entries_addModified, length_by_type env els]
    simp only [counts]
    omega

theorem deletions_play {es executed : List (Elem t)} {gone used : List ObjectIdMapping}
    {deleted : List Int} (ops : ∀ el ∈ els, el.op = .delete ∧ el.objType = t)
    (replaced : replaceOldIds ct (elemsIn env t els) = .ok es) (done : Deleted env es executed σ σ')
    (perm : deleted.Perm (executed.map Elem.oldId)) :
    ∃ log, Plays env els log ct
      (((ct.addSkipDeleted t gone).addSkipDeleted t used).addDeleted t deleted) σ σ' := by
  have refinesAt : ∀ o, RefinesAt env.now (objectsOf σ) (objectsOf σ')
      (traceBy env ct (sparedBy (objectsOf σ) (objectsOf σ')) els) o :=
    deletions_refine ops replaced done.known done.together done.shown done.distinct done.version
      done.unsaved done.wrote.same fun t' ne id => objects_of_wrote done.wrote ne id
  have refines := refines_of_each refinesAt
  refine ⟨traceBy env ct _ els, stems_traceBy (grows_of_eq rfl) fun el member => ?_, refines.1,
    refines.2, other_of_wrote done.wrote, grows_of_eq rfl, ?_⟩
  · obtain rfl := (ops el member).2
    exact resolved_of_mem replaced member
  · rw [entries_addDeleted, perm.length_eq, List.length_map, executedCount_deletions ops replaced
      done.together (sparedBy_eq done.shown done.distinct done.wrote.same)]
    rfl

end Batches

section Flush

variable {st : Upload} {els : List Element} {locks : List (Lockable × LockMode)}
  {σ : dbRecords.Contents}

/-- Some elements are buffered and nothing else is. -/
structure Pending (env : Env) (st : Upload) (els : List Element) : Prop where
  uniform : ∀ el ∈ els, Element.state el = st.state
  buffers : ∀ op t, buffer st op t = elemsIn env t (els.filter (fun el => decide (el.op = op)))
  negative : ∀ el ∈ els, el.op = .create → el.object.id < 0

namespace Pending

theorem of_idle (idle : Idle st) : Pending env st [] := ⟨nofun, fun op t => idle op t, nofun⟩

theorem buffer_eq (pending : Pending env st els) {op : Operation} (ops : ∀ el ∈ els, el.op = op)
    (t : ObjectType) : buffer st op t = elemsIn env t els := by
  rw [pending.buffers, filter_op ops]

theorem buffer_other (pending : Pending env st els) {op op' : Operation}
    (ops : ∀ el ∈ els, el.op = op) (ne : op ≠ op') (t : ObjectType) : buffer st op' t = [] := by
  rw [pending.buffers, filter_other ops ne]
  rfl

theorem buffer_type (pending : Pending env st els) (types : ∀ el ∈ els, el.objType = t)
    (op : Operation) {t' : ObjectType} (ne : t' ≠ t) : buffer st op t' = [] := by
  rw [pending.buffers]
  exact elemsIn_other (fun el member => types el (List.mem_of_mem_filter member)) ne

end Pending

private theorem idle_setUpdater (op : Operation) {u : Updater t} {ct' : Tracking}
    (same : ∀ op', op' ≠ op → buffer st op' t = [])
    (other : ∀ op' t', t' ≠ t → buffer st op' t' = [])
    (emptied : ∀ op', buffer ({ st with ct := ct' : Upload }.setUpdater u) op' t =
      if op' = op then [] else buffer st op' t) :
    Idle ({ st with ct := ct' : Upload }.setUpdater u) := by
  intro op' t'
  by_cases own : t' = t
  · subst own
    rw [emptied]
    split
    · rfl
    · rename_i ne
      exact same op' ne
  · have kept : buffer ({ st with ct := ct' : Upload }.setUpdater u) op' t' = buffer st op' t' := by
      simp only [buffer, Upload.setUpdater_other _ _ own]
    rw [kept]
    exact other op' t' own

/-- The work for the current state. -/
def Flushed (env : Env) (st : Upload) (els : List Element) (locks : List (Lockable × LockMode))
    (σ : dbRecords.Contents) (st' : Upload) (locks' : List (Lockable × LockMode))
    (σ' : dbRecords.Contents) : Prop :=
  Keeps locks locks' ∧ Idle st' ∧ ∃ log, Plays env els log st.ct st'.ct σ σ'

private theorem flushNew_safe (pending : Pending env st els)
    (ops : ∀ el ∈ els, el.op = .create ∧ el.objType = t) :
    Safe dbRecords (Flushed env st els locks σ) (processNew env t st) locks σ := by
  have creates : ∀ el ∈ els, el.op = .create := fun el member => (ops el member).1
  have own : (st.updater t).createBuf = elemsIn env t els := pending.buffer_eq creates t
  have negative : ∀ e ∈ (st.updater t).createBuf, e.oldId < 0 := by
    rw [own]
    intro e member
    obtain ⟨el, inside, same⟩ := oldId_of_elemsIn member
    rw [same]
    exact pending.negative el inside (creates el inside)
  refine (processNew_safe st negative).mono ?_
  rintro _ locks' σ' ⟨keeps, es, db, placeholders, box, -, replaced, created, rfl⟩
  rw [own] at replaced ⊢
  refine ⟨keeps, ?_, ?_⟩
  · refine idle_setUpdater .create
      (fun op' ne => pending.buffer_other creates ne.symm t)
      (fun op' t' ne => pending.buffer_type (fun el member => (ops el member).2) op' ne)
      fun op' => ?_
    cases op' <;> simp [buffer]
  · refine creations_play ops replaced ?_ created
    simp [createdEntries, SqlStatements.idsMapping]

private theorem flushDelete_safe (pending : Pending env st els)
    (ops : ∀ el ∈ els, el.op = .delete ∧ el.objType = t) :
    Safe dbRecords (Flushed env st els locks σ) (processDelete env t st) locks σ := by
  have deletes : ∀ el ∈ els, el.op = .delete := fun el member => (ops el member).1
  have own : (st.updater t).deleteBuf = elemsIn env t els := pending.buffer_eq deletes t
  refine (processDelete_safe st).mono ?_
  rintro _ locks' σ' ⟨keeps, es, executed, gone, used, box, deleted, replaced, done, perm, rfl⟩
  rw [own] at replaced
  refine ⟨keeps, ?_, deletions_play ops replaced done perm⟩
  refine idle_setUpdater .delete
    (fun op' ne => pending.buffer_other deletes ne.symm t)
    (fun op' t' ne => pending.buffer_type (fun el member => (ops el member).2) op' ne)
    fun op' => ?_
  cases op' <;> simp [buffer]

private theorem flushModify_safe (pending : Pending env st els) (ops : ∀ el ∈ els, el.op = .modify) :
    Safe dbRecords (Flushed env st els locks σ) (do
      let st ← processModify env .node st
      let st ← processModify env .way st
      processModify env .relation st) locks σ := by
  have own : ∀ t, (st.updater t).modifyBuf = elemsIn env t els := pending.buffer_eq ops
  refine safe_bind (processModify_safe st) ?_
  rintro st₁ l₁ σ₁ ⟨k₁, ns, box₁, modified₁, replaced₁, nodes, perm₁, result₁⟩
  refine safe_bind (processModify_safe st₁) ?_
  rintro st₂ l₂ σ₂ ⟨k₂, ws, box₂, modified₂, replaced₂, ways, perm₂, result₂⟩
  refine (processModify_safe st₂).mono ?_
  rintro st₃ l₃ σ₃ ⟨k₃, rs, box₃, modified₃, replaced₃, relations, perm₃, rfl⟩
  have wayBuf : (st₁.updater .way).modifyBuf = elemsIn env .way els := by
    rw [result₁, Upload.setUpdater_other _ _ (by decide)]
    exact own .way
  have relationBuf : (st₂.updater .relation).modifyBuf = elemsIn env .relation els := by
    rw [result₂, Upload.setUpdater_other _ _ (by decide), result₁,
      Upload.setUpdater_other _ _ (by decide)]
    exact own .relation
  have created₁ : st₁.ct.created = st.ct.created := by rw [result₁]; rfl
  have created₂ : st₂.ct.created = st.ct.created := by rw [result₂, ← created₁]; rfl
  rw [own] at replaced₁
  rw [wayBuf, replaceOldIds_congr created₁] at replaced₂
  rw [relationBuf, replaceOldIds_congr created₂] at replaced₃
  subst result₂
  subst result₁
  refine ⟨k₁.trans (k₂.trans k₃), fun op t => ?_, ?_⟩
  · cases op with
    | create =>
        have none : buffer st .create t = [] := pending.buffer_other ops (by decide) t
        cases t <;> exact none
    | modify => cases t <;> rfl
    | delete =>
        have none : buffer st .delete t = [] := pending.buffer_other ops (by decide) t
        cases t <;> exact none
  · let es : (t : ObjectType) → List (Elem t) := ObjectType.pick ns ws rs
    let modified : ObjectType → List ObjectIdMapping := ObjectType.pick modified₁ modified₂ modified₃
    have replaced : ∀ t, replaceOldIds st.ct (elemsIn env t els) = .ok (es t) := by
      intro t
      cases t with
      | node => exact replaced₁
      | way => exact replaced₂
      | relation => exact replaced₃
    have perm : ∀ t, (modified t).Perm (modifiedEntries (es t)) := by
      intro t
      cases t with
      | node => exact perm₁
      | way => exact perm₂
      | relation => exact perm₃
    exact modifications_play ops replaced nodes ways relations perm

theorem flush_safe (pending : Pending env st els) :
    Safe dbRecords (Flushed env st els locks σ) (flush env st) locks σ := by
  -- no element is buffered in the first and the last state
  have rest : (∀ el : Element, Element.state el ≠ st.state) →
      Safe dbRecords (Flushed env st els locks σ) (pure st : DbProg Upload) locks σ := by
    intro other
    obtain rfl := List.eq_nil_iff_forall_not_mem.mpr fun el member =>
      other el (pending.uniform el member)
    exact safe_pure ⟨fun _ held => held, pending.buffers, [], .refl env st.ct σ⟩
  unfold flush
  cases state : st.state with
  | initial =>
      refine rest fun el => ?_
      rw [state, Element.state]
      split <;> exact HandlerState.noConfusion
  | finished =>
      refine rest fun el => ?_
      rw [state, Element.state]
      split <;> exact HandlerState.noConfusion
  | create t =>
      exact flushNew_safe pending fun el member =>
        state_eq_create.mp ((pending.uniform el member).trans state)
  | modify =>
      exact flushModify_safe pending fun el member =>
        state_eq_modify.mp ((pending.uniform el member).trans state)
  | delete t =>
      exact flushDelete_safe pending fun el member =>
        state_eq_delete.mp ((pending.uniform el member).trans state)

end Flush

section Elements

variable {els : List Element} {locks locks' : List (Lockable × LockMode)}
  {σ σ' : dbRecords.Contents} {st : Upload}

/-- The elements so far: some have happened, and the others are buffered. -/
def Sofar (env : Env) (locks : List (Lockable × LockMode)) (σ : dbRecords.Contents)
    (els : List Element) (st : Upload) (locks' : List (Lockable × LockMode))
    (σ' : dbRecords.Contents) : Prop :=
  Keeps locks locks' ∧ ∃ done pending log, els = done ++ pending ∧
    Plays env done log Tracking.empty st.ct σ σ' ∧ Pending env st pending

theorem sofar_start : Sofar env locks σ [] (Upload.empty env) locks σ :=
  ⟨fun _ held => held, [], [], [], rfl, .refl env _ σ, .of_idle (idle_empty env)⟩

theorem handleNewState_safe (sofar : Sofar env locks σ els st locks' σ') (new : HandlerState) :
    Safe dbRecords (fun st' l σ₂ => st'.state = new ∧ Sofar env locks σ els st' l σ₂)
      (handleNewState env new st) locks' σ' := by
  unfold handleNewState
  split
  · rename_i same
    exact safe_pure ⟨same.symm, sofar⟩
  · obtain ⟨keeps, done, pending, log, rfl, plays, buffered⟩ := sofar
    refine safe_bind (flush_safe buffered) ?_
    rintro st' l σ₂ ⟨k, idle, log', flushed⟩
    refine safe_pure ⟨rfl, keeps.trans k, done ++ pending, [], log ++ log', ?_, ?_, .of_idle idle⟩
    · rw [List.append_nil]
    · exact plays.trans flushed

private theorem push_sofar {el : Element} {st' : Upload} (sofar : Sofar env locks σ els st locks' σ')
    (state : st.state = Element.state el) (pushes : push env el st = .ok st') :
    Sofar env locks σ (els ++ [el]) st' locks' σ' := by
  obtain ⟨keeps, done, pending, log, rfl, plays, buffered⟩ := sofar
  have pushed := push_pushed pushes
  have same := push_state pushes
  refine ⟨keeps, done, pending ++ [el], log, List.append_assoc .., ?_, ?_, fun op t => ?_, ?_⟩
  · refine plays.congr ?_ ?_ ?_
    all_goals rw [pushed.tracking]
  · intro d member
    rw [same]
    rcases List.mem_append.mp member with before | here
    · exact buffered.uniform d before
    · rw [List.mem_singleton.mp here, state]
  · rw [pushed.buffers, buffered.buffers, elemsIn, elemsIn, elemsIn, List.filter_append,
      List.filterMap_append]
  · intro d member create
    rcases List.mem_append.mp member with before | here
    · exact buffered.negative d before create
    · exact pushed.negative d here create

theorem processElement_safe (sofar : Sofar env locks σ els st locks' σ') (el : Element) :
    Safe dbRecords (Sofar env locks σ (els ++ [el])) (processElement env st el) locks' σ' := by
  unfold processElement
  refine safe_liftExcept_bind fun _ _ => ?_
  refine safe_bind (handleNewState_safe sofar _) ?_
  rintro st₁ l σ₁ ⟨state, before⟩
  cases pushes : push env el st₁ with
  | error e => exact safe_throw e
  | ok st₂ => exact safe_pure (push_sofar before state pushes)

/-- A processed document: all its elements have happened, in their order. -/
theorem finish_safe (sofar : Sofar env locks σ els st locks' σ') :
    Safe dbRecords (fun st' l σ₂ => Keeps locks l ∧
        ∃ log, Plays env els log Tracking.empty st'.ct σ σ₂)
      (handleNewState env .finished st) locks' σ' := by
  refine (handleNewState_safe sofar .finished).mono ?_
  rintro st' l σ₂ ⟨state, keeps, done, pending, log, rfl, plays, buffered⟩
  obtain rfl : pending = [] := List.eq_nil_iff_forall_not_mem.mpr fun el member => by
    have here := buffered.uniform el member
    rw [state, Element.state] at here
    split at here <;> cases here
  rw [List.append_nil]
  exact ⟨keeps, log, plays⟩

end Elements

end Cgimap.Osmchange.OwnedUploads
