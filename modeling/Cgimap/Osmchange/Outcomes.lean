/- path: Cgimap/Osmchange/Outcomes
   generality: I
   source: src/api06/changeset_upload_handler.cpp
   digest: When an upload ends in success or in an error that blames the request. -/

import Cgimap.Osmchange.DeletionProgress
import Cgimap.Osmchange.DiffResults

set_option autoImplicit false
set_option relaxedAutoImplicit false

namespace Cgimap.Osmchange.Outcomes

open Cgimap.Library.ExceptLists
open Cgimap.Library.StatementProgram
open Cgimap.Library.StatementProgram.Prog
open Cgimap.Model.Types
open Cgimap.Model.Database
open Cgimap.Osmchange.DiffTracking
open Cgimap.Osmchange.UploadRecords
open Cgimap.Osmchange.UpdaterChecks
open Cgimap.Osmchange.UpdaterProcess
open Cgimap.Osmchange.Handler
open Cgimap.Osmchange.ObjectState
open Cgimap.Osmchange.WriteEffects
open Cgimap.Osmchange.DeletionEffects
open Cgimap.Osmchange.Placeholders
open Cgimap.Osmchange.CreateEffects
open Cgimap.Osmchange.ModifyEffects
open Cgimap.Osmchange.DeleteEffects
open Cgimap.Osmchange.DocumentRuns
open Cgimap.Osmchange.ElementTrace
open Cgimap.Osmchange.DiffResults
open Cgimap.Osmchange.Integrity
open Cgimap.Osmchange.SoundDatabase
open Cgimap.Osmchange.WriteProgress
open Cgimap.Osmchange.BatchProgress
open Cgimap.Osmchange.DeletionProgress

variable {t : ObjectType} {db db' : Db} {env : Env}

/-- The part of `changeset_upload_responder` that works on the elements: the
callbacks of the document, then the rows of the diffResult. -/
def uploadDocument (env : Env) (doc : List Element) : DbProg (List DiffResult) := do
  let st ← processDocument env doc
  liftExcept (assembleDiffresult st.ct)

/-- A delete batch that is about to be carried out deletes no object twice. -/
def FlushClean (st : Upload) (db : Db) : Prop :=
  ∀ t es, st.state = .delete t → replaceOldIds st.ct (st.updater t).deleteBuf = .ok es →
    Checked db es → NamedOnce db es

/-- Every delete batch of a document that is reached does so. -/
def DocumentClean (env : Env) : Upload → Db → List Element → Prop
  | st, db, [] => FlushClean st db
  | st, db, el :: rest =>
      (el.object.changeset = env.changeset → Element.state el ≠ st.state → FlushClean st db) ∧
        ∀ st' db', (processElement env st el).run db = .ok (st', db') →
          DocumentClean env st' db' rest

section Pending

structure Filled (u : Updater t) : Prop where
  negative : ∀ e ∈ u.createBuf, e.oldId < 0
  created : ∀ e ∈ u.createBuf, WellFormed e
  modified : ∀ e ∈ u.modifyBuf, WellFormed e
  smallModified : ∀ e ∈ u.modifyBuf, e.version < versionBound
  smallDeleted : ∀ e ∈ u.deleteBuf, e.version < versionBound

def pendingOf (u : Updater t) : Nat :=
  u.createBuf.length + u.modifyBuf.length + u.deleteBuf.length

def pending (st : Upload) : Nat :=
  pendingOf (st.updater .node) + pendingOf (st.updater .way) + pendingOf (st.updater .relation)

/-- A state in which every buffered element and `n` more can be executed. -/
structure Ready (env : Env) (n : Nat) (st : Upload) (db : Db) : Prop where
  filled : ∀ t, Filled (st.updater t)
  healthy : Healthy env.fuel (n + pending st) db

theorem pending_setUpdater (st : Upload) (u : Updater t) :
    pending (st.setUpdater u) + pendingOf (st.updater t) = pending st + pendingOf u := by
  have other : ∀ t', t' ≠ t → (st.setUpdater u).updater t' = st.updater t' := fun t' ne =>
    Upload.setUpdater_other st u ne
  unfold pending
  cases t with
  | node =>
      rw [Upload.setUpdater_updater, other .way nofun, other .relation nofun]
      omega
  | way =>
      rw [Upload.setUpdater_updater, other .node nofun, other .relation nofun]
      omega
  | relation =>
      rw [Upload.setUpdater_updater, other .node nofun, other .way nofun]
      omega

private theorem ready_setUpdater {n m : Nat} {st : Upload} {ct : Tracking} {u : Updater t}
    (filled : ∀ t, Filled (st.updater t)) (own : Filled u)
    (count : pendingOf u + m = pendingOf (st.updater t))
    (healthy : ∀ k, k + m = n + pending st → Healthy env.fuel k db) :
    Ready env n ({ st with ct := ct : Upload }.setUpdater u) db := by
  have total := pending_setUpdater { st with ct := ct : Upload } u
  have same : pending { st with ct := ct : Upload } = pending st := rfl
  rw [same] at total
  have before : pendingOf (({ st with ct := ct : Upload } : Upload).updater t) =
    pendingOf (st.updater t) := rfl
  rw [before] at total
  refine ⟨fun t' => ?_, healthy _ (by omega)⟩
  by_cases here : t' = t
  · subst here
    rw [Upload.setUpdater_updater]
    exact own
  · rw [Upload.setUpdater_other _ _ here]
    exact filled t'

end Pending

section Flush

variable {n : Nat} {st : Upload}

private theorem returns_of_returns {α : Type} {p : DbProg α} {Q : α → Db → Prop}
    {E : Exception → Prop} (outcome : p.Returns db (fun _ _ => True) E)
    (post : ∀ a db', p.run db = .ok (a, db') → Q a db') : p.Returns db Q E :=
  returns_iff.mpr ⟨post, (returns_iff.mp outcome).2⟩

private theorem processNew_ready (ready : Ready env n st db) (t : ObjectType) :
    (processNew env t st).Returns db (fun st' db' => Ready env n st' db')
      (fun e => isClientError e = true) := by
  have filled := ready.filled t
  refine returns_of_returns (processNew_returns ready.healthy filled.negative filled.created) ?_
  intro st' db' done
  obtain ⟨es, placeholders, box, -, replaced, effect, rfl⟩ := processNew_ok filled.negative done
  have count := (replaceOldIds_eq_ok.mp replaced).2.length_eq
  apply ready_setUpdater (m := (st.updater t).createBuf.length) ready.filled
  · exact ⟨fun e member => (List.not_mem_nil member).elim,
      fun e member => (List.not_mem_nil member).elim, filled.modified, filled.smallModified,
      filled.smallDeleted⟩
  · unfold pendingOf
    simp only [List.length_nil]
    omega
  · intro k total
    apply Healthy.of_create _ effect
    rw [← count, total]
    exact ready.healthy

private theorem processModify_ready (ready : Ready env n st db) (t : ObjectType) :
    (processModify env t st).Returns db (fun st' db' => Ready env n st' db')
      (fun e => isClientError e = true) := by
  have filled := ready.filled t
  have fits : (st.updater t).modifyBuf.length ≤ pending st := by
    unfold pending pendingOf
    cases t <;> omega
  refine returns_of_returns (processModify_returns
    (ready.healthy.mono (show 0 + (st.updater t).modifyBuf.length ≤ n + pending st by omega))
    filled.modified filled.smallModified) ?_
  intro st' db' done
  obtain ⟨es, box, modified, replaced, effect, -, rfl⟩ := processModify_ok done
  have count := (replaceOldIds_eq_ok.mp replaced).2.length_eq
  apply ready_setUpdater (m := (st.updater t).modifyBuf.length) ready.filled
  · exact ⟨filled.negative, filled.created, fun e member => (List.not_mem_nil member).elim,
      fun e member => (List.not_mem_nil member).elim, filled.smallDeleted⟩
  · unfold pendingOf
    simp only [List.length_nil]
    omega
  · intro k total
    apply Healthy.of_modify _ effect
    rw [← count, total]
    exact ready.healthy

private theorem processDelete_ready (ready : Ready env n st db) {st' : Upload}
    (done : (processDelete env t st).run db = .ok (st', db')) : Ready env n st' db' := by
  have filled := ready.filled t
  obtain ⟨es, executed, used, box, deleted, replaced, effect, -, rfl⟩ := processDelete_ok done
  have count := (replaceOldIds_eq_ok.mp replaced).2.length_eq
  apply ready_setUpdater (m := (st.updater t).deleteBuf.length) ready.filled
  · exact ⟨filled.negative, filled.created, filled.modified, filled.smallModified,
      fun e member => (List.not_mem_nil member).elim⟩
  · unfold pendingOf
    simp only [List.length_nil]
    omega
  · intro k total
    apply Healthy.of_delete _ effect
    rw [← count, total]
    exact ready.healthy

private theorem small_deleted {es : List (Elem t)} (ready : Ready env n st db)
    (replaced : replaceOldIds st.ct (st.updater t).deleteBuf = .ok es) :
    ∀ e ∈ es, e.version < versionBound := by
  intro e member
  obtain ⟨d, inside, r⟩ := exists_of_mem_right (replaceOldIds_eq_ok.mp replaced).2 member
  rw [r.version]
  exact (ready.filled t).smallDeleted d inside

/-- A flush blames the request or is carried out, unless it would delete an object
twice. -/
theorem flush_returns (ready : Ready env n st db) (clean : FlushClean st db) :
    (flush env st).Returns db (fun st' db' => Ready env n st' db')
      (fun e => isClientError e = true) := by
  unfold flush
  split
  · exact returns_pure ready
  · exact processNew_ready ready _
  · refine returns_bind (returns_mono (processModify_ready ready .node) ?_ fun _ failed => failed)
    intro st₁ db₁ ready₁
    refine returns_bind (returns_mono (processModify_ready ready₁ .way) ?_ fun _ failed => failed)
    intro st₂ db₂ ready₂
    exact processModify_ready ready₂ .relation
  · rename_i t state
    refine returns_iff.mpr ⟨fun st' db' done => processDelete_ready ready done, ?_⟩
    intro e failed
    cases replaced : replaceOldIds st.ct (st.updater t).deleteBuf with
    | error error =>
        rw [processDelete, run_bind, replaced, run_liftExcept_error] at failed
        cases failed
        obtain ⟨message, rfl⟩ := replaceOldIds_error replaced
        rfl
    | ok es =>
        rcases processDelete_cases replaced ready.healthy (small_deleted ready replaced) with
          ⟨-, error, run, client⟩ | ⟨-, -, st', db', run⟩ | ⟨checked, twice, -⟩
        · rw [run] at failed
          cases failed
          exact client
        · rw [run] at failed
          cases failed
        · exact absurd (clean t es state replaced checked) twice
  · exact returns_pure ready

theorem flush_fails (ready : Ready env n st db) (unclean : ¬ FlushClean st db) :
    ∃ message, (flush env st).run db = .error (.serverError message) := by
  unfold FlushClean at unclean
  push Not at unclean
  obtain ⟨t, es, state, replaced, checked, twice⟩ := unclean
  rcases processDelete_cases replaced ready.healthy (small_deleted ready replaced) with
    ⟨failed, -⟩ | ⟨-, once, -⟩ | ⟨-, -, message, run⟩
  · exact absurd checked failed
  · exact absurd once twice
  · refine ⟨message, ?_⟩
    unfold flush
    rw [state]
    exact run

end Flush

section Document

variable {n : Nat} {st : Upload}

private theorem ready_push {el : Element} {st' : Upload} (ready : Ready env (n + 1) st db)
    (small : el.object.version < versionBound) (pushed : push env el st = .ok st') :
    Ready env n st' db := by
  have filled := ready.filled el.objType
  have grow : ∀ {u : Updater el.objType} {ct : Tracking}, Filled u →
      pendingOf u = pendingOf (st.updater el.objType) + 1 →
      Ready env n ({ st with ct := ct : Upload }.setUpdater u) db := by
    intro u ct own count
    have total := pending_setUpdater { st with ct := ct : Upload } u
    have same : pending { st with ct := ct : Upload } = pending st := rfl
    have before : pendingOf (({ st with ct := ct : Upload } : Upload).updater el.objType) =
      pendingOf (st.updater el.objType) := rfl
    rw [same, before] at total
    refine ⟨fun t' => ?_, ready.healthy.mono (by omega)⟩
    by_cases here : t' = el.objType
    · subst here
      rw [Upload.setUpdater_updater]
      exact own
    · rw [Upload.setUpdater_other _ _ here]
      exact ready.filled t'
  have snoc : ∀ {l : List (Elem el.objType)} {e : Elem el.objType} {P : Elem el.objType → Prop},
      (∀ d ∈ l, P d) → P e → ∀ d ∈ l ++ [e], P d := by
    intro l e P old new d member
    rcases List.mem_append.mp member with before | here
    · exact old d before
    · rw [List.mem_singleton.mp here]
      exact new
  unfold push at pushed
  split at pushed
  · unfold add at pushed
    split at pushed
    · cases pushed
    · rename_i negative
      cases pushed
      apply grow
      · exact ⟨snoc filled.negative (not_le.mp negative),
          snoc filled.created (wellFormed_newElem env el.object), filled.modified,
          filled.smallModified, filled.smallDeleted⟩
      · unfold pendingOf
        simp only [List.length_append, List.length_singleton]
        omega
  · cases pushed
    apply grow
    · exact ⟨filled.negative, filled.created,
        snoc filled.modified (wellFormed_modifiedElem env el.object),
        snoc filled.smallModified small, filled.smallDeleted⟩
    · unfold pendingOf
      simp only [List.length_append, List.length_singleton]
      omega
  · cases pushed
    apply grow
    · exact ⟨filled.negative, filled.created, filled.modified, filled.smallModified,
        snoc filled.smallDeleted small⟩
    · unfold pendingOf
      simp only [List.length_append, List.length_singleton]
      omega

private theorem ready_state {s : HandlerState} (ready : Ready env n st db) :
    Ready env n { st with state := s } db := ⟨ready.filled, ready.healthy⟩

private theorem push_error {el : Element} {e : Exception} (failed : push env el st = .error e) :
    isClientError e = true := by
  unfold push at failed
  split at failed
  · unfold add at failed
    split at failed
    · cases failed
      rfl
    · cases failed
  · cases failed
  · cases failed

private theorem processElement_returns {el : Element} (ready : Ready env (n + 1) st db)
    (small : el.object.version < versionBound)
    (clean : el.object.changeset = env.changeset → Element.state el ≠ st.state →
      FlushClean st db) :
    (processElement env st el).Returns db (fun st' db' => Ready env n st' db')
      (fun e => isClientError e = true) := by
  unfold processElement
  refine returns_bind (returns_liftExcept (fun _ checked => ?_) fun e failed => ?_)
  · have own : el.object.changeset = env.changeset := by
      unfold checkOsmObject at checked
      split at checked
      · cases checked
      · rename_i same
        exact not_not.mp same
    have last : ∀ st₁ db₁, Ready env (n + 1) st₁ db₁ →
        (liftExcept (push env el st₁) : DbProg Upload).Returns db₁
          (fun st' db' => Ready env n st' db') (fun e => isClientError e = true) := by
      intro st₁ db₁ ready₁
      exact returns_liftExcept (fun st' pushed => ready_push ready₁ small pushed)
        fun e failed => push_error failed
    unfold handleNewState
    split
    · exact returns_bind (returns_pure (last st db ready))
    · rename_i other
      refine returns_bind (returns_bind (returns_mono (flush_returns ready (clean own other)) ?_
        fun _ failed => failed))
      intro st₁ db₁ ready₁
      exact returns_pure (last _ db₁ (ready_state ready₁))
  · unfold checkOsmObject at failed
    split at failed
    · cases failed
      rfl
    · cases failed

private theorem callbacks_returns {doc : List Element} (ready : Ready env doc.length st db)
    (small : ∀ el ∈ doc, el.object.version < versionBound) :
    (doc.foldlM (processElement env) st >>= handleNewState env .finished).Returns db
        (fun _ _ => True) (fun e => isClientError e = true) ↔ DocumentClean env st db doc := by
  induction doc generalizing st db with
  | nil =>
      rw [List.foldlM_nil, Prog.pure_bind, handleNewState, DocumentClean]
      constructor
      · intro outcome
        by_contra unclean
        obtain ⟨message, run⟩ := flush_fails ready unclean
        have going : HandlerState.finished ≠ st.state := by
          intro same
          apply unclean
          intro t es state
          rw [← same] at state
          cases state
        rw [if_neg going] at outcome
        have server := (returns_iff.mp outcome).2 (.serverError message) (by rw [run_bind, run])
        cases server
      · intro clean
        split
        · exact returns_pure trivial
        · exact returns_bind (returns_mono (flush_returns ready clean)
            (fun _ _ _ => returns_pure trivial) fun _ failed => failed)
  | cons el doc ih =>
      rw [List.foldlM_cons, LawfulMonad.bind_assoc, DocumentClean]
      have smallRest : ∀ d ∈ doc, d.object.version < versionBound := fun d member =>
        small d (List.mem_cons_of_mem el member)
      have smallFirst := small el List.mem_cons_self
      constructor
      · intro outcome
        -- a batch that is not clean would have stopped the first callback
        have clean : el.object.changeset = env.changeset → Element.state el ≠ st.state →
            FlushClean st db := by
          intro own other
          by_contra unclean
          obtain ⟨message, run⟩ := flush_fails ready unclean
          have failed : (processElement env st el).run db = .error (.serverError message) := by
            rw [processElement, run_bind, checkOsmObject, if_neg (not_not.mpr own),
              run_liftExcept_ok]
            dsimp only
            rw [run_bind, handleNewState, if_neg other, run_bind, run]
          have server := (returns_iff.mp outcome).2 (.serverError message)
            (by rw [run_bind, failed])
          cases server
        refine ⟨clean, fun st' db' first => ?_⟩
        have next : Ready env doc.length st' db' :=
          (returns_iff.mp (processElement_returns ready smallFirst clean)).1 st' db' first
        rw [← ih next smallRest]
        unfold Returns at outcome ⊢
        rw [run_bind, first] at outcome
        exact outcome
      · rintro ⟨clean, rest⟩
        apply returns_bind
        have first := processElement_returns ready smallFirst clean
        refine returns_iff.mpr ⟨fun st' db' run => ?_, (returns_iff.mp first).2⟩
        have next := (returns_iff.mp first).1 st' db' run
        exact (ih next smallRest).mpr (rest st' db' run)

private theorem ready_empty (healthy : Healthy env.fuel n db) :
    Ready env n (Upload.empty env) db := by
  refine ⟨fun t => ?_, healthy⟩
  refine ⟨?_, ?_, ?_, ?_, ?_⟩ <;> intro e member <;> exact (List.not_mem_nil member).elim

theorem processDocument_returns {doc : List Element} (healthy : Healthy env.fuel doc.length db)
    (small : ∀ el ∈ doc, el.object.version < versionBound) :
    (processDocument env doc).Returns db (fun _ _ => True) (fun e => isClientError e = true) ↔
      DocumentClean env (Upload.empty env) db doc :=
  callbacks_returns (ready_empty healthy) small

end Document

section Rows

/-- The element of a delete batch names an object that is deleted already, or kept
because it is in use. -/
def Spared (env : Env) (b : Batch) (el : Element) : Prop :=
  b.before.visible (objectOf env b el) = false ∨
    Blocked b.before el.objType (visibleElems b.before
      ((elemsIn env el.objType b.els).map (resolved b.flushed.ct))) (recordOf env b el).id

/-- Every element of a delete batch that is not carried out has a written id that the
tracking knows: with the flag, that of the last element of a spared object, and in any
case that of an element that is carried out. -/
def Reported (env : Env) (batches : List Batch) : Prop :=
  ∀ b ∈ batches, ∀ el ∈ b.els, el.op = .delete → Spared env b el →
    (el.ifUnused = true ∧ ∃ c ∈ batches, ∃ d ∈ c.els, d.op = .delete ∧ d.objType = el.objType ∧
        Spared env c d ∧ lastName env c (objectOf env c d) = el.object.id) ∨
      ∃ c ∈ batches, ∃ d ∈ c.els, d.op = .delete ∧ d.objType = el.objType ∧
        ¬ Spared env c d ∧ d.object.id = el.object.id

theorem keeps_iff_spared {b : Batch} (effect : BatchEffect env b) {el : Element}
    (member : el ∈ b.els) (op : el.op = .delete) :
    keeps b (objectOf env b el) = true ↔ Spared env b el := by
  cases effect with
  | create t es batch => exact nomatch op.symm.trans (batch.ops el member).1
  | modify es db₁ db₂ modified batch => exact nomatch op.symm.trans (batch.ops el member)
  | delete t es executed used deleted batch =>
      obtain rfl := (batch.ops el member).2
      have same : b.flushed.ct.created = b.pushed.ct.created := by rw [batch.tracking]; rfl
      have records : es = (elemsIn env el.objType b.els).map (resolved b.flushed.ct) :=
        replaceOldIds_eq_map ((replaceOldIds_congr same).trans batch.replaced)
      have inside : recordOf env b el ∈ es := by
        rw [records]
        exact mem_records.mpr ⟨el, member, rfl, rfl⟩
      rw [objectOf, keeps_iff batch inside, batch.effect.mem_executed, Spared, ← records, objectOf]
      constructor
      · intro outside
        by_contra free
        push Not at free
        exact outside ⟨inside, by simpa using free.1, free.2⟩
      · rintro (hidden | blocked) ⟨-, shown, free⟩
        · rw [hidden] at shown
          cases shown
        · exact free blocked

/-- A deletion gets a row when its written id is among the skipped or the deleted
ones. -/
private theorem assembleRow_delete {ct : Tracking} {el : Element} (op : el.op = .delete) :
    (∃ row, assembleRow ct (origOf env el) = .ok row) ↔
      (el.ifUnused = true ∧ ∃ m ∈ ct.skipDeleted el.objType, m.oldId = el.object.id) ∨
        el.object.id ∈ ct.deleted el.objType := by
  have unused : (elemOf env el).ifUnused = el.ifUnused := elemOf_ifUnused op
  simp only [assembleRow, origOf, op, elemOf_oldId, unused]
  have plain : (∃ row, (if el.object.id ∈ ct.deleted el.objType then
      .ok ⟨.delete, el.objType, el.object.id, 0, 0, false⟩
      else .error notProcessed : Except Exception DiffResult) = .ok row) ↔
      el.object.id ∈ ct.deleted el.objType := by
    split
    · rename_i executed
      simp [executed]
    · rename_i missing
      simp [missing]
  cases el.ifUnused with
  | false => simpa using plain
  | true =>
      simp only [if_true, true_and]
      cases first : (ct.skipDeleted el.objType).find?
          (fun m => decide (m.oldId = el.object.id)) with
      | none =>
          have absent : ¬ ∃ m ∈ ct.skipDeleted el.objType, m.oldId = el.object.id := by
            rintro ⟨m, member, same⟩
            exact List.find?_eq_none.mp first m member (decide_eq_true same)
          simpa only [absent, false_or] using plain
      | some m =>
          have entry : ∃ m ∈ ct.skipDeleted el.objType, m.oldId = el.object.id :=
            ⟨m, List.mem_of_find?_eq_some first, by simpa using List.find?_some first⟩
          simp [entry]

theorem assembleRow_error {ct : Tracking} {item : OsmChange} {e : Exception}
    (failed : assembleRow ct item = .error e) : e = notProcessed := by
  unfold assembleRow at failed
  dsimp only at failed
  split at failed
  · split at failed
    · exact (Except.error.inj failed).symm
    · cases failed
  · split at failed
    · exact (Except.error.inj failed).symm
    · cases failed
  · split at failed
    · split at failed
      · cases failed
      · split at failed
        · cases failed
        · exact (Except.error.inj failed).symm
    · split at failed
      · cases failed
      · exact (Except.error.inj failed).symm

/-- The rows of an executed document can be assembled when every spared deletion is
reported. -/
theorem assembleDiffresult_isOk {doc : List Element} {batches : List Batch} {st : Upload}
    (executed : Executed env doc db batches st db') :
    (∃ rows, assembleDiffresult st.ct = .ok rows) ↔ Reported env batches := by
  have tracked := tracked_of_executed executed
  have effects := effect_of_executed executed
  have rows : (∃ rows, assembleDiffresult st.ct = .ok rows) ↔
      ∀ b ∈ batches, ∀ el ∈ b.els, ∃ row, assembleRow st.ct (origOf env el) = .ok row := by
    rw [assembleDiffresult, tracked.orig]
    constructor
    · rintro ⟨rows, done⟩ b inside el member
      obtain ⟨row, -, here⟩ := mem_of_mapM done
        (List.mem_map_of_mem (List.mem_flatMap.mpr ⟨b, inside, member⟩))
      exact ⟨row, here⟩
    · intro each
      cases result : ((batches.flatMap Batch.els).map (origOf env)).mapM (assembleRow st.ct) with
      | ok rows => exact ⟨rows, rfl⟩
      | error e =>
          obtain ⟨item, member, failed⟩ := mapM_eq_error result
          obtain ⟨el, there, rfl⟩ := List.mem_map.mp member
          obtain ⟨b, inside, here⟩ := List.mem_flatMap.mp there
          obtain ⟨row, done⟩ := each b inside el here
          rw [done] at failed
          cases failed
  rw [rows]
  have spared : ∀ b ∈ batches, ∀ el ∈ b.els, el.op = .delete →
      (keeps b (objectOf env b el) = true ↔ Spared env b el) := fun b inside el member op =>
    keeps_iff_spared (effects b inside) member op
  have carried : ∀ b ∈ batches, ∀ el ∈ b.els, el.op = .delete →
      (keeps b (objectOf env b el) = false ↔ ¬ Spared env b el) := by
    intro b inside el member op
    rw [← spared b inside el member op, Bool.not_eq_true]
  constructor
  · intro each b inside el member op _
    rcases (assembleRow_delete op).mp (each b inside el member) with ⟨flag, m, entry, same⟩ | gone
    · obtain ⟨c, there, d, here, op', type, stays, rfl⟩ := (tracked.skipped _ m).mp entry
      exact .inl ⟨flag, c, there, d, here, op', type, (spared c there d here op').mp stays, same⟩
    · obtain ⟨c, there, d, here, op', type, done, same⟩ := (tracked.deleted _ _).mp gone
      exact .inr ⟨c, there, d, here, op', type, (carried c there d here op').mp done, same.symm⟩
  · intro reported b inside el member
    cases op : el.op with
    | create => exact ⟨_, assembleRow_create tracked inside member op⟩
    | modify => exact ⟨_, assembleRow_modify tracked inside member op⟩
    | delete =>
        rw [assembleRow_delete op]
        by_cases stays : Spared env b el
        · rcases reported b inside el member op stays with
            ⟨flag, c, there, d, here, op', type, kept, last⟩ | ⟨c, there, d, here, op', type, done, same⟩
          · refine .inl ⟨flag, _, (tracked.skipped _ _).mpr ⟨c, there, d, here, op', type,
              (spared c there d here op').mpr kept, rfl⟩, last⟩
          · exact .inr ((tracked.deleted _ _).mpr ⟨c, there, d, here, op', type,
              (carried c there d here op').mpr done, same.symm⟩)
        · exact .inr ((tracked.deleted _ _).mpr ⟨b, inside, el, member, op, rfl,
            (carried b inside el member op).mpr stays, rfl⟩)

end Rows

/-- An upload succeeds or blames the request exactly when no delete batch that passes
its checks would delete an object twice, and every spared deletion is reported. -/
theorem uploadDocument_outcome_iff {doc : List Element} (healthy : Healthy env.fuel doc.length db)
    (small : ∀ el ∈ doc, el.object.version < versionBound) :
    (uploadDocument env doc).Returns db (fun _ _ => True) (fun e => isClientError e = true) ↔
      DocumentClean env (Upload.empty env) db doc ∧
        ∀ batches st db', Executed env doc db batches st db' → Reported env batches := by
  rw [← processDocument_returns healthy small]
  unfold uploadDocument
  constructor
  · intro outcome
    refine ⟨returns_iff.mpr ⟨fun _ _ _ => trivial, fun e failed => ?_⟩, ?_⟩
    · exact (returns_iff.mp outcome).2 e (by rw [run_bind, failed])
    · intro batches st db' executed
      rw [← assembleDiffresult_isOk executed]
      cases result : assembleDiffresult st.ct with
      | ok rows => exact ⟨rows, rfl⟩
      | error e =>
          have client := (returns_iff.mp outcome).2 e (by
            rw [run_bind, executed.processed]
            dsimp only
            rw [result, run_liftExcept_error])
          obtain ⟨item, -, failed⟩ := mapM_eq_error result
          rw [assembleRow_error failed] at client
          cases client
  · rintro ⟨processed, reported⟩
    apply returns_bind
    refine returns_iff.mpr ⟨fun st db' done => ?_, (returns_iff.mp processed).2⟩
    obtain ⟨batches, executed⟩ := executed_of_processDocument done
    obtain ⟨rows, assembled⟩ := (assembleDiffresult_isOk executed).mpr
      (reported batches st db' executed)
    rw [assembled]
    exact trivial

theorem healthy_empty {fuel n : Nat} (enough : n + 1 < fuel) (room : n < versionBound) :
    Healthy fuel n Db.empty := by
  refine ⟨fun t id => ⟨foreignKeys_iff.mp foreignKeys_empty t id, fun v _ => rfl, ?_⟩,
    fun t id _ => rfl, ?_, ?_⟩
  · change 0 + n < versionBound
    omega
  · rintro t id o ⟨r, row, -⟩
    exact (List.not_mem_nil row).elim
  · change 1 + n < fuel
    omega

theorem uploadDocument_outcome_sampleUse :
    Healthy sampleEnv.fuel (sampleUse false).length Db.empty ∧
      (∀ el ∈ sampleUse false, el.object.version < versionBound) ∧
      ((uploadDocument sampleEnv (sampleUse false)).Returns Db.empty (fun _ _ => True)
          (fun e => isClientError e = true) ↔
        DocumentClean sampleEnv (Upload.empty sampleEnv) Db.empty (sampleUse false) ∧
          ∀ batches st db', Executed sampleEnv (sampleUse false) Db.empty batches st db' →
            Reported sampleEnv batches) := by
  have healthy : Healthy sampleEnv.fuel (sampleUse false).length Db.empty :=
    healthy_empty (by decide) (by decide)
  have small : ∀ el ∈ sampleUse false, el.object.version < versionBound := by decide
  exact ⟨healthy, small, uploadDocument_outcome_iff healthy small⟩

/-- A node that one block deletes twice: the update affects one row for two elements. -/
theorem serverError_sampleTwice :
    Healthy sampleEnv.fuel sampleTwice.length Db.empty ∧
      ¬ (uploadDocument sampleEnv sampleTwice).Returns Db.empty (fun _ _ => True)
        (fun e => isClientError e = true) := by
  refine ⟨healthy_empty (by decide) (by decide), fun outcome => ?_⟩
  have run := of_failsWith (p := uploadDocument sampleEnv sampleTwice) (s := Db.empty)
    (e := .serverError "Could not delete all current nodes") (by decide +kernel)
  have client := (returns_iff.mp outcome).2 _ run
  cases client

end Cgimap.Osmchange.Outcomes
