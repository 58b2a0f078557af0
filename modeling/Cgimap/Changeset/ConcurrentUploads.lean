/- path: Cgimap/Changeset/ConcurrentUploads
   generality: I
   source: src/backend/apidb/changeset_upload/{node,way,relation}_updater.cpp
   digest: No interleaving of uploads leaves a reference to an invisible node or way. -/

import Cgimap.Changeset.ClosingRaces
import Cgimap.Changeset.PayloadSizes
import Cgimap.Osmchange.ReferenceLocks

set_option autoImplicit false
set_option relaxedAutoImplicit false

namespace Cgimap.Changeset.ConcurrentUploads

open Cgimap.Library.ExceptLists
open Cgimap.Library.KeyedTable
open Cgimap.Library.StatementProgram
open Cgimap.Library.StatementProgram.Prog
open Cgimap.Library.Interleaving
open Cgimap.Library.GuardedReferences
open Cgimap.Model.Types
open Cgimap.Model.Database
open Cgimap.Osmchange.DiffTracking
open Cgimap.Osmchange.UploadRecords
open Cgimap.Osmchange.UpdaterChecks
open Cgimap.Osmchange.UpdaterProcess
open Cgimap.Osmchange.Handler
open Cgimap.Osmchange.WriteEffects
open Cgimap.Osmchange.Placeholders
open Cgimap.Osmchange.CreateEffects
open Cgimap.Osmchange.ModifyEffects
open Cgimap.Osmchange.Integrity
open Cgimap.Osmchange.ReferenceLocks
open Cgimap.Changeset.Updater
open Cgimap.Changeset.Responders
open Cgimap.Changeset.PayloadSizes (samplePayload)
open Cgimap.Changeset.ClosingRaces

section Process

variable {t : ObjectType} {env : Env} {st : Upload}

/-- Elements to be created have placeholders. -/
def Negative (st : Upload) : Prop := ∀ t, ∀ e ∈ (st.updater t).createBuf, e.oldId < 0

private theorem negative_setUpdater (negative : Negative st) {ct : Tracking} {u : Updater t}
    (buffered : ∀ e ∈ u.createBuf, e.oldId < 0) :
    Negative ({ st with ct := ct : Upload }.setUpdater u) := by
  intro t' e member
  by_cases same : t' = t
  · subst same
    rw [Upload.setUpdater_updater] at member
    exact buffered e member
  · rw [Upload.setUpdater_other _ _ same] at member
    exact negative t' e member

theorem processNew_careful (negative : Negative st) :
    Careful dbReading (fun st' _ => Negative st') (processNew env t st) .nothing := by
  unfold processNew
  refine careful_liftExcept_bind fun placeholders _ => ?_
  refine careful_liftExcept_bind fun _ _ => ?_
  refine careful_bind (insertNew_careful _ _) ?_
  rintro _ _ ⟨⟨db, rfl⟩, rfl⟩
  refine careful_liftExcept_bind fun es replaced => ?_
  have created := created_ids (negative t) replaced
  refine careful_bind (lockFuture_careful _ es _) ?_
  rintro _ _ rfl
  refine (quiet_insertNewCurrentTags es).careful_bind fun idsWithTags => ?_
  refine careful_bind (insertNewCurrentRefs_careful
    (fun e member => .inr ⟨e.id, created e member, rfl⟩) fun x => .inr) ?_
  rintro _ _ rfl
  refine (quiet_saveCurrentToHistory _).careful_bind fun _ => ?_
  refine (quiet_saveCurrentTagsToHistory _).careful_bind fun _ => ?_
  refine (quiet_saveCurrentRefsToHistory _).careful_bind fun _ => ?_
  refine (quiet_calcBbox t _).careful_bind fun box => ?_
  exact careful_pure (negative_setUpdater negative nofun)

private theorem modifyPackage_careful {ids : List Nat} {es : List (Elem t)}
    (own : ∀ e ∈ es, e.id ∈ ids) (acc : Tracking × Bbox) :
    Careful dbReading (fun _ g => True ∧ g = Known.nothing.withOwn (objects t ids))
      (modifyPackage env t ids acc es) (.withOwn .nothing (objects t ids)) := by
  unfold modifyPackage
  refine (quiet_checkCurrentVersions es).careful_bind fun _ => ?_
  refine careful_bind (lockFuture_careful _ es ids) ?_
  rintro _ _ rfl
  refine (quiet_bboxBefore ids es).careful_bind fun update => ?_
  refine (quiet_deleteCurrentTags _).careful_bind fun _ => ?_
  refine careful_bind (deleteCurrentRefs_careful fun id member => ?_) ?_
  · obtain ⟨e, inside, rfl⟩ := List.mem_map.mp (mem_uniqueIds.mp member)
    exact .inr ⟨e.id, own e inside, rfl⟩
  rintro _ _ rfl
  unfold modifyCurrent
  rw [bind_assoc]
  refine careful_bind (updateCurrent_careful _ es) ?_
  rintro rows _ rfl
  refine (quiet_liftExcept _).careful_bind fun modified => ?_
  refine (quiet_insertNewCurrentTags es).careful_bind fun idsWithTags => ?_
  refine careful_bind (insertNewCurrentRefs_careful
    (fun e member => .inr ⟨e.id, own e member, rfl⟩) fun x => .inr) ?_
  rintro _ _ rfl
  refine (quiet_saveCurrentToHistory _).careful_bind fun _ => ?_
  refine (quiet_saveCurrentTagsToHistory _).careful_bind fun _ => ?_
  refine (quiet_saveCurrentRefsToHistory _).careful_bind fun _ => ?_
  refine (quiet_bboxAfter t _).careful_bind fun after => ?_
  exact careful_pure ⟨trivial, rfl⟩

theorem processModify_careful (negative : Negative st) :
    Careful dbReading (fun st' _ => Negative st') (processModify env t st) .nothing := by
  unfold processModify
  refine careful_liftExcept_bind fun es _ => ?_
  refine careful_bind (lockCurrent_careful _ t _) ?_
  rintro _ _ rfl
  refine careful_bind (careful_foldlM (I := fun _ => True) (buildPackages es)
    (fun acc p package _ => ?_) trivial) ?_
  · refine modifyPackage_careful (fun e member => mem_uniqueIds.mpr ?_) acc
    exact List.mem_map_of_mem (mem_buildPackages.mp ⟨p, package, member⟩)
  · rintro ⟨ct, box⟩ _ -
    exact careful_pure (negative_setUpdater negative (negative t))

theorem processDelete_careful (negative : Negative st) :
    Careful dbReading (fun st' _ => Negative st') (processDelete env t st) .nothing := by
  unfold processDelete
  refine careful_liftExcept_bind fun es _ => ?_
  refine careful_bind (lockCurrent_careful _ t _) ?_
  rintro _ _ rfl
  refine (quiet_determineAlreadyDeleted es).careful_bind ?_
  rintro ⟨alreadyDeleted, gone⟩
  refine (quiet_checkCurrentVersions _).careful_bind fun _ => ?_
  have own : ∀ e ∈ es, (Known.withOwn .nothing (objects t (uniqueIds es))).own (.object (t, e.id)) :=
    fun e member => .inr ⟨e.id, mem_uniqueIds.mpr (List.mem_map_of_mem member), rfl⟩
  refine careful_bind (isStillReferenced_careful fun id member => ?_) ?_
  · obtain ⟨e, inside, rfl⟩ := List.mem_map.mp member
    exact own e (List.mem_filter.mp inside).1
  rintro ⟨unreferenced, used⟩ g left
  refine (quiet_calcBbox t _).careful_bind fun box => ?_
  refine careful_bind (deleteCurrent_careful left.free) ?_
  rintro deleted _ rfl
  refine (quiet_deleteCurrentTags _).careful_bind fun _ => ?_
  refine careful_bind (deleteCurrentRefs_careful fun id member => ?_) ?_
  · obtain ⟨e, inside, rfl⟩ := List.mem_map.mp member
    exact left.known.own _ (own e (List.mem_filter.mp (left.inside e inside)).1)
  rintro _ _ rfl
  refine (quiet_saveCurrentToHistory _).careful_bind fun _ => ?_
  exact careful_pure (negative_setUpdater negative (negative t))

end Process

section Uploads

variable {env : Env} {st : Upload}

private theorem negative_empty (env : Env) : Negative (Upload.empty env) := nofun

private theorem flush_careful (negative : Negative st) :
    Careful dbReading (fun st' _ => Negative st') (flush env st) .nothing := by
  unfold flush
  split
  · exact careful_pure negative
  · exact processNew_careful negative
  · refine careful_bind (processModify_careful negative) fun nodes _ nodes' => ?_
    refine (careful_bind (processModify_careful nodes') fun ways _ ways' => ?_).sub
      (Known.nothing_sub _)
    exact (processModify_careful ways').sub (Known.nothing_sub _)
  · exact processDelete_careful negative
  · exact careful_pure negative

private theorem handleNewState_careful (negative : Negative st) (new : HandlerState) :
    Careful dbReading (fun st' _ => Negative st') (handleNewState env new st) .nothing := by
  unfold handleNewState
  split
  · exact careful_pure negative
  · exact careful_bind (flush_careful negative) fun st' _ kept => careful_pure kept

private theorem push_negative {el : Element} {st' : Upload} (negative : Negative st)
    (done : push env el st = .ok st') : Negative st' := by
  unfold push at done
  split at done
  · unfold add at done
    split at done
    · cases done
    · rename_i placeholder
      cases done
      refine negative_setUpdater negative fun e member => ?_
      rcases List.mem_append.mp member with old | new
      · exact negative _ e old
      · obtain rfl := List.mem_singleton.mp new
        exact not_le.mp placeholder
  · cases done
    exact negative_setUpdater negative (negative _)
  · cases done
    exact negative_setUpdater negative (negative _)

private theorem processElement_careful (negative : Negative st) (el : Element) :
    Careful dbReading (fun st' g => Negative st' ∧ g = .nothing) (processElement env st el)
      .nothing := by
  unfold processElement
  refine careful_liftExcept_bind fun _ _ => ?_
  refine careful_bind (handleNewState_careful negative _) fun st' g kept => ?_
  cases pushed : push env el st' with
  | error e => trivial
  | ok st'' => exact ⟨.nothing, Known.nothing_sub g, push_negative kept pushed, rfl⟩

private theorem processMessage_careful (payload : Payload) :
    Careful dbReading (fun _ _ => True) (processMessage env payload) .nothing := by
  unfold processMessage
  refine careful_bind (careful_foldlM payload.elements
    (fun st el _ negative => processElement_careful negative el) (negative_empty env)) ?_
  rintro st' _ ⟨negative, rfl⟩
  split
  · exact careful_throw _
  · exact (handleNewState_careful negative _).mono fun _ g _ => ⟨g, .refl g, trivial⟩

private theorem processPayload_careful (mt : MimeType) (payload : Payload) :
    Careful dbReading (fun _ _ => True) (processPayload env mt payload) .nothing := by
  unfold processPayload
  split
  · exact processMessage_careful payload
  · exact careful_pure trivial

end Uploads

section Requests

variable {s : Session} {u : ChangesetUpdater}

private theorem quiet_updateChangesets (hits : ChangesetRow → Bool)
    (set : ChangesetRow → ChangesetRow) (keeps : ∀ r, (set r).id = r.id) :
    Quiet dbReading (perform (updateChangesets hits set keeps)) := by
  refine quiet_perform fun db r db' done => ?_
  obtain ⟨-, rfl⟩ := Prod.mk.inj (Except.ok.inj done)
  exact same_of_tables rfl rfl

private theorem quiet_expectRows (actual expected : Nat) (e : Exception) :
    Quiet dbReading (expectRows actual expected e) := by
  unfold expectRows
  split
  · exact quiet_pure _
  · exact quiet_throw _

theorem readOnly_lockCurrentChangeset (check : Bool) :
    (lockCurrentChangeset s check u).ReadOnly fun _ => True := by
  unfold lockCurrentChangeset
  refine readOnly_bind (P := fun _ => True) ?_ fun _ _ => readOnly_bind (P := fun _ => True) ?_ ?_
  · refine readOnly_bind (readOnly_query _) fun owner _ => ?_
    cases owner with
    | none => exact readOnly_throw _
    | some owner =>
        dsimp only
        split
        · exact readOnly_pure trivial
        · exact readOnly_throw _
  · refine readOnly_bind (readOnly_perform fun db r db' done => ?_) fun row _ => ?_
    · exact (Prod.mk.inj (Except.ok.inj done)).2.symm
    · cases row with
      | none => exact readOnly_throw _
      | some r => exact readOnly_pure trivial
  · rintro ⟨r, u⟩ -
    dsimp only
    split
    · exact readOnly_throw _
    · split
      · exact readOnly_throw _
      · exact readOnly_pure trivial

private theorem quiet_lockCurrentChangeset (check : Bool) :
    Quiet dbReading (lockCurrentChangeset s check u) :=
  quiet_of_readOnly (readOnly_lockCurrentChangeset check)

private theorem quiet_saveChangeset (new : UploadStats) :
    Quiet dbReading (saveChangeset s new u) := by
  unfold saveChangeset
  refine quiet_bind ?_ fun rows => quiet_bind (quiet_expectRows _ _ _) fun _ => quiet_bind ?_
    fun _ => quiet_pure _
  · split
    · exact quiet_updateChangesets _ _ _
    · exact quiet_updateChangesets _ _ _
  · unfold changesetUpdateEnhancedStats
    split
    · exact quiet_bind (quiet_updateChangesets _ _ _) fun rows => quiet_expectRows _ _ _
    · exact quiet_pure _

private theorem quiet_updateChangeset (new : UploadStats) (bbox : Bbox) :
    Quiet dbReading (updateChangeset s new bbox u) := by
  unfold updateChangeset
  dsimp only
  split
  · exact quiet_bind (quiet_query _) fun time => quiet_throw _
  · exact quiet_saveChangeset new

private theorem quiet_changesetInsertTags (tags : List (String × String)) :
    Quiet dbReading (changesetInsertTags tags u) := by
  unfold changesetInsertTags
  split
  · exact quiet_pure _
  · refine quiet_bind (quiet_perform fun db r db' done => ?_) fun rows => quiet_expectRows _ _ _
    unfold insertChangesetTags at done
    dsimp only at done
    split at done
    · cases done
    · cases done
      exact same_of_tables rfl rfl

private theorem quiet_deleteChangesetTags (id : Int) :
    Quiet dbReading (perform (deleteChangesetTags id)) := by
  refine quiet_perform fun db r db' done => ?_
  obtain ⟨-, rfl⟩ := Prod.mk.inj (Except.ok.inj done)
  exact same_of_tables rfl rfl

private theorem quiet_apiCreateChangeset (tags : List (String × String)) :
    Quiet dbReading (apiCreateChangeset s tags u) := by
  unfold apiCreateChangeset
  refine quiet_bind ?_ fun u => quiet_bind ?_ fun _ => quiet_bind (quiet_deleteChangesetTags _)
    fun _ => quiet_bind (quiet_changesetInsertTags tags) fun _ => quiet_bind ?_ fun _ => quiet_pure _
  · refine quiet_bind (quiet_perform fun db r db' done => ?_) fun id => quiet_pure _
    unfold createChangeset at done
    dsimp only at done
    split at done
    · cases done
    · split at done
      · cases done
      · cases done
        exact same_of_tables rfl rfl
  · refine quiet_bind (quiet_perform fun db r db' done => ?_) fun rows => quiet_expectRows _ _ _
    obtain ⟨-, rfl⟩ := Prod.mk.inj (Except.ok.inj done)
    exact same_of_tables rfl rfl
  · refine quiet_bind (quiet_perform fun db r db' done => ?_) fun rows => quiet_expectRows _ _ _
    unfold insertChangesetSubscribers at done
    dsimp only at done
    split at done
    · cases done
    · split at done
      · cases done
      · cases done
        exact same_of_tables rfl rfl

theorem readOnly_checkRateLimit (env : Env) (limits : Limits) (userId newChanges : Nat) :
    (checkRateLimit env limits userId newChanges).ReadOnly fun _ => True := by
  unfold checkRateLimit getRateLimit
  split
  · refine readOnly_bind (P := fun _ => True) (readOnly_bind (readOnly_query _) fun limit _ => ?_)
      fun maxChanges _ => ?_
    · cases limit with
      | none => exact readOnly_throw _
      | some limit => exact readOnly_pure trivial
    · split
      · exact readOnly_throw _
      · exact readOnly_pure trivial
  · exact readOnly_pure trivial

theorem readOnly_checkBboxSize (env : Env) (limits : Limits) (userId : Nat) (box : Bbox) :
    (checkBboxSize env limits userId box).ReadOnly fun _ => True := by
  unfold checkBboxSize getBboxSizeLimit
  split
  · refine readOnly_bind (P := fun _ => True) (readOnly_bind (readOnly_query _) fun limit _ => ?_)
      fun maxSize _ => ?_
    · cases limit with
      | none => exact readOnly_throw _
      | some limit => exact readOnly_pure trivial
    · split
      · exact readOnly_throw _
      · exact readOnly_pure trivial
  · exact readOnly_pure trivial

private theorem quiet_checkRateLimit (env : Env) (limits : Limits) (userId newChanges : Nat) :
    Quiet dbReading (checkRateLimit env limits userId newChanges) :=
  quiet_of_readOnly (readOnly_checkRateLimit env limits userId newChanges)

private theorem quiet_checkBboxSize (env : Env) (limits : Limits) (userId : Nat) (box : Bbox) :
    Quiet dbReading (checkBboxSize env limits userId box) :=
  quiet_of_readOnly (readOnly_checkBboxSize env limits userId box)

theorem responder_careful (tx : Transaction) :
    Careful dbReading (fun _ _ => True) tx.responder .nothing := by
  have quiet : ∀ {p : DbProg Reply}, Quiet dbReading p →
      Careful dbReading (fun _ _ => True) p .nothing := fun silent =>
    (silent.careful .nothing).mono fun _ g _ => ⟨g, .refl g, trivial⟩
  unfold Transaction.responder
  split
  · refine quiet (quiet_bind (quiet_liftExcept _) fun start => quiet_bind (quiet_liftExcept _)
      fun tags => ?_)
    exact quiet_bind (quiet_apiCreateChangeset _) fun id => quiet_pure _
  · refine quiet (quiet_bind (quiet_liftExcept _) fun start => quiet_bind (quiet_liftExcept _)
      fun tags => quiet_bind ?_ fun _ => quiet_pure _)
    refine quiet_bind (quiet_lockCurrentChangeset _) fun u => ?_
    refine quiet_bind (quiet_deleteChangesetTags _) fun _ => ?_
    exact quiet_bind (quiet_changesetInsertTags _) fun _ => quiet_updateChangeset _ _
  · refine quiet (quiet_bind (quiet_liftExcept _) fun start => quiet_bind ?_ fun _ => quiet_pure _)
    refine quiet_bind (quiet_lockCurrentChangeset _) fun u => ?_
    exact quiet_bind (quiet_updateChangesets _ _ _) fun rows => quiet_expectRows _ _ _
  · rename_i mt changeset payload _
    unfold changesetUploadResponder
    split
    · exact careful_throw _
    · rename_i userId _
      refine careful_liftExcept_bind fun start _ => ?_
      refine (quiet_lockCurrentChangeset _).careful_bind fun u => ?_
      refine careful_bind (processPayload_careful mt payload) fun st g _ => ?_
      refine careful_liftExcept_bind fun rows _ => ?_
      refine (quiet_checkRateLimit _ _ _ _).careful_bind fun _ => ?_
      refine (quiet_updateChangeset _ _).careful_bind fun u => ?_
      refine (quiet_checkBboxSize _ _ _ _).careful_bind fun _ => ?_
      exact careful_pure trivial

end Requests

section Runs

variable {I : Type} [DecidableEq I] {txs : I → Transaction}

/-- No way and no relation refers to an invisible node or way. -/
def NoDangling (db : Db) : Prop :=
  ∀ t id o, Refers db t id o → o.1 ≠ .relation → db.visible o = true

private theorem intact_iff (db : Db) : dbReading.Intact db ↔ NoDangling db := by
  constructor
  · intro intact t id o refers type
    exact intact (.object (t, id)) (.object o) ⟨t, id, o, rfl, rfl, type, refers⟩ o rfl type
  · rintro links x y ⟨t, id, o, rfl, rfl, type, refers⟩ o' same -
    cases same
    exact links t id o refers type

section Views

variable (owned : Lockable → Bool) (mine base : Db)

private theorem visible_overlay (o : Obj) : (Db.overlay owned mine base).visible o =
    (if owned (.object o) then mine else base).visible o := by
  have row : ((Db.overlay owned mine base).current o.1).find? o.2 = _ :=
    Table.find?_overlay (fun id => owned (.object (o.1, id))) _ _ o.2
  have same : ((Db.overlay owned mine base).current o.1).find? o.2 =
      ((if owned (.object o) then mine else base).current o.1).find? o.2 := by
    rw [row]
    split <;> rfl
  unfold Db.visible
  rw [same]

private theorem refers_overlay (t : ObjectType) (id : Nat) (o : Obj) :
    Refers (Db.overlay owned mine base) t id o ↔
      Refers (if owned (.object (t, id)) then mine else base) t id o := by
  have rows : ∀ r, r ∈ (Db.overlay owned mine base).currentRefs t ↔
      (r ∈ mine.currentRefs t ∧ owned (.object (t, r.owner)) = true) ∨
        (r ∈ base.currentRefs t ∧ owned (.object (t, r.owner)) = false) := fun r =>
    Table.mem_overlay
  unfold Refers
  simp only [rows]
  constructor
  · rintro ⟨r, ⟨member, own⟩ | ⟨member, foreign⟩, rfl, target⟩
    · rw [own, if_pos rfl]
      exact ⟨r, member, rfl, target⟩
    · rw [foreign, if_neg Bool.false_ne_true]
      exact ⟨r, member, rfl, target⟩
  · split
    · rename_i own
      rintro ⟨r, member, rfl, target⟩
      exact ⟨r, .inl ⟨member, own⟩, rfl, target⟩
    · rename_i foreign
      rintro ⟨r, member, rfl, target⟩
      exact ⟨r, .inr ⟨member, Bool.eq_false_iff.mpr foreign⟩, rfl, target⟩

private theorem respects_dbViews : dbReading.Respects dbViews := by
  refine ⟨fun owned mine base x => ?_, fun owned mine base x y => ?_,
    fun base s => same_of_tables rfl rfl⟩
  · refine forall₂_congr fun o same => ?_
    subst same
    rw [show (dbViews.overlay owned mine base).visible o = _ from visible_overlay owned mine base o]
  · constructor
    · rintro ⟨t, id, o, rfl, rfl, type, link⟩
      exact ⟨t, id, o, rfl, rfl, type, (refers_overlay owned mine base t id o).mp link⟩
    · rintro ⟨t, id, o, rfl, rfl, type, link⟩
      exact ⟨t, id, o, rfl, rfl, type, (refers_overlay owned mine base t id o).mpr link⟩

end Views

theorem noDangling_committed (run : DbRun txs) (intact : NoDangling (run.state 0).base) (n : Nat) :
    NoDangling (run.state n).base := by
  have sound := sound_of_careful respects_dbViews (fun i => responder_careful (txs i)) run
    ((intact_iff _).mpr intact) n
  exact (intact_iff _).mp sound.intact

/-- The transaction has hidden a node or way, and not committed yet. -/
def Hides (base : Db) (t : DbTxn) (o : Obj) : Prop :=
  base.visible o = true ∧ (t.view dbViews base).visible o = false

/-- The transaction has added a reference, and not committed yet. -/
def Adds (base : Db) (t : DbTxn) (o : Obj) : Prop :=
  ∃ ty id, Refers (t.view dbViews base) ty id o ∧ ¬ Refers base ty id o

/-- Whatever requests run side by side, what has been committed has no dangling reference,
and no transaction deletes a node or way that another one begins to refer to. -/
theorem noDangling_of_run (run : DbRun txs) (intact : NoDangling (run.state 0).base) (n : Nat) :
    NoDangling (run.state n).base ∧
      ∀ i j t t' o, i ≠ j → (run.state n).status i = .running t →
        (run.state n).status j = .running t' → o.1 ≠ .relation → Hides (run.state n).base t o →
          ¬ Adds (run.state n).base t' o := by
  have sound := sound_of_careful respects_dbViews (fun i => responder_careful (txs i)) run
    ((intact_iff _).mpr intact) n
  refine ⟨(intact_iff _).mp sound.intact, ?_⟩
  rintro i j t t' o ne first second type ⟨shown, hidden⟩ ⟨ty, id, added, new⟩
  have same := sound.shows_of_added respects_dbViews (run.exclusion n) ne first second
    (o := .object (ty, id)) (x := .object o) ⟨ty, id, o, rfl, rfl, type, added⟩ ?_
  · have visible : (t.view dbViews (run.state n).base).visible o = true := by
      refine same.mpr (fun o' here _ => ?_) o rfl type
      cases here
      exact shown
    rw [visible] at hidden
    cases hidden
  · rintro ⟨ty', id', o', owner, target, -, refers⟩
    cases owner
    cases target
    exact new refers

end Runs

section Samples

def sampleUsed : Db :=
  (serially [sampleTx 0 (.create (.ok ⟨[], List.nodup_nil⟩)), sampleTx 0 (.create (.ok ⟨[], List.nodup_nil⟩)),
    sampleTx 1 (.upload .applicationXml 7 (samplePayload [sampleNode .create (-1) 0 false]))]
      sampleUsers).2

/-- One upload makes a way of the node, the other one deletes the node unless it is used. -/
def sampleUploads : Bool → Transaction
  | false => sampleTx 2 (.upload .applicationXml 7 (samplePayload [sampleWay .create (-1) 0 false [1]]))
  | true => sampleTx 2 (.upload .applicationXml 8 (samplePayload
      [⟨.delete, .node, ⟨8, 1, 1, [], (⟨1, 2⟩ : Position), List.nodup_nil⟩, true⟩]))

theorem mem_sampleParties : ∀ i, i ∈ [false, true] := by decide

def sampleOverlap : DbRun sampleUploads :=
  Run.ofSchedule [false, true] mem_sampleParties
    (List.replicate 5 false ++ List.replicate 5 true ++ List.replicate 20 false ++
      List.replicate 20 true)
    ⟨sampleUsed, fun _ => .idle⟩ fun _ => rfl

/-- Both commit, and the way keeps its node. -/
theorem noDangling_sampleOverlap :
    isCommitted (sampleOverlap.state 39) false = true ∧
      isCommitted (sampleOverlap.state 39) true = true ∧
      Refers (sampleOverlap.state 39).base .way 1 (.node, 1) ∧
      NoDangling (sampleOverlap.state 39).base := by
  refine ⟨by decide +kernel, by decide +kernel, ?_, (noDangling_of_run sampleOverlap ?_ 39).1⟩
  · have row : ((sampleOverlap.state 39).base.currentRefs .way).rows.any (fun r =>
        decide (r.owner = 1 ∧ r.ref.target = (.node, 1))) = true := by decide +kernel
    obtain ⟨r, member, hit⟩ := List.any_eq_true.mp row
    exact ⟨r, member, of_decide_eq_true hit⟩
  · rintro t id o ⟨r, member, -⟩
    have none : (sampleUsed.currentRefs t).rows.isEmpty = true := by
      cases t <;> decide +kernel
    rw [List.isEmpty_iff] at none
    rw [Table.mem_def, show (sampleOverlap.state 0).base = sampleUsed from rfl, none] at member
    cases member

end Samples

end Cgimap.Changeset.ConcurrentUploads
