/- path: Cgimap/Osmchange/ReadOnlyChecks
   generality: I
   source: none
   digest: The checks and boxes of the updaters only read, statement by statement. -/

import Cgimap.Osmchange.UpdaterProcess

set_option autoImplicit false
set_option relaxedAutoImplicit false

namespace Cgimap.Osmchange.ReadOnlyChecks

open Cgimap.Library.StatementProgram
open Cgimap.Library.StatementProgram.Prog
open Cgimap.Model.Types
open Cgimap.Model.Database
open Cgimap.Osmchange.DiffTracking
open Cgimap.Osmchange.UploadRecords
open Cgimap.Osmchange.SqlStatements
open Cgimap.Osmchange.UpdaterChecks
open Cgimap.Osmchange.UpdaterProcess

variable {t : ObjectType} {env : Env}

section Checks

theorem readOnly_checkCurrentVersions (es : List (Elem t)) :
    (checkCurrentVersions t es).ReadOnly fun _ => True := by
  unfold checkCurrentVersions
  split
  · exact readOnly_pure trivial
  · refine readOnly_bind (readOnly_query _) fun row _ => ?_
    rcases row with - | ⟨id, expected, actual⟩
    · exact readOnly_pure trivial
    · refine readOnly_bind (readOnly_liftExcept (P := fun _ => True) fun _ _ => trivial)
        fun expected _ => ?_
      exact readOnly_bind (readOnly_liftExcept (P := fun _ => True) fun _ _ => trivial)
        fun actual _ => readOnly_throw _

theorem readOnly_determineAlreadyDeleted (es : List (Elem t)) :
    (determineAlreadyDeleted t es).ReadOnly fun _ => True := by
  unfold determineAlreadyDeleted
  split
  · exact readOnly_pure trivial
  · refine readOnly_bind (readOnly_query _) fun rows _ => ?_
    exact readOnly_bind (readOnly_liftExcept (P := fun _ => True) fun _ _ => trivial)
      fun skipped _ => readOnly_pure trivial

private theorem readOnly_lockFutureOf (ty : ObjectType) (ids : List Nat) (es : List (Elem t)) :
    (lockFutureOf ty ids es).ReadOnly fun _ => True := by
  unfold lockFutureOf
  split
  · exact readOnly_pure trivial
  · refine readOnly_bind (readOnly_perform fun db r db' done => ?_) fun missing _ => ?_
    · exact (Prod.mk.inj (Except.ok.inj done)).2.symm
    · split
      · exact readOnly_pure trivial
      · exact readOnly_throw _

theorem readOnly_lockFuture (es : List (Elem t)) (alreadyLocked : List Nat) :
    (lockFuture t es alreadyLocked).ReadOnly fun _ => True := by
  cases t with
  | node => exact readOnly_pure trivial
  | way => exact readOnly_lockFutureOf _ _ _
  | relation =>
      refine readOnly_bind (readOnly_lockFutureOf _ _ _) fun _ _ => ?_
      exact readOnly_bind (readOnly_lockFutureOf _ _ _) fun _ _ => readOnly_lockFutureOf _ _ _

private theorem readOnly_collectChildren (fuel : Nat) (frontier found : List Nat) :
    (collectChildren fuel frontier found).ReadOnly fun _ => True := by
  induction fuel generalizing frontier found with
  | zero => exact readOnly_throw _
  | succ fuel ih =>
      rw [collectChildren]
      refine readOnly_bind (readOnly_query _) fun children _ => ?_
      dsimp only
      split
      · exact readOnly_pure trivial
      · exact ih _ _

theorem readOnly_extendDeletionBlock (fuel : Nat) (direct ifUnused : List Nat) :
    (extendDeletionBlockToRelationChildren fuel direct ifUnused).ReadOnly fun _ => True := by
  unfold extendDeletionBlockToRelationChildren
  split
  · exact readOnly_pure trivial
  · refine readOnly_bind (P := fun _ => True) ?_ fun children _ => readOnly_pure trivial
    unfold collectRecursiveRelationRelMemberIds
    split
    · exact readOnly_pure trivial
    · exact readOnly_collectChildren fuel direct []

/-- Some objects are left out, with all of their elements. -/
def LeavesOut (es kept : List (Elem t)) : Prop :=
  ∃ excluded : List Nat, kept = es.filter (fun e => decide (e.id ∉ excluded))

private theorem leavesOut_nothing (es : List (Elem t)) : LeavesOut es es :=
  ⟨[], (List.filter_eq_self.mpr fun _ _ => rfl).symm⟩

private theorem readOnly_removeBlocked (es : List (Elem t)) (excluded : List Nat) :
    (removeBlocked t es excluded).ReadOnly fun kept => LeavesOut es kept.1 := by
  unfold removeBlocked
  split
  · exact readOnly_pure (leavesOut_nothing es)
  · refine readOnly_bind (readOnly_query _) fun rows _ => ?_
    split
    · exact readOnly_throw _
    · refine readOnly_bind (readOnly_liftExcept (P := fun _ => True) fun _ _ => trivial)
        fun skipped _ => ?_
      exact readOnly_pure ⟨excluded, rfl⟩

theorem readOnly_isStillReferenced (fuel : Nat) (es : List (Elem t)) :
    (isStillReferenced fuel t es).ReadOnly fun kept => LeavesOut es kept.1 := by
  have excluded : ∀ (x : Except Exception (List Nat)),
      (Prog.liftExcept x : DbProg (List Nat)).ReadOnly fun _ => True :=
    fun x => readOnly_liftExcept fun _ _ => trivial
  cases t with
  | node =>
      change (isNodeStillReferenced es).ReadOnly _
      unfold isNodeStillReferenced
      split
      · exact readOnly_pure (leavesOut_nothing es)
      · refine readOnly_bind (readOnly_query _) fun byWay _ => ?_
        refine readOnly_bind (excluded _) fun usedByWays _ => ?_
        refine readOnly_bind (readOnly_query _) fun byRelation _ => ?_
        exact readOnly_bind (excluded _) fun usedByRelations _ => readOnly_removeBlocked _ _
  | way =>
      change (isWayStillReferenced es).ReadOnly _
      unfold isWayStillReferenced
      split
      · exact readOnly_pure (leavesOut_nothing es)
      · refine readOnly_bind (readOnly_query _) fun rows _ => ?_
        exact readOnly_bind (excluded _) fun used _ => readOnly_removeBlocked _ _
  | relation =>
      change (isRelationStillReferenced fuel es).ReadOnly _
      unfold isRelationStillReferenced
      split
      · exact readOnly_pure (leavesOut_nothing es)
      · refine readOnly_bind (readOnly_query _) fun rows _ => ?_
        refine readOnly_bind (excluded _) fun used _ => ?_
        refine readOnly_bind (readOnly_extendDeletionBlock _ _ _) fun children _ => ?_
        exact readOnly_removeBlocked _ _

end Checks

section Boxes

private theorem readOnly_calcNodeBbox (ids : List Nat) :
    (calcNodeBbox env ids).ReadOnly fun _ => True := by
  unfold calcNodeBbox
  split
  · exact readOnly_pure trivial
  · exact readOnly_bind (readOnly_query _) fun row _ => readOnly_pure trivial

private theorem readOnly_calcWayBbox (ids : List Nat) : (calcWayBbox env ids).ReadOnly fun _ => True := by
  unfold calcWayBbox
  split
  · exact readOnly_pure trivial
  · exact readOnly_bind (readOnly_query _) fun row _ => readOnly_pure trivial

private theorem readOnly_calcRelationBbox (ids : List Nat) :
    (calcRelationBbox env ids).ReadOnly fun _ => True := by
  unfold calcRelationBbox
  split
  · exact readOnly_pure trivial
  · refine readOnly_bind (readOnly_query _) fun nodes _ => ?_
    exact readOnly_bind (readOnly_query _) fun ways _ => readOnly_pure trivial

theorem readOnly_calcBbox (t : ObjectType) (ids : List Nat) :
    (calcBbox env t ids).ReadOnly fun _ => True := by
  cases t with
  | node => exact readOnly_calcNodeBbox ids
  | way => exact readOnly_calcWayBbox ids
  | relation => exact readOnly_calcRelationBbox ids

private theorem readOnly_calcRelMemberDifferenceBbox (diff : List RelMemberDifference) (processNew : Bool) :
    (calcRelMemberDifferenceBbox env diff processNew).ReadOnly fun _ => True := by
  unfold calcRelMemberDifferenceBbox
  refine readOnly_bind (readOnly_calcNodeBbox _) fun nodes _ => ?_
  exact readOnly_bind (readOnly_calcWayBbox _) fun ways _ => readOnly_pure trivial

theorem readOnly_bboxBefore (ids : List Nat) (es : List (Elem t)) :
    (bboxBefore env ids t es).ReadOnly fun _ => True := by
  cases t with
  | node => exact readOnly_bind (readOnly_calcNodeBbox _) fun box _ => readOnly_pure trivial
  | way => exact readOnly_bind (readOnly_calcWayBbox _) fun box _ => readOnly_pure trivial
  | relation =>
      refine readOnly_bind (P := fun _ => True) ?_ fun newMembers _ =>
        readOnly_bind (P := fun _ => True) ?_ fun changedTags _ => ?_
      · unfold relationsWithNewRelationMembers
        split
        · exact readOnly_pure trivial
        · exact readOnly_query _
      · unfold relationsWithChangedRelationTags
        split
        · exact readOnly_pure trivial
        · exact readOnly_query _
      · refine readOnly_bind (readOnly_calcRelationBbox _) fun box _ =>
          readOnly_bind (P := fun _ => True) ?_ fun difference _ => ?_
        · unfold relationsWithChangedWayNodeMembers
          split
          · exact readOnly_pure trivial
          · refine readOnly_bind (readOnly_query _) fun added _ => ?_
            exact readOnly_bind (readOnly_query _) fun removed _ => readOnly_pure trivial
        · exact readOnly_bind (readOnly_calcRelMemberDifferenceBbox _ _)
            fun removed _ => readOnly_pure trivial

theorem readOnly_bboxAfter (t : ObjectType) (upd : BboxUpdate) :
    (bboxAfter env t upd).ReadOnly fun _ => True := by
  unfold bboxAfter
  refine readOnly_bind (readOnly_calcBbox t _) fun box _ => ?_
  cases t with
  | node => exact readOnly_pure trivial
  | way => exact readOnly_pure trivial
  | relation =>
      exact readOnly_bind (readOnly_calcRelMemberDifferenceBbox _ _)
        fun added _ => readOnly_pure trivial

end Boxes

end Cgimap.Osmchange.ReadOnlyChecks
