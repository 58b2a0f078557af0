/- path: Cgimap/Osmchange/EditBoxes
   generality: I
   source: src/backend/apidb/changeset_upload/{node,way}_updater.cpp, include/cgimap/util.hpp
   digest: The boxes of nodes and ways are the hull of all positions that edits have had. -/

import Cgimap.Osmchange.BatchEquivalence
import Cgimap.Osmchange.ElementTrace

/-!
A box is read before some writes and after others, for the ids of a package or of the whole
batch. What it amounts to is said here in terms of the elements: every object that is named in
a batch goes through some states, and all its positions in these states count. The nodes of a
way are where they are when the batch is done, since a batch writes them before the ways.
-/

set_option autoImplicit false
set_option relaxedAutoImplicit false

namespace Cgimap.Osmchange.EditBoxes

open Cgimap.Library.EventLog
open Cgimap.Library.KeyedTable
open Cgimap.Library.StatementProgram
open Cgimap.Library.StatementProgram.Prog
open Cgimap.Model.Types
open Cgimap.Model.Database
open Cgimap.Osmchange.DiffTracking
open Cgimap.Osmchange.UploadRecords
open Cgimap.Osmchange.SqlStatements
open Cgimap.Osmchange.UpdaterChecks
open Cgimap.Osmchange.UpdaterProcess
open Cgimap.Osmchange.Handler
open Cgimap.Osmchange.ObjectState
open Cgimap.Osmchange.WriteEffects
open Cgimap.Osmchange.CheckEffects
open Cgimap.Osmchange.Placeholders
open Cgimap.Osmchange.CreateEffects
open Cgimap.Osmchange.ModifyEffects
open Cgimap.Osmchange.DeletionEffects
open Cgimap.Osmchange.DeleteEffects
open Cgimap.Osmchange.BoxReach
open Cgimap.Osmchange.ModifySchedules
open Cgimap.Osmchange.BatchEquivalence
open Cgimap.Osmchange.DocumentRuns
open Cgimap.Osmchange.ElementTrace

section Spec

/-- The positions of an object in some state, with the nodes where they are. -/
def StateShows (nodes : Nat → Option NodeCoord) : {t : ObjectType} → ObjState t → NodeCoord → Prop
  | .node, s, p => s.row.map CurrentRow.coord = some p
  | .way, s, p => s.row.isSome ∧ ∃ r ∈ s.refs, nodes r.2.target.2 = some p
  | .relation, _, _ => False

def placeOf (S : States) (n : Nat) : Option NodeCoord := (S .node n).row.map CurrentRow.coord

variable (env : Env) (b : Batch)

def Named (o : Obj) : Prop := ∃ el ∈ b.els, objectOf env b el = o

/-- The states that the batch takes an object through: the one that it finds, and the one
after each element for the object. -/
def Passes (o : Obj) (s : ObjState o.1) : Prop :=
  ∃ l, l <+: eventsOf (traceOf env b) o ∧
    s = (machine env.now).replayAt (snapshot b.before o) l

/-- The positions of the objects of one type that the batch names, before and after each of
their elements. -/
def BatchShows (t : ObjectType) (p : NodeCoord) : Prop :=
  ∃ id, Named env b (t, id) ∧ ∃ s, Passes env b (t, id) s ∧ StateShows (nodeCoord? b.after) s p

/-- The same for all batches of an upload. -/
def EditShows (batches : List Batch) (t : ObjectType) (p : NodeCoord) : Prop :=
  ∃ b ∈ batches, BatchShows env b t p

end Spec

/-- Up to the undefined box, the second box reaches as far as the first one and the
positions. -/
def Grows (env : Env) (b b' : Bbox) (P : NodeCoord → Prop) : Prop :=
  ∀ s x, (x ≤ reach b' s ∨ x ≤ reach (Bbox.undefined env.cfg) s) ↔
    (x ≤ reach b s ∨ x ≤ reach (Bbox.undefined env.cfg) s) ∨ ∃ p, P p ∧ x ≤ reachOf p s

namespace Grows

variable {env : Env} {b c d : Bbox} {P Q : NodeCoord → Prop}

theorem refl (env : Env) (b : Bbox) (none : ∀ p, ¬P p) : Grows env b b P := by
  intro s x
  refine (or_iff_left ?_).symm
  rintro ⟨p, shown, -⟩
  exact none p shown

theorem congr (grows : Grows env b c P) (same : ∀ p, P p ↔ Q p) : Grows env b c Q := by
  intro s x
  rw [grows s x]
  simp only [same]

theorem trans (first : Grows env b c P) (next : Grows env c d Q) :
    Grows env b d (fun p => P p ∨ Q p) := by
  intro s x
  rw [next s x, first s x, or_assoc]
  simp only [or_and_right, exists_or]

theorem of_spans (spans : Spans env c P) : Grows env b (b.expand c) P := by
  intro s x
  rw [le_reach_expand, or_assoc, spans s x, or_assoc]

theorem spans (grows : Grows env (Bbox.undefined env.cfg) b P) : Spans env b P := by
  intro s x
  rw [grows s x, or_self]

end Grows

section Updaters

variable {env : Env} {t : ObjectType} {st st' : Upload} {db db' : Db} {es : List (Elem t)}
  {ids : List Nat} {box : Bbox}

private theorem calcBbox_spans (other : t ≠ .relation)
    (run : (calcBbox env t ids).run db = .ok (box, db')) :
    Spans env box (fun p => ∃ id ∈ ids, p ∈ pointsOf db (t, id)) := by
  cases t with
  | node => exact calcNodeBbox_spans run
  | way => exact calcWayBbox_spans run
  | relation => exact absurd rfl other

private theorem exists_uniqueIds {P : Nat → Prop} : (∃ id ∈ uniqueIds es, P id) ↔ ∃ e ∈ es, P e.id := by
  simp only [mem_uniqueIds, List.mem_map, exists_exists_and_eq_and]

private theorem processNew_grows (other : t ≠ .relation)
    (run : (processNew env t st).run db = .ok (st', db'))
    (replaced : replaceOldIds st'.ct (st.updater t).createBuf = .ok es) :
    Grows env (st.updater t).bbox (st'.updater t).bbox
      (fun p => ∃ e ∈ es, p ∈ pointsOf db' (t, e.id)) := by
  simp only [processNew, run_bind_eq_ok] at run
  obtain ⟨_, _, -, _, _, -, created, db₁, -, es', db₂, first, _, db₃, -, withTags, db₄, -, _, db₅, -,
    _, db₆, -, _, db₇, -, _, db₈, -, box, db₉, read, done⟩ := run
  obtain ⟨same, -⟩ := run_liftExcept_eq_ok.mp first
  obtain rfl := (calcBbox_reads env t _).run_eq_ok read
  cases done
  have one : es' = es := Except.ok.inj (same.symm.trans replaced)
  subst one
  rw [Upload.setUpdater_updater]
  exact (Grows.of_spans (calcBbox_spans other read)).congr fun p => exists_uniqueIds

/-- The box of deleted objects is read before anything is written, and counts the elements
that are skipped. -/
private theorem processDelete_grows (other : t ≠ .relation)
    (run : (processDelete env t st).run db = .ok (st', db'))
    (replaced : replaceOldIds st.ct (st.updater t).deleteBuf = .ok es) :
    Grows env (st.updater t).bbox (st'.updater t).bbox
      (fun p => ∃ e ∈ es, p ∈ pointsOf db (t, e.id)) := by
  simp only [processDelete, run_bind_eq_ok] at run
  obtain ⟨es', db₁, first, _, db₂, lock, ⟨alreadyDeleted, gone⟩, db₃, determine, _, db₄, check,
    ⟨executed, used⟩, db₅, referenced, box, db₆, read, deleted, db₇, -, _, db₈, -, _, db₉, -, _, db₁₀,
    -, done⟩ := run
  obtain ⟨same, rfl⟩ := run_liftExcept_eq_ok.mp first
  have one : es' = es := Except.ok.inj (same.symm.trans replaced)
  subst one
  obtain ⟨rfl, -⟩ := lockCurrent_ok lock
  rcases determineAlreadyDeleted_cases _ es' with ⟨-, run⟩ | ⟨-, error, run, -⟩
  · rw [run] at determine
    cases determine
    obtain ⟨rfl, -⟩ := checkCurrentVersions_ok check
    obtain ⟨rfl, -⟩ := isStillReferenced_ok referenced
    obtain rfl := (calcBbox_reads env t _).run_eq_ok read
    cases done
    rw [Upload.setUpdater_updater]
    exact (Grows.of_spans (calcBbox_spans other read)).congr fun p => exists_uniqueIds
  · rw [run] at determine
    cases determine

/-- The packages executed so far, as part of the box. -/
private structure Swept (env : Env) (t : ObjectType) (ids : List Nat) (db₀ : Db) (start : Bbox)
    (done : List (List (Elem t))) (acc : Tracking × Bbox) (db : Db) : Prop where
  states : object db = after env.now (object db₀) (done.map (fun p => ⟨t, ids, p⟩))
  grows : Grows env start acc.2
    (TraceShows env.now (object db₀) (done.map (fun p => ⟨t, ids, p⟩)))

private theorem Swept.step {db₀ : Db} {start : Bbox} {done : List (List (Elem t))}
    {p : List (Elem t)} {acc acc' : Tracking × Bbox} (swept : Swept env t ids db₀ start done acc db)
    (run : (modifyPackage env t ids acc p).run db = .ok (acc', db')) :
    Swept env t ids db₀ start (done ++ [p]) acc' db' := by
  have effect := (modifyPackage_ok run).1
  have package : Grows env acc.2 acc'.2 (StepShows env.now (object db) ⟨t, ids, p⟩) :=
    fun s x => modifyPackage_grows run s x
  constructor
  · rw [object_after effect, swept.states, List.map_append, after_append]
    rfl
  · rw [swept.states] at package
    refine (swept.grows.trans package).congr fun q => ?_
    rw [List.map_append]
    exact traceShows_snoc.symm

private theorem processModify_grows (run : (processModify env t st).run db = .ok (st', db'))
    (replaced : replaceOldIds st.ct (st.updater t).modifyBuf = .ok es) :
    Grows env (st.updater t).bbox (st'.updater t).bbox
      (TraceShows env.now (object db) (packagesOf es)) := by
  simp only [processModify, run_bind_eq_ok] at run
  obtain ⟨es', db₀, first, _, db₁, lock, ⟨ct, box⟩, db₂, packages, done⟩ := run
  obtain ⟨same, rfl⟩ := run_liftExcept_eq_ok.mp first
  have one : es' = es := Except.ok.inj (same.symm.trans replaced)
  subst one
  obtain ⟨rfl, -⟩ := lockCurrent_ok lock
  cases done
  have start : Swept env t (uniqueIds es') db₁ (st.updater t).bbox [] (st.ct, (st.updater t).bbox)
      db₁ := by
    refine ⟨rfl, Grows.refl env _ fun p => ?_⟩
    rintro ⟨pre, q, post, split, -⟩
    cases pre <;> cases split
  have all := run_foldlM_invariant (Swept env t (uniqueIds es') db₁ (st.updater t).bbox)
    (buildPackages es') (fun done p _ acc db acc' db' swept run => swept.step run) start packages
  rw [List.nil_append] at all
  rw [Upload.setUpdater_updater]
  exact all.grows

end Updaters

section Traces

variable {env : Env} {b : Batch} {t : ObjectType} {es : List (Elem t)} {op : Operation} {id : Nat}
  {p : NodeCoord}

theorem stateShows_object {db : Db} :
    StateShows (nodeCoord? db) (object db t id) p ↔ p ∈ pointsOf db (t, id) := by
  rw [mem_pointsOf_iff]
  cases t with
  | node => exact Iff.rfl
  | way => exact Iff.rfl
  | relation => exact Iff.rfl

private theorem known_of_shows {nodes : Nat → Option NodeCoord} {s : ObjState t}
    (shown : StateShows nodes s p) : s.row.isSome := by
  cases t with
  | node =>
      obtain ⟨r, found, -⟩ := Option.map_eq_some_iff.mp shown
      rw [found]
      rfl
  | way => exact shown.1
  | relation => exact shown.elim

private theorem events_eq (ops : ∀ el ∈ b.els, el.op = op)
    (replaced : replaceOldIds b.flushed.ct (elemsIn env t b.els) = .ok es) (id : Nat) :
    eventsOf (traceOf env b) (t, id) =
      (elemsOf es id).map (fun e => ⟨op, e, decide (op = .delete) && keeps b (t, id)⟩) := by
  rw [replaceOldIds_eq_map replaced]
  exact eventsOf_traceOf env t ops id

theorem named_iff_events {o : Obj} : Named env b o ↔ eventsOf (traceOf env b) o ≠ [] := by
  constructor
  · rintro ⟨el, member, rfl⟩ none
    have inside : eventOf env b el ∈ eventsOf (traceOf env b) (objectOf env b el) :=
      mem_eventsOf.mpr (List.mem_map_of_mem member)
    rw [none] at inside
    cases inside
  · intro some
    obtain ⟨ev, member⟩ := List.exists_mem_of_ne_nil _ some
    obtain ⟨el, inside, same⟩ := List.mem_map.mp (mem_eventsOf.mp member)
    exact ⟨el, inside, congrArg Sigma.fst same⟩

private theorem named_iff (ops : ∀ el ∈ b.els, el.op = op)
    (replaced : replaceOldIds b.flushed.ct (elemsIn env t b.els) = .ok es) :
    Named env b (t, id) ↔ ∃ e ∈ es, e.id = id := by
  rw [named_iff_events, events_eq ops replaced, ne_eq, List.map_eq_nil_iff]
  exact elemsOf_ne_nil

private theorem batchShows_other (types : ∀ el ∈ b.els, el.objType ≠ t) : ¬BatchShows env b t p := by
  rintro ⟨id, ⟨el, member, same⟩, -⟩
  exact types el member (congrArg Prod.fst same)

private theorem create_shows (batch : CreateBatch env b t es) :
    BatchShows env b t p ↔ ∃ e ∈ es, p ∈ pointsOf b.after (t, e.id) := by
  have ops : ∀ el ∈ b.els, el.op = .create := fun el member => (batch.ops el member).1
  have events : ∀ e ∈ es, eventsOf (traceOf env b) (t, e.id) = [⟨.create, e, false⟩] := by
    intro e member
    rw [events_eq ops batch.replaced, elemsOf_eq_singleton batch.effect.distinct member]
    rfl
  have written : ∀ e ∈ es, (machine env.now).replayAt (snapshot b.before (t, e.id))
      (eventsOf (traceOf env b) (t, e.id)) = object b.after t e.id := by
    intro e _
    have whole := congrFun (batch_refines (.create t es batch)).2 (t, e.id)
    rwa [replay_at] at whole
  constructor
  · rintro ⟨id, named, s, ⟨l, short, rfl⟩, shown⟩
    obtain ⟨e, member, rfl⟩ := (named_iff ops batch.replaced).mp named
    refine ⟨e, member, stateShows_object.mp ?_⟩
    have all := written e member
    rw [events e member] at short all
    rcases List.prefix_cons_iff.mp short with rfl | ⟨rest, rfl, tail⟩
    · -- the object does not exist yet
      have fresh : (snapshot b.before (t, e.id)).row = none := batch.effect.fresh e member
      have known := known_of_shows shown
      rw [replayAt_nil, fresh] at known
      cases known
    · rw [List.prefix_nil] at tail
      subst tail
      rwa [all] at shown
  · rintro ⟨e, member, found⟩
    refine ⟨e.id, (named_iff ops batch.replaced).mpr ⟨e, member, rfl⟩, _,
      ⟨_, List.prefix_rfl, rfl⟩, ?_⟩
    rw [written e member]
    exact stateShows_object.mpr found

private theorem shows_act {nodes : Nat → Option NodeCoord} {s : ObjState t} {ev : Event t}
    (deletes : ev.op = .delete) (shown : StateShows nodes (ev.act env.now id s) p) :
    StateShows nodes s p := by
  unfold Event.act at shown
  rw [deletes] at shown
  split at shown
  · exact shown
  · cases t with
    | node =>
        obtain ⟨r, found, position⟩ := Option.map_eq_some_iff.mp shown
        obtain ⟨r', row, rfl⟩ := Option.map_eq_some_iff.mp found
        exact Option.map_eq_some_iff.mpr ⟨r', row, position⟩
    | way =>
        obtain ⟨-, r, member, -⟩ := shown
        cases member
    | relation => exact shown

private theorem shows_replay {nodes : Nat → Option NodeCoord} {l : List (Event t)}
    (deletes : ∀ ev ∈ l, ev.op = .delete) {s : ObjState t}
    (shown : StateShows nodes ((machine env.now).replayAt (k := (t, id)) s l) p) :
    StateShows nodes s p := by
  induction l generalizing s with
  | nil => exact shown
  | cons ev l ih =>
      rw [replayAt_cons] at shown
      have last := ih (fun ev' member => deletes ev' (List.mem_cons_of_mem ev member)) shown
      exact shows_act (deletes ev List.mem_cons_self) last

/-- Objects that are deleted, or not deleted after all, have the positions that are found. -/
private theorem delete_shows {executed : List (Elem t)} {used : List ObjectIdMapping}
    {deleted : List Int} (batch : DeleteBatch env b t es executed used deleted) :
    BatchShows env b t p ↔ ∃ e ∈ es, p ∈ pointsOf b.before (t, e.id) := by
  have ops : ∀ el ∈ b.els, el.op = .delete := fun el member => (batch.ops el member).1
  have same : b.flushed.ct.created = b.pushed.ct.created := by
    rw [batch.tracking]
    rfl
  have replaced := (replaceOldIds_congr same).trans batch.replaced
  have still : ∀ id, StateShows (nodeCoord? b.after) (object b.before t id) p ↔
      p ∈ pointsOf b.before (t, id) := by
    intro id
    rw [← stateShows_object]
    cases t with
    | node => exact Iff.rfl
    | way =>
        have nodes : nodeCoord? b.after = nodeCoord? b.before := by
          funext n
          have row : (b.after.current .node).find? n = (b.before.current .node).find? n :=
            congrArg ObjState.row (batch.effect.acts.other .node (by decide) n)
          rw [nodeCoord?, nodeCoord?, row]
        rw [nodes]
    | relation => exact Iff.rfl
  constructor
  · rintro ⟨id, named, s, ⟨l, short, rfl⟩, shown⟩
    obtain ⟨e, member, rfl⟩ := (named_iff ops replaced).mp named
    refine ⟨e, member, (still e.id).mp (shows_replay (fun ev inside => ?_) shown)⟩
    have listed := short.subset inside
    rw [events_eq ops replaced] at listed
    obtain ⟨e', -, rfl⟩ := List.mem_map.mp listed
    rfl
  · rintro ⟨e, member, found⟩
    exact ⟨e.id, (named_iff ops replaced).mpr ⟨e, member, rfl⟩, _, ⟨[], List.nil_prefix, rfl⟩,
      (still e.id).mpr found⟩

variable (env id) in
private theorem replayAt_modify (es : List (Elem t)) (s : ObjState t) :
    (machine env.now).replayAt (k := (t, id)) s (es.map (fun e => ⟨.modify, e, false⟩)) =
      ObjState.modifyAll env.now es s := by
  induction es generalizing s with
  | nil => rfl
  | cons e es ih => exact ih _

private theorem modify_shows (ops : ∀ el ∈ b.els, el.op = .modify)
    (replaced : replaceOldIds b.flushed.ct (elemsIn env t b.els) = .ok es) :
    BatchShows env b t p ↔ ∃ e ∈ es, ∃ l, l <+: elemsOf es e.id ∧
      StateShows (nodeCoord? b.after) (ObjState.modifyAll env.now l (object b.before t e.id)) p := by
  constructor
  · rintro ⟨id, named, s, ⟨l, short, rfl⟩, shown⟩
    obtain ⟨e, member, rfl⟩ := (named_iff ops replaced).mp named
    rw [events_eq ops replaced] at short
    obtain ⟨l', short', rfl⟩ := List.prefix_map_iff.mp short
    refine ⟨e, member, l', short', ?_⟩
    have states := replayAt_modify env e.id l' (object b.before t e.id)
    rw [← states]
    exact shown
  · rintro ⟨e, member, l, short, shown⟩
    refine ⟨e.id, (named_iff ops replaced).mpr ⟨e, member, rfl⟩, _,
      ⟨l.map (fun e => ⟨.modify, e, false⟩), ?_, rfl⟩, ?_⟩
    · rw [events_eq ops replaced]
      exact short.map _
    · rwa [show _ = _ from replayAt_modify env e.id l _]

private theorem elemsFor_own (es : List (Elem t)) (id : Nat) :
    elemsFor (packagesOf es) t id = elemsOf es id :=
  (elemsFor_packagesOf es t id).trans (dif_pos rfl)

private theorem elemsFor_other (es : List (Elem t)) {t' : ObjectType} (ne : t ≠ t') (id : Nat) :
    elemsFor (packagesOf es) t' id = [] :=
  (elemsFor_packagesOf es t' id).trans (dif_neg ne)

private theorem touched_packagesOf :
    Touched (elemsFor (packagesOf es)) (t, id) ↔ ∃ e ∈ es, e.id = id := by
  rw [Touched, elemsFor_own]
  exact elemsOf_ne_nil

private theorem distinct_packagesOf : ∀ q ∈ packagesOf es, q.Distinct := by
  intro q member
  obtain ⟨package, inside, rfl⟩ := mem_packagesOf.mp member
  exact buildPackages_distinct inside

private theorem locksOwn_packagesOf : ∀ q ∈ packagesOf es, LocksOwn (packagesOf es) q := by
  intro q member
  obtain ⟨package, inside, rfl⟩ := mem_packagesOf.mp member
  refine ⟨fun e here => ?_, fun id named => ?_⟩
  · exact mem_uniqueIds.mpr (List.mem_map_of_mem (mem_buildPackages.mp ⟨package, inside, here⟩))
  · obtain ⟨e, listed, same⟩ := List.mem_map.mp (mem_uniqueIds.mp named)
    exact touched_packagesOf.mpr ⟨e, listed, same⟩

private theorem visits_node {now : Int} {S : States} (other : t ≠ .node) (n : Nat)
    (s : ObjState .node) :
    Visits now S (elemsFor (packagesOf es)) .node n s ↔ s = S .node n := by
  rw [Visits, elemsFor_other es other]
  constructor
  · rintro ⟨l, short, rfl⟩
    rw [List.prefix_nil.mp short]
    rfl
  · rintro rfl
    exact ⟨[], List.nil_prefix, rfl⟩

private theorem sometimes_packagesOf {now : Int} {S : States} (other : t ≠ .relation) :
    Sometimes now S (elemsFor (packagesOf es)) (t, id) p ↔
      ∃ l, l <+: elemsOf es id ∧
        StateShows (placeOf S) (ObjState.modifyAll now l (S t id)) p := by
  have visits : ∀ s, Visits now S (elemsFor (packagesOf es)) t id s ↔
      ∃ l, l <+: elemsOf es id ∧ s = ObjState.modifyAll now l (S t id) := by
    intro s
    rw [Visits, elemsFor_own]
  cases t with
  | node =>
      constructor
      · rintro ⟨s, visit, position⟩
        obtain ⟨l, short, rfl⟩ := (visits s).mp visit
        exact ⟨l, short, position⟩
      · rintro ⟨l, short, position⟩
        exact ⟨_, (visits _).mpr ⟨l, short, rfl⟩, position⟩
  | way =>
      have fixed : ∀ n s, Visits now S (elemsFor (packagesOf es)) .node n s ↔ s = S .node n :=
        visits_node (by decide)
      constructor
      · rintro ⟨s, visit, known, r, inside, s', visit', position⟩
        obtain ⟨l, short, rfl⟩ := (visits s).mp visit
        rw [(fixed _ _).mp visit'] at position
        exact ⟨l, short, known, r, inside, position⟩
      · rintro ⟨l, short, known, r, inside, position⟩
        exact ⟨_, (visits _).mpr ⟨l, short, rfl⟩, known, r, inside, _, (fixed _ _).mpr rfl,
          position⟩
  | relation => exact absurd rfl other

private theorem trace_shows {now : Int} {S : States} (other : t ≠ .relation) :
    TraceShows now S (packagesOf es) p ↔ ∃ e ∈ es, ∃ l, l <+: elemsOf es e.id ∧
      StateShows (placeOf S) (ObjState.modifyAll now l (S t e.id)) p := by
  rw [traceShows_iff distinct_packagesOf locksOwn_packagesOf]
  constructor
  · rintro (⟨⟨t', id⟩, named, shown⟩ | ⟨id, before, e, later, split, -⟩)
    · by_cases same : t = t'
      · subst same
        obtain ⟨e, member, rfl⟩ := touched_packagesOf.mp named
        exact ⟨e, member, (sometimes_packagesOf other).mp shown⟩
      · exact absurd (elemsFor_other es same id) named
    · rw [elemsFor_other es other] at split
      cases before <;> cases split
  · rintro ⟨e, member, shown⟩
    exact Or.inl ⟨(t, e.id), touched_packagesOf.mpr ⟨e, member, rfl⟩,
      (sometimes_packagesOf other).mpr shown⟩

end Traces

section Batches

variable {env : Env} {b : Batch} {t : ObjectType} {st : Upload}

private theorem processNew_other {st' : Upload} {db db' : Db} {t₀ : ObjectType}
    (negative : ∀ e ∈ (st.updater t₀).createBuf, e.oldId < 0)
    (run : (processNew env t₀ st).run db = .ok (st', db')) (ne : t ≠ t₀) :
    st'.updater t = st.updater t := by
  obtain ⟨es, placeholders, box, -, -, -, rfl⟩ := processNew_ok negative run
  exact Upload.setUpdater_other _ _ ne

private theorem processModify_other {st' : Upload} {db db' : Db} {t₀ : ObjectType}
    (run : (processModify env t₀ st).run db = .ok (st', db')) (ne : t ≠ t₀) :
    st'.updater t = st.updater t := by
  obtain ⟨es, box, modified, -, -, -, rfl⟩ := processModify_ok run
  exact Upload.setUpdater_other _ _ ne

private theorem processDelete_other {st' : Upload} {db db' : Db} {t₀ : ObjectType}
    (run : (processDelete env t₀ st).run db = .ok (st', db')) (ne : t ≠ t₀) :
    st'.updater t = st.updater t := by
  obtain ⟨es, executed, used, box, deleted, -, -, -, rfl⟩ := processDelete_ok run
  exact Upload.setUpdater_other _ _ ne

private theorem create_grows {t₀ : ObjectType} (idle : Idle st) (ex : b.Executes env st)
    (other : t ≠ .relation) (ops : ∀ el ∈ b.els, el.op = .create ∧ el.objType = t₀)
    (run : (processNew env t₀ b.pushed).run b.before = .ok (b.flushed, b.after)) :
    Grows env (b.pushed.updater t).bbox (b.flushed.updater t).bbox (BatchShows env b t) := by
  obtain ⟨⟨es, batch⟩, -⟩ := ex.create_effect idle ops run
  have creates : ∀ el ∈ b.els, el.op = .create := fun el member => (ops el member).1
  have held : (b.pushed.updater t₀).createBuf = elemsIn env t₀ b.els :=
    (ex.buffer_eq idle .create t₀).trans (by rw [Batch.Executes.filter_op creates])
  by_cases same : t = t₀
  · subst same
    have grows := processNew_grows other run (held ▸ batch.replaced)
    exact grows.congr fun p => (create_shows batch).symm
  · have negative : ∀ e ∈ (b.pushed.updater t₀).createBuf, e.oldId < 0 := by
      rw [held]
      intro e member
      obtain ⟨el, inside, named⟩ := Batch.Executes.oldId_of_elemsIn member
      rw [named]
      exact ex.pushed.negative el inside (creates el inside)
    rw [processNew_other negative run same]
    refine Grows.refl env _ fun p => batchShows_other fun el member typed => same ?_
    exact typed.symm.trans (ops el member).2

private theorem delete_grows {t₀ : ObjectType} (idle : Idle st) (ex : b.Executes env st)
    (other : t ≠ .relation) (ops : ∀ el ∈ b.els, el.op = .delete ∧ el.objType = t₀)
    (run : (processDelete env t₀ b.pushed).run b.before = .ok (b.flushed, b.after)) :
    Grows env (b.pushed.updater t).bbox (b.flushed.updater t).bbox (BatchShows env b t) := by
  obtain ⟨⟨es, executed, used, deleted, batch⟩, -⟩ := ex.delete_effect idle ops run
  have deletes : ∀ el ∈ b.els, el.op = .delete := fun el member => (ops el member).1
  have held : (b.pushed.updater t₀).deleteBuf = elemsIn env t₀ b.els :=
    (ex.buffer_eq idle .delete t₀).trans (by rw [Batch.Executes.filter_op deletes])
  by_cases same : t = t₀
  · subst same
    have grows := processDelete_grows other run (held ▸ batch.replaced)
    exact grows.congr fun p => (delete_shows batch).symm
  · rw [processDelete_other run same]
    refine Grows.refl env _ fun p => batchShows_other fun el member typed => same ?_
    exact typed.symm.trans (ops el member).2

private theorem modify_grows (idle : Idle st) (ex : b.Executes env st) (other : t ≠ .relation)
    (ops : ∀ el ∈ b.els, el.op = .modify)
    (run : ∃ st₁ db₁, (processModify env .node b.pushed).run b.before = .ok (st₁, db₁) ∧
      ∃ st₂ db₂, (processModify env .way st₁).run db₁ = .ok (st₂, db₂) ∧
        (processModify env .relation st₂).run db₂ = .ok (b.flushed, b.after)) :
    Grows env (b.pushed.updater t).bbox (b.flushed.updater t).bbox (BatchShows env b t) := by
  obtain ⟨st₁, db₁, nodes, st₂, db₂, ways, relations⟩ := run
  have own : ∀ t, (b.pushed.updater t).modifyBuf = elemsIn env t b.els := fun t =>
    (ex.buffer_eq idle .modify t).trans (by rw [Batch.Executes.filter_op ops])
  obtain ⟨ns, box₁, modified₁, replaced₁, effect₁, -, result₁⟩ := processModify_ok nodes
  obtain ⟨ws, box₂, modified₂, replaced₂, effect₂, -, result₂⟩ := processModify_ok ways
  obtain ⟨rs, box₃, modified₃, -, effect₃, -, result₃⟩ := processModify_ok relations
  have created₁ : st₁.ct.created = b.pushed.ct.created := by rw [result₁]; rfl
  have created : b.flushed.ct.created = b.pushed.ct.created := by
    rw [result₃, result₂, ← created₁]
    rfl
  cases t with
  | node =>
      have same : b.flushed.updater .node = st₁.updater .node :=
        (processModify_other relations (by decide)).trans (processModify_other ways (by decide))
      have replaced : replaceOldIds b.flushed.ct (elemsIn env .node b.els) = .ok ns := by
        rw [replaceOldIds_congr created, ← own]
        exact replaced₁
      rw [same]
      refine (processModify_grows nodes replaced₁).congr fun p => ?_
      rw [trace_shows other, modify_shows ops replaced]
      exact Iff.rfl
  | way =>
      have before : st₁.updater .way = b.pushed.updater .way := processModify_other nodes (by decide)
      have same : b.flushed.updater .way = st₂.updater .way :=
        processModify_other relations (by decide)
      have replaced : replaceOldIds b.flushed.ct (elemsIn env .way b.els) = .ok ws := by
        rw [replaceOldIds_congr (created.trans created₁.symm), ← own, ← before]
        exact replaced₂
      have found : ∀ id, object db₁ .way id = object b.before .way id := fun id =>
        effect₁.acts.other .way (by decide) id
      -- the nodes are written before the ways, and not again
      have placed : placeOf (object db₁) = nodeCoord? b.after := by
        funext n
        rw [placeOf, ← effect₂.acts.other .node (by decide) n, ← effect₃.acts.other .node (by decide) n]
        rfl
      rw [same, ← before]
      refine (processModify_grows ways replaced₂).congr fun p => ?_
      rw [trace_shows other, modify_shows ops replaced]
      simp only [found, placed]
  | relation => exact absurd rfl other

theorem batch_grows (idle : Idle st) (ex : b.Executes env st) (other : t ≠ .relation) :
    Grows env (st.updater t).bbox (b.flushed.updater t).bbox (BatchShows env b t) := by
  have start : (b.pushed.updater t).bbox = (st.updater t).bbox := ex.pushed.bbox t
  have flushes := ex.flushes
  unfold flush at flushes
  rw [← start]
  rcases ex.op_eq with ⟨t₀, state, ops⟩ | ⟨state, ops⟩ | ⟨t₀, state, ops⟩
  · rw [state] at flushes
    exact create_grows idle ex other ops flushes
  · simp only [state, run_bind_eq_ok] at flushes
    exact modify_grows idle ex other ops flushes
  · rw [state] at flushes
    exact delete_grows idle ex other ops flushes

end Batches

section Positions

variable (I : NodeCoord → Prop)

/-- The property holds of the coordinates, where there are any. -/
def Located : {t : ObjectType} → Coord t → Prop
  | .node, p => I p
  | .way, _ => True
  | .relation, _ => True

/-- Every stored position has the property. -/
def Stored (db : Db) : Prop := ∀ n p, nodeCoord? db n = some p → I p

/-- Every position that the document writes has the property. -/
def Written (env : Env) (els : List Element) : Prop :=
  ∀ el ∈ els, el.op ≠ .delete → Located I (coordOf env el.objType el.object.body)

variable {I} {env : Env} {b : Batch} {t : ObjectType}

private theorem stored_iff {db : Db} :
    Stored I db ↔ ∀ n, ∀ r ∈ (object db .node n).row, Located I r.coord := by
  constructor
  · intro stored n r found
    exact stored n r.coord (Option.map_eq_some_iff.mpr ⟨r, found, rfl⟩)
  · intro rows n p found
    obtain ⟨r, row, rfl⟩ := Option.map_eq_some_iff.mp found
    exact rows n r row

private theorem act_located {id : Nat} {ev : Event t} {s : ObjState t}
    (written : ev.op ≠ .delete → Located I ev.elem.coord)
    (before : ∀ r ∈ s.row, Located I r.coord) :
    ∀ r ∈ (ev.act env.now id s).row, Located I r.coord := by
  unfold Event.act
  split
  · exact before
  · intro r found
    split at found
    · rename_i creates
      rw [ObjState.create_row] at found
      obtain rfl := Option.some.inj found
      exact written (by rw [creates]; decide)
    · rename_i modifies
      obtain ⟨r', row, rfl⟩ := Option.map_eq_some_iff.mp found
      exact written (by rw [modifies]; decide)
    · obtain ⟨r', row, rfl⟩ := Option.map_eq_some_iff.mp found
      exact before r' row

private theorem replay_located {id : Nat} {l : List (Event t)}
    (written : ∀ ev ∈ l, ev.op ≠ .delete → Located I ev.elem.coord) {s : ObjState t}
    (before : ∀ r ∈ s.row, Located I r.coord) :
    ∀ r ∈ ((machine env.now).replayAt (k := (t, id)) s l).row, Located I r.coord := by
  induction l generalizing s with
  | nil => exact before
  | cons ev l ih =>
      rw [replayAt_cons]
      exact ih (fun ev' member => written ev' (List.mem_cons_of_mem ev member))
        (act_located (written ev List.mem_cons_self) before)

private theorem event_located (written : Written I env b.els) (effect : BatchEffect env b) {o : Obj} :
    ∀ ev ∈ eventsOf (traceOf env b) o, ev.op ≠ .delete → Located I ev.elem.coord := by
  intro ev member changes
  obtain ⟨el, inside, same⟩ := List.mem_map.mp (mem_eventsOf.mp member)
  cases same
  have coord : (recordOf env b el).coord = coordOf env el.objType el.object.body := by
    rw [(recordOf_resolved effect inside).coord]
    obtain ⟨op, t, object, ifUnused⟩ := el
    cases op with
    | create => rfl
    | modify => rfl
    | delete => exact absurd rfl changes
  show Located I (recordOf env b el).coord
  rw [coord]
  exact written el inside changes

/-- What holds of all positions before a batch holds of all positions in it and after it. -/
private theorem batch_located (written : Written I env b.els) (effect : BatchEffect env b)
    (before : Stored I b.before) :
    (∀ p, BatchShows env b t p → I p) ∧ Stored I b.after := by
  have states : ∀ id s, Passes env b (.node, id) s → ∀ r ∈ s.row, Located I r.coord := by
    rintro id s ⟨l, short, rfl⟩
    exact replay_located (fun ev member => event_located written effect ev (short.subset member))
      (stored_iff.mp before id)
  have after : Stored I b.after := by
    refine stored_iff.mpr fun n => states n _ ⟨_, List.prefix_rfl, ?_⟩
    have whole := congrFun (batch_refines effect).2 (.node, n)
    rw [replay_at] at whole
    exact whole.symm
  refine ⟨?_, after⟩
  rintro p ⟨id, -, s, passes, shown⟩
  cases t with
  | node =>
      obtain ⟨r, row, rfl⟩ := Option.map_eq_some_iff.mp shown
      exact states id s passes r row
  | way =>
      obtain ⟨-, r, -, found⟩ := shown
      exact after _ _ found
  | relation => exact shown.elim

/-- What holds of all stored and all written positions holds of those that an upload shows,
and of the stored ones after it. -/
theorem located_of_executed {doc : List Element} {db db' : Db} {batches : List Batch} {st : Upload}
    (executed : Executed env doc db batches st db') (stored : Stored I db)
    (written : Written I env doc) :
    (∀ t p, EditShows env batches t p → I p) ∧ Stored I db' := by
  obtain ⟨-, rfl, st₁, runs, -⟩ := executed
  have start : (∀ t p, EditShows env [] t p → I p) ∧ Stored I db := by
    refine ⟨?_, stored⟩
    rintro t p ⟨b, member, -⟩
    cases member
  refine runs.invariant (I := fun done _ db => (∀ t p, EditShows env done t p → I p) ∧ Stored I db)
    (idle_empty env) start ?_
  rintro done st₂ b inside ⟨shown, before⟩ - effect
  have own : Written I env b.els := fun el member =>
    written el (List.mem_flatMap.mpr ⟨b, inside, member⟩)
  refine ⟨?_, (batch_located (t := .node) own effect before).2⟩
  rintro t p ⟨c, member, shows_⟩
  rcases List.mem_append.mp member with earlier | last
  · exact shown t p ⟨c, earlier, shows_⟩
  · obtain rfl := List.mem_singleton.mp last
    exact (batch_located own effect before).1 p shows_

end Positions

section Hulls

/-- The node and the way box of an upload, combined as `get_bbox` does it. -/
def editBox (env : Env) (st : Upload) : Bbox :=
  ((Bbox.undefined env.cfg).expand (st.updater .node).bbox).expand (st.updater .way).bbox

/-- The positions of the nodes and ways that an upload edits. -/
def Edited (env : Env) (batches : List Batch) (p : NodeCoord) : Prop :=
  EditShows env batches .node p ∨ EditShows env batches .way p

/-- The smallest box around some positions. Without any it is the undefined box. -/
structure IsHull (cfg : Settings) (b : Bbox) (P : NodeCoord → Prop) : Prop where
  contains : ∀ p, P p → Contains b p
  least : ∀ p, P p → ∀ c, (∀ q, P q → Contains c q) → ∀ s, reach b s ≤ reach c s
  empty : (∀ p, ¬P p) → b = Bbox.undefined cfg

/-- The position is not beyond the sides of the undefined box. -/
def InRange (cfg : Settings) (p : NodeCoord) : Prop :=
  -200 * cfg.scale ≤ p.lat ∧ p.lat ≤ 200 * cfg.scale ∧
    -200 * cfg.scale ≤ p.lon ∧ p.lon ≤ 200 * cfg.scale

variable {env : Env} {doc : List Element} {db db' : Db} {batches : List Batch} {st : Upload}
  {t : ObjectType}

private theorem executed_spans (executed : Executed env doc db batches st db')
    (other : t ≠ .relation) : Spans env (st.updater t).bbox (EditShows env batches t) := by
  obtain ⟨-, -, st₁, runs, rfl⟩ := executed
  have start : Idle (Upload.empty env) ∧ Grows env (Bbox.undefined env.cfg)
      ((Upload.empty env).updater t).bbox (EditShows env [] t) := by
    refine ⟨idle_empty env, Grows.refl env _ fun p => ?_⟩
    rintro ⟨b, member, -⟩
    cases member
  refine (runs.invariant (I := fun done st _ => Idle st ∧ Grows env (Bbox.undefined env.cfg)
    (st.updater t).bbox (EditShows env done t)) (idle_empty env) start ?_).2.spans
  rintro done st₂ b - ⟨idle, before⟩ executes -
  refine ⟨(executes.settled idle).2.1, ?_⟩
  refine (before.trans (batch_grows idle executes other)).congr fun p => ?_
  simp only [EditShows, List.mem_append, List.mem_singleton, or_and_right, exists_or,
    exists_eq_left]

/-- The box of an upload is the undefined box, extended by the positions. -/
theorem le_reach_editBox (executed : Executed env doc db batches st db') {s : Side} {x : Int} :
    x ≤ reach (editBox env st) s ↔
      x ≤ reach (Bbox.undefined env.cfg) s ∨ ∃ p, Edited env batches p ∧ x ≤ reachOf p s := by
  have nodes := executed_spans executed (t := .node) (by decide)
  have ways := executed_spans executed (t := .way) (by decide)
  have both : _ ↔ x ≤ reach (Bbox.undefined env.cfg) s ∨
      ∃ p, Edited env batches p ∧ x ≤ reachOf p s := (nodes.expand ways) s x
  rw [← both, editBox, Bbox.expand_assoc, le_reach_expand]
  exact or_comm

private theorem reach_undefined_le {cfg : Settings} {p : NodeCoord} (inRange : InRange cfg p)
    (s : Side) : reach (Bbox.undefined cfg) s ≤ reachOf p s := by
  obtain ⟨south, north, west, east⟩ := inRange
  cases s with
  | south => exact neg_le_neg north
  | north => exact south
  | west => exact neg_le_neg east
  | east => exact west

theorem isHull_of_executed (executed : Executed env doc db batches st db')
    (inRange : ∀ p, Edited env batches p → InRange env.cfg p) :
    IsHull env.cfg (editBox env st) (Edited env batches) := by
  constructor
  · intro p edited
    exact contains_iff.mpr fun s => (le_reach_editBox executed).mpr (.inr ⟨p, edited, le_rfl⟩)
  · intro p edited c around s
    rcases (le_reach_editBox executed).mp (le_refl (reach (editBox env st) s)) with
      default | ⟨q, shown, far⟩
    · exact (default.trans (reach_undefined_le (inRange p edited) s)).trans
        (contains_iff.mp (around p edited) s)
    · exact far.trans (contains_iff.mp (around q shown) s)
  · intro none
    refine ext_le_reach fun s x => (le_reach_editBox executed).trans (or_iff_left ?_)
    rintro ⟨p, edited, -⟩
    exact none p edited

end Hulls

end Cgimap.Osmchange.EditBoxes
