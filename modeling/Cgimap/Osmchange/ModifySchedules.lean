/- path: Cgimap/Osmchange/ModifySchedules
   generality: I
   source: none
   digest: Packages in any order: each object goes through the same states, and the bounding
     box depends on these only. -/

import Cgimap.Osmchange.BatchProgress
import Cgimap.Osmchange.RelationBoxes

/-!
Modifications of several objects can be cut into packages in many ways. What a package does
to an object depends on the elements for this object only, so the states that an object goes
through are the same for all of them. The positions that count for the bounding box are read
at different times, but a position that changes in between is one of a modified node, which
counts in any case.
-/

set_option autoImplicit false
set_option relaxedAutoImplicit false

namespace Cgimap.Osmchange.ModifySchedules

open Cgimap.Library.KeyedTable
open Cgimap.Library.StatementProgram
open Cgimap.Library.StatementProgram.Prog
open Cgimap.Model.Types
open Cgimap.Model.Database
open Cgimap.Osmchange.DiffTracking
open Cgimap.Osmchange.UploadRecords
open Cgimap.Osmchange.UpdaterChecks
open Cgimap.Osmchange.UpdaterProcess
open Cgimap.Osmchange.ObjectState
open Cgimap.Osmchange.WriteEffects
open Cgimap.Osmchange.WriteProgress
open Cgimap.Osmchange.CheckEffects
open Cgimap.Osmchange.ModifyEffects
open Cgimap.Osmchange.BatchProgress
open Cgimap.Osmchange.BoxReach
open Cgimap.Osmchange.RelationBoxes

/-- One round of `process_modify_*`: a package, and the ids that its batch has locked. -/
structure Package where
  objType : ObjectType
  locked : List Nat
  elems : List (Elem objType)

def Package.elemsFor (q : Package) (t : ObjectType) (id : Nat) : List (Elem t) :=
  if own : q.objType = t then elemsOf (own ▸ q.elems) id else []

/-- The elements for one object, in the order in which they are executed. -/
def elemsFor (qs : List Package) (t : ObjectType) (id : Nat) : List (Elem t) :=
  qs.flatMap (fun q => q.elemsFor t id)

abbrev States := (t : ObjectType) → Nat → ObjState t

def after (now : Int) (S : States) (qs : List Package) : States :=
  fun t id => ObjState.modifyAll now (elemsFor qs t id) (S t id)

/-- The position belongs to the object in these states. -/
def Shows (S : States) : Obj → NodeCoord → Prop
  | (.node, n), p => (S .node n).row.map CurrentRow.coord = some p
  | (.way, w), p => (S .way w).row.isSome ∧
      ∃ r ∈ (S .way w).refs, (S .node r.2.target.2).row.map CurrentRow.coord = some p
  | (.relation, _), _ => False

/-- The positions that count for a package which finds the objects in these states. -/
def StepShows (now : Int) (S : States) : Package → NodeCoord → Prop
  | ⟨.node, locked, es⟩, p => ∃ e ∈ es, Shows S (.node, e.id) p ∨
      Shows (after now S [⟨.node, locked, es⟩]) (.node, e.id) p
  | ⟨.way, locked, es⟩, p => (∃ e ∈ es, Shows S (.way, e.id) p) ∨
      ∃ id ∈ locked, Shows (after now S [⟨.way, locked, es⟩]) (.way, id) p
  | ⟨.relation, _, es⟩, p => ∃ e ∈ es, ∃ o, Counted (S .relation e.id) e o ∧ Shows S o p

/-- The positions that count for packages executed one after the other. -/
def TraceShows (now : Int) (S : States) (qs : List Package) (p : NodeCoord) : Prop :=
  ∃ pre q post, qs = pre ++ q :: post ∧ StepShows now (after now S pre) q p

section Timeline

variable (now : Int) (S : States) (seq : (t : ObjectType) → Nat → List (Elem t))

/-- The states of an object along its elements. -/
def Visits (t : ObjectType) (id : Nat) (s : ObjState t) : Prop :=
  ∃ l, l <+: seq t id ∧ s = ObjState.modifyAll now l (S t id)

def Touched (o : Obj) : Prop := seq o.1 o.2 ≠ []

/-- The position belongs to the object in states that may be of different times. -/
def Sometimes : Obj → NodeCoord → Prop
  | (.node, n), p => ∃ s, Visits now S seq .node n s ∧ s.row.map CurrentRow.coord = some p
  | (.way, w), p => ∃ s, Visits now S seq .way w s ∧ s.row.isSome ∧ ∃ r ∈ s.refs,
      ∃ s', Visits now S seq .node r.2.target.2 s' ∧ s'.row.map CurrentRow.coord = some p
  | (.relation, _), _ => False

/-- The positions that count, in terms of the elements of each object. -/
def Timeline (p : NodeCoord) : Prop :=
  (∃ o, Touched seq o ∧ Sometimes now S seq o p) ∨
    ∃ id before e later, seq .relation id = before ++ e :: later ∧
      ∃ o, Counted (ObjState.modifyAll now before (S .relation id)) e o ∧ Sometimes now S seq o p

end Timeline

section Lists

variable {t : ObjectType} {id : Nat} {qs : List Package}

theorem elemsFor_append (qs qs' : List Package) (t : ObjectType) (id : Nat) :
    elemsFor (qs ++ qs') t id = elemsFor qs t id ++ elemsFor qs' t id := List.flatMap_append

theorem after_append (now : Int) (S : States) (qs qs' : List Package) :
    after now S (qs ++ qs') = after now (after now S qs) qs' := by
  funext t id
  unfold after
  rw [elemsFor_append, ObjState.modifyAll_append]

@[simp] theorem Package.elemsFor_own (locked : List Nat) (es : List (Elem t)) :
    Package.elemsFor ⟨t, locked, es⟩ t id = elemsOf es id := dif_pos rfl

theorem Package.elemsFor_other {q : Package} (other : q.objType ≠ t) : q.elemsFor t id = [] :=
  dif_neg other

def Package.Distinct (q : Package) : Prop := (q.elems.map Elem.id).Nodup

theorem Package.elemsFor_of_mem {locked : List Nat} {es : List (Elem t)}
    (distinct : Package.Distinct ⟨t, locked, es⟩) {e : Elem t} (member : e ∈ es) :
    Package.elemsFor ⟨t, locked, es⟩ t e.id = [e] := by
  rw [Package.elemsFor_own]
  exact elemsOf_eq_singleton distinct member

theorem Package.of_elemsFor {q : Package} {e : Elem t} (found : q.elemsFor t id = [e]) :
    ∃ locked es, q = ⟨t, locked, es⟩ ∧ e ∈ es ∧ e.id = id := by
  obtain ⟨t', locked, es⟩ := q
  by_cases own : t' = t
  · subst own
    rw [Package.elemsFor_own] at found
    have member : e ∈ elemsOf es id := by
      rw [found]
      exact List.mem_singleton_self e
    exact ⟨locked, es, rfl, (mem_elemsOf.mp member).1, (mem_elemsOf.mp member).2⟩
  · rw [Package.elemsFor_other own] at found
    cases found

private theorem elemsFor_short {q : Package} (distinct : q.Distinct) :
    (q.elemsFor t id).length ≤ 1 := by
  obtain ⟨t', locked, es⟩ := q
  by_cases own : t' = t
  · subst own
    rw [Package.elemsFor_own]
    exact length_elemsOf_le_one distinct id
  · rw [Package.elemsFor_other own]
    exact Nat.zero_le _

theorem exists_package (distinct : ∀ q ∈ qs, q.Distinct) {before later : List (Elem t)} {e : Elem t}
    (split : elemsFor qs t id = before ++ e :: later) :
    ∃ pre locked es post, qs = pre ++ ⟨t, locked, es⟩ :: post ∧ elemsFor pre t id = before ∧
      e ∈ es ∧ e.id = id := by
  obtain ⟨pre, q, post, same, start, found⟩ :=
    split_flatMap (fun q member => elemsFor_short (distinct q member)) split
  obtain ⟨locked, es, rfl, member, named⟩ := Package.of_elemsFor found
  exact ⟨pre, locked, es, post, same, start, member, named⟩

end Lists

section Agreement

variable {now : Int} {S : States} {qs : List Package} {p : NodeCoord} {t : ObjectType} {id : Nat}

private theorem visits_after {pre post : List Package} (split : qs = pre ++ post) :
    Visits now S (elemsFor qs) t id (after now S pre t id) := by
  refine ⟨elemsFor pre t id, ?_, rfl⟩
  rw [split, elemsFor_append]
  exact List.prefix_append _ _

private theorem sometimes_of_shows {pre post : List Package} (split : qs = pre ++ post) {o : Obj}
    (shows : Shows (after now S pre) o p) : Sometimes now S (elemsFor qs) o p := by
  obtain ⟨t, id⟩ := o
  cases t with
  | node => exact ⟨_, visits_after split, shows⟩
  | way =>
      obtain ⟨known, r, member, position⟩ := shows
      exact ⟨_, visits_after split, known, r, member, _, visits_after split, position⟩
  | relation => exact shows

private theorem touched_of_mem {pre post : List Package} {locked : List Nat} {es : List (Elem t)}
    (split : qs = pre ++ ⟨t, locked, es⟩ :: post) {e : Elem t} (member : e ∈ es) :
    Touched (elemsFor qs) (t, e.id) := by
  intro none
  have inside : e ∈ elemsFor qs t e.id := by
    refine List.mem_flatMap.mpr ⟨⟨t, locked, es⟩, ?_, ?_⟩
    · rw [split]
      exact List.mem_append_right _ List.mem_cons_self
    · rw [Package.elemsFor_own]
      exact mem_elemsOf.mpr ⟨member, rfl⟩
  rw [show elemsFor qs t e.id = [] from none] at inside
  cases inside

/-- The ids that are locked for a package are those of elements that are executed. -/
def LocksOwn (qs : List Package) (q : Package) : Prop :=
  (∀ e ∈ q.elems, e.id ∈ q.locked) ∧ ∀ id ∈ q.locked, Touched (elemsFor qs) (q.objType, id)

private theorem timeline_of_trace (distinct : ∀ q ∈ qs, q.Distinct)
    (locks : ∀ q ∈ qs, LocksOwn qs q) (trace : TraceShows now S qs p) :
    Timeline now S (elemsFor qs) p := by
  obtain ⟨pre, ⟨t, locked, es⟩, post, split, step⟩ := trace
  have here : (⟨t, locked, es⟩ : Package) ∈ qs := by
    rw [split]
    exact List.mem_append_right _ List.mem_cons_self
  have next : qs = (pre ++ [⟨t, locked, es⟩]) ++ post := by
    rw [split, List.append_assoc]
    rfl
  cases t with
  | node =>
      obtain ⟨e, member, old | new⟩ := step
      · exact .inl ⟨_, touched_of_mem split member, sometimes_of_shows split old⟩
      · rw [← after_append] at new
        exact .inl ⟨_, touched_of_mem split member, sometimes_of_shows next new⟩
  | way =>
      rcases step with ⟨e, member, old⟩ | ⟨id, named, new⟩
      · exact .inl ⟨_, touched_of_mem split member, sometimes_of_shows split old⟩
      · rw [← after_append] at new
        exact .inl ⟨_, (locks _ here).2 id named, sometimes_of_shows next new⟩
  | relation =>
      obtain ⟨e, member, o, counted, shows⟩ := step
      refine .inr ⟨e.id, elemsFor pre .relation e.id, e, elemsFor post .relation e.id, ?_, o, counted,
        sometimes_of_shows split shows⟩
      rw [split, elemsFor_append, show (⟨.relation, locked, es⟩ : Package) :: post =
        [⟨.relation, locked, es⟩] ++ post from rfl, elemsFor_append]
      congr 1
      rw [elemsFor, List.flatMap_cons, List.flatMap_nil, List.append_nil,
        Package.elemsFor_of_mem (distinct _ here) member]
      rfl

private theorem exists_reading (distinct : ∀ q ∈ qs, q.Distinct)
    (touched : Touched (elemsFor qs) (t, id)) {s : ObjState t}
    (visits : Visits now S (elemsFor qs) t id s) :
    ∃ pre locked es post e, qs = pre ++ ⟨t, locked, es⟩ :: post ∧ e ∈ es ∧ e.id = id ∧
      (s = after now S pre t id ∨ s = after now S (pre ++ [⟨t, locked, es⟩]) t id) := by
  obtain ⟨l, ⟨rest, whole⟩, rfl⟩ := visits
  rcases List.eq_nil_or_concat l with rfl | ⟨before, e, rfl⟩
  · cases found : elemsFor qs t id with
    | nil => exact absurd found touched
    | cons e later =>
        obtain ⟨pre, locked, es, post, split, start, member, named⟩ :=
          exists_package distinct (show elemsFor qs t id = [] ++ e :: later from found)
        refine ⟨pre, locked, es, post, e, split, member, named, .inl ?_⟩
        rw [after, start]
  · have found : elemsFor qs t id = before ++ e :: rest := by
      rw [← whole, List.concat_eq_append, List.append_assoc]
      rfl
    obtain ⟨pre, locked, es, post, split, start, member, rfl⟩ := exists_package distinct found
    refine ⟨pre, locked, es, post, e, split, member, rfl, .inr ?_⟩
    have single : elemsFor [⟨t, locked, es⟩] t e.id = [e] := by
      rw [elemsFor, List.flatMap_cons, List.flatMap_nil, List.append_nil]
      refine Package.elemsFor_of_mem (distinct _ ?_) member
      rw [split]
      exact List.mem_append_right _ List.mem_cons_self
    rw [after, elemsFor_append, start, single, List.concat_eq_append]

private theorem visits_untouched (untouched : ¬Touched (elemsFor qs) (t, id)) {s : ObjState t}
    (visits : Visits now S (elemsFor qs) t id s) : s = S t id := by
  obtain ⟨l, short, rfl⟩ := visits
  rw [show elemsFor qs t id = [] from not_not.mp untouched, List.prefix_nil] at short
  rw [short]
  rfl

private theorem after_untouched (untouched : ¬Touched (elemsFor qs) (t, id)) {pre post : List Package}
    (split : qs = pre ++ post) : after now S pre t id = S t id :=
  visits_untouched untouched (visits_after split)

/-- What an object shows when its nodes are not modified, or all of what they show counts. -/
private theorem trace_of_touched (distinct : ∀ q ∈ qs, q.Distinct)
    (locks : ∀ q ∈ qs, LocksOwn qs q) {o : Obj} (touched : Touched (elemsFor qs) o)
    (sometimes : Sometimes now S (elemsFor qs) o p) : TraceShows now S qs p := by
  have nodes : ∀ n, Touched (elemsFor qs) (.node, n) → ∀ s, Visits now S (elemsFor qs) .node n s →
      s.row.map CurrentRow.coord = some p → TraceShows now S qs p := by
    intro n touched s visits position
    obtain ⟨pre, locked, es, post, e, split, member, rfl, old | new⟩ :=
      exists_reading distinct touched visits
    · rw [old] at position
      exact ⟨pre, _, post, split, e, member, .inl position⟩
    · rw [new, after_append] at position
      exact ⟨pre, _, post, split, e, member, .inr position⟩
  obtain ⟨t, id⟩ := o
  cases t with
  | node =>
      obtain ⟨s, visits, position⟩ := sometimes
      exact nodes id touched s visits position
  | way =>
      obtain ⟨s, visits, known, r, member, s', visits', position⟩ := sometimes
      by_cases moved : Touched (elemsFor qs) (.node, r.2.target.2)
      · exact nodes _ moved s' visits' position
      · have fixed := visits_untouched moved visits'
        obtain ⟨pre, locked, es, post, e, split, inside, rfl, old | new⟩ :=
          exists_reading distinct touched visits
        · refine ⟨pre, _, post, split, .inl ⟨e, inside, old ▸ known, r, old ▸ member, ?_⟩⟩
          rw [after_untouched moved split, ← fixed]
          exact position
        · have next : qs = (pre ++ [⟨.way, locked, es⟩]) ++ post := by
            rw [split, List.append_assoc]
            rfl
          have named : e.id ∈ locked := (locks ⟨.way, locked, es⟩ (by
            rw [split]
            exact List.mem_append_right _ List.mem_cons_self)).1 e inside
          refine ⟨pre, _, post, split, .inr ⟨e.id, named, ?_⟩⟩
          rw [← after_append]
          refine ⟨new ▸ known, r, new ▸ member, ?_⟩
          rw [after_untouched moved next, ← fixed]
          exact position
  | relation => exact sometimes.elim

/-- The positions that count do not depend on how the packages are cut and ordered. -/
theorem traceShows_iff (distinct : ∀ q ∈ qs, q.Distinct) (locks : ∀ q ∈ qs, LocksOwn qs q) :
    TraceShows now S qs p ↔ Timeline now S (elemsFor qs) p := by
  refine ⟨timeline_of_trace distinct locks, ?_⟩
  rintro (⟨o, touched, sometimes⟩ | ⟨id, before, e, later, found, o, counted, sometimes⟩)
  · exact trace_of_touched distinct locks touched sometimes
  · by_cases touched : Touched (elemsFor qs) o
    · exact trace_of_touched distinct locks touched sometimes
    · obtain ⟨pre, locked, es, post, split, start, member, rfl⟩ := exists_package distinct found
      have counts : Counted (after now S pre .relation e.id) e o := by
        rw [after, start]
        exact counted
      obtain ⟨t, id⟩ := o
      cases t with
      | node =>
          obtain ⟨s, visits, position⟩ := sometimes
          refine ⟨pre, _, post, split, e, member, _, counts, ?_⟩
          change (after now S pre .node id).row.map CurrentRow.coord = some p
          rw [after_untouched touched split, ← visits_untouched touched visits]
          exact position
      | way =>
          obtain ⟨s, visits, known, r, inside, s', visits', position⟩ := sometimes
          by_cases moved : Touched (elemsFor qs) (.node, r.2.target.2)
          · exact trace_of_touched distinct locks (o := (.node, r.2.target.2)) moved
              ⟨s', visits', position⟩
          · refine ⟨pre, _, post, split, e, member, _, counts, ?_⟩
            have fixed := visits_untouched touched visits
            refine ⟨?_, r, ?_, ?_⟩
            · rw [after_untouched touched split, ← fixed]
              exact known
            · rw [after_untouched touched split, ← fixed]
              exact inside
            · rw [after_untouched moved split, ← visits_untouched moved visits']
              exact position
      | relation => exact sometimes.elim

end Agreement

section Packages

variable {env : Env} {t : ObjectType} {db db' : Db} {ids : List Nat} {es : List (Elem t)}

theorem mem_pointsOf_iff {o : Obj} {p : NodeCoord} : p ∈ pointsOf db o ↔ Shows (object db) o p := by
  obtain ⟨t, id⟩ := o
  cases t with
  | node => exact Option.mem_toList
  | way =>
      rw [pointsOf, mem_wayCoords]
      simp only [List.mem_singleton, exists_eq_left]
      exact Iff.rfl
  | relation => exact ⟨fun never => (List.not_mem_nil never).elim, False.elim⟩

theorem object_after {locked : List Nat} (effect : PackageEffect env locked es db db') :
    object db' = after env.now (object db) [⟨t, locked, es⟩] := by
  funext t' id
  unfold after elemsFor
  rw [List.flatMap_cons, List.flatMap_nil, List.append_nil]
  by_cases own : t' = t
  · subst own
    rw [Package.elemsFor_own]
    exact effect.acts.same id
  · rw [Package.elemsFor_other (fun same => own same.symm)]
    exact effect.acts.other t' own id

private theorem grows_of_spans {acc before later box : Bbox} {P Q R : NodeCoord → Prop}
    (result : box = (acc.expand before).expand later) (first : Spans env before P)
    (second : Spans env later Q) (same : ∀ p, R p ↔ P p ∨ Q p) (s : Side) (x : Int) :
    (x ≤ reach box s ∨ x ≤ reach (Bbox.undefined env.cfg) s) ↔
      (x ≤ reach acc s ∨ x ≤ reach (Bbox.undefined env.cfg) s) ∨ ∃ p, R p ∧ x ≤ reachOf p s := by
  have spans := first.expand second s x
  rw [result, Bbox.expand_assoc, le_reach_expand, or_assoc, spans, or_assoc]
  simp only [same]

theorem modifyPackage_grows {acc acc' : Tracking × Bbox}
    (run : (modifyPackage env t ids acc es).run db = .ok (acc', db')) (s : Side) (x : Int) :
    (x ≤ reach acc'.2 s ∨ x ≤ reach (Bbox.undefined env.cfg) s) ↔
      (x ≤ reach acc.2 s ∨ x ≤ reach (Bbox.undefined env.cfg) s) ∨
        ∃ p, StepShows env.now (object db) ⟨t, ids, es⟩ p ∧ x ≤ reachOf p s := by
  have effect := (modifyPackage_ok run).1
  have states := object_after effect
  have named : ∀ {P : Nat → Prop}, (∃ id ∈ uniqueIds es, P id) ↔ ∃ e ∈ es, P e.id := by
    intro P
    simp only [mem_uniqueIds, List.mem_map, exists_exists_and_eq_and]
  obtain ⟨upd, before, later, read, readLater, result⟩ := modifyPackage_boxes run
  cases t with
  | node =>
      simp only [bboxBefore, run_bind_eq_ok] at read
      obtain ⟨box, db₁, readBox, done⟩ := read
      cases done
      simp only [bboxAfter, calcBbox, run_bind_eq_ok] at readLater
      obtain ⟨box', db₂, readBox', done⟩ := readLater
      cases done
      refine grows_of_spans result (calcNodeBbox_spans readBox) (calcNodeBbox_spans readBox')
        (fun p => ?_) s x
      simp only [StepShows, named, mem_pointsOf_iff, ← states, ← exists_or, ← and_or_left]
  | way =>
      simp only [bboxBefore, run_bind_eq_ok] at read
      obtain ⟨box, db₁, readBox, done⟩ := read
      cases done
      simp only [bboxAfter, calcBbox, run_bind_eq_ok] at readLater
      obtain ⟨box', db₂, readBox', done⟩ := readLater
      cases done
      refine grows_of_spans result (calcWayBbox_spans readBox) (calcWayBbox_spans readBox')
        (fun p => ?_) s x
      simp only [StepShows, named, mem_pointsOf_iff, ← states]
  | relation =>
      rw [modifyPackage_reach run]
      have moved : (∃ e ∈ es, ∃ o, Counted (object db .relation e.id) e o ∧
          ∃ p ∈ pointsOf db o, x ≤ reachOf p s) ↔
          ∃ p, StepShows env.now (object db) ⟨.relation, ids, es⟩ p ∧ x ≤ reachOf p s := by
        constructor
        · rintro ⟨e, member, o, counted, p, found, far⟩
          exact ⟨p, ⟨e, member, o, counted, mem_pointsOf_iff.mp found⟩, far⟩
        · rintro ⟨p, ⟨e, member, o, counted, found⟩, far⟩
          exact ⟨e, member, o, counted, p, mem_pointsOf_iff.mpr found, far⟩
      rw [moved]
      have arranged : ∀ A U X : Prop, ((A ∨ U ∨ X) ∨ U) ↔ ((A ∨ U) ∨ X) := by
        intro A U X
        tauto
      exact arranged _ _ _

end Packages

section Runs

variable {env : Env}

/-- A package, with the boxes of all three updaters. -/
def runPackage (env : Env) (acc : Tracking × (ObjectType → Bbox)) (q : Package) :
    DbProg (Tracking × (ObjectType → Bbox)) := do
  let (ct, box) ← modifyPackage env q.objType q.locked (acc.1, acc.2 q.objType) q.elems
  return (ct, Function.update acc.2 q.objType box)

def total (env : Env) (boxes : ObjectType → Bbox) : Bbox :=
  (((Bbox.undefined env.cfg).expand (boxes .node)).expand (boxes .way)).expand (boxes .relation)

def entriesFor (qs : List Package) (t : ObjectType) : List ObjectIdMapping :=
  qs.flatMap (fun q => if q.objType = t then modifiedEntries q.elems else [])

/-- What the checks and the tables demand of a package. -/
structure Fits (now : Int) (S : States) (q : Package) : Prop where
  distinct : q.Distinct
  ready : ∀ e ∈ q.elems, Ready now (S q.objType e.id) e
  future : ∀ e ∈ q.elems, ∀ r ∈ e.refs, (S r.ref.target.1 r.ref.target.2).visible = true ∨
    (r.ref.target.1 = .relation ∧ r.ref.target.2 ∈ q.locked)

structure Executed (env : Env) (db₀ : Db) (acc₀ : Tracking × (ObjectType → Bbox))
    (done : List Package) (acc : Tracking × (ObjectType → Bbox)) (db : Db) : Prop where
  states : object db = after env.now (object db₀) done
  rest : SameRest db₀ db
  modified : ∀ t, (acc.1.modified t).Perm (acc₀.1.modified t ++ entriesFor done t)
  boxes : ∀ s x, x ≤ reach (total env acc.2) s ↔ x ≤ reach (total env acc₀.2) s ∨
    ∃ p, TraceShows env.now (object db₀) done p ∧ x ≤ reachOf p s
  fits : ∀ pre q post, done = pre ++ q :: post → Fits env.now (after env.now (object db₀) pre) q

theorem le_reach_total {boxes : ObjectType → Bbox} {s : Side} {x : Int} :
    x ≤ reach (total env boxes) s ↔
      x ≤ reach (Bbox.undefined env.cfg) s ∨ ∃ t, x ≤ reach (boxes t) s := by
  unfold total
  rw [le_reach_expand, le_reach_expand, le_reach_expand]
  constructor
  · rintro (((below | node) | way) | relation)
    · exact .inl below
    · exact .inr ⟨.node, node⟩
    · exact .inr ⟨.way, way⟩
    · exact .inr ⟨.relation, relation⟩
  · rintro (below | ⟨t, far⟩)
    · exact .inl (.inl (.inl below))
    · cases t with
      | node => exact .inl (.inl (.inr far))
      | way => exact .inl (.inr far)
      | relation => exact .inr far

private theorem grows_total {boxes : ObjectType → Bbox} {t : ObjectType} {box : Bbox} {X : Prop}
    {s : Side} {x : Int}
    (grows : (x ≤ reach box s ∨ x ≤ reach (Bbox.undefined env.cfg) s) ↔
      (x ≤ reach (boxes t) s ∨ x ≤ reach (Bbox.undefined env.cfg) s) ∨ X)
    (wider : x ≤ reach (boxes t) s → x ≤ reach box s) :
    x ≤ reach (total env (Function.update boxes t box)) s ↔ x ≤ reach (total env boxes) s ∨ X := by
  rw [le_reach_total, le_reach_total]
  constructor
  · rintro (below | ⟨t', far⟩)
    · exact .inl (.inl below)
    · by_cases own : t' = t
      · subst own
        rw [Function.update_self] at far
        rcases grows.mp (.inl far) with (old | below) | new
        · exact .inl (.inr ⟨t', old⟩)
        · exact .inl (.inl below)
        · exact .inr new
      · rw [Function.update_of_ne own] at far
        exact .inl (.inr ⟨t', far⟩)
  · rintro ((below | ⟨t', far⟩) | new)
    · exact .inl below
    · refine .inr ⟨t', ?_⟩
      by_cases own : t' = t
      · subst own
        rw [Function.update_self]
        exact wider far
      · rwa [Function.update_of_ne own]
    · rcases grows.mpr (.inr new) with far | below
      · refine .inr ⟨t, ?_⟩
        rwa [Function.update_self]
      · exact .inl below

theorem traceShows_snoc {now : Int} {S : States} {done : List Package} {q : Package}
    {p : NodeCoord} : TraceShows now S (done ++ [q]) p ↔
      TraceShows now S done p ∨ StepShows now (after now S done) q p := by
  constructor
  · rintro ⟨pre, q', post, split, step⟩
    rcases List.eq_nil_or_concat post with rfl | ⟨post, last, rfl⟩
    · obtain ⟨rfl, same⟩ := List.append_inj' split rfl
      cases same
      exact .inr step
    · rw [List.concat_eq_append, ← List.cons_append, ← List.append_assoc] at split
      obtain ⟨same, -⟩ := List.append_inj' split rfl
      exact .inl ⟨pre, q', post, same, step⟩
  · rintro (⟨pre, q', post, rfl, step⟩ | step)
    · exact ⟨pre, q', post ++ [q], by simp, step⟩
    · exact ⟨done, q, [], rfl, step⟩

private theorem fits_of_run {acc acc' : Tracking × Bbox} {db db' : Db} {q : Package}
    (run : (modifyPackage env q.objType q.locked acc q.elems).run db = .ok (acc', db')) :
    Fits env.now (object db) q := by
  have effect := (modifyPackage_ok run).1
  refine ⟨effect.matching.distinct, modifyPackage_ready run, fun e member r ref => ?_⟩
  have seen := effect.future e member r ref
  rwa [visible_eq] at seen

theorem Executed.step {db₀ db db' : Db} {acc₀ acc acc' : Tracking × (ObjectType → Bbox)}
    {done : List Package} {q : Package} (executed : Executed env db₀ acc₀ done acc db)
    (run : (runPackage env acc q).run db = .ok (acc', db')) :
    Executed env db₀ acc₀ (done ++ [q]) acc' db' := by
  rw [runPackage, run_bind_eq_ok] at run
  obtain ⟨⟨ct, box⟩, db₁, package, last⟩ := run
  cases last
  obtain ⟨effect, modified, perm, tracked⟩ := modifyPackage_ok package
  obtain ⟨upd, before, later, -, -, result⟩ := modifyPackage_boxes package
  have found := executed.states
  refine ⟨?_, executed.rest.trans effect.acts.rest, fun t => ?_, fun s x => ?_, ?_⟩
  · rw [object_after effect, found, after_append]
  · rw [show ct = acc.1.addModified q.objType modified from tracked]
    have entries : entriesFor (done ++ [q]) t = entriesFor done t ++
        if q.objType = t then modifiedEntries q.elems else [] := by
      simp [entriesFor]
    rw [entries]
    by_cases own : q.objType = t
    · subst own
      rw [if_pos rfl, ← List.append_assoc]
      simpa using (executed.modified q.objType).append perm
    · rw [if_neg own, List.append_nil]
      simpa [Function.update_of_ne (Ne.symm own)] using executed.modified t
  · have wider : x ≤ reach (acc.2 q.objType) s → x ≤ reach box s := by
      intro far
      rw [show box = _ from result]
      exact le_reach_expand.mpr (.inl (le_reach_expand.mpr (.inl far)))
    rw [grows_total (modifyPackage_grows package s x) wider, executed.boxes, found, or_assoc]
    refine or_congr_right ?_
    simp only [traceShows_snoc, or_and_right, exists_or]
  · intro pre q' post split
    rcases List.eq_nil_or_concat post with rfl | ⟨post, last, rfl⟩
    · obtain ⟨rfl, same⟩ := List.append_inj' split rfl
      cases same
      rw [← found]
      exact fits_of_run package
    · rw [List.concat_eq_append, ← List.cons_append, ← List.append_assoc] at split
      obtain ⟨same, -⟩ := List.append_inj' split rfl
      exact executed.fits pre q' post same

theorem executed_of_run {db db' : Db} {acc acc' : Tracking × (ObjectType → Bbox)}
    {qs : List Package} (run : (qs.foldlM (runPackage env) acc).run db = .ok (acc', db')) :
    Executed env db acc qs acc' db' := by
  have start : Executed env db acc [] acc db := by
    refine ⟨rfl, SameRest.refl db, fun t => ?_, fun s x => ?_, ?_⟩
    · rw [entriesFor, List.flatMap_nil, List.append_nil]
    · refine (or_iff_left ?_).symm
      rintro ⟨p, ⟨pre, q, post, split, -⟩, -⟩
      cases pre <;> cases split
    · intro pre q post split
      cases pre <;> cases split
  have all := run_foldlM_invariant (Executed env db acc) qs
    (fun done q _ acc db acc' db' executed run => executed.step run) start run
  rwa [List.nil_append] at all

/-- Packages that fit one after the other go through. -/
theorem run_of_fits {db : Db} {acc : Tracking × (ObjectType → Bbox)} {qs : List Package}
    (formed : ∀ q ∈ qs, ∀ e ∈ q.elems, WellFormed e)
    (fits : ∀ pre q post, qs = pre ++ q :: post → Fits env.now (after env.now (object db) pre) q) :
    ∃ acc' db', (qs.foldlM (runPackage env) acc).run db = .ok (acc', db') := by
  induction qs generalizing acc db with
  | nil => exact ⟨acc, db, rfl⟩
  | cons q qs ih =>
      have first : Fits env.now (object db) q := fits [] q qs rfl
      have future : FutureVisible db q.elems q.locked := by
        intro e member r ref
        rw [visible_eq]
        exact first.future e member r ref
      obtain ⟨⟨ct, box⟩, db₁, run⟩ := modifyPackage_run (acc.1, acc.2 q.objType) first.distinct
        (formed q List.mem_cons_self) first.ready future
      have states := object_after (modifyPackage_ok run).1
      have later : ∃ acc' db', (qs.foldlM (runPackage env)
          (ct, Function.update acc.2 q.objType box)).run db₁ = .ok (acc', db') := by
        apply ih (fun q' member => formed q' (List.mem_cons_of_mem q member))
        intro pre q' post split
        rw [states, ← after_append]
        exact fits (q :: pre) q' post (by rw [split, List.cons_append])
      obtain ⟨acc', db', rest⟩ := later
      refine ⟨acc', db', ?_⟩
      rw [List.foldlM_cons, run_bind_eq_ok]
      refine ⟨_, db₁, ?_, rest⟩
      rw [runPackage, run_bind_eq_ok]
      exact ⟨_, db₁, run, rfl⟩

end Runs

end Cgimap.Osmchange.ModifySchedules
