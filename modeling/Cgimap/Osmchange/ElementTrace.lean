/- path: Cgimap/Osmchange/ElementTrace
   generality: I
   source: none
   digest: A document, element by element: each creates, modifies or deletes one object. -/

import Cgimap.Library.EventLog
import Cgimap.Osmchange.DocumentRuns

/-!
The handler works in batches and the updaters in packages. What an upload is for
does not depend on either: its elements, in document order, each act on the record
of one object, and some deletions are skipped. The batches refine this.
-/

set_option autoImplicit false
set_option relaxedAutoImplicit false

namespace Cgimap.Osmchange.ElementTrace

open Cgimap.Library.ExceptLists
open Cgimap.Library.EventLog
open Cgimap.Model.Types
open Cgimap.Model.Database
open Cgimap.Osmchange.DiffTracking
open Cgimap.Osmchange.UploadRecords
open Cgimap.Osmchange.UpdaterChecks
open Cgimap.Osmchange.Handler
open Cgimap.Osmchange.ObjectState
open Cgimap.Osmchange.WriteEffects
open Cgimap.Osmchange.Placeholders
open Cgimap.Osmchange.CreateEffects
open Cgimap.Osmchange.ModifyEffects
open Cgimap.Osmchange.DeleteEffects
open Cgimap.Osmchange.DocumentRuns

variable {t : ObjectType} {env : Env}

/-- One element with its ids resolved, and whether its deletion was skipped. -/
structure Event (t : ObjectType) where
  op : Operation
  elem : Elem t
  skipped : Bool

namespace Event

def act (now : Int) (id : Nat) (ev : Event t) (s : ObjState t) : ObjState t :=
  if ev.skipped then s
  else
    match ev.op with
    | .create => s.create now id ev.elem
    | .modify => s.modify now ev.elem
    | .delete => s.delete now ev.elem

/-- A creation needs a new id, a change the current version, and both a version
that the history does not have. Only deletions of known objects are skipped. -/
def Allowed (ev : Event t) (s : ObjState t) : Prop :=
  if ev.skipped then ev.op = .delete ∧ s.row.isSome
  else
    match ev.op with
    | .create => s.row = none ∧ s.history 1 = none
    | .modify => s.version? = some ev.elem.version ∧ ev.elem.version + 1 < versionBound ∧
        s.history (ev.elem.version + 1) = none
    | .delete => s.version? = some ev.elem.version ∧ s.visible = true ∧
        s.history (ev.elem.version + 1) = none

end Event

/-- Uploads as a machine over the records of all objects. -/
def machine (now : Int) : Machine (fun o : Obj => ObjState o.1) (fun o => Event o.1) where
  act {o} ev s := ev.act now o.2 s
  Allowed ev s := ev.Allowed s

def snapshot (db : Db) (o : Obj) : ObjState o.1 := object db o.1 o.2

abbrev Trace := Log (fun o : Obj => Event o.1)

section Records

def resolved (ct : Tracking) (e : Elem t) : Elem t :=
  match replaceOldIdsInElem ct e with
  | .ok e' => e'
  | .error _ => e

theorem replaceOldIds_eq_map {ct : Tracking} {es es' : List (Elem t)}
    (done : replaceOldIds ct es = .ok es') : es' = es.map (resolved ct) := by
  have all := (replaceOldIds_eq_ok.mp done).2
  rw [← List.forall₂_eq_eq_eq, List.forall₂_map_right_iff]
  refine all.flip.imp fun e' e resolves => ?_
  rw [resolved, replaceOldIdsInElem_eq_ok.mpr resolves]

theorem resolved_oldId (ct : Tracking) (e : Elem t) : (resolved ct e).oldId = e.oldId := by
  unfold resolved
  split
  · rename_i e' done
    exact (replaceOldIdsInElem_eq_ok.mp done).oldId
  · rfl

theorem elemOf_version {el : Element} (changes : el.op ≠ .create) :
    (elemOf env el).version = el.object.version := by
  obtain ⟨op, t, object, ifUnused⟩ := el
  cases op with
  | create => exact absurd rfl changes
  | modify => rfl
  | delete => rfl

theorem elemOf_id {el : Element} (changes : el.op ≠ .create) :
    (elemOf env el).id = toUnsigned el.object.id := by
  obtain ⟨op, t, object, ifUnused⟩ := el
  cases op with
  | create => exact absurd rfl changes
  | modify => rfl
  | delete => rfl

theorem elemOf_changesetId (el : Element) : (elemOf env el).changesetId = env.changeset := by
  unfold elemOf
  split <;> rfl

theorem elemOf_ifUnused {el : Element} (deletes : el.op = .delete) :
    (elemOf env el).ifUnused = el.ifUnused := by
  obtain ⟨op, t, object, ifUnused⟩ := el
  obtain rfl : op = .delete := deletes
  rfl

theorem resolved_of_mem {ct : Tracking} {els : List Element} {el : Element}
    {es : List (Elem el.objType)} (done : replaceOldIds ct (elemsIn env el.objType els) = .ok es)
    (member : el ∈ els) : Resolved ct (elemOf env el) (resolved ct (elemOf env el)) := by
  have inside : elemOf env el ∈ elemsIn env el.objType els :=
    List.mem_filterMap.mpr ⟨el, member, elemOf?_self el⟩
  obtain ⟨e, -, resolves⟩ := exists_of_mem_left (replaceOldIds_eq_ok.mp done).2 inside
  rw [resolved, replaceOldIdsInElem_eq_ok.mpr resolves]
  exact resolves

end Records

section Events

variable (env : Env) (ct : Tracking) (spared : Obj → Bool)

/-- What happened to some elements that were executed together: a deletion that spares its
object is skipped. -/
def traceBy (els : List Element) : Trace :=
  els.map fun el =>
    ⟨(el.objType, (resolved ct (elemOf env el)).id), ⟨el.op, resolved ct (elemOf env el),
      decide (el.op = .delete) && spared (el.objType, (resolved ct (elemOf env el)).id)⟩⟩

theorem eventsOf_traceBy (t : ObjectType) {op : Operation} {els : List Element}
    (ops : ∀ el ∈ els, el.op = op) (id : Nat) :
    eventsOf (traceBy env ct spared els) (t, id) =
      (elemsOf ((elemsIn env t els).map (resolved ct)) id).map
        (fun e => ⟨op, e, decide (op = .delete) && spared (t, id)⟩) := by
  induction els with
  | nil => rfl
  | cons el els ih =>
      have rest := ih fun d inside => ops d (List.mem_cons_of_mem el inside)
      have own := ops el List.mem_cons_self
      rw [traceBy, List.map_cons, ← traceBy]
      by_cases type : el.objType = t
      · subst type
        rw [elemsIn_cons_self, List.map_cons, elemsOf, List.filter_cons, ← elemsOf]
        by_cases same : (resolved ct (elemOf env el)).id = id
        · subst same
          rw [if_pos (decide_eq_true rfl), List.map_cons, ← rest, ← own]
          exact eventsOf_cons_self (E := fun o : Obj => Event o.1)
            (k := (el.objType, (resolved ct (elemOf env el)).id)) _ _
        · rw [if_neg (by simpa using same), ← rest]
          exact eventsOf_cons_other (fun key => same (congrArg Prod.snd key)) _
      · rw [elemsIn_cons_other (Ne.symm type), ← rest]
        exact eventsOf_cons_other (fun key => type (congrArg Prod.fst key)) _

end Events

section Refinement

private theorem modifications (now : Int) (id : Nat) {es : List (Elem t)} {s : ObjState t}
    (accepts : ObjState.Accepts now s es) :
    (machine now).LawfulAt (k := (t, id)) s (es.map (fun e => ⟨.modify, e, false⟩)) ∧
      (machine now).replayAt (k := (t, id)) s (es.map (fun e => ⟨.modify, e, false⟩)) =
        ObjState.modifyAll now es s := by
  induction es generalizing s with
  | nil => exact ⟨trivial, rfl⟩
  | cons e es ih =>
      obtain ⟨version, small, free, rest⟩ := accepts
      have next := ih rest
      exact ⟨⟨⟨version, small, free⟩, next.1⟩, next.2⟩

private theorem skips (now : Int) (id : Nat) (es : List (Elem t)) (s : ObjState t)
    (known : es ≠ [] → s.row.isSome) :
    (machine now).LawfulAt (k := (t, id)) s (es.map (fun e => ⟨.delete, e, true⟩)) ∧
      (machine now).replayAt (k := (t, id)) s (es.map (fun e => ⟨.delete, e, true⟩)) = s := by
  induction es with
  | nil => exact ⟨trivial, rfl⟩
  | cons e es ih =>
      have row := known (List.cons_ne_nil e es)
      have next := ih fun _ => row
      exact ⟨⟨⟨rfl, row⟩, next.1⟩, next.2⟩

abbrev Objects := (o : Obj) → ObjState o.1

/-- What has to be shown of each object. -/
def RefinesAt (now : Int) (S S' : Objects) (log : Trace) (o : Obj) : Prop :=
  (machine now).LawfulAt (S o) (eventsOf log o) ∧
    (machine now).replayAt (S o) (eventsOf log o) = S' o

/-- A deletion that leaves its object as visible as it was. -/
def sparedBy (S S' : Objects) (o : Obj) : Bool := !((S o).visible && !(S' o).visible)

variable {now : Int} {S S' : Objects} {ct : Tracking} {spared : Obj → Bool} {els : List Element}

private theorem refinesAt_of_nil {log : Trace} {o : Obj} (none : eventsOf log o = [])
    (same : S' o = S o) : RefinesAt now S S' log o := by
  rw [RefinesAt, none]
  exact ⟨trivial, same.symm⟩

theorem refines_of_each {log : Trace} (all : ∀ o, RefinesAt now S S' log o) :
    (machine now).Lawful S log ∧ (machine now).replay S log = S' := by
  rw [lawful_iff]
  refine ⟨fun o => (all o).1, funext fun o => ?_⟩
  rw [replay_at]
  exact (all o).2

theorem creations_refine {es : List (Elem t)}
    (ops : ∀ el ∈ els, el.op = .create ∧ el.objType = t)
    (replaced : replaceOldIds ct (elemsIn env t els) = .ok es) (distinct : (es.map Elem.id).Nodup)
    (fresh : ∀ e ∈ es, (S (t, e.id)).row = none)
    (unsaved : ∀ e ∈ es, (S (t, e.id)).history 1 = none)
    (same : ∀ id, S' (t, id) = (elemsOf es id).foldl (fun s e => s.create now id e) (S (t, id)))
    (other : ∀ t', t' ≠ t → ∀ id, S' (t', id) = S (t', id)) (o : Obj) :
    RefinesAt now S S' (traceBy env ct spared els) o := by
  obtain ⟨t', id⟩ := o
  have events := eventsOf_traceBy env ct spared t' (fun el member => (ops el member).1) id
  by_cases own : t' = t
  · subst own
    rw [← replaceOldIds_eq_map replaced] at events
    have after := same id
    by_cases present : id ∈ es.map Elem.id
    · obtain ⟨e, member, rfl⟩ := List.mem_map.mp present
      rw [elemsOf_eq_singleton distinct member] at events after
      rw [RefinesAt, events]
      exact ⟨⟨⟨fresh e member, unsaved e member⟩, trivial⟩, after.symm⟩
    · rw [elemsOf_eq_nil present] at events after
      exact refinesAt_of_nil events after
  · have none : elemsIn env t' els = [] := elemsIn_other (fun el member => (ops el member).2) own
    rw [none] at events
    exact refinesAt_of_nil events (other t' own id)

theorem modifications_refine {es : (t : ObjectType) → List (Elem t)}
    (ops : ∀ el ∈ els, el.op = .modify)
    (replaced : ∀ t, replaceOldIds ct (elemsIn env t els) = .ok (es t))
    (accepts : ∀ t id, ObjState.Accepts now (S (t, id)) (elemsOf (es t) id))
    (same : ∀ t id, S' (t, id) = ObjState.modifyAll now (elemsOf (es t) id) (S (t, id))) (o : Obj) :
    RefinesAt now S S' (traceBy env ct spared els) o := by
  obtain ⟨t, id⟩ := o
  have events := eventsOf_traceBy env ct spared t ops id
  rw [← replaceOldIds_eq_map (replaced t)] at events
  have steps := modifications now id (accepts t id)
  rw [RefinesAt, events]
  exact ⟨steps.1, steps.2.trans (same t id).symm⟩

theorem sparedBy_eq {executed : List (Elem t)} (shown : ∀ e ∈ executed, (S (t, e.id)).visible = true)
    (distinct : (executed.map Elem.id).Nodup)
    (same : ∀ id, S' (t, id) = (elemsOf executed id).foldl (fun s e => s.delete now e) (S (t, id)))
    (id : Nat) : sparedBy S S' (t, id) = decide (id ∉ executed.map Elem.id) := by
  by_cases present : id ∈ executed.map Elem.id
  · obtain ⟨e, member, rfl⟩ := List.mem_map.mp present
    have hidden : (S' (t, e.id)).visible = false := by
      rw [same, elemsOf_eq_singleton distinct member, List.foldl_cons, List.foldl_nil,
        ObjState.visible, ObjState.delete_row]
      cases (S (t, e.id)).row <;> rfl
    simp only [sparedBy, shown e member, hidden, present, not_true, decide_false]
    rfl
  · have after : S' (t, id) = S (t, id) := by
      rw [same, elemsOf_eq_nil present]
      rfl
    rw [sparedBy, after, decide_eq_true present]
    simp

theorem deletions_refine {es executed : List (Elem t)}
    (ops : ∀ el ∈ els, el.op = .delete ∧ el.objType = t)
    (replaced : replaceOldIds ct (elemsIn env t els) = .ok es)
    (known : ∀ e ∈ es, (S (t, e.id)).row.isSome)
    (together : ∀ id ∈ executed.map Elem.id, elemsOf es id = elemsOf executed id)
    (shown : ∀ e ∈ executed, (S (t, e.id)).visible = true)
    (distinct : (executed.map Elem.id).Nodup)
    (version : ∀ e ∈ executed, (S (t, e.id)).version? = some e.version)
    (unsaved : ∀ e ∈ executed, (S (t, e.id)).history (e.version + 1) = none)
    (same : ∀ id, S' (t, id) = (elemsOf executed id).foldl (fun s e => s.delete now e) (S (t, id)))
    (other : ∀ t', t' ≠ t → ∀ id, S' (t', id) = S (t', id)) (o : Obj) :
    RefinesAt now S S' (traceBy env ct (sparedBy S S') els) o := by
  obtain ⟨t', id⟩ := o
  have events := eventsOf_traceBy env ct (sparedBy S S') t' (fun el member => (ops el member).1) id
  by_cases own : t' = t
  · subst own
    rw [← replaceOldIds_eq_map replaced, sparedBy_eq shown distinct same] at events
    by_cases present : id ∈ executed.map Elem.id
    · -- the object is deleted by its only element
      rw [together id present, decide_eq_false (not_not.mpr present)] at events
      obtain ⟨e, member, rfl⟩ := List.mem_map.mp present
      have after : S' (t', e.id) = (S (t', e.id)).delete now e := by
        rw [same, elemsOf_eq_singleton distinct member]
        rfl
      rw [elemsOf_eq_singleton distinct member] at events
      rw [RefinesAt, events]
      exact ⟨⟨⟨version e member, shown e member, unsaved e member⟩, trivial⟩, after.symm⟩
    · have after : S' (t', id) = S (t', id) := by
        rw [same, elemsOf_eq_nil present]
        rfl
      rw [decide_eq_true present] at events
      have steps := skips now id (elemsOf es id) (S (t', id)) fun nonempty => ?_
      · rw [RefinesAt, events]
        exact ⟨steps.1, steps.2.trans after.symm⟩
      · obtain ⟨e, inside, rfl⟩ := elemsOf_ne_nil.mp nonempty
        exact known e inside
  · have none : elemsIn env t' els = [] := elemsIn_other (fun el member => (ops el member).2) own
    rw [none] at events
    exact refinesAt_of_nil events (other t' own id)

end Refinement

section Batches

variable (env : Env) (b : Batch)

def recordOf (el : Element) : Elem el.objType := resolved b.flushed.ct (elemOf env el)

def objectOf (el : Element) : Obj := (el.objType, (recordOf env b el).id)

/-- Whether the batch leaves the object as visible as it was. -/
def keeps (o : Obj) : Bool := !(b.before.visible o && !b.after.visible o)

/-- What happened to an element: a deletion that leaves its object as it was is
skipped. -/
def eventOf (el : Element) : Event el.objType :=
  ⟨el.op, recordOf env b el, decide (el.op = .delete) && keeps b (objectOf env b el)⟩

def traceOf : Trace := b.els.map (fun el => ⟨objectOf env b el, eventOf env b el⟩)

variable {env b}

theorem recordOf_resolved (effect : BatchEffect env b) {el : Element} (member : el ∈ b.els) :
    Resolved b.flushed.ct (elemOf env el) (recordOf env b el) := by
  cases effect with
  | create t es batch =>
      obtain rfl := (batch.ops el member).2
      exact resolved_of_mem batch.replaced member
  | modify es db₁ db₂ modified batch =>
      have same : b.flushed.ct.created = b.pushed.ct.created := by rw [batch.tracking]; rfl
      exact resolved_of_mem ((replaceOldIds_congr same).trans (batch.replaced _)) member
  | delete t es executed used deleted batch =>
      obtain rfl := (batch.ops el member).2
      have same : b.flushed.ct.created = b.pushed.ct.created := by rw [batch.tracking]; rfl
      exact resolved_of_mem ((replaceOldIds_congr same).trans batch.replaced) member

theorem recordOf_oldId (env : Env) (b : Batch) (el : Element) :
    (recordOf env b el).oldId = el.object.id :=
  (resolved_oldId b.flushed.ct _).trans (elemOf_oldId el)

theorem recordOf_version (effect : BatchEffect env b) {el : Element} (member : el ∈ b.els)
    (changes : el.op ≠ .create) : (recordOf env b el).version = el.object.version :=
  (recordOf_resolved effect member).version.trans (elemOf_version changes)

theorem traceOf_eq (env : Env) (b : Batch) :
    traceOf env b = traceBy env b.flushed.ct (sparedBy (snapshot b.before) (snapshot b.after)) b.els := by
  have same : keeps b = sparedBy (snapshot b.before) (snapshot b.after) := by
    funext o
    rw [keeps, visible_eq, visible_eq]
    rfl
  rw [← same]
  rfl

theorem eventsOf_traceOf (env : Env) (t : ObjectType) {op : Operation} (ops : ∀ el ∈ b.els, el.op = op) (id : Nat) :
    eventsOf (traceOf env b) (t, id) =
      (elemsOf ((elemsIn env t b.els).map (resolved b.flushed.ct)) id).map
        (fun e => ⟨op, e, decide (op = .delete) && keeps b (t, id)⟩) :=
  eventsOf_traceBy env b.flushed.ct (keeps b) t ops id

/-- A batch does what its elements say, one after the other. -/
theorem batch_refines (effect : BatchEffect env b) :
    (machine env.now).Lawful (snapshot b.before) (traceOf env b) ∧
      (machine env.now).replay (snapshot b.before) (traceOf env b) = snapshot b.after := by
  rw [traceOf_eq]
  refine refines_of_each ?_
  cases effect with
  | create t es batch =>
      exact creations_refine batch.ops batch.replaced batch.effect.distinct batch.effect.fresh
        batch.effect.unsaved batch.effect.acts.same batch.effect.acts.other
  | modify es db₁ db₂ modified batch =>
      have same : b.flushed.ct.created = b.pushed.ct.created := by rw [batch.tracking]; rfl
      exact modifications_refine batch.ops
        (fun t => (replaceOldIds_congr same).trans (batch.replaced t))
        (fun t id => (batch.object t id).1) (fun t id => (batch.object t id).2)
  | delete t es executed used deleted batch =>
      have same : b.flushed.ct.created = b.pushed.ct.created := by rw [batch.tracking]; rfl
      have effect := batch.effect
      exact deletions_refine batch.ops ((replaceOldIds_congr same).trans batch.replaced)
        effect.known (fun id => elemsOf_executed effect)
        (fun e member => (visible_eq b.before t e.id).symm.trans (effect.mem_executed.mp member).2.1)
        effect.matching.distinct effect.matching.version effect.unsaved effect.acts.same
        effect.acts.other

end Batches

/-- The elements of a processed document, in document order, and what happened to
them. -/
def documentTrace (env : Env) (batches : List Batch) : Trace := batches.flatMap (traceOf env)

/-- The elements in document order, each with its batch. -/
def elementsOf (batches : List Batch) : List (Batch × Element) :=
  batches.flatMap (fun b => b.els.map (fun el => (b, el)))

theorem elementsOf_els (batches : List Batch) :
    (elementsOf batches).map Prod.snd = batches.flatMap Batch.els := by
  simp [elementsOf, List.map_flatMap, Function.comp_def]

theorem mem_elementsOf {batches : List Batch} {p : Batch × Element} :
    p ∈ elementsOf batches ↔ p.1 ∈ batches ∧ p.2 ∈ p.1.els := by
  simp only [elementsOf, List.mem_flatMap, List.mem_map]
  constructor
  · rintro ⟨b, inside, el, member, rfl⟩
    exact ⟨inside, member⟩
  · exact fun ⟨inside, member⟩ => ⟨p.1, inside, p.2, member, rfl⟩

theorem documentTrace_eq_map (env : Env) (batches : List Batch) :
    documentTrace env batches = (elementsOf batches).map
      (fun p => ⟨objectOf env p.1 p.2, eventOf env p.1 p.2⟩) := by
  simp only [documentTrace, elementsOf, List.map_flatMap, List.map_map, Function.comp_def]
  rfl

theorem mem_documentTrace {batches : List Batch} {x : (o : Obj) × Event o.1} :
    x ∈ documentTrace env batches ↔
      ∃ b ∈ batches, ∃ el ∈ b.els, x = ⟨objectOf env b el, eventOf env b el⟩ := by
  rw [documentTrace_eq_map, List.mem_map]
  constructor
  · rintro ⟨p, member, rfl⟩
    obtain ⟨inside, here⟩ := mem_elementsOf.mp member
    exact ⟨p.1, inside, p.2, here, rfl⟩
  · rintro ⟨b, inside, el, member, rfl⟩
    exact ⟨(b, el), mem_elementsOf.mpr ⟨inside, member⟩, rfl⟩

theorem effect_of_executed {doc : List Element} {db db' : Db} {batches : List Batch} {st : Upload}
    (executed : Executed env doc db batches st db') : ∀ b ∈ batches, BatchEffect env b := by
  obtain ⟨st₁, runs, -⟩ := executed.runs
  refine runs.invariant (I := fun done _ _ => ∀ b ∈ done, BatchEffect env b) (idle_empty env)
    (fun b member => (List.not_mem_nil member).elim) fun done st₂ b _ before _ effect => ?_
  rw [List.forall_mem_append, List.forall_mem_singleton]
  exact ⟨before, effect⟩

/-- A processed document does what its elements say, one after the other. -/
theorem document_refines {doc : List Element} {db db' : Db} {batches : List Batch} {st : Upload}
    (executed : Executed env doc db batches st db') :
    (machine env.now).Lawful (snapshot db) (documentTrace env batches) ∧
      (machine env.now).replay (snapshot db) (documentTrace env batches) = snapshot db' := by
  obtain ⟨st₁, runs, -⟩ := executed.runs
  refine runs.invariant (I := fun done _ db' =>
    (machine env.now).Lawful (snapshot db) (documentTrace env done) ∧
      (machine env.now).replay (snapshot db) (documentTrace env done) = snapshot db')
    (idle_empty env) ⟨trivial, rfl⟩ fun done st₂ b _ before _ effect => ?_
  obtain ⟨lawful, replayed⟩ := before
  obtain ⟨next, after⟩ := batch_refines effect
  have split : documentTrace env (done ++ [b]) = documentTrace env done ++ traceOf env b := by
    simp [documentTrace]
  rw [split, lawful_append, replay_append, replayed]
  exact ⟨⟨lawful, next⟩, after⟩

/-- An object goes through the events of its own. -/
theorem object_refines {doc : List Element} {db db' : Db} {batches : List Batch} {st : Upload}
    (executed : Executed env doc db batches st db') (t : ObjectType) (id : Nat) :
    (machine env.now).LawfulAt (k := (t, id)) (object db t id)
        (eventsOf (documentTrace env batches) (t, id)) ∧
      (machine env.now).replayAt (k := (t, id)) (object db t id)
        (eventsOf (documentTrace env batches) (t, id)) = object db' t id := by
  obtain ⟨lawful, replayed⟩ := document_refines executed
  have final := congrFun replayed (t, id)
  rw [replay_at] at final
  exact ⟨(lawful_iff _).mp lawful (t, id), final⟩

end Cgimap.Osmchange.ElementTrace
