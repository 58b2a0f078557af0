/- path: Cgimap/Osmchange/Integrity
   generality: I
   source: test/structure.sql
   digest: References point to visible objects before and after every document. -/

import Cgimap.Osmchange.DocumentRuns

set_option autoImplicit false
set_option relaxedAutoImplicit false

namespace Cgimap.Osmchange.Integrity

open Cgimap.Library.ExceptLists
open Cgimap.Library.KeyedTable
open Cgimap.Library.StatementProgram
open Cgimap.Library.StatementProgram.Prog
open Cgimap.Model.Types
open Cgimap.Model.Database
open Cgimap.Osmchange.UploadRecords
open Cgimap.Osmchange.UpdaterChecks
open Cgimap.Osmchange.Handler
open Cgimap.Osmchange.ObjectState
open Cgimap.Osmchange.WriteEffects
open Cgimap.Osmchange.CheckEffects
open Cgimap.Osmchange.DeletionEffects
open Cgimap.Osmchange.Placeholders
open Cgimap.Osmchange.CreateEffects
open Cgimap.Osmchange.ModifyEffects
open Cgimap.Osmchange.DeleteEffects
open Cgimap.Osmchange.DocumentRuns

variable {t : ObjectType} {db db' : Db} {env : Env}

/-- The foreign keys of the schema that tie a row to the version it belongs to. -/
structure ForeignKeys (db : Db) : Prop where
  tags : ∀ t, ∀ r ∈ db.currentTags t, ((db.current t).find? r.owner).isSome
  refs : ∀ t, ∀ r ∈ db.currentRefs t, ((db.current t).find? r.owner).isSome
  historyTags : ∀ t, ∀ r ∈ db.historyTags t, ((db.history t).find? (r.owner, r.version)).isSome
  historyRefs : ∀ t, ∀ r ∈ db.historyRefs t, ((db.history t).find? (r.owner, r.version)).isSome

/-- Nodes and ways that are referred to are visible. -/
structure NodeWayIntegrity (db : Db) : Prop where
  wayNodes : ∀ r ∈ db.currentRefs .way, db.visible (.way, r.owner) = true →
    db.visible r.ref.target = true
  members : ∀ r ∈ db.currentRefs .relation, r.ref.target.1 ≠ .relation →
    db.visible r.ref.target = true
  deleted : ∀ t, ∀ r ∈ db.currentRefs t, ∀ row, (db.current t).find? r.owner = some row →
    row.visible = true

/-- Relations that are members of visible relations are visible. -/
structure RelationIntegrity (db : Db) : Prop where
  members : ∀ r ∈ db.currentRefs .relation, db.visible (.relation, r.owner) = true →
    r.ref.target.1 = .relation → db.visible r.ref.target = true
  deleted : ∀ r ∈ db.currentRefs .relation, ∀ row,
    (db.current .relation).find? r.owner = some row → row.visible = true

section Refers

/-- The object `id` of type `t` has a reference to `o`. -/
def Refers (db : Db) (t : ObjectType) (id : Nat) (o : Obj) : Prop :=
  ∃ r ∈ db.currentRefs t, r.owner = id ∧ r.ref.target = o

theorem refers_iff {id : Nat} {o : Obj} :
    Refers db t id o ↔ ∃ p ∈ (object db t id).refs, p.2.target = o := by
  simp only [Refers, object, Db.refsOf, List.mem_map, Table.mem_select, decide_eq_true_eq]
  constructor
  · rintro ⟨r, row, owner, target⟩
    exact ⟨(r.sequenceId, r.ref), ⟨r, ⟨row, owner⟩, rfl⟩, target⟩
  · rintro ⟨p, ⟨r, ⟨row, owner⟩, rfl⟩, target⟩
    exact ⟨r, row, owner, target⟩

theorem Refers.owner_type {id : Nat} {o : Obj} (refers : Refers db t id o) :
    t ≠ .node ∧ (t = .way → o.1 = .node) := by
  obtain ⟨r, -, -, rfl⟩ := refers
  cases t with
  | node => exact nomatch r.ref
  | way => exact ⟨nofun, fun _ => rfl⟩
  | relation => exact ⟨nofun, nofun⟩

end Refers

/-- Objects of the types in `O` with references are visible, and so is what they
refer to as far as its type is in `T`. -/
structure Linked (O T : ObjectType → Prop) (db : Db) : Prop where
  owners : ∀ t id o, O t → Refers db t id o → db.visible (t, id) = true
  targets : ∀ t id o, O t → T o.1 → Refers db t id o → db.visible o = true

section Tables

private theorem visible_of_row {id : Nat} (known : ((db.current t).find? id).isSome)
    (shown : ∀ row, (db.current t).find? id = some row → row.visible = true) :
    db.visible (t, id) = true := by
  obtain ⟨row, found⟩ := Option.isSome_iff_exists.mp known
  simp only [Db.visible, found]
  exact shown row found

private theorem row_visible {id : Nat} {row : CurrentRow t} (shown : db.visible (t, id) = true)
    (found : (db.current t).find? id = some row) : row.visible = true := by
  simpa only [Db.visible, found] using shown

theorem nodeWayIntegrity_iff (keys : ForeignKeys db) :
    NodeWayIntegrity db ↔ Linked (fun _ => True) (fun t => t ≠ .relation) db := by
  constructor
  · intro h
    have owners : ∀ t id o, True → Refers db t id o → db.visible (t, id) = true := by
      rintro t id o - ⟨r, row, rfl, -⟩
      exact visible_of_row (keys.refs t r row) (h.deleted t r row)
    refine ⟨owners, fun t id o _ type refers => ?_⟩
    have own := owners t id o trivial refers
    obtain ⟨r, row, rfl, rfl⟩ := refers
    cases t with
    | node => exact nomatch r.ref
    | way => exact h.wayNodes r row own
    | relation => exact h.members r row type
  · intro h
    refine ⟨fun r row _ => ?_, fun r row type => ?_, fun t r row c found => ?_⟩
    · exact h.targets .way r.owner _ trivial nofun ⟨r, row, rfl, rfl⟩
    · exact h.targets .relation r.owner _ trivial type ⟨r, row, rfl, rfl⟩
    · exact row_visible (h.owners t r.owner _ trivial ⟨r, row, rfl, rfl⟩) found

theorem relationIntegrity_iff (keys : ForeignKeys db) :
    RelationIntegrity db ↔ Linked (fun t => t = .relation) (fun t => t = .relation) db := by
  constructor
  · intro h
    have owners : ∀ t id o, t = .relation → Refers db t id o → db.visible (t, id) = true := by
      rintro t id o rfl ⟨r, row, rfl, -⟩
      exact visible_of_row (keys.refs _ r row) (h.deleted r row)
    refine ⟨owners, fun t id o own type refers => ?_⟩
    have shown := owners t id o own refers
    subst own
    obtain ⟨r, row, rfl, rfl⟩ := refers
    exact h.members r row shown type
  · intro h
    refine ⟨fun r row _ type => ?_, fun r row c found => ?_⟩
    · exact h.targets .relation r.owner _ rfl type ⟨r, row, rfl, rfl⟩
    · exact row_visible (h.owners .relation r.owner _ rfl ⟨r, row, rfl, rfl⟩) found

end Tables

section Writes

structure Writes (es : List (Elem t)) (db db' : Db) : Prop where
  shown : ∀ o, db.visible o = true → db'.visible o = true
  written : ∀ e ∈ es, db'.visible (t, e.id) = true
  refers : ∀ t' id o, Refers db' t' id o → Refers db t' id o ∨
    (t' = t ∧ ∃ e ∈ es, e.id = id ∧ ∃ r ∈ e.refs, r.ref.target = o)
  future : FutureVisible db es (es.map Elem.id)

variable {es : List (Elem t)} {O T : ObjectType → Prop}

theorem Linked.of_writes (linked : Linked O T db) (w : Writes es db db') : Linked O T db' := by
  refine ⟨fun t' id o own refers => ?_, fun t' id o own type refers => ?_⟩
  · rcases w.refers t' id o refers with old | ⟨rfl, e, member, rfl, -⟩
    · exact w.shown _ (linked.owners t' id o own old)
    · exact w.written e member
  · rcases w.refers t' id o refers with old | ⟨rfl, e, member, rfl, r, inside, rfl⟩
    · exact w.shown _ (linked.targets t' id o own type old)
    · rcases w.future e member r inside with shown | ⟨relation, locked⟩
      · exact w.shown _ shown
      · -- the element's own batch writes the relation it refers to
        obtain ⟨d, there, same⟩ := List.mem_map.mp locked
        obtain rfl := Ref.target_relation r.ref relation
        have visible := w.written d there
        have target : r.ref.target = (.relation, d.id) := Prod.ext relation same.symm
        rwa [target]

private theorem refers_of_object {t' : ObjectType} {id : Nat}
    (same : object db' t' id = object db t' id) {o : Obj} :
    Refers db' t' id o ↔ Refers db t' id o := by
  rw [refers_iff, refers_iff, same]

private theorem mem_refsOfElem {e : Elem t} {o : Obj}
    (refers : ∃ p ∈ ObjState.refsOfElem e, p.2.target = o) : ∃ r ∈ e.refs, r.ref.target = o := by
  obtain ⟨p, member, target⟩ := refers
  obtain ⟨r, inside, rfl⟩ := List.mem_map.mp member
  exact ⟨r, inside, target⟩

theorem writes_of_create (effect : CreateEffect env es db db') : Writes es db db' := by
  have absent : ∀ id, id ∉ es.map Elem.id → object db' t id = object db t id := fun id none => by
    rw [effect.acts.same, elemsOf_eq_nil none]
    rfl
  have created : ∀ e ∈ es, object db' t e.id = (object db t e.id).create env.now e.id e :=
    fun e member => by
      rw [effect.acts.same, elemsOf_eq_singleton effect.distinct member]
      rfl
  refine ⟨fun o shown => ?_, fun e member => ?_, fun t' id o refers => ?_, effect.future⟩
  · obtain ⟨t', id⟩ := o
    rw [visible_eq] at shown ⊢
    by_cases own : t' = t
    · subst own
      by_cases present : id ∈ es.map Elem.id
      · obtain ⟨e, member, rfl⟩ := List.mem_map.mp present
        rw [effect.fresh e member] at shown
        cases shown
      · rwa [absent id present]
    · rwa [effect.acts.other t' own]
  · rw [visible_eq, created e member]
    simp
  · by_cases own : t' = t
    · subst own
      by_cases present : id ∈ es.map Elem.id
      · obtain ⟨e, member, rfl⟩ := List.mem_map.mp present
        rw [refers_iff, created e member, ObjState.create_refs] at refers
        obtain ⟨p, inside, target⟩ := refers
        rcases List.mem_append.mp inside with old | new
        · exact .inl (refers_iff.mpr ⟨p, old, target⟩)
        · exact .inr ⟨rfl, e, member, rfl, mem_refsOfElem ⟨p, new, target⟩⟩
      · exact .inl ((refers_of_object (absent id present)).mp refers)
    · exact .inl ((refers_of_object (effect.acts.other t' own id)).mp refers)

private theorem modifyAll_last (now : Int) (s : ObjState t) (es : List (Elem t)) (e : Elem t) :
    (ObjState.modifyAll now (es ++ [e]) s).refs = ObjState.refsOfElem e ∧
      (s.row.isSome → (ObjState.modifyAll now (es ++ [e]) s).visible = true) := by
  rw [ObjState.modifyAll_append]
  refine ⟨rfl, fun known => ?_⟩
  have kept : (ObjState.modifyAll now es s).row.isSome := by
    induction es generalizing s with
    | nil => exact known
    | cons d es ih => exact ih (s.modify now d) (by simpa using known)
  obtain ⟨r, found⟩ := Option.isSome_iff_exists.mp kept
  change ((ObjState.modifyAll now es s).modify now e).visible = true
  simp [ObjState.visible, found, SqlStatements.setRow]

theorem writes_of_modify (effect : ModifyEffect env es db db') : Writes es db db' := by
  have absent : ∀ id, id ∉ es.map Elem.id → object db' t id = object db t id := fun id none => by
    rw [effect.acts.same, elemsOf_eq_nil none]
    rfl
  -- an object of the batch is visible and refers to what its last element says
  have touched : ∀ id ∈ es.map Elem.id, db'.visible (t, id) = true ∧
      ∃ e ∈ es, e.id = id ∧ (object db' t id).refs = ObjState.refsOfElem e := by
    intro id present
    obtain ⟨d, there, rfl⟩ := List.mem_map.mp present
    have nonempty : elemsOf es d.id ≠ [] := by
      intro nil
      have inside : d ∈ elemsOf es d.id := mem_elemsOf.mpr ⟨there, rfl⟩
      rw [nil] at inside
      cases inside
    obtain ⟨front, e, split⟩ := List.eq_nil_or_concat' (elemsOf es d.id) |>.resolve_left nonempty
    have last : e ∈ elemsOf es d.id := by simp [split]
    have known : (object db t d.id).row.isSome := by
      have accepts := effect.accepts d.id
      cases list : elemsOf es d.id with
      | nil => exact absurd list nonempty
      | cons first rest =>
          rw [list] at accepts
          have version := accepts.1
          unfold ObjState.version? at version
          rw [Option.map_eq_some_iff] at version
          obtain ⟨r, found, -⟩ := version
          rw [found]
          rfl
    have all := modifyAll_last env.now (object db t d.id) front e
    rw [visible_eq]
    rw [effect.acts.same, split]
    exact ⟨all.2 known, e, (mem_elemsOf.mp last).1, (mem_elemsOf.mp last).2, all.1⟩
  refine ⟨fun o shown => ?_, fun e member => ?_, fun t' id o refers => ?_, effect.future⟩
  · obtain ⟨t', id⟩ := o
    by_cases own : t' = t
    · subst own
      by_cases present : id ∈ es.map Elem.id
      · exact (touched id present).1
      · rw [visible_eq] at shown ⊢
        rwa [absent id present]
    · rw [visible_eq] at shown ⊢
      rwa [effect.acts.other t' own]
  · exact (touched e.id (List.mem_map_of_mem member)).1
  · by_cases own : t' = t
    · subst own
      by_cases present : id ∈ es.map Elem.id
      · obtain ⟨-, e, member, same, refs⟩ := touched id present
        rw [refers_iff, refs] at refers
        exact .inr ⟨rfl, e, member, same, mem_refsOfElem refers⟩
      · exact .inl ((refers_of_object (absent id present)).mp refers)
    · exact .inl ((refers_of_object (effect.acts.other t' own id)).mp refers)

end Writes

section Deletes

variable {es executed : List (Elem t)} {used : List DiffTracking.ObjectIdMapping}
  {O T : ObjectType → Prop}

/-- A delete batch keeps the links when all that refers to a deleted object is
deleted with it. -/
theorem Linked.of_delete (linked : Linked O T db)
    (effect : DeleteEffect env es executed used db db')
    (together : T t → ∀ e ∈ executed, ∀ t' id, O t' → Refers db t' id (t, e.id) →
      t' = t ∧ id ∈ executed.map Elem.id) : Linked O T db' := by
  have kept : ∀ t' id o, Refers db' t' id o →
      Refers db t' id o ∧ ¬ (t' = t ∧ id ∈ executed.map Elem.id) := by
    intro t' id o refers
    by_cases gone : t' = t ∧ id ∈ executed.map Elem.id
    · obtain ⟨rfl, present⟩ := gone
      obtain ⟨e, member, rfl⟩ := List.mem_map.mp present
      rw [refers_iff, object_executed effect member] at refers
      obtain ⟨p, inside, -⟩ := refers
      cases inside
    · exact ⟨(refers_of_object (object_spared effect gone)).mp refers, gone⟩
  refine ⟨fun t' id o own refers => ?_, fun t' id o own type refers => ?_⟩
  · obtain ⟨old, free⟩ := kept t' id o refers
    rw [visible_eq, object_spared effect free, ← visible_eq]
    exact linked.owners t' id o own old
  · obtain ⟨old, free⟩ := kept t' id o refers
    obtain ⟨ty, target⟩ := o
    by_cases gone : ty = t ∧ target ∈ executed.map Elem.id
    · obtain ⟨rfl, present⟩ := gone
      obtain ⟨e, member, rfl⟩ := List.mem_map.mp present
      exact absurd (together type e member t' id own old) free
    · rw [visible_eq, object_spared effect gone, ← visible_eq]
      exact linked.targets t' id _ own type old

theorem not_refers_of_executed (effect : DeleteEffect env es executed used db db')
    (flat : t ≠ .relation) {e : Elem t} (member : e ∈ executed) (t' : ObjectType) (id : Nat) :
    ¬ Refers db t' id (t, e.id) := by
  intro refers
  obtain ⟨inside, shown, free⟩ := effect.mem_executed.mp member
  obtain ⟨notNode, wayNode⟩ := refers.owner_type
  refine free ⟨List.mem_map_of_mem (mem_visibleElems.mpr ⟨inside, shown⟩), .inl ?_⟩
  obtain ⟨r, row, -, target⟩ := refers
  cases t with
  | node =>
      cases t' with
      | node => exact absurd rfl notNode
      | way => exact .inl ⟨r, row, target⟩
      | relation => exact .inr ⟨r, row, target⟩
  | way =>
      cases t' with
      | node => exact absurd rfl notNode
      | way => exact nomatch wayNode rfl
      | relation => exact ⟨r, row, target⟩
  | relation => exact absurd rfl flat

/-- No relation of the batch without if-unused flag is a direct or indirect member
of a relation of the batch that a visible relation outside of the batch uses. -/
def FlaggedBelowUsed (db : Db) (es : List (Elem .relation)) : Prop :=
  ∀ id ∈ es.map Elem.id, id ∉ idsIfUnused es →
    ∀ a ∈ es.map Elem.id, Used db .relation (es.map Elem.id) a →
      ¬ Relation.TransGen (Child db) a id

theorem child_of_refers {a b : Nat} (shown : db.visible (.relation, a) = true)
    (refers : Refers db .relation a (.relation, b)) : Child db a b := by
  obtain ⟨r, row, owner, target⟩ := refers
  refine ⟨?_, r, row, owner, target⟩
  unfold Db.visible at shown
  cases found : (db.current .relation).find? a with
  | none => simp [found] at shown
  | some c => rfl

/-- With the condition, the relations that refer to a deleted one are deleted too. -/
theorem parents_executed {es executed : List (Elem .relation)}
    (linked : Linked (fun t => t = .relation) (fun t => t = .relation) db)
    (effect : DeleteEffect env es executed used db db')
    (below : FlaggedBelowUsed db (visibleElems db es)) {e : Elem .relation} (member : e ∈ executed)
    {id : Nat} (refers : Refers db .relation id (.relation, e.id)) :
    id ∈ executed.map Elem.id := by
  obtain ⟨inside, shown, free⟩ := effect.mem_executed.mp member
  have own : e.id ∈ (visibleElems db es).map Elem.id :=
    List.mem_map_of_mem (mem_visibleElems.mpr ⟨inside, shown⟩)
  have parent := linked.owners .relation id _ rfl refers
  have child := child_of_refers parent refers
  -- the parent is in the batch, otherwise the child would be in use
  have batch : id ∈ (visibleElems db es).map Elem.id := by
    by_contra outside
    refine free ⟨own, .inl ?_⟩
    obtain ⟨r, row, owner, target⟩ := refers
    subst owner
    exact ⟨r, row, target, parent, outside⟩
  obtain ⟨d, there, same⟩ := List.mem_map.mp batch
  subst same
  obtain ⟨present, visible⟩ := mem_visibleElems.mp there
  refine List.mem_map_of_mem (effect.mem_executed.mpr ⟨present, visible, fun blocked => ?_⟩)
  -- a blocked parent blocks every flagged relation below it
  have above : ∃ a ∈ (visibleElems db es).map Elem.id,
      Used db .relation ((visibleElems db es).map Elem.id) a ∧
        Relation.TransGen (Child db) a e.id := by
    obtain ⟨-, direct | ⟨-, -, a, there, direct, chain⟩⟩ := blocked
    · exact ⟨d.id, batch, direct, .single child⟩
    · exact ⟨a, there, direct, chain.tail child⟩
  obtain ⟨a, there, direct, chain⟩ := above
  by_cases flagged : e.id ∈ idsIfUnused (visibleElems db es)
  · exact free ⟨own, .inr ⟨rfl, flagged, a, there, direct, chain⟩⟩
  · exact below e.id own flagged a there direct chain

/-- Without the condition a relation is deleted below one that stays. -/
theorem flaggedBelowUsed_of_linked {es executed : List (Elem .relation)}
    (effect : DeleteEffect env es executed used db db')
    (linked : Linked (fun t => t = .relation) (fun t => t = .relation) db') :
    FlaggedBelowUsed db (visibleElems db es) := by
  intro id batch plain a there direct chain
  -- nothing that is reachable from a relation in use is deleted
  have stays : ∀ x, Relation.ReflTransGen (Child db) a x → x ∉ executed.map Elem.id := by
    intro x reach
    induction reach with
    | refl =>
        intro inside
        obtain ⟨e, member, rfl⟩ := List.mem_map.mp inside
        exact (effect.mem_executed.mp member).2.2 ⟨there, .inl direct⟩
    | @tail x y _ child ih =>
        intro inside
        obtain ⟨e, member, rfl⟩ := List.mem_map.mp inside
        obtain ⟨-, r, row, owner, target⟩ := child
        have same : object db' .relation x = object db .relation x :=
          object_spared effect fun gone => ih gone.2
        have refers : Refers db' .relation x (.relation, e.id) :=
          (refers_of_object same).mpr ⟨r, row, owner, target⟩
        have visible := linked.targets .relation x _ rfl rfl refers
        rw [hidden_of_executed effect member] at visible
        cases visible
  obtain ⟨e, member, rfl⟩ := List.mem_map.mp batch
  obtain ⟨inside, visible⟩ := mem_visibleElems.mp member
  refine stays e.id chain.to_reflTransGen (List.mem_map_of_mem
    (effect.mem_executed.mpr ⟨inside, visible, fun blocked => ?_⟩))
  obtain ⟨-, used | ⟨-, flagged, -⟩⟩ := blocked
  · exact plain (mem_idsIfUnused.mpr ⟨e, member, effect.kept.flagged e member used, rfl⟩)
  · exact plain flagged

end Deletes

section Keys

/-- The foreign keys, read at one object. -/
structure Owned (s : ObjState t) : Prop where
  current : s.row = none → s.tags = [] ∧ s.refs = []
  history : ∀ v, s.history v = none → s.historyTags v = [] ∧ s.historyRefs v = []

private theorem keyed_iff {α κ β γ δ : Type} {key : α → κ} (T : Table key) (owner : α → β)
    (rows : β → Option γ) (p : β → α → Bool) (own : ∀ b r, p b r = true ↔ owner r = b)
    (f : α → δ) :
    (∀ r ∈ T, (rows (owner r)).isSome) ↔ ∀ b, rows b = none → (T.select (p b)).map f = [] := by
  have empty : ∀ b, (T.select (p b)).map f = [] ↔ ∀ r ∈ T, owner r ≠ b := by
    intro b
    rw [List.map_eq_nil_iff, List.eq_nil_iff_forall_not_mem]
    simp only [Table.mem_select, own, not_and, ne_eq]
  simp only [empty]
  constructor
  · rintro known b none r row rfl
    exact absurd none (Option.isSome_iff_ne_none.mp (known r row))
  · exact fun absent r row => Option.isSome_iff_ne_none.mpr fun none =>
      absent (owner r) none r row rfl

theorem foreignKeys_iff : ForeignKeys db ↔ ∀ t id, Owned (object db t id) := by
  have tags := fun t => keyed_iff (db.currentTags t) TagRow.owner (db.current t).find?
    (fun id r => decide (r.owner = id)) (by simp) (fun r => (r.k, r.v))
  have refs := fun t => keyed_iff (db.currentRefs t) RefRow.owner (db.current t).find?
    (fun id r => decide (r.owner = id)) (by simp) (fun r => (r.sequenceId, r.ref))
  have historyTags := fun t => keyed_iff (db.historyTags t) (fun r => (r.owner, r.version))
    (db.history t).find? (fun k r => decide (r.owner = k.1 ∧ r.version = k.2))
    (by simp [Prod.ext_iff]) (fun r => (r.k, r.v))
  have historyRefs := fun t => keyed_iff (db.historyRefs t) (fun r => (r.owner, r.version))
    (db.history t).find? (fun k r => decide (r.owner = k.1 ∧ r.version = k.2))
    (by simp [Prod.ext_iff]) (fun r => (r.sequenceId, r.ref))
  constructor
  · intro keys t id
    exact ⟨fun none => ⟨(tags t).mp (keys.tags t) id none, (refs t).mp (keys.refs t) id none⟩,
      fun v none => ⟨(historyTags t).mp (keys.historyTags t) (id, v) none,
        (historyRefs t).mp (keys.historyRefs t) (id, v) none⟩⟩
  · intro owned
    exact ⟨fun t => (tags t).mpr fun id none => ((owned t id).current none).1,
      fun t => (refs t).mpr fun id none => ((owned t id).current none).2,
      fun t => (historyTags t).mpr fun k none => ((owned t k.1).history k.2 none).1,
      fun t => (historyRefs t).mpr fun k none => ((owned t k.1).history k.2 none).2⟩

section Objects

variable {s : ObjState t} {now : Int}

private theorem history_archive
    (owned : ∀ v, s.history v = none → s.historyTags v = [] ∧ s.historyRefs v = []) (v : Nat)
    (none : s.archive.history v = none) :
    s.archive.historyTags v = [] ∧ s.archive.historyRefs v = [] := by
  rw [ObjState.archive_history, Option.or_eq_none_iff, Option.map_eq_none_iff] at none
  obtain ⟨old, new⟩ := none
  have other : ObjState.version? s ≠ some v := by
    unfold ObjState.version?
    cases row : s.row with
    | none => simp
    | some r =>
        rw [row, Option.filter_eq_none_iff] at new
        simpa using new r rfl
  obtain ⟨tags, refs⟩ := owned v old
  rw [ObjState.archive_historyTags, ObjState.archive_historyRefs, if_neg other, if_neg other, tags,
    refs]
  exact ⟨rfl, rfl⟩

theorem owned_modify (owned : Owned s) (known : s.row.isSome) (e : Elem t) :
    Owned (s.modify now e) := by
  refine ⟨fun none => ?_, history_archive owned.history⟩
  obtain ⟨r, found⟩ := Option.isSome_iff_exists.mp known
  simp [found] at none

theorem owned_delete (owned : Owned s) (e : Elem t) : Owned (s.delete now e) :=
  ⟨fun _ => ⟨rfl, rfl⟩, history_archive owned.history⟩

theorem owned_create (owned : Owned s) (fresh : s.row = none) (id : Nat) (e : Elem t) :
    Owned (s.create now id e) := by
  refine ⟨fun none => by simp at none, ?_⟩
  rw [ObjState.create_eq_archive s now e id (owned.current fresh).1]
  exact history_archive owned.history

end Objects

section Effects

variable {es executed : List (Elem t)} {used : List DiffTracking.ObjectIdMapping}

/-- A change to the objects of one type keeps the keys when it keeps them at each
object. -/
private theorem foreignKeys_of_acts {f : Nat → ObjState t → ObjState t} (keys : ForeignKeys db)
    (acts : Acts t f db db')
    (step : ∀ id, Owned (object db t id) → Owned (f id (object db t id))) : ForeignKeys db' := by
  rw [foreignKeys_iff] at keys ⊢
  intro t' id
  by_cases own : t' = t
  · subst own
    rw [acts.same]
    exact step id (keys t' id)
  · rw [acts.other t' own]
    exact keys t' id

theorem ForeignKeys.of_create (keys : ForeignKeys db) (effect : CreateEffect env es db db') :
    ForeignKeys db' := by
  have same : ForeignKeys (bumped db t es.length) := ⟨keys.tags, keys.refs, keys.historyTags,
    keys.historyRefs⟩
  refine foreignKeys_of_acts same effect.acts fun id owned => ?_
  by_cases present : id ∈ es.map Elem.id
  · obtain ⟨e, member, rfl⟩ := List.mem_map.mp present
    rw [elemsOf_eq_singleton effect.distinct member]
    exact owned_create owned (effect.fresh e member) e.id e
  · rw [elemsOf_eq_nil present]
    exact owned

private theorem owned_modifyAll {now : Int} {es : List (Elem t)} {s : ObjState t}
    (owned : Owned s) (accepts : ObjState.Accepts now s es) :
    Owned (ObjState.modifyAll now es s) := by
  induction es generalizing s with
  | nil => exact owned
  | cons e es ih =>
      obtain ⟨version, -, -, rest⟩ := accepts
      refine ih (owned_modify owned ?_ e) rest
      unfold ObjState.version? at version
      rw [Option.map_eq_some_iff] at version
      obtain ⟨r, found, -⟩ := version
      rw [found]
      rfl

theorem ForeignKeys.of_modify (keys : ForeignKeys db) (effect : ModifyEffect env es db db') :
    ForeignKeys db' :=
  foreignKeys_of_acts keys effect.acts fun id owned => owned_modifyAll owned (effect.accepts id)

theorem ForeignKeys.of_delete (keys : ForeignKeys db)
    (effect : DeleteEffect env es executed used db db') : ForeignKeys db' := by
  refine foreignKeys_of_acts keys effect.acts fun id owned => ?_
  by_cases present : id ∈ executed.map Elem.id
  · obtain ⟨e, member, rfl⟩ := List.mem_map.mp present
    rw [elemsOf_eq_singleton effect.matching.distinct member]
    exact owned_delete owned e
  · rw [elemsOf_eq_nil present]
    exact owned

end Effects

end Keys

section Documents

theorem BatchEffect.foreignKeys {b : Batch} (effect : BatchEffect env b)
    (keys : ForeignKeys b.before) : ForeignKeys b.after := by
  cases effect with
  | create t es batch => exact keys.of_create batch.effect
  | modify es db₁ db₂ modified batch =>
      exact ((keys.of_modify batch.nodes).of_modify batch.ways).of_modify batch.relations
  | delete t es executed used deleted batch => exact keys.of_delete batch.effect

/-- What creating and modifying keep, and deleting keeps when it deletes all that
refers to what it deletes. -/
theorem BatchEffect.linked {O T : ObjectType → Prop} {b : Batch} (effect : BatchEffect env b)
    (linked : Linked O T b.before)
    (together : ∀ t es executed used deleted, DeleteBatch (t := t) env b es executed used deleted →
      T t → ∀ e ∈ executed, ∀ t' id, O t' → Refers b.before t' id (t, e.id) →
        t' = t ∧ id ∈ executed.map Elem.id) : Linked O T b.after := by
  cases effect with
  | create t es batch => exact linked.of_writes (writes_of_create batch.effect)
  | modify es db₁ db₂ modified batch =>
      exact ((linked.of_writes (writes_of_modify batch.nodes)).of_writes
        (writes_of_modify batch.ways)).of_writes (writes_of_modify batch.relations)
  | delete t es executed used deleted batch =>
      exact linked.of_delete batch.effect (together t es executed used deleted batch)

/-- Node and way references stay intact. -/
theorem nodeWayIntegrity_of_processDocument {doc : List Element} {st : Upload}
    (done : (processDocument env doc).run db = .ok (st, db')) (keys : ForeignKeys db)
    (intact : NodeWayIntegrity db) : ForeignKeys db' ∧ NodeWayIntegrity db' := by
  obtain ⟨batches, -, -, st₁, runs, -⟩ := executed_of_processDocument done
  have all : ForeignKeys db' ∧ Linked (fun _ => True) (fun t => t ≠ .relation) db' := by
    refine runs.invariant (I := fun _ _ db => ForeignKeys db ∧
      Linked (fun _ => True) (fun t => t ≠ .relation) db) (idle_empty env)
      ⟨keys, (nodeWayIntegrity_iff keys).mp intact⟩ fun _ _ b _ before _ effect =>
        ⟨BatchEffect.foreignKeys effect before.1, BatchEffect.linked effect before.2 ?_⟩
    intro t es executed used deleted batch flat e member t' id _ refers
    exact absurd refers (not_refers_of_executed batch.effect flat member t' id)
  exact ⟨all.1, (nodeWayIntegrity_iff all.1).mpr all.2⟩

theorem foreignKeys_empty : ForeignKeys Db.empty :=
  ⟨nofun, nofun, nofun, nofun⟩

theorem nodeWayIntegrity_sampleUse : ∃ st db',
    (processDocument sampleEnv (sampleUse false)).run Db.empty = .ok (st, db') ∧
      ForeignKeys db' ∧ NodeWayIntegrity db' := by
  obtain ⟨st, db', run, -⟩ := of_check (processDocument sampleEnv (sampleUse false)) Db.empty
    (fun _ _ => true) (by decide +kernel)
  exact ⟨st, db', run, nodeWayIntegrity_of_processDocument run foreignKeys_empty
    ⟨nofun, nofun, nofun⟩⟩

/-- The condition on a batch of relation deletions. -/
def SafeBatch (env : Env) (b : Batch) : Prop :=
  (∀ el ∈ b.els, el.op = .delete ∧ el.objType = .relation) →
    ∀ es, replaceOldIds b.pushed.ct (elemsIn env .relation b.els) = .ok es →
      FlaggedBelowUsed b.before (visibleElems b.before es)

section Safe

variable {b : Batch} {st₀ : Upload}

private theorem linked_of_safe (effect : BatchEffect env b) (safe : SafeBatch env b)
    (linked : Linked (fun t => t = .relation) (fun t => t = .relation) b.before) :
    Linked (fun t => t = .relation) (fun t => t = .relation) b.after := by
  refine BatchEffect.linked effect linked fun t es executed used deleted batch type => ?_
  subst type
  rintro e inside t' id rfl refers
  exact ⟨rfl, parents_executed linked batch.effect (safe batch.ops es batch.replaced) inside refers⟩

private theorem safe_of_linked (executes : b.Executes env st₀) (effect : BatchEffect env b)
    (linked : Linked (fun t => t = .relation) (fun t => t = .relation) b.after) :
    SafeBatch env b := by
  intro ops es replaced
  obtain ⟨el, member⟩ := List.exists_mem_of_ne_nil _ executes.nonempty
  cases effect with
  | create t es' batch => exact nomatch (batch.ops el member).1.symm.trans (ops el member).1
  | modify es' db₁ db₂ modified batch =>
      exact nomatch (batch.ops el member).symm.trans (ops el member).1
  | delete t es' executed used deleted batch =>
      obtain rfl := (batch.ops el member).2.symm.trans (ops el member).2
      obtain rfl := Except.ok.inj (replaced.symm.trans batch.replaced)
      exact flaggedBelowUsed_of_linked batch.effect linked

end Safe

/-- References between relations stay intact exactly while every batch is safe. -/
theorem relationIntegrity_of_safe {doc : List Element} {batches : List Batch} {st : Upload}
    (executed : Executed env doc db batches st db') (keys : ForeignKeys db)
    (intact : RelationIntegrity db) :
    ((∀ b ∈ batches, RelationIntegrity b.after) ↔ ∀ b ∈ batches, SafeBatch env b) ∧
      ((∀ b ∈ batches, SafeBatch env b) → RelationIntegrity db') := by
  obtain ⟨st₁, runs, -⟩ := executed.runs
  have all := runs.invariant (I := fun done _ db => ForeignKeys db ∧
      ((∀ b ∈ done, RelationIntegrity b.after) ↔ ∀ b ∈ done, SafeBatch env b) ∧
        ((∀ b ∈ done, SafeBatch env b) → RelationIntegrity db)) (idle_empty env)
    ⟨keys, by simp, fun _ => intact⟩ ?_
  · exact all.2
  intro done st₂ b _ ⟨keys, exact, kept⟩ executes effect
  have keys' := BatchEffect.foreignKeys effect keys
  have step : (∀ c ∈ done, SafeBatch env c) → SafeBatch env b → RelationIntegrity b.after :=
    fun before safe => (relationIntegrity_iff keys').mpr
      (linked_of_safe effect safe ((relationIntegrity_iff keys).mp (kept before)))
  simp only [List.forall_mem_append, List.forall_mem_singleton]
  refine ⟨keys', ⟨fun ⟨before, here⟩ => ⟨exact.mp before, ?_⟩, fun ⟨before, here⟩ =>
    ⟨exact.mpr before, step before here⟩⟩, fun ⟨before, here⟩ => step before here⟩
  exact safe_of_linked executes effect ((relationIntegrity_iff keys').mp here)

/-- A batch in which every deletion has the if-unused flag is safe. -/
theorem safeBatch_of_flagged {b : Batch} (flagged : ∀ el ∈ b.els, el.ifUnused = true) :
    SafeBatch env b := by
  intro ops es replaced id inside plain
  obtain ⟨e, member, rfl⟩ := List.mem_map.mp inside
  obtain ⟨d, there, resolved⟩ := exists_of_mem_right (replaceOldIds_eq_ok.mp replaced).2
    (mem_visibleElems.mp member).1
  obtain ⟨el, own, found⟩ := List.mem_filterMap.mp there
  have unused : d.ifUnused = true := by
    unfold elemOf? at found
    split at found
    · rename_i same
      obtain ⟨op, t', object, ifUnused⟩ := el
      obtain rfl : t' = .relation := same
      obtain rfl : op = .delete := (ops _ own).1
      cases found
      exact flagged _ own
    · cases found
  exact absurd (mem_idsIfUnused.mpr ⟨e, member, resolved.ifUnused.trans unused, rfl⟩) plain

def sampleNesting (ifUnused : Bool) : List Element :=
  [sampleRelation .create (-1) 0 false [], sampleRelation .create (-2) 0 false [-1],
    sampleRelation .create (-3) 0 false [-2], sampleRelation .delete (-1) 1 ifUnused [],
    sampleRelation .delete (-2) 1 true []]

/-- With both flags set the relations are kept. -/
theorem relationIntegrity_sampleNesting : ∃ batches st db',
    Executed sampleEnv (sampleNesting true) Db.empty batches st db' ∧ RelationIntegrity db' := by
  obtain ⟨st, db', run, -⟩ := of_check (processDocument sampleEnv (sampleNesting true)) Db.empty
    (fun _ _ => true) (by decide +kernel)
  obtain ⟨batches, executed⟩ := executed_of_processDocument run
  refine ⟨batches, st, db', executed,
    (relationIntegrity_of_safe executed foreignKeys_empty ⟨nofun, nofun⟩).2 fun b member => ?_⟩
  intro ops
  refine safeBatch_of_flagged (fun el inside => ?_) ops
  have known : el ∈ sampleNesting true := by
    rw [← executed.elements]
    exact List.mem_flatMap.mpr ⟨b, member, inside⟩
  have deletes := (ops el inside).1
  simp only [sampleNesting, List.mem_cons, List.not_mem_nil, or_false] at known
  rcases known with rfl | rfl | rfl | rfl | rfl
  · cases deletes
  · cases deletes
  · cases deletes
  · rfl
  · rfl

def dangling (db : Db) : Bool :=
  (db.currentRefs .relation).rows.any (fun r => db.visible (.relation, r.owner) &&
    decide (r.ref.target.1 = .relation) && !db.visible r.ref.target)

/-- Without the flag the innermost relation is deleted below one that stays. -/
theorem not_relationIntegrity_sampleNesting : ForeignKeys Db.empty ∧ RelationIntegrity Db.empty ∧
    ∃ st db', (processDocument sampleEnv (sampleNesting false)).run Db.empty = .ok (st, db') ∧
      ¬ RelationIntegrity db' := by
  refine ⟨foreignKeys_empty, ⟨nofun, nofun⟩, ?_⟩
  obtain ⟨st, db', run, found⟩ := of_check (processDocument sampleEnv (sampleNesting false)) Db.empty
    (fun _ db => dangling db) (by decide +kernel)
  refine ⟨st, db', run, fun intact => ?_⟩
  obtain ⟨r, row, broken⟩ := List.any_eq_true.mp found
  simp only [Bool.and_eq_true, decide_eq_true_eq, Bool.not_eq_true'] at broken
  obtain ⟨⟨owner, type⟩, hidden⟩ := broken
  rw [intact.members r row owner type] at hidden
  cases hidden

end Documents

end Cgimap.Osmchange.Integrity
