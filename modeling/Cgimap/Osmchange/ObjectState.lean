/- path: Cgimap/Osmchange/ObjectState
   generality: I
   source: none
   digest: The database as one record per object, and what can happen to an object. -/

import Cgimap.Osmchange.SqlStatements

/-!
The six tables of a type, read at one id. An upload creates, modifies and deletes
objects; each of these is a function on the record of the object, whatever the
statements and the batches through which the updaters carry it out.
-/

set_option autoImplicit false
set_option relaxedAutoImplicit false

namespace Cgimap.Osmchange.ObjectState

open Cgimap.Library.KeyedTable
open Cgimap.Model.Types
open Cgimap.Model.Database
open Cgimap.Osmchange.UploadRecords
open Cgimap.Osmchange.SqlStatements

/-- Everything the database holds about one object. -/
@[ext] structure ObjState (t : ObjectType) where
  row : Option (CurrentRow t)
  tags : List (String × String)
  refs : List (Nat × Ref t)
  history : Nat → Option (HistoryRow t)
  historyTags : Nat → List (String × String)
  historyRefs : Nat → List (Nat × Ref t)

/-- The record of the object `id` of type `t`. -/
def object (db : Db) (t : ObjectType) (id : Nat) : ObjState t where
  row := (db.current t).find? id
  tags := db.tagsOf t id
  refs := db.refsOf t id
  history v := (db.history t).find? (id, v)
  historyTags v := db.historyTagsOf t id v
  historyRefs v := db.historyRefsOf t id v

theorem mem_tags_object {db : Db} {t : ObjectType} {id : Nat} {tag : String × String} :
    tag ∈ (object db t id).tags ↔ (⟨id, tag.1, tag.2⟩ : TagRow) ∈ db.currentTags t :=
  Table.mem_map_select _ _ (fun r : TagRow => (r.k, r.v))
    (r := ⟨id, tag.1, tag.2⟩) (decide_eq_true rfl) fun _ own same =>
      TagRow.ext (of_decide_eq_true own) (congrArg Prod.fst same) (congrArg Prod.snd same)

theorem mem_refs_object {db : Db} {t : ObjectType} {id : Nat} {ref : Nat × Ref t} :
    ref ∈ (object db t id).refs ↔ (⟨id, ref.1, ref.2⟩ : RefRow t) ∈ db.currentRefs t :=
  Table.mem_map_select _ _ (fun r : RefRow t => (r.sequenceId, r.ref))
    (r := ⟨id, ref.1, ref.2⟩) (decide_eq_true rfl) fun _ own same =>
      RefRow.ext (of_decide_eq_true own) (congrArg Prod.fst same) (congrArg Prod.snd same)

theorem visible_eq (db : Db) (t : ObjectType) (id : Nat) :
    db.visible (t, id) = ((object db t id).row.map CurrentRow.visible).getD false := by
  simp only [Db.visible, object]
  cases (db.current t).find? id <;> rfl

namespace ObjState

variable {t : ObjectType}

def visible (s : ObjState t) : Bool := (s.row.map CurrentRow.visible).getD false

def version? (s : ObjState t) : Option Nat := s.row.map CurrentRow.version

/-- The three copies that save the current version to the history. -/
def saveRow (s : ObjState t) : ObjState t :=
  { s with
    history := (fun v => (s.history v).or
      ((s.row.filter (fun r => decide (r.version = v))).map (fun r => ⟨r, none⟩))) }

def saveTags (s : ObjState t) : ObjState t :=
  { s with
    historyTags := (fun v => s.historyTags v ++ if s.version? = some v then s.tags else []) }

def saveRefs (s : ObjState t) : ObjState t :=
  { s with
    historyRefs := (fun v => s.historyRefs v ++ if s.version? = some v then s.refs else []) }

def archive (s : ObjState t) : ObjState t := s.saveRow.saveTags.saveRefs

/-- The reference rows of an element. -/
def refsOfElem (e : Elem t) : List (Nat × Ref t) := e.refs.map (fun r => (r.sequenceId, r.ref))

/-- A new version of an existing object, with the given tags and references. -/
def write (now : Int) (visible : Bool) (e : Elem t) (tags : List (String × String))
    (refs : List (Nat × Ref t)) (s : ObjState t) : ObjState t :=
  { s with
    row := s.row.map (fun r => setRow t now visible r e)
    tags := tags
    refs := refs }

def modify (now : Int) (e : Elem t) (s : ObjState t) : ObjState t :=
  (s.write now true e e.tags (refsOfElem e)).archive

def delete (now : Int) (e : Elem t) (s : ObjState t) : ObjState t :=
  (s.write now false e [] []).archive

/-- The first version of a new object. Tags are saved only when the element has
some. -/
def create (now : Int) (id : Nat) (e : Elem t) (s : ObjState t) : ObjState t :=
  let s : ObjState t :=
    { s with
      row := some ⟨id, 1, e.changesetId, true, now, e.coord⟩
      tags := s.tags ++ e.tags
      refs := s.refs ++ refsOfElem e }
  if e.tags = [] then s.saveRow.saveRefs else s.archive

section Lemmas

variable (s : ObjState t) (now : Int) (visible : Bool) (e : Elem t)

@[simp] theorem saveRow_row : s.saveRow.row = s.row := rfl
@[simp] theorem saveRow_tags : s.saveRow.tags = s.tags := rfl
@[simp] theorem saveRow_refs : s.saveRow.refs = s.refs := rfl
@[simp] theorem saveTags_row : s.saveTags.row = s.row := rfl
@[simp] theorem saveTags_tags : s.saveTags.tags = s.tags := rfl
@[simp] theorem saveTags_refs : s.saveTags.refs = s.refs := rfl
@[simp] theorem saveRefs_row : s.saveRefs.row = s.row := rfl
@[simp] theorem saveRefs_tags : s.saveRefs.tags = s.tags := rfl
@[simp] theorem saveRefs_refs : s.saveRefs.refs = s.refs := rfl
@[simp] theorem archive_row : s.archive.row = s.row := rfl
@[simp] theorem archive_tags : s.archive.tags = s.tags := rfl
@[simp] theorem archive_refs : s.archive.refs = s.refs := rfl

theorem archive_history (v : Nat) : s.archive.history v = (s.history v).or
    ((s.row.filter (fun r => decide (r.version = v))).map (fun r => ⟨r, none⟩)) := rfl

theorem archive_historyTags (v : Nat) : s.archive.historyTags v =
    s.historyTags v ++ if s.version? = some v then s.tags else [] := rfl

theorem archive_historyRefs (v : Nat) : s.archive.historyRefs v =
    s.historyRefs v ++ if s.version? = some v then s.refs else [] := rfl

@[simp] theorem modify_row :
    (s.modify now e).row = s.row.map (fun r => setRow t now true r e) := rfl
@[simp] theorem modify_tags : (s.modify now e).tags = e.tags := rfl
@[simp] theorem modify_refs : (s.modify now e).refs = refsOfElem e := rfl
@[simp] theorem delete_row :
    (s.delete now e).row = s.row.map (fun r => setRow t now false r e) := rfl
@[simp] theorem delete_tags : (s.delete now e).tags = [] := rfl
@[simp] theorem delete_refs : (s.delete now e).refs = [] := rfl

@[simp] theorem create_row (id : Nat) :
    (s.create now id e).row = some ⟨id, 1, e.changesetId, true, now, e.coord⟩ := by
  unfold create
  split <;> rfl

@[simp] theorem create_tags (id : Nat) : (s.create now id e).tags = s.tags ++ e.tags := by
  unfold create
  split <;> rfl

@[simp] theorem create_refs (id : Nat) : (s.create now id e).refs = s.refs ++ refsOfElem e := by
  unfold create
  split <;> rfl

theorem saveTags_of_nil (none : s.tags = []) : s.saveTags = s := by
  refine ObjState.ext rfl rfl rfl rfl (funext fun v => ?_) rfl
  simp [saveTags, none]

theorem saveRefs_of_nil (none : s.refs = []) : s.saveRefs = s := by
  refine ObjState.ext rfl rfl rfl rfl rfl (funext fun v => ?_)
  simp [saveRefs, none]

theorem create_eq_archive (id : Nat) (none : s.tags = []) :
    s.create now id e =
      archive { s with
        row := some ⟨id, 1, e.changesetId, true, now, e.coord⟩
        tags := e.tags
        refs := s.refs ++ refsOfElem e } := by
  unfold create
  split
  · rename_i untagged
    simp only [none, untagged, List.append_nil]
    rw [archive, saveTags_of_nil _ (by simp)]
  · simp only [none, List.nil_append]

/-- A run of modifications that the version checks and the history let through. -/
def Accepts (now : Int) : ObjState t → List (Elem t) → Prop
  | _, [] => True
  | s, e :: es => s.version? = some e.version ∧ e.version + 1 < versionBound ∧
      s.history (e.version + 1) = none ∧ Accepts now (s.modify now e) es

theorem Accepts.small {now : Int} {s : ObjState t} {es : List (Elem t)}
    (accepts : Accepts now s es) : ∀ e ∈ es, e.version + 1 < versionBound := by
  induction es generalizing s with
  | nil => nofun
  | cons d es ih =>
      obtain ⟨-, small, -, rest⟩ := accepts
      exact List.forall_mem_cons.mpr ⟨small, ih rest⟩

def modifyAll (now : Int) (es : List (Elem t)) (s : ObjState t) : ObjState t :=
  es.foldl (fun s e => s.modify now e) s

theorem modifyAll_append (es es' : List (Elem t)) :
    modifyAll now (es ++ es') s = modifyAll now es' (modifyAll now es s) := List.foldl_append ..

theorem accepts_append (es es' : List (Elem t)) :
    Accepts now s (es ++ es') ↔ Accepts now s es ∧ Accepts now (modifyAll now es s) es' := by
  induction es generalizing s with
  | nil => simp [Accepts, modifyAll]
  | cons e es ih =>
      simp only [List.cons_append, Accepts, ih, and_assoc]
      rfl

end Lemmas

end ObjState

/-- The tables and sequences that belong to no object. -/
structure SameRest (db db' : Db) : Prop where
  objectSeq : db'.objectSeq = db.objectSeq
  changesets : db'.changesets = db.changesets
  changesetTags : db'.changesetTags = db.changesetTags
  subscribers : db'.subscribers = db.subscribers
  users : db'.users = db.users
  changesetSeq : db'.changesetSeq = db.changesetSeq

theorem SameRest.refl (db : Db) : SameRest db db := ⟨rfl, rfl, rfl, rfl, rfl, rfl⟩

theorem SameRest.symm {db db' : Db} (same : SameRest db db') : SameRest db' db :=
  ⟨same.objectSeq.symm, same.changesets.symm, same.changesetTags.symm, same.subscribers.symm,
    same.users.symm, same.changesetSeq.symm⟩

theorem SameRest.trans {db db₁ db₂ : Db} (first : SameRest db db₁) (next : SameRest db₁ db₂) :
    SameRest db db₂ where
  objectSeq := next.objectSeq.trans first.objectSeq
  changesets := next.changesets.trans first.changesets
  changesetTags := next.changesetTags.trans first.changesetTags
  subscribers := next.subscribers.trans first.subscribers
  users := next.users.trans first.users
  changesetSeq := next.changesetSeq.trans first.changesetSeq

/-- `db'` is `db` with `f` applied to the objects of type `t`. -/
structure Acts (t : ObjectType) (f : Nat → ObjState t → ObjState t) (db db' : Db) : Prop where
  same : ∀ id, object db' t id = f id (object db t id)
  other : ∀ t', t' ≠ t → ∀ id, object db' t' id = object db t' id
  rest : SameRest db db'

namespace Acts

variable {t : ObjectType} {f g : Nat → ObjState t → ObjState t} {db db₁ db₂ : Db}

theorem refl : Acts t (fun _ s => s) db db :=
  ⟨fun _ => rfl, fun _ _ _ => rfl, SameRest.refl db⟩

theorem trans (first : Acts t f db db₁) (next : Acts t g db₁ db₂) :
    Acts t (fun id s => g id (f id s)) db db₂ where
  same id := by rw [next.same, first.same]
  other t' ne id := by rw [next.other t' ne, first.other t' ne]
  rest := first.rest.trans next.rest

theorem visible_eq (acts : Acts t f db db₁) {o : Obj}
    (untouched : o.1 = t → ∀ s, f o.2 s = s) : db₁.visible o = db.visible o := by
  obtain ⟨t', id⟩ := o
  rw [ObjectState.visible_eq, ObjectState.visible_eq]
  by_cases own : t' = t
  · subst own
    rw [acts.same, untouched rfl]
  · rw [acts.other t' own]

theorem congr (acts : Acts t f db db₁) (h : ∀ id, f id (object db t id) = g id (object db t id)) :
    Acts t g db db₁ where
  same id := by rw [acts.same, h]
  other := acts.other
  rest := acts.rest

end Acts

section Setters

variable (db : Db) (t : ObjectType)

theorem acts_setCurrent (T : Table (CurrentRow.id (t := t))) :
    Acts t (fun id s => { s with row := T.find? id }) db (db.setCurrent t T) where
  same id := by simp [object, Db.tagsOf, Db.refsOf, Db.historyTagsOf, Db.historyRefsOf]
  other t' ne id := by
    simp [object, Db.tagsOf, Db.refsOf, Db.historyTagsOf, Db.historyRefsOf,
      Function.update_of_ne ne]
  rest := ⟨rfl, rfl, rfl, rfl, rfl, rfl⟩

theorem acts_setTags (T : Table TagRow.key) :
    Acts t (fun id s => { s with
      tags := (T.select (fun r => decide (r.owner = id))).map (fun r => (r.k, r.v)) })
      db (db.setTags t T) where
  same id := by simp [object, Db.tagsOf, Db.refsOf, Db.historyTagsOf, Db.historyRefsOf]
  other t' ne id := by
    simp [object, Db.tagsOf, Db.refsOf, Db.historyTagsOf, Db.historyRefsOf,
      Function.update_of_ne ne]
  rest := ⟨rfl, rfl, rfl, rfl, rfl, rfl⟩

theorem acts_setRefs (T : Table (RefRow.key (t := t))) :
    Acts t (fun id s => { s with
      refs := (T.select (fun r => decide (r.owner = id))).map (fun r => (r.sequenceId, r.ref)) })
      db (db.setRefs t T) where
  same id := by simp [object, Db.tagsOf, Db.refsOf, Db.historyTagsOf, Db.historyRefsOf]
  other t' ne id := by
    simp [object, Db.tagsOf, Db.refsOf, Db.historyTagsOf, Db.historyRefsOf,
      Function.update_of_ne ne]
  rest := ⟨rfl, rfl, rfl, rfl, rfl, rfl⟩

theorem acts_setHistory (T : Table (HistoryRow.key (t := t))) :
    Acts t (fun id s => { s with history := fun v => T.find? (id, v) })
      db (db.setHistory t T) where
  same id := by simp [object, Db.tagsOf, Db.refsOf, Db.historyTagsOf, Db.historyRefsOf]
  other t' ne id := by
    simp [object, Db.tagsOf, Db.refsOf, Db.historyTagsOf, Db.historyRefsOf,
      Function.update_of_ne ne]
  rest := ⟨rfl, rfl, rfl, rfl, rfl, rfl⟩

theorem acts_setHistoryTags (T : Table HistoryTagRow.key) :
    Acts t (fun id s => { s with
      historyTags := (fun v => (T.select (fun r => decide (r.owner = id ∧ r.version = v))).map
        (fun r => (r.k, r.v))) })
      db (db.setHistoryTags t T) where
  same id := by simp [object, Db.tagsOf, Db.refsOf, Db.historyTagsOf, Db.historyRefsOf]
  other t' ne id := by
    simp [object, Db.tagsOf, Db.refsOf, Db.historyTagsOf, Db.historyRefsOf,
      Function.update_of_ne ne]
  rest := ⟨rfl, rfl, rfl, rfl, rfl, rfl⟩

theorem acts_setHistoryRefs (T : Table (HistoryRefRow.key (t := t))) :
    Acts t (fun id s => { s with
      historyRefs := (fun v => (T.select (fun r => decide (r.owner = id ∧ r.version = v))).map
        (fun r => (r.sequenceId, r.ref))) })
      db (db.setHistoryRefs t T) where
  same id := by simp [object, Db.tagsOf, Db.refsOf, Db.historyTagsOf, Db.historyRefsOf]
  other t' ne id := by
    simp [object, Db.tagsOf, Db.refsOf, Db.historyTagsOf, Db.historyRefsOf,
      Function.update_of_ne ne]
  rest := ⟨rfl, rfl, rfl, rfl, rfl, rfl⟩

end Setters

end Cgimap.Osmchange.ObjectState
