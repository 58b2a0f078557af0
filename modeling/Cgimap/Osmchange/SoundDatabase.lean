/- path: Cgimap/Osmchange/SoundDatabase
   generality: I
   source: test/structure.sql
   digest: Tables in which an upload finds every key free that it needs. -/

import Cgimap.Osmchange.Integrity

/-! What the schema and the way ids and versions are handed out give: sequences are
    ahead of the ids in use, the history is not ahead of the current version, and what
    is referred to exists. The number `n` is the number of elements still to come. -/

set_option autoImplicit false
set_option relaxedAutoImplicit false

namespace Cgimap.Osmchange.SoundDatabase

open Cgimap.Library.KeyedTable
open Cgimap.Model.Types
open Cgimap.Model.Database
open Cgimap.Osmchange.DiffTracking
open Cgimap.Osmchange.UploadRecords
open Cgimap.Osmchange.SqlStatements
open Cgimap.Osmchange.ObjectState
open Cgimap.Osmchange.WriteEffects
open Cgimap.Osmchange.CheckEffects
open Cgimap.Osmchange.CreateEffects
open Cgimap.Osmchange.ModifyEffects
open Cgimap.Osmchange.DeleteEffects
open Cgimap.Osmchange.Integrity

variable {t : ObjectType} {db db' : Db} {env : Env} {n : Nat}

/-- An object whose history ends with its current version, and with room for `n`
more versions. -/
structure Sound (n : Nat) (s : ObjState t) : Prop where
  owned : Owned s
  ahead : ∀ v, s.version?.getD 0 < v → s.history v = none
  room : s.version?.getD 0 + n < versionBound

namespace Sound

variable {s : ObjState t} {now : Int}

theorem mono {m : Nat} (sound : Sound m s) (le : n ≤ m) : Sound n s := by
  have room := sound.room
  exact ⟨sound.owned, sound.ahead, by omega⟩

theorem version_lt {v : Nat} (sound : Sound n s) (version : s.version? = some v) :
    v < versionBound := by
  have room := sound.room
  rw [version] at room
  have bound : v + n < versionBound := room
  omega

theorem unsaved {v : Nat} (sound : Sound n s) (version : s.version? = some v) :
    s.history (v + 1) = none := by
  apply sound.ahead
  rw [version]
  exact Nat.lt_succ_self v

private theorem archive {s₀ : ObjState t} {r : CurrentRow t} (sound : Sound (n + 1) s₀)
    (history : s.history = s₀.history) (row : s.row = some r)
    (version : r.version = s₀.version?.getD 0 + 1) (owned : Owned s.archive) :
    Sound n s.archive := by
  have current : s.archive.version?.getD 0 = r.version := by
    change (s.row.map CurrentRow.version).getD 0 = r.version
    rw [row]
    rfl
  refine ⟨owned, ?_, ?_⟩
  · intro v later
    rw [current] at later
    have before : s₀.history v = none := sound.ahead v (by omega)
    have other : r.version ≠ v := by omega
    rw [ObjState.archive_history, history, before, row, Option.none_or,
      Option.filter_some_neg (by simpa using other)]
    rfl
  · have room := sound.room
    rw [current, version]
    omega

theorem modify {e : Elem t} (sound : Sound (n + 1) s) (version : s.version? = some e.version) :
    Sound n (s.modify now e) := by
  obtain ⟨r, found, -⟩ := Option.map_eq_some_iff.mp version
  have known : s.row.isSome := Option.isSome_iff_exists.mpr ⟨r, found⟩
  have row : (s.write now true e e.tags (ObjState.refsOfElem e)).row =
      some (setRow t now true r e) := by simp [ObjState.write, found]
  apply sound.archive (s := s.write now true e e.tags (ObjState.refsOfElem e)) rfl row _
    (owned_modify sound.owned known e)
  rw [version]
  rfl

theorem delete {e : Elem t} (sound : Sound (n + 1) s) (version : s.version? = some e.version) :
    Sound n (s.delete now e) := by
  obtain ⟨r, found, -⟩ := Option.map_eq_some_iff.mp version
  have row : (s.write now false e [] []).row = some (setRow t now false r e) := by
    simp [ObjState.write, found]
  apply sound.archive (s := s.write now false e [] []) rfl row _ (owned_delete sound.owned e)
  rw [version]
  rfl

theorem create {e : Elem t} (sound : Sound (n + 1) s) (fresh : s.row = none) (id : Nat) :
    Sound n (s.create now id e) := by
  have next : Owned (s.create now id e) := owned_create sound.owned fresh id e
  rw [ObjState.create_eq_archive s now e id (sound.owned.current fresh).1] at next ⊢
  refine archive sound ?_ rfl ?_ next
  · rfl
  · simp [ObjState.version?, fresh]

theorem modifyAll {es : List (Elem t)} (sound : Sound (n + es.length) s)
    (accepts : ObjState.Accepts now s es) : Sound n (ObjState.modifyAll now es s) := by
  induction es generalizing s with
  | nil => exact sound
  | cons e es ih =>
      obtain ⟨version, -, -, rest⟩ := accepts
      have more : Sound (n + es.length + 1) s := sound.mono (by rw [List.length_cons]; omega)
      exact ih (more.modify version) rest

end Sound

/-- A database that is sound throughout. `fuel` bounds the ids of relations. -/
structure Healthy (fuel n : Nat) (db : Db) : Prop where
  sound : ∀ t id, Sound n (object db t id)
  sequence : ∀ t id, db.objectSeq t ≤ id → (object db t id).row = none
  targets : ∀ t id o, Refers db t id o → (object db o.1 o.2).row.isSome
  fuel : db.objectSeq .relation + n < fuel

section Effects

variable {fuel : Nat} {es executed : List (Elem t)} {used : List ObjectIdMapping}

theorem Healthy.mono {m : Nat} (healthy : Healthy fuel m db) (le : n ≤ m) : Healthy fuel n db := by
  have bound := healthy.fuel
  exact ⟨fun t id => (healthy.sound t id).mono le, healthy.sequence, healthy.targets, by omega⟩

private theorem length_elemsOf (es : List (Elem t)) (id : Nat) :
    (elemsOf es id).length ≤ es.length := List.length_filter_le ..

private theorem isSome_of_visible {o : Obj} (shown : db.visible o = true) :
    (object db o.1 o.2).row.isSome := by
  obtain ⟨t, id⟩ := o
  rw [visible_eq] at shown
  cases row : (object db t id).row with
  | none =>
      rw [row] at shown
      cases shown
  | some r => rfl

/-- New references point to what exists, when existing objects stay and the written
ones exist. -/
private theorem targets_of_writes (w : Writes es db db')
    (targets : ∀ t id o, Refers db t id o → (object db o.1 o.2).row.isSome)
    (stays : ∀ t id, (object db t id).row.isSome → (object db' t id).row.isSome)
    (t' : ObjectType) (id : Nat) (o : Obj) (refers : Refers db' t' id o) :
    (object db' o.1 o.2).row.isSome := by
  rcases w.refers t' id o refers with old | ⟨rfl, e, member, rfl, r, inside, rfl⟩
  · exact stays _ _ (targets t' id o old)
  · rcases w.future e member r inside with shown | ⟨relation, locked⟩
    · exact isSome_of_visible (w.shown _ shown)
    · obtain ⟨d, there, same⟩ := List.mem_map.mp locked
      have shown := w.written d there
      have own : t' = .relation := r.ref.target_relation relation
      have here : r.ref.target = (t', d.id) := Prod.ext (relation.trans own.symm) same.symm
      rw [here]
      exact isSome_of_visible shown

theorem modifyAll_row {now : Int} (l : List (Elem t)) (s : ObjState t) :
    (ObjState.modifyAll now l s).row.isSome = s.row.isSome := by
  induction l generalizing s with
  | nil => rfl
  | cons e l ih =>
      change (ObjState.modifyAll now l (s.modify now e)).row.isSome = _
      rw [ih, ObjState.modify_row, Option.isSome_map]

theorem Healthy.of_modify (healthy : Healthy fuel (n + es.length) db)
    (effect : ModifyEffect env es db db') : Healthy fuel n db' := by
  have rows : ∀ t' id, (object db' t' id).row.isSome = (object db t' id).row.isSome := by
    intro t' id
    by_cases own : t' = t
    · subst own
      rw [effect.acts.same, modifyAll_row]
    · rw [effect.acts.other t' own]
  have stays : ∀ t' id, (object db t' id).row.isSome → (object db' t' id).row.isSome := by
    intro t' id known
    rw [rows]
    exact known
  refine ⟨?_, ?_, ?_, ?_⟩
  · intro t' id
    by_cases own : t' = t
    · subst own
      rw [effect.acts.same]
      apply Sound.modifyAll _ (effect.accepts id)
      have short := length_elemsOf es id
      exact (healthy.sound t' id).mono (by omega)
    · rw [effect.acts.other t' own]
      exact (healthy.sound t' id).mono (by omega)
  · intro t' id beyond
    rw [effect.acts.rest.objectSeq] at beyond
    have absent := healthy.sequence t' id beyond
    rw [← Option.not_isSome_iff_eq_none, rows, Option.not_isSome_iff_eq_none]
    exact absent
  · exact targets_of_writes (writes_of_modify effect) healthy.targets stays
  · have bound := healthy.fuel
    rw [effect.acts.rest.objectSeq]
    omega

theorem Healthy.of_create (healthy : Healthy fuel (n + es.length) db)
    (effect : CreateEffect env es db db') : Healthy fuel n db' := by
  have bound := healthy.fuel
  have own : ∀ e ∈ es, object db' t e.id = (object db t e.id).create env.now e.id e := by
    intro e member
    rw [effect.acts.same, elemsOf_eq_singleton effect.distinct member]
    rfl
  have other : ∀ t' id, ¬ (t' = t ∧ id ∈ es.map Elem.id) → object db' t' id = object db t' id := by
    intro t' id free
    by_cases same : t' = t
    · subst same
      rw [effect.acts.same, elemsOf_eq_nil fun inside => free ⟨rfl, inside⟩]
      rfl
    · rw [effect.acts.other t' same]
      rfl
  have seq : ∀ t', db.objectSeq t' ≤ db'.objectSeq t' ∧
      db'.objectSeq t' ≤ db.objectSeq t' + es.length := by
    intro t'
    rw [effect.acts.rest.objectSeq]
    by_cases same : t' = t
    · subst same
      simp [bumped]
    · simp [bumped, Function.update_of_ne same]
  have stays : ∀ t' id, (object db t' id).row.isSome → (object db' t' id).row.isSome := by
    intro t' id known
    by_cases new : t' = t ∧ id ∈ es.map Elem.id
    · obtain ⟨rfl, inside⟩ := new
      obtain ⟨e, member, rfl⟩ := List.mem_map.mp inside
      rw [own e member, ObjState.create_row]
      rfl
    · rw [other t' id new]
      exact known
  refine ⟨?_, ?_, ?_, ?_⟩
  · intro t' id
    by_cases new : t' = t ∧ id ∈ es.map Elem.id
    · obtain ⟨rfl, inside⟩ := new
      obtain ⟨e, member, rfl⟩ := List.mem_map.mp inside
      rw [own e member]
      have some := List.length_pos_of_mem member
      exact ((healthy.sound t' e.id).mono (by omega)).create (effect.fresh e member) e.id
    · rw [other t' id new]
      exact (healthy.sound t' id).mono (by omega)
  · intro t' id beyond
    have old := (seq t').1
    rw [other t' id ?_]
    · exact healthy.sequence t' id (by omega)
    · rintro ⟨rfl, inside⟩
      obtain ⟨e, member, rfl⟩ := List.mem_map.mp inside
      have low := effect.sequence e member
      rw [effect.acts.rest.objectSeq] at beyond
      simp only [bumped, Function.update_self] at beyond
      omega
  · exact targets_of_writes (writes_of_create effect) healthy.targets stays
  · have more := (seq .relation).2
    omega

theorem Healthy.of_delete (healthy : Healthy fuel (n + es.length) db)
    (effect : DeleteEffect env es executed used db db') : Healthy fuel n db' := by
  have after : ∀ t' id, object db' t' id = object db t' id ∨
      ∃ own : t' = t, ∃ e ∈ executed, e.id = id ∧
        object db' t' id = own ▸ (object db t e.id).delete env.now e := by
    intro t' id
    by_cases gone : t' = t ∧ id ∈ executed.map Elem.id
    · obtain ⟨rfl, inside⟩ := gone
      obtain ⟨e, member, rfl⟩ := List.mem_map.mp inside
      exact .inr ⟨rfl, e, member, rfl, object_executed effect member⟩
    · exact .inl (object_spared effect gone)
  have rows : ∀ t' id, (object db' t' id).row.isSome = (object db t' id).row.isSome := by
    intro t' id
    rcases after t' id with same | ⟨rfl, e, -, rfl, same⟩
    · rw [same]
    · rw [same, ObjState.delete_row, Option.isSome_map]
  refine ⟨?_, ?_, ?_, ?_⟩
  · intro t' id
    have before := healthy.sound t' id
    rcases after t' id with same | ⟨rfl, e, member, rfl, same⟩
    · rw [same]
      exact before.mono (by omega)
    · rw [same]
      have version := effect.matching.version e member
      have inside := List.length_pos_of_mem (effect.mem_executed.mp member).1
      exact (before.mono (by omega)).delete version
  · intro t' id beyond
    rw [effect.acts.rest.objectSeq] at beyond
    have absent := healthy.sequence t' id beyond
    rw [← Option.not_isSome_iff_eq_none, rows, Option.not_isSome_iff_eq_none]
    exact absent
  · intro t' id o refers
    rw [rows]
    rcases after t' id with same | ⟨rfl, e, -, rfl, same⟩
    · apply healthy.targets t' id o
      rw [refers_iff] at refers ⊢
      rwa [same] at refers
    · rw [refers_iff, same, ObjState.delete_refs] at refers
      obtain ⟨p, member, -⟩ := refers
      cases member
  · have bound := healthy.fuel
    rw [effect.acts.rest.objectSeq]
    omega

end Effects

end Cgimap.Osmchange.SoundDatabase
