/- path: Cgimap/Osmchange/Placeholders
   generality: I
   source: none
   digest: What replacing placeholders by ids does to the elements of a batch. -/

import Cgimap.Library.ExceptLists
import Cgimap.Osmchange.UpdaterChecks

set_option autoImplicit false
set_option relaxedAutoImplicit false

namespace Cgimap.Osmchange.Placeholders

open Cgimap.Library.ExceptLists
open Cgimap.Model.Types
open Cgimap.Model.Database
open Cgimap.Osmchange.DiffTracking
open Cgimap.Osmchange.UploadRecords
open Cgimap.Osmchange.UpdaterChecks

variable {t : ObjectType} {ct : Tracking} {e e' : Elem t} {es es' : List (Elem t)}

/-- `e'` is `e` with its own id and its references resolved. -/
structure Resolved (ct : Tracking) (e e' : Elem t) : Prop where
  id : (0 ≤ e.oldId ∧ e'.id = e.id) ∨ (e.oldId < 0 ∧ lookup ct t e.oldId = some e'.id)
  version : e'.version = e.version
  changesetId : e'.changesetId = e.changesetId
  oldId : e'.oldId = e.oldId
  tags : e'.tags = e.tags
  ifUnused : e'.ifUnused = e.ifUnused
  coord : e'.coord = e.coord
  refs : e.refs.mapM (replaceOldIdInMember ct e.oldId) = .ok e'.refs

theorem replaceOldId_eq_ok {id : Nat} :
    replaceOldId ct e = .ok id ↔
      (0 ≤ e.oldId ∧ id = e.id) ∨ (e.oldId < 0 ∧ lookup ct t e.oldId = some id) := by
  unfold replaceOldId
  split
  · rename_i nonneg
    simp [nonneg, not_lt.mpr nonneg, eq_comm]
  · rename_i negative
    cases found : lookup ct t e.oldId with
    | none => simp [negative]
    | some id' => simp [negative, not_le.mp negative]

theorem replaceOldIdsInElem_eq_ok :
    replaceOldIdsInElem ct e = .ok e' ↔ Resolved ct e e' := by
  unfold replaceOldIdsInElem
  simp only [bind_eq_ok, replaceOldId_eq_ok, Except.ok.injEq]
  constructor
  · rintro ⟨id, found, refs, members, rfl⟩
    exact ⟨found, rfl, rfl, rfl, rfl, rfl, rfl, members⟩
  · intro r
    refine ⟨e'.id, r.id, e'.refs, r.refs, ?_⟩
    cases e'
    simp only [← r.version, ← r.changesetId, ← r.oldId, ← r.tags, ← r.ifUnused, ← r.coord]

/-- No placeholder of the types that an updater maps was created twice. -/
def UniquePlaceholders (ct : Tracking) (t : ObjectType) : Prop :=
  ∀ t' ∈ mappedTypes t, ((ct.created t').map ObjectIdMapping.oldId).Nodup

theorem buildMap_eq_ok {u : Unit} :
    buildMap ct t = .ok u ↔ ((ct.created t).map ObjectIdMapping.oldId).Nodup := by
  unfold buildMap
  cases found : firstDuplicate [] ((ct.created t).map ObjectIdMapping.oldId) with
  | none =>
      have free := firstDuplicate_eq_none.mp found
      simp [free.1]
  | some id =>
      refine iff_of_false (by simp) fun distinct => ?_
      rw [firstDuplicate_eq_none.mpr ⟨distinct, by simp⟩] at found
      cases found

theorem replaceOldIds_eq_ok :
    replaceOldIds ct es = .ok es' ↔
      UniquePlaceholders ct t ∧ List.Forall₂ (Resolved ct) es es' := by
  unfold replaceOldIds
  rw [bind_eq_ok]
  simp only [forM_eq_ok, buildMap_eq_ok, mapM_eq_ok, replaceOldIdsInElem_eq_ok]
  exact ⟨fun ⟨_, unique, all⟩ => ⟨unique, all⟩, fun ⟨unique, all⟩ => ⟨(), unique, all⟩⟩

theorem replaceOldIds_congr {ct' : Tracking} (same : ct'.created = ct.created) :
    replaceOldIds ct' es = replaceOldIds ct es := by
  obtain ⟨created', modified', deleted', skipDeleted', origSequence'⟩ := ct'
  obtain ⟨created, modified, deleted, skipDeleted, origSequence⟩ := ct
  cases same
  rfl

theorem replaceOldIds_error {error : Exception} (failed : replaceOldIds ct es = .error error) :
    ∃ message, error = .badRequest message := by
  unfold replaceOldIds at failed
  rcases bind_eq_error.mp failed with duplicate | ⟨_, -, missing⟩
  · obtain ⟨t', -, failed⟩ := forM_eq_error duplicate
    unfold buildMap at failed
    split at failed
    · exact ⟨_, (Except.error.inj failed).symm⟩
    · cases failed
  · obtain ⟨e, -, failed⟩ := mapM_eq_error missing
    unfold replaceOldIdsInElem at failed
    rcases bind_eq_error.mp failed with own | ⟨id, -, failed⟩
    · unfold replaceOldId at own
      split at own
      · cases own
      · split at own
        · exact ⟨_, (Except.error.inj own).symm⟩
        · cases own
    · rcases bind_eq_error.mp failed with member | ⟨refs, -, never⟩
      · obtain ⟨r, -, failed⟩ := mapM_eq_error member
        unfold replaceOldIdInMember at failed
        split at failed
        · cases failed
        · split at failed
          · exact ⟨_, (Except.error.inj failed).symm⟩
          · cases failed
      · cases never

end Cgimap.Osmchange.Placeholders
