/- path: Cgimap/Osmchange/Packages
   generality: I
   source: src/backend/apidb/changeset_upload/{node,way,relation}_updater.cpp
   digest: The packages of a modify batch, built with counters of 32 bits and checked accesses. -/

import Cgimap.Changeset.Updater
import Cgimap.Osmchange.ModifyEffects

set_option autoImplicit false
set_option relaxedAutoImplicit false

namespace Cgimap.Osmchange.Packages

open Cgimap.Library.ExceptLists
open Cgimap.Library.Occurrences
open Cgimap.Model.Types
open Cgimap.Changeset.Updater
open Cgimap.Osmchange.UploadRecords
open Cgimap.Osmchange.WriteEffects
open Cgimap.Osmchange.ModifyEffects

variable {t : ObjectType}

/-- The variables of the loop: the counters of the ids, which are `unsigned int`, and the
packages so far. -/
structure Filling (t : ObjectType) where
  idToPackage : Nat → Option Nat
  result : List (List (Elem t))

def Filling.empty : Filling t := ⟨fun _ => none, []⟩

def countUp (idToPackage : Nat → Option Nat) (id : Nat) : Nat :=
  match idToPackage id with
  | none => 0
  | some package => wrap32 (package + 1)

/-- One round of the loop; the last access is `result.at(..)`. -/
def fillPackage (acc : Filling t) (e : Elem t) : Except Exception (Filling t) :=
  let package := countUp acc.idToPackage e.id
  let result := if wrap32 (package + 1) > acc.result.length then acc.result ++ [[]] else acc.result
  if package < result.length then
    .ok ⟨Function.update acc.idToPackage e.id (some package),
      result.modify package (fun p => p ++ [e])⟩
  else
    .error (.std (s!"vector::_M_range_check: __n (which is {package}) >= this->size() " ++
      s!"(which is {result.length})"))

/-- `build_packages`, the same in the three updaters. -/
def buildPackages (es : List (Elem t)) : Except Exception (List (List (Elem t))) :=
  (es.foldlM fillPackage .empty).map Filling.result

section Loop

private def filled (es : List (Elem t)) : Filling t where
  idToPackage id :=
    if occurrences Elem.id es id = 0 then none else some (occurrences Elem.id es id - 1)
  result := layers Elem.id es

private theorem filled_concat (es : List (Elem t)) (e : Elem t) :
    filled (es ++ [e]) =
      ⟨Function.update (filled es).idToPackage e.id (some (occurrences Elem.id es e.id)),
        layers Elem.id (es ++ [e])⟩ := by
  unfold filled
  congr 1
  funext id
  rw [occurrences_append, occurrences_singleton]
  by_cases own : e.id = id
  · subst own
    simp
  · rw [if_neg own, Nat.add_zero, Function.update_of_ne (Ne.symm own)]

private theorem countUp_filled (es : List (Elem t)) (id : Nat)
    (few : occurrences Elem.id es id < 2 ^ 32) :
    countUp (filled es).idToPackage id = occurrences Elem.id es id := by
  unfold countUp filled
  dsimp only
  by_cases first : occurrences Elem.id es id = 0
  · rw [if_pos first, first]
  · rw [if_neg first]
    dsimp only
    rw [Nat.sub_add_cancel (Nat.pos_of_ne_zero first), wrap32_of_lt few]

private theorem fillPackage_filled (es : List (Elem t)) (e : Elem t)
    (few : occurrences Elem.id es e.id + 1 < 2 ^ 32) :
    fillPackage (filled es) e = .ok (filled (es ++ [e])) := by
  have bound := occurrences_le_depth Elem.id es e.id
  unfold fillPackage
  rw [countUp_filled es e.id (Nat.lt_of_succ_lt few)]
  dsimp only
  rw [wrap32_of_lt few, filled_concat, layers_concat]
  refine if_pos ?_
  change occurrences Elem.id es e.id < (if _ then _ else layers Elem.id es).length
  split
  · rw [List.length_append, List.length_singleton]
    change occurrences Elem.id es e.id < (layers Elem.id es).length + 1
    rw [length_layers]
    exact Nat.lt_succ_of_le bound
  · rename_i enough
    exact Nat.lt_of_succ_le (Nat.le_of_not_lt enough)

/-- The counter that an id has after `2 ^ 32 - 1` occurrences refers to no package, and its
successor is 0, which asks for no new one. -/
private theorem fillPackage_full (es : List (Elem t)) (e : Elem t)
    (deep : depth Elem.id es < 2 ^ 32) (full : occurrences Elem.id es e.id + 1 = 2 ^ 32) :
    ∃ what, fillPackage (filled es) e = .error (.std what) := by
  unfold fillPackage
  rw [countUp_filled es e.id (by omega)]
  dsimp only
  rw [full]
  refine ⟨_, if_neg ?_⟩
  change ¬ occurrences Elem.id es e.id < (if 0 > _ then _ else layers Elem.id es).length
  rw [if_neg (Nat.not_lt_zero _), length_layers]
  omega

private theorem foldlM_fillPackage (es : List (Elem t)) (deep : depth Elem.id es < 2 ^ 32) :
    es.foldlM fillPackage Filling.empty = .ok (filled es) := by
  induction es using List.reverseRecOn with
  | nil => rfl
  | append_singleton es e ih =>
      rw [depth_concat, max_lt_iff] at deep
      rw [List.foldlM_append, ih deep.1]
      exact (bind_pure _).trans (fillPackage_filled es e deep.2)

private theorem foldlM_fillPackage_full (es : List (Elem t)) (deep : 2 ^ 32 ≤ depth Elem.id es) :
    ∃ what, es.foldlM fillPackage Filling.empty = .error (.std what) := by
  induction es using List.reverseRecOn with
  | nil => exact absurd (show 2 ^ 32 ≤ 0 from deep) (by decide)
  | append_singleton es e ih =>
      rw [List.foldlM_append]
      rcases Nat.lt_or_ge (depth Elem.id es) (2 ^ 32) with before | already
      · have full : occurrences Elem.id es e.id + 1 = 2 ^ 32 := by
          have bound := occurrences_le_depth Elem.id es e.id
          rw [depth_concat] at deep
          omega
        obtain ⟨what, failed⟩ := fillPackage_full es e before full
        rw [foldlM_fillPackage es before]
        exact ⟨what, (bind_pure _).trans failed⟩
      · obtain ⟨what, failed⟩ := ih already
        rw [failed]
        exact ⟨what, rfl⟩

end Loop

section Build

variable {es : List (Elem t)}

/-- Counters of any size would give the same packages. -/
theorem buildPackages_eq_ok (few : ∀ id, occurrences Elem.id es id < 2 ^ 32) :
    buildPackages es = .ok (UpdaterProcess.buildPackages es) := by
  have deep : depth Elem.id es < 2 ^ 32 :=
    Nat.lt_of_le_pred (by decide) (depth_le_iff.mpr fun id => Nat.le_pred_of_lt (few id))
  rw [buildPackages, foldlM_fillPackage es deep, ModifyEffects.buildPackages_eq]
  rfl

/-- One counter that comes full circle is enough. -/
theorem buildPackages_eq_error {id : Nat} (many : 2 ^ 32 ≤ occurrences Elem.id es id) :
    ∃ what, buildPackages es = .error (.std what) := by
  obtain ⟨what, failed⟩ :=
    foldlM_fillPackage_full es (many.trans (occurrences_le_depth Elem.id es id))
  rw [buildPackages, failed]
  exact ⟨what, rfl⟩

/-- The `k`-th package holds, in order, the elements behind exactly `k` others with their id. -/
theorem buildPackages_occurrences (es : List (Elem t))
    (few : ∀ id, occurrences Elem.id es id < 2 ^ 32) :
    ∃ packages, buildPackages es = .ok packages ∧
      (∀ k p, packages[k]? = some p → p = layer Elem.id k es ∧ p.Sublist es ∧
        ∀ id, elemsOf p id = ((elemsOf es id)[k]?).toList) ∧
      (∀ p ∈ packages, (p.map Elem.id).Nodup) ∧
      packages.flatten.Perm es ∧
      IsGreatest (Set.range (occurrences Elem.id es)) packages.length ∧
      ∀ id, elemsOf packages.flatten id = elemsOf es id := by
  refine ⟨_, buildPackages_eq_ok few, ?_, fun p => buildPackages_distinct, buildPackages_perm es,
    ⟨?_, ?_⟩, fun id => ?_⟩
  · intro k p found
    rw [ModifyEffects.buildPackages_eq, getElem?_layers] at found
    split at found
    · cases found
      exact ⟨rfl, layer_sublist k es, filter_layer k es⟩
    · cases found
  · rw [ModifyEffects.buildPackages_eq, length_layers]
    by_cases none : es = []
    · subst none
      exact ⟨0, rfl⟩
    · obtain ⟨e, -, most⟩ := exists_occurrences_eq_depth Elem.id none
      exact ⟨e.id, most⟩
  · rintro _ ⟨id, rfl⟩
    rw [ModifyEffects.buildPackages_eq, length_layers]
    exact occurrences_le_depth Elem.id es id
  · rw [ModifyEffects.buildPackages_eq]
    exact filter_flatten_layers es id

end Build

section Samples

def sampleNode (id version : Nat) : Elem .node := ⟨id, version, 7, id, [], false, ⟨0, 0, 0⟩, []⟩

def sampleBatch : List (Elem .node) := [sampleNode 5 1, sampleNode 6 1, sampleNode 5 2]

theorem buildPackages_sampleBatch : ∃ packages, buildPackages sampleBatch = .ok packages ∧
    (∀ p, packages[1]? = some p → elemsOf p 5 = [sampleNode 5 2]) ∧
      packages.flatten.Perm sampleBatch := by
  have few : ∀ id, occurrences Elem.id sampleBatch id < 2 ^ 32 := fun id =>
    (occurrences_le_length Elem.id sampleBatch id).trans_lt (by decide)
  obtain ⟨packages, built, each, -, perm, -⟩ := buildPackages_occurrences sampleBatch few
  exact ⟨packages, built, fun p second => (each 1 p second).2.2 5, perm⟩

/-- As many versions of one node as a counter of 32 bits can tell apart, and one more. -/
theorem not_buildPackages_sampleNode :
    ∃ what, buildPackages (List.replicate (2 ^ 32) (sampleNode 5 1)) = .error (.std what) := by
  have many : 2 ^ 32 ≤ occurrences Elem.id (List.replicate (2 ^ 32) (sampleNode 5 1)) 5 := by
    rw [occurrences, List.map_replicate]
    exact (List.count_replicate_self (a := (sampleNode 5 1).id)).ge
  exact buildPackages_eq_error many

end Samples

end Cgimap.Osmchange.Packages
