/- path: Cgimap/Output/CurrentDocuments
   generality: I
   source: src/api06/*_handler.cpp (the handlers of GET routes), src/osm_current_responder.cpp,
     src/backend/apidb/readonly_pgsql_selection.cpp
   digest: What a document of current objects holds, in every committed state. -/

import Cgimap.Changeset.ConcurrentHistories
import Cgimap.Output.Documents
import Cgimap.Read.Extraction
import Cgimap.Read.MapQuery

set_option autoImplicit false
set_option relaxedAutoImplicit false

namespace Cgimap.Output.CurrentDocuments

open Cgimap.Library.ExceptLists
open Cgimap.Library.Interleaving
open Cgimap.Library.KeyedTable
open Cgimap.Library.OwnedRecords
open Cgimap.Model.Types
open Cgimap.Model.Database
open Cgimap.Model.Users
open Cgimap.Osmchange.ObjectState
open Cgimap.Osmchange.ElementTrace
open Cgimap.Osmchange.Integrity
open Cgimap.Osmchange.VersionHistory
open Cgimap.Osmchange.OwnedWrites
open Cgimap.Changeset.Responders
open Cgimap.Changeset.ClosingRaces
open Cgimap.Changeset.ConcurrentUploads
open Cgimap.Changeset.OwnedRequests
open Cgimap.Changeset.ConcurrentHistories
open Cgimap.Read.DataSelection
open Cgimap.Read.Endpoints
open Cgimap.Read.Extraction
open Cgimap.Read.MapQuery
open Cgimap.Output.Documents

section Selections

variable {t t' : ObjectType} {sel : Selection} {P P' : ObjectType → Nat → Prop}

/-- The selected objects are those of `P`, and no editions are selected. -/
structure Selects (sel : Selection) (P : ObjectType → Nat → Prop) : Prop where
  current : ∀ t id, id ∈ sel.current t ↔ P t id
  historic : ∀ t, sel.historic t = ∅

namespace Selects

theorem congr (selects : Selects sel P) (same : ∀ t id, P t id ↔ P' t id) : Selects sel P' :=
  ⟨fun t id => (selects.current t id).trans (same t id), selects.historic⟩

theorem insertResults (selects : Selects sel P) (t : ObjectType) (found : Finset Nat) :
    Selects (insertResults t sel found).2 (fun u id => P u id ∨ u = t ∧ id ∈ found) := by
  refine ⟨fun u id => ?_, selects.historic⟩
  unfold Read.DataSelection.insertResults
  by_cases own : u = t
  · subst own
    simp [selects.current]
  · simp [own, selects.current]

theorem selectObjects (selects : Selects sel P) (db : Db) (t : ObjectType) (ids : List Nat) :
    Selects (selectObjects db t sel ids).2
      (fun u id => P u id ∨ u = t ∧ id ∈ ids ∧ ((db.current t).find? id).isSome) :=
  (selects.insertResults t _).congr fun u id => by simp

theorem selectMembers (selects : Selects sel P) (db : Db) (t t' : ObjectType) :
    Selects (selectMembers db t t' sel)
      (fun u id => P u id ∨ u = t' ∧ ∃ o, P t o ∧ Refers db t o (t', id)) := by
  unfold Read.DataSelection.selectMembers
  split
  · rename_i none
    refine selects.congr fun u id => ?_
    have nothing : ¬ ∃ o, P t o ∧ Refers db t o (t', id) := by
      rintro ⟨o, chosen, -⟩
      rw [← selects.current, none] at chosen
      exact Finset.notMem_empty o chosen
    simp [nothing]
  · refine (selects.insertResults t' _).congr fun u id => or_congr_right (and_congr_right fun _ => ?_)
    simp only [List.mem_toFinset, List.mem_map, Table.mem_select, decide_eq_true_eq,
      selects.current, Refers]
    constructor
    · rintro ⟨r, ⟨row, chosen, type⟩, rfl⟩
      exact ⟨r.owner, chosen, r, row, rfl, Prod.ext type rfl⟩
    · rintro ⟨o, chosen, r, row, rfl, target⟩
      exact ⟨r, ⟨row, chosen, congrArg Prod.fst target⟩, congrArg Prod.snd target⟩

private theorem mem_parents {db : Db} {ids : Finset Nat} {id : Nat} :
    id ∈ parents db t t' ids ↔ ∃ o ∈ ids, Refers db t id (t', o) := by
  simp only [parents, List.mem_toFinset, List.mem_map, Table.mem_select, decide_eq_true_eq, Refers]
  constructor
  · rintro ⟨r, ⟨row, type, inside⟩, rfl⟩
    exact ⟨_, inside, r, row, rfl, Prod.ext type rfl⟩
  · rintro ⟨o, inside, r, row, rfl, target⟩
    refine ⟨r, ⟨row, congrArg Prod.fst target, ?_⟩, rfl⟩
    rw [target]
    exact inside

theorem selectParents (selects : Selects sel P) (db : Db) (t t' : ObjectType) :
    Selects (selectParents db t t' sel)
      (fun u id => P u id ∨ u = t ∧ ∃ o, P t' o ∧ Refers db t id (t', o)) := by
  unfold Read.DataSelection.selectParents
  split
  · rename_i none
    refine selects.congr fun u id => ?_
    have nothing : ¬ ∃ o, P t' o ∧ Refers db t id (t', o) := by
      rintro ⟨o, chosen, -⟩
      rw [← selects.current, none] at chosen
      exact Finset.notMem_empty o chosen
    simp [nothing]
  · refine (selects.insertResults t _).congr fun u id => ?_
    simp only [mem_parents, selects.current]

/-- Only the relations that refer to selected ones, when these are dropped. -/
theorem selectRelationsFromRelations (selects : Selects sel P) (db : Db) (drop : Bool) :
    Selects (selectRelationsFromRelations db sel drop) (fun u id =>
      (drop = false ∨ u ≠ .relation) ∧ P u id ∨
        u = .relation ∧ ∃ o, P .relation o ∧ Refers db .relation id (.relation, o)) := by
  unfold Read.DataSelection.selectRelationsFromRelations
  split
  · rename_i none
    have empty : ∀ id, ¬ P .relation id := by
      intro id chosen
      rw [← selects.current, none] at chosen
      exact Finset.notMem_empty id chosen
    refine selects.congr fun u id => ?_
    by_cases own : u = .relation
    · subst own
      simp [empty]
    · simp [own]
  · have kept : Selects (if drop then
        { sel with current := Function.update sel.current .relation ∅ } else sel)
        (fun u id => (drop = false ∨ u ≠ .relation) ∧ P u id) := by
      cases drop with
      | false => exact selects.congr fun u id => by simp
      | true =>
          refine ⟨fun u id => ?_, selects.historic⟩
          by_cases own : u = .relation
          · subst own
            simp
          · simp [own, selects.current]
    refine (kept.insertResults .relation _).congr fun u id => ?_
    simp only [mem_parents, selects.current]

theorem dropObjects (selects : Selects sel P) (t : ObjectType) :
    Selects (dropObjects t sel) (fun u id => u ≠ t ∧ P u id) := by
  refine ⟨fun u id => ?_, selects.historic⟩
  unfold Read.DataSelection.dropObjects
  by_cases own : u = t
  · subst own
    simp
  · simp [own, selects.current]

end Selects

end Selections

section Asked

variable (cfg : Settings) (db : Db)

def ofTypes (nodes ways relations : Nat → Prop) : ObjectType → Nat → Prop
  | .node => nodes
  | .way => ways
  | .relation => relations

/-- The query of the map call finds the node. -/
def InBox (b : GeoBox) (n : Nat) : Prop :=
  ∃ r ∈ db.current .node, r.id = n ∧ visibleNodeInBbox cfg b r = true

/-- A way with a node in the box. -/
def MapWay (b : GeoBox) (w : Nat) : Prop := ∃ n, InBox cfg db b n ∧ Refers db .way w (.node, n)

/-- A node in the box, or any node of such a way. -/
def MapNode (b : GeoBox) (n : Nat) : Prop :=
  InBox cfg db b n ∨ ∃ w, MapWay cfg db b w ∧ Refers db .way w (.node, n)

/-- A relation with one of these as a member. -/
def MapMember (b : GeoBox) (r : Nat) : Prop :=
  (∃ w, MapWay cfg db b w ∧ Refers db .relation r (.way, w)) ∨
    ∃ n, MapNode cfg db b n ∧ Refers db .relation r (.node, n)

/-- Such a relation, or one with such a relation as a member. -/
def MapRelation (b : GeoBox) (r : Nat) : Prop :=
  MapMember cfg db b r ∨ ∃ r', MapMember cfg db b r' ∧ Refers db .relation r (.relation, r')

/-- The objects of type `t` that refer to a visible object. -/
def Parents (t : ObjectType) (o : Obj) (u : ObjectType) (id : Nat) : Prop :=
  u = t ∧ db.visible o = true ∧ Refers db t id o

/-- The endpoints that read the current objects only. -/
def ofCurrent : Endpoint → Bool
  | .map _ | .object _ _ | .wayFull _ | .relationFull _ | .nodeWays _ | .nodeRelations _
  | .wayRelations _ | .relationRelations _ => true
  | .version _ _ _ | .history _ _ | .objects _ _ | .changeset _ _ | .changesetDownload _ => false

/-- The endpoints that add the nodes of every way. -/
def withNodes : Endpoint → Bool
  | .map _ | .wayFull _ | .relationFull _ => true
  | _ => false

/-- The objects that the document of such an endpoint has. -/
def Asked : Endpoint → ObjectType → Nat → Prop
  | .map b => ofTypes (MapNode cfg db b) (MapWay cfg db b) (MapRelation cfg db b)
  | .object t i => fun u id => u = t ∧ id = i
  | .wayFull i => ofTypes (fun id => Refers db .way i (.node, id)) (fun id => id = i) (fun _ => False)
  | .relationFull i => ofTypes
      (fun id => Refers db .relation i (.node, id) ∨
        ∃ w, Refers db .relation i (.way, w) ∧ Refers db .way w (.node, id))
      (fun id => Refers db .relation i (.way, id))
      (fun id => id = i ∨ Refers db .relation i (.relation, id))
  | .nodeWays i => Parents db .way (.node, i)
  | .nodeRelations i => Parents db .relation (.node, i)
  | .wayRelations i => Parents db .relation (.way, i)
  | .relationRelations i => Parents db .relation (.relation, i)
  | .version _ _ _ | .history _ _ | .objects _ _ | .changeset _ _ | .changesetDownload _ =>
      fun _ _ => False

end Asked

section Responders

variable {cfg : Settings} {limits : MapLimits} {db : Db} {sel sel' : Selection}

private theorem visible_iff {t : ObjectType} {id : Nat} : db.visible (t, id) = true ↔
    ((db.current t).find? id).isSome ∧ checkVisibility db t id ≠ .deleted := by
  unfold Db.visible checkVisibility
  cases (db.current t).find? id with
  | none => simp
  | some r => cases r.visible <;> simp

private theorem count_fresh (fresh : Selects sel fun _ _ => False) (t : ObjectType) (found : Finset Nat) :
    (insertResults t sel found).1 = found.card := by
  have none : sel.current t = ∅ := Finset.eq_empty_of_forall_notMem fun id => (fresh.current t id).mp
  unfold insertResults
  rw [none, Finset.empty_union, Finset.card_empty, Nat.sub_zero]

private theorem count_selectObjects (fresh : Selects sel fun _ _ => False) {t : ObjectType} {id : Nat} :
    0 < (selectObjects db t sel [id]).1 ↔ ((db.current t).find? id).isSome := by
  unfold selectObjects
  rw [count_fresh fresh, Finset.card_pos]
  constructor
  · rintro ⟨i, member⟩
    obtain ⟨same, known⟩ := Finset.mem_filter.mp member
    rw [List.mem_toFinset, List.mem_singleton] at same
    exact same ▸ known
  · intro known
    exact ⟨id, Finset.mem_filter.mpr ⟨by simp, known⟩⟩

private theorem selects_one (db : Db) (fresh : Selects sel fun _ _ => False) (t : ObjectType) (id : Nat) :
    Selects (selectObjects db t sel [id]).2
      (fun u i => u = t ∧ i = id ∧ ((db.current t).find? id).isSome) :=
  (fresh.selectObjects db t [id]).congr fun u i => by
    rw [false_or, List.mem_singleton]
    refine and_congr_right fun _ => and_congr_right fun same => ?_
    rw [same]

private theorem selects_inBox (cfg : Settings) (db : Db) (fresh : Selects sel fun _ _ => False)
    {b : GeoBox} {maxNodes : Nat} (few : (selectNodesFromBbox db sel cfg b maxNodes).1 ≤ maxNodes) :
    Selects (selectNodesFromBbox db sel cfg b maxNodes).2
        (ofTypes (InBox cfg db b) (fun _ => False) (fun _ => False)) ∧
      ∀ n, InBox cfg db b n → 0 < (selectNodesFromBbox db sel cfg b maxNodes).1 := by
  rw [selectNodesFromBbox_eq] at few ⊢
  rw [count_fresh fresh] at few
  generalize rows_eq : (db.current .node).select (visibleNodeInBbox cfg b) = rows at few ⊢
  have distinct : (rows.map CurrentRow.id).Nodup :=
    rows_eq ▸ Table.nodup_keys_select (db.current .node) (visibleNodeInBbox cfg b)
  have all : rows.take (maxNodes + 1) = rows := by
    rw [List.take_eq_self_iff]
    rw [List.map_take, List.toFinset_card_of_nodup (distinct.sublist (List.take_sublist _ _)),
      List.length_take, List.length_map] at few
    omega
  rw [all]
  have inside : ∀ id, id ∈ (rows.map CurrentRow.id).toFinset ↔ InBox cfg db b id := by
    intro id
    rw [← rows_eq, List.mem_toFinset, List.mem_map]
    simp only [Table.mem_select, InBox]
    constructor
    · rintro ⟨r, ⟨row, hit⟩, own⟩
      exact ⟨r, row, own, hit⟩
    · rintro ⟨r, row, own, hit⟩
      exact ⟨r, ⟨row, hit⟩, own⟩
  refine ⟨(fresh.insertResults .node _).congr fun u id => ?_, fun n found => ?_⟩
  · rw [false_or, inside]
    cases u <;> simp [ofTypes]
  · rw [count_fresh fresh, Finset.card_pos]
    exact ⟨n, (inside n).mpr found⟩

private theorem selects_map (fresh : Selects sel fun _ _ => False) {b : GeoBox}
    (accepted : mapResponder cfg limits db sel b = .ok sel') : Selects sel' (Asked cfg db (.map b)) := by
  have found := fun few => @selects_inBox sel cfg db fresh b limits.maxNodes few
  unfold mapResponder at accepted
  generalize selectNodesFromBbox db sel cfg b limits.maxNodes = inside at accepted found
  dsimp only at accepted
  split at accepted
  · cases accepted
  · rename_i few
    obtain ⟨nodes, some⟩ := found (not_lt.mp few)
    split at accepted
    · rw [Except.ok.injEq] at accepted
      subst accepted
      have ways : Selects _ (ofTypes (InBox cfg db b) (MapWay cfg db b) fun _ => False) :=
        (nodes.selectParents db .way .node).congr fun u id => by cases u <;> simp [ofTypes, MapWay]
      have wayNodes : Selects _ (ofTypes (MapNode cfg db b) (MapWay cfg db b) fun _ => False) :=
        (ways.selectMembers db .way .node).congr fun u id => by cases u <;> simp [ofTypes, MapNode]
      have members : Selects _ (ofTypes (MapNode cfg db b) (MapWay cfg db b) (MapMember cfg db b)) :=
        ((wayNodes.selectParents db .relation .way).selectParents db .relation .node).congr
          fun u id => by cases u <;> simp [ofTypes, MapMember]
      exact (members.selectRelationsFromRelations db false).congr
        fun u id => by cases u <;> simp [ofTypes, Asked, MapRelation]
    · rename_i none
      cases accepted
      have outside : ∀ n, ¬ InBox cfg db b n := fun n inside => none (some n inside)
      have noWay : ∀ w, ¬ MapWay cfg db b w := fun w ⟨n, inside, _⟩ => outside n inside
      have noNode : ∀ n, ¬ MapNode cfg db b n := by
        rintro n (inside | ⟨w, way, -⟩)
        · exact outside n inside
        · exact noWay w way
      have noMember : ∀ r, ¬ MapMember cfg db b r := by
        rintro r (⟨w, way, -⟩ | ⟨n, node, -⟩)
        · exact noWay w way
        · exact noNode n node
      have noRelation : ∀ r, ¬ MapRelation cfg db b r := by
        rintro r (member | ⟨r', member, -⟩)
        · exact noMember r member
        · exact noMember r' member
      refine nodes.congr fun u id => ?_
      cases u <;> simp [ofTypes, Asked, outside, noWay, noNode, noRelation]

private theorem selects_object (fresh : Selects sel fun _ _ => False) {t : ObjectType} {i : Nat}
    (accepted : objectResponder db sel t i = .ok sel') :
    Selects sel' (Asked cfg db (.object t i)) ∧ db.visible (t, i) = true := by
  unfold objectResponder at accepted
  dsimp only at accepted
  split at accepted
  · cases accepted
  · rename_i some
    have known := (count_selectObjects fresh).mp (Nat.pos_of_ne_zero some)
    split at accepted
    · cases accepted
    · rename_i shown
      cases accepted
      exact ⟨(selects_one db fresh t i).congr fun u id => by simp [Asked, known],
        visible_iff.mpr ⟨known, shown⟩⟩

private theorem checkFull_ok {t : ObjectType} {i : Nat} {u : Unit}
    (passed : checkFull db t i = .ok u) : db.visible (t, i) = true := by
  unfold checkFull at passed
  rw [visible_iff]
  unfold checkVisibility at passed ⊢
  cases found : (db.current t).find? i with
  | none =>
      rw [found] at passed
      cases passed
  | some r =>
      rw [found] at passed
      cases shown : r.visible
      · simp [shown] at passed
      · simp [shown]

private theorem selects_wayFull (fresh : Selects sel fun _ _ => False) {i : Nat}
    (accepted : wayFullResponder db sel i = .ok sel') :
    Selects sel' (Asked cfg db (.wayFull i)) ∧ db.visible (.way, i) = true := by
  unfold wayFullResponder at accepted
  dsimp only at accepted
  split at accepted
  · cases accepted
  · rename_i some
    have known := (count_selectObjects fresh).mp (Nat.pos_of_ne_zero some)
    obtain ⟨_, passed, same⟩ := bind_eq_ok.mp accepted
    cases same
    refine ⟨((selects_one db fresh .way i).selectMembers db .way .node).congr fun u id => ?_,
      checkFull_ok passed⟩
    cases u <;> simp [Asked, ofTypes, known]

private theorem selects_relationFull (fresh : Selects sel fun _ _ => False) {i : Nat}
    (accepted : relationFullResponder db sel i = .ok sel') :
    Selects sel' (Asked cfg db (.relationFull i)) ∧ db.visible (.relation, i) = true := by
  unfold relationFullResponder at accepted
  dsimp only at accepted
  split at accepted
  · cases accepted
  · rename_i some
    have known := (count_selectObjects fresh).mp (Nat.pos_of_ne_zero some)
    obtain ⟨_, passed, same⟩ := bind_eq_ok.mp accepted
    rw [Except.ok.injEq] at same
    subst same
    have members : Selects _ (ofTypes (fun id => Refers db .relation i (.node, id))
        (fun id => Refers db .relation i (.way, id)) (fun id => id = i)) :=
      (((selects_one db fresh .relation i).selectMembers db .relation .node).selectMembers db .relation .way).congr
        fun u id => by cases u <;> simp [ofTypes, known]
    refine ⟨((members.selectMembers db .way .node).selectMembers db .relation .relation).congr fun u id => ?_,
      checkFull_ok passed⟩
    cases u <;> simp [Asked, ofTypes]

private theorem selects_parents (fresh : Selects sel fun _ _ => False) {t t' : ObjectType} (ne : t ≠ t')
    {i : Nat} (accepted : parentsResponder db sel t t' i = .ok sel') :
    Selects sel' (Parents db t (t', i)) := by
  unfold parentsResponder at accepted
  dsimp only at accepted
  cases accepted
  have one := selects_one db fresh t' i
  split
  · rename_i found
    have shown := visible_iff.mpr ⟨(count_selectObjects fresh).mp found.1, found.2⟩
    have known := (visible_iff.mp shown).1
    refine ((one.selectParents db t t').dropObjects t').congr fun u id => ?_
    simp only [Parents, shown, known, and_true, true_and, exists_eq_left]
    constructor
    · rintro ⟨other, own | parent⟩
      · exact absurd own.1 other
      · exact parent
    · exact fun parent => ⟨fun same => ne (parent.1.symm.trans same), .inr parent⟩
  · rename_i missing
    refine (one.dropObjects t').congr fun u id => ?_
    constructor
    · rintro ⟨other, own, -⟩
      exact absurd own other
    · rintro ⟨-, shown, -⟩
      have found := visible_iff.mp shown
      exact absurd ⟨(count_selectObjects fresh).mpr found.1, found.2⟩ missing

private theorem selects_relationRelations (fresh : Selects sel fun _ _ => False) {i : Nat}
    (accepted : relationRelationsResponder db sel i = .ok sel') :
    Selects sel' (Parents db .relation (.relation, i)) := by
  unfold relationRelationsResponder at accepted
  dsimp only at accepted
  have one := selects_one db fresh .relation i
  split at accepted
  · rename_i found
    cases accepted
    have shown := visible_iff.mpr ⟨(count_selectObjects fresh).mp found.1, found.2⟩
    have known := (visible_iff.mp shown).1
    refine (one.selectRelationsFromRelations db true).congr fun u id => ?_
    simp only [Parents, shown, known, and_true, true_and, exists_eq_left]
    constructor
    · rintro (⟨dropped | other, own⟩ | parent)
      · cases dropped
      · exact absurd own.1 other
      · exact parent
    · exact .inr
  · rename_i missing
    cases accepted
    refine (one.dropObjects .relation).congr fun u id => ?_
    constructor
    · rintro ⟨other, own, -⟩
      exact absurd own other
    · rintro ⟨-, shown, -⟩
      have found := visible_iff.mp shown
      exact absurd ⟨(count_selectObjects fresh).mpr found.1, found.2⟩ missing

/-- An endpoint of the current objects selects those that it is asked for. -/
theorem selects_of_responder {e : Endpoint} (current : ofCurrent e = true)
    (fresh : Selects sel fun _ _ => False) (accepted : e.responder cfg limits db sel = .ok sel') :
    Selects sel' (Asked cfg db e) := by
  cases e with
  | map b => exact selects_map fresh accepted
  | object t i => exact (selects_object fresh accepted).1
  | wayFull i => exact (selects_wayFull fresh accepted).1
  | relationFull i => exact (selects_relationFull fresh accepted).1
  | nodeWays i => exact selects_parents fresh (by decide) accepted
  | nodeRelations i => exact selects_parents fresh (by decide) accepted
  | wayRelations i => exact selects_parents fresh (by decide) accepted
  | relationRelations i => exact selects_relationRelations fresh accepted
  | version t i v => cases current
  | history t i => cases current
  | objects t ids => cases current
  | changeset i discussion => cases current
  | changesetDownload i => cases current

end Responders

section Rows

variable {store : Store} {sel : Selection} {P : ObjectType → Nat → Prop} {t : ObjectType} {α β : Type}

/-- All of a list, or what stands before the first failure. -/
structure Reaches (out : List α × Option Exception) (all : List α) : Prop where
  initial : out.1 <+: all
  complete : out.2 = none → out.1 = all

theorem Reaches.andThen {first next : List α × Option Exception} {l l' : List α}
    (reaches : Reaches first l) (reaches' : Reaches next l') :
    Reaches (Read.Endpoints.andThen first next) (l ++ l') := by
  unfold Read.Endpoints.andThen
  split
  · exact ⟨reaches.initial.trans (List.prefix_append l l'), nofun⟩
  · rename_i complete
    rw [reaches.complete complete]
    exact ⟨(List.prefix_append_right_inj l).mpr reaches'.initial,
      fun none => congrArg (l ++ ·) (reaches'.complete none)⟩

theorem Reaches.map {out : List α × Option Exception} {l : List α} (reaches : Reaches out l)
    (f : α → β) : Reaches (out.1.map f, out.2) (l.map f) :=
  ⟨reaches.initial.map f, fun none => congrArg (List.map f) (reaches.complete none)⟩

private theorem reaches_untilError {l : List β} {f : β → Except Exception α} {g : β → α}
    (same : ∀ b a, f b = .ok a → a = g b) : Reaches (untilError (l.map f)) (l.map g) := by
  induction l with
  | nil => exact ⟨List.prefix_refl _, fun _ => rfl⟩
  | cons b l ih =>
      rw [List.map_cons, List.map_cons]
      cases read : f b with
      | error e => exact ⟨List.nil_prefix, nofun⟩
      | ok a =>
          rw [← same b a read]
          exact ⟨(List.prefix_cons_inj a).mpr ih.initial, fun none => congrArg (a :: ·) (ih.complete none)⟩

theorem reaches_writeRows (store : Store) (rows : List (Extracted t)) :
    Reaches (writeRows store t rows) (rows.map (contentOf store)) := by
  unfold writeRows
  split
  · exact ⟨List.nil_prefix, nofun⟩
  · exact reaches_untilError fun x w read => contentOf_of_extract read

def rowsOf (db : Db) (t : ObjectType) (ids : Finset Nat) : List (CurrentRow t) :=
  ids.sort.filterMap (fun id => (db.current t).find? id)

def currentContent (store : Store) (r : CurrentRow t) : AnyWritten :=
  ⟨t, contentOf store (currentRow t store.db r)⟩

private theorem currentRows_eq : currentRows store t sel =
    (rowsOf store.db t (sel.current t)).map (currentRow t store.db) := by
  unfold currentRows rowsOf
  rw [List.map_filterMap]
  refine List.filterMap_congr fun id _ => ?_
  cases found : (store.db.current t).find? id with
  | none => rfl
  | some r =>
      obtain rfl := (Table.find?_eq_some.mp found).2
      rfl

private theorem reaches_sortable (store : Store) (selects : Selects sel P) (t : ObjectType) :
    Reaches (sortable store sel t) ((rowsOf store.db t (sel.current t)).map (currentContent store)) := by
  have rows := (reaches_writeRows store (currentRows store t sel)).map (Sigma.mk t)
  rw [currentRows_eq, List.map_map, List.map_map] at rows
  have merged : mergeCurrent store t sel = .ok sel := by
    unfold mergeCurrent
    rw [if_neg]
    exact fun both => both.2 (selects.historic t)
  have same : writeObjects store t sel =
      writeRows store t ((rowsOf store.db t (sel.current t)).map (currentRow t store.db)) := by
    unfold writeObjects
    rw [merged, ← currentRows_eq]
    by_cases none : sel.current t = ∅
    · simp [none, selects.historic t, currentRows, writeRows, fetchChangesets, inOrder, untilError]
    · simp [none]
  unfold sortable
  rw [same]
  exact rows

/-- Nodes come before ways and ways before relations, each in the order of the ids. -/
def Precedes (w w' : AnyWritten) : Prop :=
  typeRank w.1 < typeRank w'.1 ∨ w.1 = w'.1 ∧ w.2.elem.id < w'.2.elem.id

/-- The current rows of the objects of `P`, in order. -/
structure Lists (store : Store) (P : ObjectType → Nat → Prop) (all : List AnyWritten) : Prop where
  mem : ∀ w, w ∈ all ↔ ∃ t, ∃ r ∈ store.db.current t, P t r.id ∧ w = currentContent store r
  ordered : all.Pairwise Precedes

private theorem mem_rowsOf {db : Db} {ids : Finset Nat} {r : CurrentRow t} :
    r ∈ rowsOf db t ids ↔ r ∈ db.current t ∧ r.id ∈ ids := by
  simp only [rowsOf, List.mem_filterMap, Finset.mem_sort, Table.find?_eq_some]
  constructor
  · rintro ⟨id, inside, row, rfl⟩
    exact ⟨row, inside⟩
  · rintro ⟨row, inside⟩
    exact ⟨r.id, inside, row, rfl⟩

private theorem pairwise_contents (db : Db) (t : ObjectType) (ids : Finset Nat) :
    ((rowsOf db t ids).map (currentContent store)).Pairwise Precedes := by
  rw [List.pairwise_map]
  refine (Finset.sortedLT_sort ids).pairwise.filterMap _ fun id id' less r found r' found' => .inr ⟨rfl, ?_⟩
  have own : r.id = id := (Table.find?_eq_some.mp found).2
  have own' : r'.id = id' := (Table.find?_eq_some.mp found').2
  change r.id < r'.id
  rw [own, own']
  exact less

theorem lists_of_selects (store : Store) (selects : Selects sel P) :
    ∃ all, Lists store P all ∧ Reaches (readAll store sel) all := by
  have part := reaches_sortable store selects
  refine ⟨_, ⟨fun w => ?_, ?_⟩, (part .node).andThen ((part .way).andThen (part .relation))⟩
  · simp only [List.mem_append, List.mem_map, mem_rowsOf, selects.current]
    constructor
    · rintro (⟨r, ⟨row, chosen⟩, rfl⟩ | ⟨r, ⟨row, chosen⟩, rfl⟩ | ⟨r, ⟨row, chosen⟩, rfl⟩)
      · exact ⟨_, r, row, chosen, rfl⟩
      · exact ⟨_, r, row, chosen, rfl⟩
      · exact ⟨_, r, row, chosen, rfl⟩
    · rintro ⟨t, r, row, chosen, rfl⟩
      cases t with
      | node => exact .inl ⟨r, ⟨row, chosen⟩, rfl⟩
      | way => exact .inr (.inl ⟨r, ⟨row, chosen⟩, rfl⟩)
      | relation => exact .inr (.inr ⟨r, ⟨row, chosen⟩, rfl⟩)
  · have across : ∀ {t t' : ObjectType} {ids ids' : Finset Nat}, typeRank t < typeRank t' →
        ∀ w ∈ (rowsOf store.db t ids).map (currentContent store),
          ∀ w' ∈ (rowsOf store.db t' ids').map (currentContent store), Precedes w w' := by
      intro t t' ids ids' less w member w' member'
      obtain ⟨r, -, rfl⟩ := List.mem_map.mp member
      obtain ⟨r', -, rfl⟩ := List.mem_map.mp member'
      exact .inl less
    rw [List.pairwise_append, List.pairwise_append]
    refine ⟨pairwise_contents _ _ _, ⟨pairwise_contents _ _ _, pairwise_contents _ _ _,
      across (by decide)⟩, fun w member w' member' => ?_⟩
    rcases List.mem_append.mp member' with way | relation
    · exact across (by decide) w member w' way
    · exact across (by decide) w member w' relation

end Rows

section Documents

variable {cfg : Settings} {limits : MapLimits} {store : Store} {sel sel' : Selection}
  {P : ObjectType → Nat → Prop} {elements all : List AnyWritten}

def nodesOf (w : Written .way) : List Nat := w.extra

/-- Every way stands behind its nodes, and they are visible. -/
def NodesFirst (elements : List AnyWritten) : Prop :=
  ∀ before after (w : Written .way), elements = before ++ ⟨.way, w⟩ :: after →
    ∀ n ∈ nodesOf w, ∃ node : Written .node, ⟨.node, node⟩ ∈ before ∧
      node.elem.id = n ∧ node.elem.visible = true

private theorem row_of_visible {db : Db} {t : ObjectType} {id : Nat} (shown : db.visible (t, id) = true) :
    ∃ r ∈ db.current t, r.id = id ∧ r.visible = true := by
  unfold Db.visible at shown
  split at shown
  · rename_i r found
    obtain ⟨row, own⟩ := Table.find?_eq_some.mp found
    exact ⟨r, row, own, shown⟩
  · cases shown

private theorem refers_of_extra {r : CurrentRow .way} {n : Nat}
    (member : n ∈ nodesOf (contentOf store (currentRow .way store.db r))) :
    Refers store.db .way r.id (.node, n) := by
  obtain ⟨wayNode, listed, rfl⟩ := List.mem_map.mp member
  obtain ⟨p, inside, rfl⟩ := List.mem_map.mp listed
  exact refers_iff.mpr ⟨p, (List.mem_insertionSort _).mp inside, rfl⟩

/-- What is closed under the nodes of its ways is written with the nodes first. -/
theorem nodesFirst_of_lists (links : Linked (fun _ => True) (fun t => t ≠ .relation) store.db)
    (closed : ∀ w n, P .way w → Refers store.db .way w (.node, n) → P .node n)
    (lists : Lists store P all) (initial : elements <+: all) : NodesFirst elements := by
  rintro before after w rfl n member
  obtain ⟨rest, rfl⟩ := initial
  have inside : (⟨.way, w⟩ : AnyWritten) ∈ before ++ ⟨.way, w⟩ :: after ++ rest := by simp
  obtain ⟨t, r, row, chosen, same⟩ := (lists.mem _).mp inside
  cases same
  have refers := refers_of_extra member
  obtain ⟨r', row', rfl, shown⟩ := row_of_visible (links.targets .way r.id (.node, n) trivial (by simp) refers)
  refine ⟨contentOf store (currentRow .node store.db r'), ?_, rfl, shown⟩
  have listed := (lists.mem _).mpr ⟨.node, r', row', closed r.id r'.id chosen refers, rfl⟩
  have order := lists.ordered
  rw [List.append_assoc, List.cons_append, List.pairwise_append, List.pairwise_cons] at order
  rw [List.append_assoc, List.cons_append, List.mem_append, List.mem_cons] at listed
  rcases listed with early | same | late
  · exact early
  · cases same
  · rcases order.2.1.1 _ late with rank | same
    · exact absurd rank (show ¬ typeRank .way < typeRank .node by decide)
    · exact nomatch same.1

private theorem closed_of_withNodes {db : Db} {e : Endpoint} (nodes : withNodes e = true) (w n : Nat)
    (asked : Asked cfg db e .way w) (refers : Refers db .way w (.node, n)) : Asked cfg db e .node n := by
  cases e with
  | map b => exact .inr ⟨w, asked, refers⟩
  | wayFull i =>
      obtain rfl : w = i := asked
      exact refers
  | relationFull i => exact .inr ⟨w, asked, refers⟩
  | object t i => cases nodes
  | nodeWays i => cases nodes
  | nodeRelations i => cases nodes
  | wayRelations i => cases nodes
  | relationRelations i => cases nodes
  | version t i v => cases nodes
  | history t i => cases nodes
  | objects t ids => cases nodes
  | changeset i discussion => cases nodes
  | changesetDownload i => cases nodes

/-- A deleted object is only met as a member of a relation that is asked for with its members. -/
private theorem shown_of_asked {e : Endpoint} {t : ObjectType} {id : Nat} {db : Db}
    (links : Linked (fun _ => True) (fun t => t ≠ .relation) db) (fresh : Selects sel fun _ _ => False)
    (accepted : e.responder cfg limits db sel = .ok sel') (asked : Asked cfg db e t id) :
    db.visible (t, id) = true ∨
      t = .relation ∧ ∃ i, e = .relationFull i ∧ id ≠ i ∧ Refers db .relation i (.relation, id) := by
  have owner : ∀ {t id o}, Refers db t id o → db.visible (t, id) = true :=
    fun refers => links.owners _ _ _ trivial refers
  have node : ∀ {t id n}, Refers db t id (.node, n) → db.visible (.node, n) = true :=
    fun refers => links.targets _ _ _ trivial nofun refers
  have way : ∀ {t id w}, Refers db t id (.way, w) → db.visible (.way, w) = true :=
    fun refers => links.targets _ _ _ trivial nofun refers
  cases e with
  | map b =>
      refine .inl ?_
      cases t with
      | node =>
          rcases asked with ⟨r, row, rfl, hit⟩ | ⟨w, -, refers⟩
          · rw [Db.visible, Table.find?_key row]
            exact (show _ ∧ r.visible = true by simpa [visibleNodeInBbox] using hit).2
          · exact node refers
      | way =>
          obtain ⟨n, -, refers⟩ := asked
          exact owner refers
      | relation =>
          rcases asked with (⟨w, -, refers⟩ | ⟨n, -, refers⟩) | ⟨r, -, refers⟩
          · exact owner refers
          · exact owner refers
          · exact owner refers
  | object u i =>
      obtain ⟨rfl, rfl⟩ := asked
      have both : Selects sel' (Asked cfg db (.object t id)) ∧ _ := selects_object fresh accepted
      exact .inl both.2
  | wayFull i =>
      refine .inl ?_
      cases t with
      | node => exact node asked
      | way =>
          obtain rfl : id = i := asked
          have both : Selects sel' (Asked cfg db (.wayFull id)) ∧ _ := selects_wayFull fresh accepted
          exact both.2
      | relation => exact asked.elim
  | relationFull i =>
      cases t with
      | node =>
          rcases asked with refers | ⟨w, -, refers⟩
          · exact .inl (node refers)
          · exact .inl (node refers)
      | way => exact .inl (way asked)
      | relation =>
          by_cases same : id = i
          · subst same
            have both : Selects sel' (Asked cfg db (.relationFull id)) ∧ _ :=
              selects_relationFull fresh accepted
            exact .inl both.2
          · exact .inr ⟨rfl, i, rfl, same, asked.resolve_left same⟩
  | nodeWays i =>
      obtain ⟨rfl, -, refers⟩ := asked
      exact .inl (owner refers)
  | nodeRelations i =>
      obtain ⟨rfl, -, refers⟩ := asked
      exact .inl (owner refers)
  | wayRelations i =>
      obtain ⟨rfl, -, refers⟩ := asked
      exact .inl (owner refers)
  | relationRelations i =>
      obtain ⟨rfl, -, refers⟩ := asked
      exact .inl (owner refers)
  | version u i v => exact asked.elim
  | history u i => exact asked.elim
  | objects u ids => exact asked.elim
  | changeset i discussion => exact asked.elim
  | changesetDownload i => exact asked.elim

def boundsOf : Endpoint → Option GeoBox
  | .map b => some b
  | _ => none

/-- The elements of a document are exactly the objects asked for, or the first of them where
reading fails; it is self-contained where the nodes of ways are part of it. -/
structure Holds (cfg : Settings) (store : Store) (e : Endpoint) (elements : List AnyWritten)
    (failed : Option Exception) : Prop where
  exact : ∃ all, Lists store (Asked cfg store.db e) all ∧ Reaches (elements, failed) all
  nodesFirst : withNodes e = true → NodesFirst elements
  shown : ∀ w ∈ elements, w.2.elem.visible = true ∨ w.1 = .relation ∧ ∃ i, e = .relationFull i ∧
    w.2.elem.id ≠ i ∧ Refers store.db .relation i (.relation, w.2.elem.id)

theorem write_current {e : Endpoint} (current : ofCurrent e = true) (now : Int) :
    e.write store sel now =
      (DocumentBody.current (boundsOf e) (readAll store sel).1 (readAll store sel).2).calls := by
  cases e with
  | version t i v => cases current
  | history t i => cases current
  | objects t ids => cases current
  | changeset i discussion => cases current
  | changesetDownload i => cases current
  | map b => exact writeCurrent_eq store sel (some b)
  | object t i => exact writeCurrent_eq store sel none
  | wayFull i => exact writeCurrent_eq store sel none
  | relationFull i => exact writeCurrent_eq store sel none
  | nodeWays i => exact writeCurrent_eq store sel none
  | nodeRelations i => exact writeCurrent_eq store sel none
  | wayRelations i => exact writeCurrent_eq store sel none
  | relationRelations i => exact writeCurrent_eq store sel none

theorem holds_of_responder {e : Endpoint} (current : ofCurrent e = true)
    (links : Linked (fun _ => True) (fun t => t ≠ .relation) store.db)
    (fresh : Selects sel fun _ _ => False)
    (accepted : e.responder cfg limits store.db sel = .ok sel') :
    Holds cfg store e (readAll store sel').1 (readAll store sel').2 := by
  obtain ⟨all, lists, reaches⟩ := lists_of_selects store (selects_of_responder current fresh accepted)
  refine ⟨⟨all, lists, reaches⟩, fun nodes =>
    nodesFirst_of_lists links (closed_of_withNodes nodes) lists reaches.initial, fun w member => ?_⟩
  obtain ⟨t, r, row, asked, rfl⟩ := (lists.mem w).mp (reaches.initial.subset member)
  rcases shown_of_asked links fresh accepted asked with shown | exempt
  · rw [Db.visible, Table.find?_key row] at shown
    exact .inl shown
  · exact .inr exempt

end Documents

section Runs

variable {I : Type} [DecidableEq I] {txs : I → Transaction}

/-- Only a visible object has references. -/
def Bare {t : ObjectType} (s : ObjState t) : Prop := s.refs ≠ [] → s.visible = true

private theorem bare_act {t : ObjectType} {now : Int} {id : Nat} {s : ObjState t} {ev : Event t}
    (bare : Bare s) (allowed : ev.Allowed s) : Bare (ev.act now id s) := by
  obtain ⟨op, e, skipped⟩ := ev
  cases skipped with
  | true => exact bare
  | false =>
      cases op with
      | create =>
          intro _
          change (s.create now id e).visible = true
          rw [ObjState.visible, ObjState.create_row]
          rfl
      | modify =>
          intro _
          obtain ⟨r, found, -⟩ := Option.map_eq_some_iff.mp allowed.1
          change (s.modify now e).visible = true
          rw [ObjState.visible, ObjState.modify_row, found]
          rfl
      | delete => exact fun some => absurd (ObjState.delete_refs ..) some

private theorem bare_of_does {tx : Transaction} {σ σ' : dbRecords.Contents} {reply : Reply}
    (does : Does tx σ σ' reply) {o : Obj} (bare : Bare (objectsOf σ o)) : Bare (objectsOf σ' o) := by
  obtain ⟨log, lawful, replayed⟩ := replay_of_does does
  have final := congrFun replayed o
  rw [Library.EventLog.replay_at] at final
  rw [← final]
  exact ((Library.EventLog.lawful_iff _).mp lawful o).invariant bare
    fun s ev bare allowed => bare_act bare allowed

private theorem bare_iff {db : Db} : (∀ t id, Bare (object db t id)) ↔
    ∀ t id o, Refers db t id o → db.visible (t, id) = true := by
  constructor
  · intro bare t id o refers
    obtain ⟨p, member, -⟩ := refers_iff.mp refers
    rw [Osmchange.ObjectState.visible_eq]
    exact bare t id (List.ne_nil_of_mem member)
  · intro owners t id some
    obtain ⟨p, member⟩ := List.exists_mem_of_ne_nil _ some
    have shown := owners t id p.2.target (refers_iff.mpr ⟨p, member, rfl⟩)
    rwa [Osmchange.ObjectState.visible_eq] at shown

/-- Deleted objects have no references and nothing refers to deleted nodes and ways, in
every committed state. -/
theorem linked_of_run (run : DbRun txs)
    (links : Linked (fun _ => True) (fun t => t ≠ .relation) (run.state 0).base) (n : Nat) :
    Linked (fun _ => True) (fun t => t ≠ .relation) (run.state n).base := by
  have bare : ∀ o, Bare (objectsOf (dbRecords.contents (run.state 0).base) o) →
      Bare (objectsOf (dbRecords.contents (run.state n).base) o) :=
    contents_related (P := fun σ σ' => ∀ o, Bare (objectsOf σ o) → Bare (objectsOf σ' o))
      (fun σ o bare => bare) (fun σ σ' σ'' first next o bare => next o (first o bare))
      respects_dbRecords (fun i σ => (responder_safe (txs i) σ).mono
        fun _ _ _ does o bare => bare_of_does does bare) run (Nat.zero_le n)
  have start := bare_iff.mpr fun t id o refers => links.owners t id o trivial refers
  have now := bare_iff.mp fun t id => bare (t, id) (start t id)
  have whole := noDangling_committed run (fun t id o refers type =>
    links.targets t id o trivial type refers) n
  exact ⟨fun t id o _ refers => now t id o refers, fun t id o _ type refers => whole t id o refers type⟩

/-- Whatever requests run side by side, a document of the current objects that is read from a
committed state has exactly the objects asked for, with all nodes of its ways where it is to
have them. -/
theorem document_of_run (run : DbRun txs) (keys : ForeignKeys (run.state 0).base)
    (links : NodeWayIntegrity (run.state 0).base) (n : Nat) (accounts : Accounts) {cfg : Settings}
    {limits : MapLimits} {e : Endpoint} (current : ofCurrent e = true) {sel sel' : Selection}
    (fresh : Selects sel fun _ _ => False)
    (accepted : e.responder cfg limits (run.state n).base sel = .ok sel') (now : Int) :
    ∃ elements failed, e.write ⟨(run.state n).base, accounts⟩ sel' now =
        (DocumentBody.current (boundsOf e) elements failed).calls ∧
      Holds cfg ⟨(run.state n).base, accounts⟩ e elements failed :=
  ⟨_, _, write_current current now, holds_of_responder current
    (linked_of_run run ((nodeWayIntegrity_iff keys).mp links) n) fresh accepted⟩

end Runs

section Samples

def samplePublic : Accounts := ⟨fun _ => ⟨true, "mapper", .active⟩, [], [], [], []⟩

/-- The way that one of two uploads has made, with its nodes. -/
theorem document_sampleOverlap : ∃ sel elements failed,
    (Endpoint.wayFull 1).responder .default ⟨50000, 1⟩ (sampleOverlap.state 39).base .empty = .ok sel ∧
      (Endpoint.wayFull 1).write ⟨(sampleOverlap.state 39).base, samplePublic⟩ sel 3 =
        (DocumentBody.current none elements failed).calls ∧
      Holds .default ⟨(sampleOverlap.state 39).base, samplePublic⟩ (.wayFull 1) elements failed := by
  have answered : (match (Endpoint.wayFull 1).responder .default ⟨50000, 1⟩
      (sampleOverlap.state 39).base .empty with
    | .ok _ => true
    | .error _ => false) = true := by decide +kernel
  have keys : ForeignKeys (sampleOverlap.state 0).base :=
    ⟨fun t r member => absurd member (Table.not_mem_of_isEmpty (by cases t <;> decide +kernel) r),
      fun t r member => absurd member (Table.not_mem_of_isEmpty (by cases t <;> decide +kernel) r),
      fun t r member => absurd member (Table.not_mem_of_isEmpty (by cases t <;> decide +kernel) r),
      fun t r member => absurd member (Table.not_mem_of_isEmpty (by cases t <;> decide +kernel) r)⟩
  have none : ∀ t r, ¬ r ∈ (sampleOverlap.state 0).base.currentRefs t := fun t r =>
    Table.not_mem_of_isEmpty (by cases t <;> decide +kernel) r
  have links : NodeWayIntegrity (sampleOverlap.state 0).base :=
    ⟨fun r member => absurd member (none _ r), fun r member => absurd member (none _ r),
      fun t r member => absurd member (none t r)⟩
  cases accepted : (Endpoint.wayFull 1).responder .default ⟨50000, 1⟩
      (sampleOverlap.state 39).base .empty with
  | error e =>
      rw [accepted] at answered
      cases answered
  | ok sel =>
      obtain ⟨elements, failed, document, holds⟩ := document_of_run sampleOverlap keys links 39
        samplePublic rfl ⟨by simp [Selection.empty], fun _ => rfl⟩ accepted 3
      exact ⟨sel, elements, failed, rfl, document, holds⟩

end Samples

end Cgimap.Output.CurrentDocuments
