/- path: Cgimap/Osmchange/BoxReach
   generality: I
   source: none
   digest: How far a bounding box reaches to each side, and the boxes of the queries. -/

import Cgimap.Osmchange.CheckEffects

set_option autoImplicit false
set_option relaxedAutoImplicit false

namespace Cgimap.Osmchange.BoxReach

open Cgimap.Library.KeyedTable
open Cgimap.Library.StatementProgram
open Cgimap.Library.StatementProgram.Prog
open Cgimap.Model.Types
open Cgimap.Model.Database
open Cgimap.Osmchange.DiffTracking
open Cgimap.Osmchange.UploadRecords
open Cgimap.Osmchange.SqlStatements
open Cgimap.Osmchange.UpdaterChecks
open Cgimap.Osmchange.UpdaterProcess
open Cgimap.Osmchange.ObjectState
open Cgimap.Osmchange.CheckEffects

inductive Side where
  | south
  | north
  | west
  | east
  deriving DecidableEq, Repr

/-- How far a position lies to a side. -/
def reachOf (c : NodeCoord) : Side → Int
  | .south => -c.lat
  | .north => c.lat
  | .west => -c.lon
  | .east => c.lon

/-- How far a box reaches to a side. -/
def reach (b : Bbox) : Side → Int
  | .south => -b.minlat
  | .north => b.maxlat
  | .west => -b.minlon
  | .east => b.maxlon

def Contains (b : Bbox) (c : NodeCoord) : Prop :=
  b.minlat ≤ c.lat ∧ c.lat ≤ b.maxlat ∧ b.minlon ≤ c.lon ∧ c.lon ≤ b.maxlon

instance (b : Bbox) (c : NodeCoord) : Decidable (Contains b c) :=
  inferInstanceAs (Decidable (_ ∧ _))

/-- The positions that the bounding box of an object is made of; relations have none of
their own. -/
def pointsOf (db : Db) : Obj → List NodeCoord
  | (.node, id) => (nodeCoord? db id).toList
  | (.way, id) => wayCoords db [id]
  | (.relation, _) => []

section Boxes

variable {b c : Bbox} {s : Side} {x : Int}

theorem contains_iff {p : NodeCoord} : Contains b p ↔ ∀ s, reachOf p s ≤ reach b s := by
  constructor
  · rintro ⟨south, north, west, east⟩ s
    cases s with
    | south => exact neg_le_neg south
    | north => exact north
    | west => exact neg_le_neg west
    | east => exact east
  · intro all
    exact ⟨neg_le_neg_iff.mp (all .south), all .north, neg_le_neg_iff.mp (all .west), all .east⟩

theorem ext_reach (same : ∀ s, reach b s = reach c s) : b = c := by
  have south := same .south
  have west := same .west
  exact Bbox.ext (neg_inj.mp south) (neg_inj.mp west) (same .north) (same .east)

theorem le_reach_expand : x ≤ reach (b.expand c) s ↔ x ≤ reach b s ∨ x ≤ reach c s := by
  cases s with
  | south =>
      show x ≤ -min b.minlat c.minlat ↔ x ≤ -b.minlat ∨ x ≤ -c.minlat
      omega
  | north => exact le_max_iff
  | west =>
      show x ≤ -min b.minlon c.minlon ↔ x ≤ -b.minlon ∨ x ≤ -c.minlon
      omega
  | east => exact le_max_iff

theorem ext_le_reach (same : ∀ s x, x ≤ reach b s ↔ x ≤ reach c s) : b = c := by
  refine ext_reach fun s => le_antisymm ?_ ?_
  · exact (same s _).mp (le_refl _)
  · exact (same s _).mpr (le_refl _)

private theorem reach_ofPoint (p : NodeCoord) : reach (Bbox.ofPoint p.lat p.lon) s = reachOf p s := by
  cases s <;> rfl

private theorem le_reach_foldl (l : List NodeCoord) (b : Bbox) :
    x ≤ reach (l.foldl (fun b p => b.expand (Bbox.ofPoint p.lat p.lon)) b) s ↔
      x ≤ reach b s ∨ ∃ p ∈ l, x ≤ reachOf p s := by
  induction l generalizing b with
  | nil => simp
  | cons p l ih =>
      rw [List.foldl_cons, ih, le_reach_expand, reach_ofPoint, List.exists_mem_cons_iff, or_assoc]

/-- The box of a query reaches as far as its positions; without any it is the undefined
box. -/
theorem le_reach_extract (env : Env) (l : List NodeCoord) :
    x ≤ reach (extractBbox env (bounds l)) s ↔
      (l = [] ∧ x ≤ reach (Bbox.undefined env.cfg) s) ∨ ∃ p ∈ l, x ≤ reachOf p s := by
  cases l with
  | nil => simp [bounds, extractBbox]
  | cons p l =>
      show x ≤ reach (l.foldl (fun b p => b.expand (Bbox.ofPoint p.lat p.lon))
        (Bbox.ofPoint p.lat p.lon)) s ↔ _
      rw [le_reach_foldl, reach_ofPoint, List.exists_mem_cons_iff]
      simp

end Boxes

section Points

variable {db db' : Db} {p : NodeCoord}

theorem mem_wayCoords {ids : List Nat} : p ∈ wayCoords db ids ↔
    ∃ id ∈ ids, (object db .way id).row.isSome ∧
      ∃ r ∈ (object db .way id).refs, nodeCoord? db r.2.target.2 = some p := by
  unfold wayCoords
  simp only [List.mem_filterMap, Table.mem_select, Bool.and_eq_true, decide_eq_true_eq]
  constructor
  · rintro ⟨wn, ⟨row, named, known⟩, found⟩
    refine ⟨wn.owner, named, known, (wn.sequenceId, wn.ref), ?_, found⟩
    exact List.mem_map.mpr ⟨wn, (Table.mem_select _ _).mpr ⟨row, decide_eq_true rfl⟩, rfl⟩
  · rintro ⟨id, named, known, r, member, found⟩
    obtain ⟨wn, selected, rfl⟩ := List.mem_map.mp member
    obtain ⟨row, owner⟩ := (Table.mem_select _ _).mp selected
    obtain rfl := of_decide_eq_true owner
    exact ⟨wn, ⟨row, named, known⟩, found⟩

theorem mem_nodeCoords {ids : List Nat} :
    p ∈ nodeCoords db ids ↔ ∃ id ∈ ids, nodeCoord? db id = some p := by
  constructor
  · intro member
    obtain ⟨r, selected, rfl⟩ := List.mem_map.mp member
    obtain ⟨row, named⟩ := (Table.mem_select _ _).mp selected
    refine ⟨r.id, of_decide_eq_true named, ?_⟩
    rw [nodeCoord?, Table.find?_key row]
    rfl
  · rintro ⟨id, named, found⟩
    obtain ⟨r, hit, rfl⟩ := Option.map_eq_some_iff.mp found
    obtain ⟨row, rfl⟩ := Table.find?_eq_some.mp hit
    exact List.mem_map.mpr ⟨r, (Table.mem_select _ _).mpr ⟨row, decide_eq_true named⟩, rfl⟩

theorem mem_wayCoords_iff {ids : List Nat} :
    p ∈ wayCoords db ids ↔ ∃ id ∈ ids, p ∈ pointsOf db (.way, id) := by
  simp only [pointsOf, mem_wayCoords, List.mem_singleton, exists_eq_left]

theorem mem_nodeCoords_iff {ids : List Nat} :
    p ∈ nodeCoords db ids ↔ ∃ id ∈ ids, p ∈ pointsOf db (.node, id) := by
  simp only [pointsOf, mem_nodeCoords, Option.mem_toList]

/-- The positions of an object depend on the nodes and ways only. -/
theorem mem_pointsOf_congr (nodes : ∀ id, object db' .node id = object db .node id)
    (ways : ∀ id, object db' .way id = object db .way id) (o : Obj) :
    p ∈ pointsOf db' o ↔ p ∈ pointsOf db o := by
  have coords : ∀ id, nodeCoord? db' id = nodeCoord? db id := by
    intro id
    have row : (db'.current .node).find? id = (db.current .node).find? id :=
      congrArg ObjState.row (nodes id)
    rw [nodeCoord?, nodeCoord?, row]
  obtain ⟨t, id⟩ := o
  cases t with
  | node => simp only [pointsOf, coords]
  | way => simp only [pointsOf, mem_wayCoords, ways, coords]
  | relation => exact Iff.rfl

end Points

/-- Up to the undefined box, the box reaches as far as the positions. -/
def Spans (env : Env) (b : Bbox) (P : NodeCoord → Prop) : Prop :=
  ∀ s x, (x ≤ reach b s ∨ x ≤ reach (Bbox.undefined env.cfg) s) ↔
    (x ≤ reach (Bbox.undefined env.cfg) s ∨ ∃ p, P p ∧ x ≤ reachOf p s)

/-- The objects that a relation in the given state has as members. -/
def targets (s : ObjState .relation) : List Obj := s.refs.map (fun r => r.2.target)

section Spans

variable {env : Env} {db db' : Db} {b c box : Bbox} {P Q : NodeCoord → Prop} {ids : List Nat}

theorem spans_undefined (env : Env) : Spans env (Bbox.undefined env.cfg) (fun _ => False) := by
  intro s x
  simp

theorem spans_extract (env : Env) (l : List NodeCoord) :
    Spans env (extractBbox env (bounds l)) (fun p => p ∈ l) := by
  intro s x
  rw [le_reach_extract]
  constructor
  · rintro ((⟨-, below⟩ | inside) | below)
    · exact .inl below
    · exact .inr inside
    · exact .inl below
  · rintro (below | inside)
    · exact .inr below
    · exact .inl (.inr inside)

theorem Spans.expand (first : Spans env b P) (second : Spans env c Q) :
    Spans env (b.expand c) (fun p => P p ∨ Q p) := by
  intro s x
  have one := first s x
  have two := second s x
  simp only [le_reach_expand, or_and_right, exists_or]
  rw [or_or_distrib_right, one, two]
  exact or_or_distrib_left.symm

theorem Spans.congr (spans : Spans env b P) (same : ∀ p, P p ↔ Q p) : Spans env b Q := by
  intro s x
  rw [spans s x]
  simp only [same]

theorem mem_targets {id : Nat} {o : Obj} : o ∈ targets (object db .relation id) ↔
    ∃ r ∈ db.currentRefs .relation, r.owner = id ∧ r.ref.target = o := by
  constructor
  · intro member
    obtain ⟨_, inside, rfl⟩ := List.mem_map.mp member
    obtain ⟨r, selected, rfl⟩ := List.mem_map.mp inside
    obtain ⟨row, owner⟩ := (Table.mem_select _ _).mp selected
    exact ⟨r, row, of_decide_eq_true owner, rfl⟩
  · rintro ⟨r, row, owner, rfl⟩
    refine List.mem_map.mpr ⟨(r.sequenceId, r.ref), ?_, rfl⟩
    exact List.mem_map.mpr ⟨r, (Table.mem_select _ _).mpr ⟨row, decide_eq_true owner⟩, rfl⟩

theorem calcNodeBbox_spans (run : (calcNodeBbox env ids).run db = .ok (box, db')) :
    Spans env box (fun p => ∃ id ∈ ids, p ∈ pointsOf db (.node, id)) := by
  unfold calcNodeBbox at run
  split at run
  · rename_i empty
    rw [List.isEmpty_iff] at empty
    subst empty
    cases run
    exact (spans_undefined env).congr fun p => by simp
  · rw [run_bind, calcNodeBboxRow, run_query] at run
    cases run
    exact (spans_extract env _).congr fun p => mem_nodeCoords_iff

theorem calcWayBbox_spans (run : (calcWayBbox env ids).run db = .ok (box, db')) :
    Spans env box (fun p => ∃ id ∈ ids, p ∈ pointsOf db (.way, id)) := by
  unfold calcWayBbox at run
  split at run
  · rename_i empty
    rw [List.isEmpty_iff] at empty
    subst empty
    cases run
    exact (spans_undefined env).congr fun p => by simp
  · rw [run_bind, calcWayBboxRow, run_query] at run
    cases run
    exact (spans_extract env _).congr fun p => mem_wayCoords_iff

private theorem mem_memberIds {t : ObjectType} {id : Nat} : id ∈ memberIds db t ids ↔
    ∃ owner ∈ ids, (t, id) ∈ targets (object db .relation owner) := by
  unfold memberIds
  simp only [List.mem_map, Table.mem_select, Bool.and_eq_true, decide_eq_true_eq, mem_targets]
  constructor
  · rintro ⟨r, ⟨row, named, typed⟩, rfl⟩
    exact ⟨r.owner, named, r, row, rfl, Prod.ext typed rfl⟩
  · rintro ⟨owner, named, r, row, rfl, target⟩
    exact ⟨r, ⟨row, named, by rw [target]⟩, by rw [target]⟩

theorem calcRelationBbox_spans (run : (calcRelationBbox env ids).run db = .ok (box, db')) :
    Spans env box
      (fun p => ∃ id ∈ ids, ∃ o ∈ targets (object db .relation id), p ∈ pointsOf db o) := by
  unfold calcRelationBbox at run
  split at run
  · rename_i empty
    rw [List.isEmpty_iff] at empty
    subst empty
    cases run
    exact (spans_undefined env).congr fun p => by simp
  · rw [run_bind, calcRelationBboxNodesRow, run_query] at run
    dsimp only at run
    rw [run_bind, calcRelationBboxWaysRow, run_query] at run
    cases run
    refine ((spans_extract env _).expand (spans_extract env _)).congr fun p => ?_
    simp only [List.mem_filterMap, List.mem_flatMap, mem_memberIds]
    constructor
    · rintro (⟨n, ⟨id, named, member⟩, found⟩ | ⟨w, ⟨id, named, member⟩, found⟩)
      · exact ⟨id, named, (.node, n), member, Option.mem_toList.mpr found⟩
      · exact ⟨id, named, (.way, w), member, found⟩
    · rintro ⟨id, named, ⟨t, o⟩, member, found⟩
      cases t with
      | node => exact .inl ⟨o, ⟨id, named, member⟩, Option.mem_toList.mp found⟩
      | way => exact .inr ⟨o, ⟨id, named, member⟩, found⟩
      | relation => cases found

end Spans

/-- The box of a package: what is read before its writes, and what is read after them. -/
theorem modifyPackage_boxes {env : Env} {t : ObjectType} {ids : List Nat} {es : List (Elem t)}
    {acc acc' : Tracking × Bbox} {db db' : Db}
    (run : (modifyPackage env t ids acc es).run db = .ok (acc', db')) :
    ∃ upd before after, (bboxBefore env ids t es).run db = .ok ((upd, before), db) ∧
      (bboxAfter env t upd).run db' = .ok (after, db') ∧
      acc'.2 = (acc.2.expand before).expand after := by
  simp only [modifyPackage, run_bind_eq_ok] at run
  obtain ⟨_, _, versions, _, _, future, ⟨upd, before⟩, _, read, _, db₁, -, _, db₂, -, modified, db₃, -,
    withTags, db₄, -, _, db₅, -, _, db₆, -, _, db₇, -, _, db₈, -, after, _, readAfter, done⟩ := run
  obtain ⟨rfl, -⟩ := checkCurrentVersions_ok versions
  obtain ⟨rfl, -⟩ := lockFuture_ok future
  obtain rfl := (bboxBefore_reads env ids es).run_eq_ok read
  obtain rfl := (bboxAfter_reads env t upd).run_eq_ok readAfter
  cases done
  exact ⟨upd, before, after, read, readAfter, rfl⟩

end Cgimap.Osmchange.BoxReach
