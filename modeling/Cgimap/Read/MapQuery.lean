/- path: Cgimap/Read/MapQuery
   generality: I
   source: src/backend/apidb/changeset_upload/node_updater.cpp, include/cgimap/backend/apidb/quad_tile.hpp,
     src/backend/apidb/quad_tile.cpp, src/backend/apidb/readonly_pgsql_selection.cpp
   digest: Whether a box that contains a node finds it: tiles and integer bounds. -/

import Cgimap.Http.Routing
import Cgimap.Osmchange.Handler
import Cgimap.Read.DataSelection
import Mathlib.Data.Rat.Floor

set_option autoImplicit false
set_option relaxedAutoImplicit false

namespace Cgimap.Read.MapQuery

open Cgimap.Model.Types
open Cgimap.Model.Database
open Cgimap.Osmchange.UploadRecords
open Cgimap.Osmchange.Handler
open Cgimap.Read.DataSelection
open Cgimap.Http.Routing

section Roundings

theorem truncate_le {q : ℚ} {n : ℤ} (order : q ≤ n) : truncate q ≤ n := by
  rw [truncate]
  split
  · exact_mod_cast (Int.floor_le q).trans order
  · exact Int.ceil_le.mpr order

theorem le_truncate {q : ℚ} {n : ℤ} (order : (n : ℚ) ≤ q) : n ≤ truncate q := by
  rw [truncate]
  split
  · exact Int.le_floor.mpr order
  · exact_mod_cast order.trans (Int.le_ceil q)

end Roundings

section Tiles

/-- One round of the loop in `xy2tile`. -/
private def weave (x y tile i : Nat) : Nat :=
  (((tile <<< 1) ||| ((x >>> i) &&& 1)) <<< 1) ||| ((y >>> i) &&& 1)

private theorem weave_eq (x y tile i : Nat) :
    weave x y tile i = 4 * tile + 2 * (x / 2 ^ i % 2) + y / 2 ^ i % 2 := by
  have put : ∀ n b : Nat, b < 2 → (n <<< 1) ||| b = 2 * n + b := by
    intro n b bit
    rw [← Nat.shiftLeft_add_eq_or_of_lt (i := 1) bit, Nat.shiftLeft_eq]
    omega
  have bit : ∀ n : Nat, (n >>> i) &&& 1 = n / 2 ^ i % 2 := fun n => by
    rw [Nat.and_one_is_mod, Nat.shiftRight_eq_div_pow]
  rw [weave, bit, bit, put _ _ (Nat.mod_lt _ (by decide)), put _ _ (Nat.mod_lt _ (by decide))]
  omega

private theorem foldl_weave_inj {x y x' y' : Nat} {places : List Nat} {tile tile' : Nat}
    (same : places.foldl (weave x y) tile = places.foldl (weave x' y') tile') :
    tile = tile' ∧ ∀ i ∈ places, x / 2 ^ i % 2 = x' / 2 ^ i % 2 ∧ y / 2 ^ i % 2 = y' / 2 ^ i % 2 := by
  induction places generalizing tile tile' with
  | nil => exact ⟨same, fun i member => (List.not_mem_nil member).elim⟩
  | cons i places ih =>
      obtain ⟨front, later⟩ := ih same
      rw [weave_eq, weave_eq] at front
      refine ⟨by omega, fun j member => ?_⟩
      rcases List.mem_cons.mp member with rfl | inside
      · exact ⟨by omega, by omega⟩
      · exact later j inside

private theorem eq_of_bits {x x' : Nat} (small : x < 2 ^ 16) (small' : x' < 2 ^ 16)
    (bits : ∀ i < 16, x / 2 ^ i % 2 = x' / 2 ^ i % 2) : x = x' := by
  refine Nat.eq_of_testBit_eq fun i => ?_
  rcases Nat.lt_or_ge i 16 with inside | outside
  · rw [Nat.testBit_eq_decide_div_mod_eq, Nat.testBit_eq_decide_div_mod_eq, bits i inside]
  · have grows : 2 ^ 16 ≤ 2 ^ i := Nat.pow_le_pow_right (by decide) outside
    rw [Nat.testBit_lt_two_pow (small.trans_le grows), Nat.testBit_lt_two_pow (small'.trans_le grows)]

theorem xy2tile_inj {x y x' y' : Nat} (x_small : x < 2 ^ 16) (y_small : y < 2 ^ 16)
    (x_small' : x' < 2 ^ 16) (y_small' : y' < 2 ^ 16) (same : xy2tile x y = xy2tile x' y') :
    x = x' ∧ y = y' := by
  have bits := (@foldl_weave_inj x y x' y' _ _ _ same).2
  have inside : ∀ i < 16, i ∈ [15, 14, 13, 12, 11, 10, 9, 8, 7, 6, 5, 4, 3, 2, 1, 0] := by decide
  exact ⟨eq_of_bits x_small x_small' fun i small => (bits i (inside i small)).1,
    eq_of_bits y_small y_small' fun i small => (bits i (inside i small)).2⟩

private theorem foldl_weave_lt {x y n : Nat} {places : List Nat} {tile : Nat}
    (small : tile < 4 ^ n) : places.foldl (weave x y) tile < 4 ^ (n + places.length) := by
  induction places generalizing n tile with
  | nil => exact small
  | cons i places ih =>
      have next : weave x y tile i < 4 ^ (n + 1) := by
        rw [weave_eq, Nat.pow_succ]
        omega
      rw [List.foldl_cons, List.length_cons, Nat.add_comm places.length, ← Nat.add_assoc]
      exact ih next

theorem xy2tile_lt (x y : Nat) : xy2tile x y < 2 ^ 32 :=
  @foldl_weave_lt x y 0 [15, 14, 13, 12, 11, 10, 9, 8, 7, 6, 5, 4, 3, 2, 1, 0] 0 (by decide)

theorem mem_tilesForArea {b : GeoBox} {tile : Nat} :
    tile ∈ tilesForArea b ↔ ∃ x y, lon2x b.minlon ≤ x ∧ x ≤ lon2x b.maxlon ∧
      lat2y b.minlat ≤ y ∧ y ≤ lat2y b.maxlat ∧ tile = xy2tile x y := by
  rw [tilesForArea, List.mem_flatMap]
  constructor
  · rintro ⟨x, x_range, member⟩
    obtain ⟨y, y_range, kept⟩ := List.mem_filterMap.mp member
    split at kept
    next above =>
      rw [List.mem_range, Nat.lt_succ_iff] at x_range y_range
      exact ⟨x, y, above.1, x_range, above.2, y_range, (Option.some.inj kept).symm⟩
    next => cases kept
  · rintro ⟨x, y, x_low, x_high, y_low, y_high, rfl⟩
    refine ⟨x, List.mem_range.mpr (Nat.lt_succ_of_le x_high), List.mem_filterMap.mpr
      ⟨y, List.mem_range.mpr (Nat.lt_succ_of_le y_high), if_pos ⟨x_low, y_low⟩⟩⟩

theorem lon2x_mono {lon lon' : ℚ} (order : lon ≤ lon') : lon2x lon ≤ lon2x lon' :=
  Int.toNat_le_toNat (cround_mono (by linarith))

theorem lat2y_mono {lat lat' : ℚ} (order : lat ≤ lat') : lat2y lat ≤ lat2y lat' :=
  Int.toNat_le_toNat (cround_mono (by linarith))

theorem lon2x_lt {lon : ℚ} (valid : lon ≤ 180) : lon2x lon < 2 ^ 16 := by
  refine lt_of_le_of_lt (lon2x_mono valid) ?_
  have last : lon2x 180 = 65535 := by decide +kernel
  rw [last]
  decide

theorem lat2y_lt {lat : ℚ} (valid : lat ≤ 90) : lat2y lat < 2 ^ 16 := by
  refine lt_of_le_of_lt (lat2y_mono valid) ?_
  have last : lat2y 90 = 65535 := by decide +kernel
  rw [last]
  decide

end Tiles

section Query

/-- What `set_lat` and `set_lon` accept. -/
def ValidPosition (p : Position) : Prop := -90 ≤ p.lat ∧ p.lat ≤ 90 ∧ -180 ≤ p.lon ∧ p.lon ≤ 180

def ValidBox (b : GeoBox) : Prop :=
  -180 ≤ b.minlon ∧ b.minlon ≤ 180 ∧ -180 ≤ b.maxlon ∧ b.maxlon ≤ 180 ∧ -90 ≤ b.minlat ∧
    b.minlat ≤ 90 ∧ -90 ≤ b.maxlat ∧ b.maxlat ≤ 90 ∧ b.minlon ≤ b.maxlon ∧ b.minlat ≤ b.maxlat

variable (cfg : Settings)

def storedLat (c : NodeCoord) : ℚ := c.lat / cfg.scale

def storedLon (c : NodeCoord) : ℚ := c.lon / cfg.scale

def Contains (b : GeoBox) (c : NodeCoord) : Prop :=
  b.minlat ≤ storedLat cfg c ∧ storedLat cfg c ≤ b.maxlat ∧
    b.minlon ≤ storedLon cfg c ∧ storedLon cfg c ≤ b.maxlon

/-- The conversion to `int` is defined. -/
def FitsInt (q : ℚ) : Prop := -2 ^ 31 ≤ truncate q ∧ truncate q < 2 ^ 31

/-- The four numbers that the query gets beside the tiles. -/
def BoundsFit (b : GeoBox) : Prop :=
  FitsInt (b.minlat * cfg.scale) ∧ FitsInt (b.maxlat * cfg.scale) ∧
    FitsInt (b.minlon * cfg.scale) ∧ FitsInt (b.maxlon * cfg.scale)

/-- The conditions of `visible_node_in_bbox` on the position. -/
def WhereClause (b : GeoBox) (c : NodeCoord) : Prop :=
  c.tile ∈ tilesForArea b ∧ truncate (b.minlat * cfg.scale) ≤ c.lat ∧
    c.lat ≤ truncate (b.maxlat * cfg.scale) ∧ truncate (b.minlon * cfg.scale) ≤ c.lon ∧
    c.lon ≤ truncate (b.maxlon * cfg.scale)

instance (b : GeoBox) (c : NodeCoord) : Decidable (WhereClause cfg b c) :=
  inferInstanceAs (Decidable (_ ∧ _ ∧ _ ∧ _ ∧ _))

def visibleNodeInBbox (b : GeoBox) (r : CurrentRow .node) : Bool :=
  let c : NodeCoord := r.coord
  decide (WhereClause cfg b c ∧ r.visible = true)

theorem selectNodesFromBbox_eq (db : Db) (sel : Selection) (b : GeoBox) (maxNodes : Nat) :
    selectNodesFromBbox db sel cfg b maxNodes = insertResults .node sel
      ((((db.current .node).select (visibleNodeInBbox cfg b)).take (maxNodes + 1)).map
          CurrentRow.id).toFinset := by
  have same : visibleNodeInBbox cfg b = fun r =>
      let c : NodeCoord := r.coord
      decide (c.tile ∈ tilesForArea b ∧ truncate (b.minlat * cfg.scale) ≤ c.lat ∧
        c.lat ≤ truncate (b.maxlat * cfg.scale) ∧ truncate (b.minlon * cfg.scale) ≤ c.lon ∧
        c.lon ≤ truncate (b.maxlon * cfg.scale) ∧ r.visible = true) := by
    funext r
    simp only [visibleNodeInBbox, WhereClause, and_assoc]
  rw [selectNodesFromBbox, same]

/-- Every valid box around a stored position finds it. -/
def Complete (c : NodeCoord) : Prop :=
  ∀ b, ValidBox b → Contains cfg b c → BoundsFit cfg b ∧ WhereClause cfg b c

end Query

section Completeness

variable {cfg : Settings} {b : GeoBox} {c : NodeCoord}

private theorem scale_pos' : (0 : ℚ) < cfg.scale := by exact_mod_cast cfg.scale_pos

private theorem contains_iff : Contains cfg b c ↔
    b.minlat * cfg.scale ≤ c.lat ∧ c.lat ≤ b.maxlat * cfg.scale ∧
      b.minlon * cfg.scale ≤ c.lon ∧ c.lon ≤ b.maxlon * cfg.scale := by
  rw [Contains, storedLat, storedLon, le_div_iff₀ scale_pos', div_le_iff₀ scale_pos',
    le_div_iff₀ scale_pos', div_le_iff₀ scale_pos']

private theorem stored_scaled {q : ℚ} {bound : ℤ} (low : -(bound : ℚ) ≤ q) (high : q ≤ bound) :
    -(bound : ℚ) ≤ (cround (q * cfg.scale) : ℚ) / cfg.scale ∧
      (cround (q * cfg.scale) : ℚ) / cfg.scale ≤ bound := by
  obtain ⟨above, below⟩ := cround_scaled cfg low high
  rw [le_div_iff₀ scale_pos', div_le_iff₀ scale_pos']
  exact ⟨by exact_mod_cast above, by exact_mod_cast below⟩

private theorem fitsInt_scaled {q : ℚ} (low : -180 ≤ q) (high : q ≤ 180)
    (fits : 180 * cfg.scale < 2 ^ 31) : FitsInt (q * cfg.scale) := by
  have below : truncate (q * cfg.scale) ≤ 180 * cfg.scale := by
    refine truncate_le ?_
    push_cast
    exact mul_le_mul_of_nonneg_right high scale_pos'.le
  have above : -180 * cfg.scale ≤ truncate (q * cfg.scale) := by
    refine le_truncate ?_
    push_cast
    exact mul_le_mul_of_nonneg_right low scale_pos'.le
  exact ⟨by omega, by omega⟩

private theorem scale_of_fitsInt (fits : FitsInt (180 * cfg.scale)) : 180 * cfg.scale < 2 ^ 31 := by
  have last : 180 * cfg.scale ≤ truncate (180 * cfg.scale) := le_truncate (by push_cast; exact le_rfl)
  exact last.trans_lt fits.2

variable {env : Env}

theorem newElem_coord (o : OsmObject .node) : (newElem env o).coord = coordOf env .node o.body := rfl

theorem modifiedElem_coord (o : OsmObject .node) :
    (modifiedElem env o).coord = coordOf env .node o.body := rfl

def SameTile (cfg : Settings) (p : Position) (c : NodeCoord) : Prop :=
  lon2x p.lon = lon2x (storedLon cfg c) ∧ lat2y p.lat = lat2y (storedLat cfg c)

private theorem stored_valid {p : Position} (valid : ValidPosition p) {c : NodeCoord}
    (written : c = coordOf env .node p) :
    (-90 ≤ storedLat env.cfg c ∧ storedLat env.cfg c ≤ 90) ∧
      -180 ≤ storedLon env.cfg c ∧ storedLon env.cfg c ≤ 180 := by
  have atLat : c.lat = cround (p.lat * env.cfg.scale) := congrArg NodeCoord.lat written
  have atLon : c.lon = cround (p.lon * env.cfg.scale) := congrArg NodeCoord.lon written
  obtain ⟨south, north, west, east⟩ := valid
  have lat := @stored_scaled env.cfg p.lat 90 (by push_cast; exact south) (by push_cast; exact north)
  have lon := @stored_scaled env.cfg p.lon 180 (by push_cast; exact west) (by push_cast; exact east)
  rw [← atLat] at lat
  rw [← atLon] at lon
  push_cast at lat lon
  exact ⟨lat, lon⟩

private theorem complete_coord_iff {p : Position} (valid : ValidPosition p) {c : NodeCoord}
    (written : c = coordOf env .node p) :
    Complete env.cfg c ↔ 180 * env.cfg.scale < 2 ^ 31 ∧ SameTile env.cfg p c := by
  obtain ⟨⟨lat_low, lat_high⟩, lon_low, lon_high⟩ := stored_valid valid written
  have tile : c.tile = xy2tile (lon2x p.lon) (lat2y p.lat) := by rw [written]; rfl
  constructor
  · intro complete
    constructor
    · have world := complete ⟨-90, -180, 90, 180⟩ (by norm_num [ValidBox])
        ⟨lat_low, lat_high, lon_low, lon_high⟩
      exact scale_of_fitsInt world.1.2.2.2
    · -- the box that is only the stored position
      have point := complete
        ⟨storedLat env.cfg c, storedLon env.cfg c, storedLat env.cfg c, storedLon env.cfg c⟩
        ⟨lon_low, lon_high, lon_low, lon_high, lat_low, lat_high, lat_low, lat_high, le_rfl, le_rfl⟩
        ⟨le_rfl, le_rfl, le_rfl, le_rfl⟩
      obtain ⟨x, y, x_low, x_high, y_low, y_high, same⟩ := mem_tilesForArea.mp point.2.1
      rw [tile, Nat.le_antisymm x_high x_low, Nat.le_antisymm y_high y_low] at same
      exact xy2tile_inj (lon2x_lt valid.2.2.2) (lat2y_lt valid.2.1) (lon2x_lt lon_high)
        (lat2y_lt lat_high) same
  · rintro ⟨fits, same_lon, same_lat⟩ b
      ⟨minlon_low, minlon_high, maxlon_low, maxlon_high, minlat_low, minlat_high, maxlat_low,
        maxlat_high, -, -⟩ contains
    have bounds_fit : BoundsFit env.cfg b :=
      ⟨fitsInt_scaled (by linarith) (by linarith) fits, fitsInt_scaled (by linarith) (by linarith) fits,
        fitsInt_scaled minlon_low minlon_high fits, fitsInt_scaled maxlon_low maxlon_high fits⟩
    obtain ⟨lat_min, lat_max, lon_min, lon_max⟩ := contains
    have tile_in : c.tile ∈ tilesForArea b := mem_tilesForArea.mpr
      ⟨_, _, lon2x_mono lon_min, lon2x_mono lon_max, lat2y_mono lat_min, lat2y_mono lat_max,
        by rw [tile, same_lon, same_lat]⟩
    obtain ⟨lat_min', lat_max', lon_min', lon_max'⟩ :=
      contains_iff.mp ⟨lat_min, lat_max, lon_min, lon_max⟩
    exact ⟨bounds_fit, tile_in, truncate_le lat_min', le_truncate lat_max', truncate_le lon_min',
      le_truncate lon_max'⟩

/-- The nodes that every box finds are those whose tile rounding does not change. -/
theorem complete_iff {o : OsmObject .node} {e : Elem .node}
    (written : e = newElem env o ∨ e = modifiedElem env o) (valid : ValidPosition o.body) :
    Complete env.cfg e.coord ↔ 180 * env.cfg.scale < 2 ^ 31 ∧ SameTile env.cfg o.body e.coord := by
  rcases written with rfl | rfl
  · exact complete_coord_iff valid (newElem_coord o)
  · exact complete_coord_iff valid (modifiedElem_coord o)

def sampleObject (p : Position) : OsmObject .node := ⟨7, -1, 0, [], p, List.nodup_nil⟩

theorem complete_iff_sampleObject :
    Complete sampleEnv.cfg (newElem sampleEnv (sampleObject ⟨1, 2⟩)).coord :=
  (complete_iff (Or.inl rfl) (by norm_num [ValidPosition, sampleObject])).mpr
    ⟨by decide, by decide +kernel, by decide +kernel⟩

/-- The eighth decimal moves the node out of the tile of its stored position. -/
def boundaryPosition : Position := ⟨-90, -17999725337 / 100000000⟩

theorem not_complete_boundaryPosition :
    ¬∀ (env : Env) (o : OsmObject .node) (e : Elem .node),
      (e = newElem env o ∨ e = modifiedElem env o) → ValidPosition o.body →
        Complete env.cfg e.coord := by
  intro all
  have complete := all sampleEnv (sampleObject boundaryPosition) _ (Or.inl rfl)
    (by norm_num [ValidPosition, sampleObject, boundaryPosition])
  have found := complete ⟨-90, -180, -90, -1799972534 / 10000000⟩ (by norm_num [ValidBox])
    ⟨by decide +kernel, by decide +kernel, by decide +kernel, by decide +kernel⟩
  have tiles : tilesForArea ⟨-90, -180, -90, -1799972534 / 10000000⟩ = [0] := by decide +kernel
  have member := found.2.1
  rw [tiles] at member
  exact absurd member (by decide +kernel)

end Completeness

end Cgimap.Read.MapQuery
