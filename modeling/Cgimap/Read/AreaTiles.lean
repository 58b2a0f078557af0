/- path: Cgimap/Read/AreaTiles
   generality: I
   source: src/backend/apidb/quad_tile.cpp, include/cgimap/backend/apidb/quad_tile.hpp
   digest: The sorted list of the tiles of an area, and that a tile number stands for one place. -/

import Cgimap.Library.CountedLoop
import Cgimap.Library.SortedUnique
import Cgimap.Read.MapQuery
import Mathlib.Data.Finset.Card
import Mathlib.Data.Finset.Prod
import Mathlib.Data.List.ProdSigma

set_option autoImplicit false
set_option relaxedAutoImplicit false

namespace Cgimap.Read.AreaTiles

open Cgimap.Library.CountedLoop
open Cgimap.Library.SortedUnique
open Cgimap.Model.Types
open Cgimap.Read.DataSelection (GeoBox)
open Cgimap.Read.MapQuery

def before (a b : Nat) : Bool := decide (a < b)

/-- `tiles_for_area` between corners that are numbered already. Its loops count with
`tile_id_t`, which has 32 bits. -/
def tilesForCorners (fuel minx miny maxx maxy : Nat) : Option (List Nat) := do
  let tiles ← forUpTo 32 maxx (fun tiles x =>
    forUpTo 32 maxy (fun tiles y => some (tiles ++ [xy2tile x y])) fuel miny tiles) fuel minx []
  some (sortUnique before tiles)

def tilesForArea (fuel : Nat) (b : GeoBox) : Option (List Nat) :=
  tilesForCorners fuel (lon2x b.minlon) (lat2y b.minlat) (lon2x b.maxlon) (lat2y b.maxlat)

section Numbers

def places : Set (Nat × Nat) := {p | p.1 ≤ 65535 ∧ p.2 ≤ 65535}

private theorem injOn_xy2tile : Set.InjOn (fun p : Nat × Nat => xy2tile p.1 p.2) places := by
  intro p first q second same
  obtain ⟨x, y⟩ := xy2tile_inj (Nat.lt_succ_of_le first.1) (Nat.lt_succ_of_le first.2)
    (Nat.lt_succ_of_le second.1) (Nat.lt_succ_of_le second.2) same
  exact Prod.ext x y

/-- Numbers of twice as many bits are as many as pairs, so an injection takes all of them. -/
private theorem exists_pair {n : Nat} {f : Nat → Nat → Nat}
    (injective : ∀ x y x' y', x < 2 ^ n → y < 2 ^ n → x' < 2 ^ n → y' < 2 ^ n →
      f x y = f x' y' → x = x' ∧ y = y')
    (small : ∀ x y, f x y < 2 ^ (n + n)) {tile : Nat} (inside : tile < 2 ^ (n + n)) :
    ∃ x y, x < 2 ^ n ∧ y < 2 ^ n ∧ f x y = tile := by
  have enough : (Finset.range (2 ^ (n + n))).card ≤
      (Finset.range (2 ^ n) ×ˢ Finset.range (2 ^ n)).card := by
    rw [Finset.card_product, Finset.card_range, Finset.card_range, Nat.pow_add]
  have onto := Finset.surj_on_of_inj_on_of_card_le
    (s := Finset.range (2 ^ n) ×ˢ Finset.range (2 ^ n)) (t := Finset.range (2 ^ (n + n)))
    (fun p _ => f p.1 p.2) (fun p _ => Finset.mem_range.mpr (small p.1 p.2)) ?_ enough
    tile (Finset.mem_range.mpr inside)
  · obtain ⟨p, member, same⟩ := onto
    rw [Finset.mem_product, Finset.mem_range, Finset.mem_range] at member
    exact ⟨p.1, p.2, member.1, member.2, same.symm⟩
  · intro p q first second same
    rw [Finset.mem_product, Finset.mem_range, Finset.mem_range] at first second
    obtain ⟨x, y⟩ := injective _ _ _ _ first.1 first.2 second.1 second.2 same
    exact Prod.ext x y

theorem bijOn_xy2tile :
    Set.BijOn (fun p : Nat × Nat => xy2tile p.1 p.2) places (Set.Iio (2 ^ 32)) := by
  refine ⟨fun p _ => xy2tile_lt p.1 p.2, injOn_xy2tile, fun tile inside => ?_⟩
  obtain ⟨x, y, x_small, y_small, same⟩ := exists_pair (n := 16)
    (fun x y x' y' => xy2tile_inj) xy2tile_lt (Set.mem_Iio.mp inside)
  exact ⟨(x, y), ⟨Nat.le_of_lt_succ x_small, Nat.le_of_lt_succ y_small⟩, same⟩

end Numbers

section Loops

/-- The places of a rectangle, in the order of the two loops. -/
def rectangle (minx miny maxx maxy : Nat) : List (Nat × Nat) :=
  List.range' minx (maxx + 1 - minx) ×ˢ List.range' miny (maxy + 1 - miny)

private theorem mem_rectangle {minx miny maxx maxy : Nat} {p : Nat × Nat} :
    p ∈ rectangle minx miny maxx maxy ↔
      (minx ≤ p.1 ∧ p.1 ≤ maxx) ∧ miny ≤ p.2 ∧ p.2 ≤ maxy := by
  rw [rectangle, List.mem_product, List.mem_range'_1, List.mem_range'_1]
  omega

private theorem nodup_rectangle (minx miny maxx maxy : Nat) :
    (rectangle minx miny maxx maxy).Nodup :=
  List.Nodup.product List.nodup_range' List.nodup_range'

private theorem length_rectangle {minx miny maxx maxy : Nat} (columns : minx ≤ maxx)
    (rows : miny ≤ maxy) :
    (rectangle minx miny maxx maxy).length = (maxx - minx + 1) * (maxy - miny + 1) := by
  rw [rectangle, List.length_product, List.length_range', List.length_range',
    Nat.sub_add_comm columns, Nat.sub_add_comm rows]

/-- The tiles of a rectangle, in the order of the two loops. -/
def codes (minx miny maxx maxy : Nat) : List Nat :=
  (rectangle minx miny maxx maxy).map (fun p => xy2tile p.1 p.2)

private theorem nodup_codes {minx miny maxx maxy : Nat} (right : maxx ≤ 65535)
    (top : maxy ≤ 65535) : (codes minx miny maxx maxy).Nodup := by
  refine List.Nodup.map_on (fun p first q second same => ?_) (nodup_rectangle _ _ _ _)
  have first := mem_rectangle.mp first
  have second := mem_rectangle.mp second
  exact injOn_xy2tile ⟨first.1.2.trans right, first.2.2.trans top⟩
    ⟨second.1.2.trans right, second.2.2.trans top⟩ same

private theorem codes_eq (minx miny maxx maxy : Nat) :
    codes minx miny maxx maxy = (List.range' minx (maxx + 1 - minx)).flatMap (fun x =>
      (List.range' miny (maxy + 1 - miny)).map (xy2tile x)) := by
  change ((List.range' minx (maxx + 1 - minx)).flatMap (fun x =>
    (List.range' miny (maxy + 1 - miny)).map (Prod.mk x))).map _ = _
  rw [List.map_flatMap]
  refine congrArg (List.flatMap · _) (funext fun x => ?_)
  rw [List.map_map]
  rfl

private theorem column_eq {miny maxy fuel : Nat} (rows : miny ≤ maxy) (top : maxy ≤ 65535)
    (enough : 65536 < fuel) (tiles : List Nat) (x : Nat) :
    forUpTo 32 maxy (fun tiles y => some (tiles ++ [xy2tile x y])) fuel miny tiles =
      some (tiles ++ (List.range' miny (maxy + 1 - miny)).map (xy2tile x)) := by
  rw [forUpTo_eq (f := fun tiles y => tiles ++ [xy2tile x y]) (by omega) (by omega) (by omega)
    (fun _ _ _ _ => rfl), List.foldl_append_eq_append]
  rw [← List.flatMap_def, List.map_eq_flatMap]

theorem tilesForCorners_eq {minx miny maxx maxy fuel : Nat} (columns : minx ≤ maxx)
    (right : maxx ≤ 65535) (rows : miny ≤ maxy) (top : maxy ≤ 65535) (enough : 65536 < fuel) :
    tilesForCorners fuel minx miny maxx maxy =
      some (sortUnique before (codes minx miny maxx maxy)) := by
  have loops := forUpTo_eq (w := 32) (s := ([] : List Nat))
    (f := fun tiles x => tiles ++ (List.range' miny (maxy + 1 - miny)).map (xy2tile x))
    (show maxx + 1 < 2 ^ 32 by omega) (Nat.le_succ_of_le columns)
    (show maxx + 1 < minx + fuel by omega) (fun tiles x _ _ => column_eq rows top enough tiles x)
  rw [List.foldl_append_eq_append, List.nil_append, ← List.flatMap_def, ← codes_eq] at loops
  rw [tilesForCorners, loops]
  rfl

end Loops

section Area

private theorem strictTotal_before : StrictTotal before where
  irrefl a := decide_eq_false (Nat.lt_irrefl a)
  trans := by
    intro a b c first second
    rw [before, decide_eq_true_iff] at first second ⊢
    exact Nat.lt_trans first second
  trichotomy a b := by
    rw [before, before, decide_eq_true_iff, decide_eq_true_iff]
    exact Nat.lt_trichotomy a b

private theorem pairwise_tiles (tiles : List Nat) :
    (sortUnique before tiles).Pairwise (· < ·) :=
  (pairwise_sortUnique strictTotal_before tiles).imp of_decide_eq_true

/-- A tile stands for one place, so no two rounds of the loops give the same and the
`unique` drops none: the reserved size is the size. -/
private theorem length_tiles {minx miny maxx maxy : Nat} (columns : minx ≤ maxx)
    (right : maxx ≤ 65535) (rows : miny ≤ maxy) (top : maxy ≤ 65535) :
    (sortUnique before (codes minx miny maxx maxy)).length =
      (maxx - minx + 1) * (maxy - miny + 1) := by
  rw [(perm_sortUnique strictTotal_before (nodup_codes right top)).length_eq, codes,
    List.length_map, length_rectangle columns rows]

private theorem mem_tiles {minx miny maxx maxy tile : Nat} :
    tile ∈ sortUnique before (codes minx miny maxx maxy) ↔
      ∃ x y, minx ≤ x ∧ x ≤ maxx ∧ miny ≤ y ∧ y ≤ maxy ∧ tile = xy2tile x y := by
  rw [mem_sortUnique, codes, List.mem_map]
  constructor
  · rintro ⟨p, member, rfl⟩
    obtain ⟨⟨left, right⟩, bottom, top⟩ := mem_rectangle.mp member
    exact ⟨p.1, p.2, left, right, bottom, top, rfl⟩
  · rintro ⟨x, y, left, right, bottom, top, rfl⟩
    exact ⟨(x, y), mem_rectangle.mpr ⟨⟨left, right⟩, bottom, top⟩, rfl⟩

/-- Every tile number stands for one place, and the tiles of a rectangle are those of its
places in increasing order, each once. -/
theorem tiles_exact :
    Set.BijOn (fun p : Nat × Nat => xy2tile p.1 p.2) places (Set.Iio (2 ^ 32)) ∧
      ∀ minx miny maxx maxy, minx ≤ maxx → maxx ≤ 65535 → miny ≤ maxy → maxy ≤ 65535 →
        ∀ fuel, 65536 < fuel → ∃ tiles, tilesForCorners fuel minx miny maxx maxy = some tiles ∧
          tiles.Pairwise (· < ·) ∧
          (∀ tile, tile ∈ tiles ↔
            ∃ x y, minx ≤ x ∧ x ≤ maxx ∧ miny ≤ y ∧ y ≤ maxy ∧ tile = xy2tile x y) ∧
          tiles.length = (maxx - minx + 1) * (maxy - miny + 1) := by
  refine ⟨bijOn_xy2tile, fun minx miny maxx maxy columns right rows top fuel enough => ?_⟩
  exact ⟨_, tilesForCorners_eq columns right rows top enough, pairwise_tiles _,
    fun tile => mem_tiles, length_tiles columns right rows top⟩

theorem tiles_fourPlaces :
    ∃ tiles, tilesForCorners 65537 1 2 2 3 = some tiles ∧ tiles.Pairwise (· < ·) ∧
      (∀ tile, tile ∈ tiles ↔
        ∃ x y, 1 ≤ x ∧ x ≤ 2 ∧ 2 ≤ y ∧ y ≤ 3 ∧ tile = xy2tile x y) ∧
      tiles.length = 4 :=
  tiles_exact.2 1 2 2 3 (by decide) (by decide) (by decide) (by decide) 65537 (by decide)

/-- For a valid box the list has the tiles that the query of the nodes compares with. -/
theorem tilesForArea_valid {b : GeoBox} {fuel : Nat} (valid : ValidBox b) (enough : 65536 < fuel) :
    ∃ tiles, tilesForArea fuel b = some tiles ∧ tiles.Pairwise (· < ·) ∧
      ∀ tile, tile ∈ tiles ↔ tile ∈ DataSelection.tilesForArea b := by
  obtain ⟨-, -, -, east, -, -, -, north, columns, rows⟩ := valid
  refine ⟨_, tilesForCorners_eq (lon2x_mono columns) (Nat.le_of_lt_succ (lon2x_lt east))
    (lat2y_mono rows) (Nat.le_of_lt_succ (lat2y_lt north)) enough, pairwise_tiles _, fun tile => ?_⟩
  rw [mem_tiles, mem_tilesForArea]

end Area

end Cgimap.Read.AreaTiles
