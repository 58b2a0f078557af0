/- path: Cgimap/Model/Types
   generality: I
   source: include/cgimap/types.hpp, include/cgimap/util.hpp, include/cgimap/options.hpp,
     include/cgimap/http.hpp, include/cgimap/backend/apidb/quad_tile.hpp
   digest: Object types, exceptions, settings, bounding boxes and tiles. -/

import Mathlib.Data.Rat.Floor
import Mathlib.Order.Lattice
import Mathlib.Tactic.Linarith

set_option autoImplicit false
set_option relaxedAutoImplicit false

namespace Cgimap.Model.Types

inductive ObjectType where
  | node
  | way
  | relation
  deriving DecidableEq, Repr

def ObjectType.pick {A : ObjectType → Type} (node : A .node) (way : A .way) (relation : A .relation) :
    (t : ObjectType) → A t
  | .node => node
  | .way => way
  | .relation => relation

/-- `operation`; `op_undefined` is only a parser state between two blocks. -/
inductive Operation where
  | create
  | modify
  | delete
  deriving DecidableEq, Repr

/-- The type name as the messages and the member types of the source spell it. -/
def ObjectType.name : ObjectType → String
  | .node => "Node"
  | .way => "Way"
  | .relation => "Relation"

def ObjectType.lowerName : ObjectType → String
  | .node => "node"
  | .way => "way"
  | .relation => "relation"

/-- What leaves a function by `throw`: an `http::exception` with its status code
and message, or any other `std::exception`. Running out of fuel is not a
behaviour of the source; it marks an execution cut off by the model. -/
inductive Exception where
  | http (code : Nat) (message : String)
  | std (what : String)
  | outOfFuel
  deriving DecidableEq, Repr

namespace Exception

def badRequest (message : String) : Exception := .http 400 message
def unauthorized (message : String) : Exception := .http 401 message
def forbidden (message : String) : Exception := .http 403 message
def notFound (message : String) : Exception := .http 404 message
def notAcceptable (message : String) : Exception := .http 406 message
def conflict (message : String) : Exception := .http 409 message
def gone (message : String) : Exception := .http 410 message
def preconditionFailed (message : String) : Exception := .http 412 message
def payloadTooLarge (message : String) : Exception := .http 413 message
def tooManyRequests (message : String) : Exception := .http 429 message
def serverError (message : String) : Exception := .http 500 message

end Exception

/-- Largest value of `osm_version_t` plus one. -/
def versionBound : Nat := 2 ^ 32

/-- Reading a `bigint` column through `.as<osm_version_t>()`. -/
def asVersion (v : Nat) : Except Exception Nat :=
  if v < versionBound then .ok v
  else .error (.std "Could not convert string to osm_version_t: value out of range.")

/-- `static_cast<osm_nwr_id_t>` of a signed 64-bit id. -/
def toUnsigned (id : Int) : Nat := (id % 2 ^ 64).toNat

theorem toUnsigned_of_nonneg {id : Int} (low : 0 ≤ id) (high : id < 2 ^ 64) :
    (toUnsigned id : Int) = id := by
  unfold toUnsigned
  omega

/-- `global_settings`, with the bounds that `options.cpp` enforces. Durations are
in seconds. -/
structure Settings where
  scale : Int
  wayMaxNodes : Nat
  relationMaxMembers : Option Nat
  elementMaxTags : Option Nat
  changesetMaxElements : Nat
  changesetTimeoutOpenMax : Int
  changesetTimeoutIdle : Int
  changesetEnhancedStats : Bool
  ratelimiterUpload : Bool
  bboxSizeLimiterUpload : Bool
  scale_pos : 0 < scale
  changesetMaxElements_pos : 0 < changesetMaxElements
  changesetMaxElements_le : changesetMaxElements ≤ 50000
  changesetTimeoutOpenMax_nonneg : 0 ≤ changesetTimeoutOpenMax
  changesetTimeoutIdle_nonneg : 0 ≤ changesetTimeoutIdle

def Settings.default : Settings where
  scale := 10000000
  wayMaxNodes := 2000
  relationMaxMembers := none
  elementMaxTags := none
  changesetMaxElements := 10000
  changesetTimeoutOpenMax := 86400
  changesetTimeoutIdle := 3600
  changesetEnhancedStats := false
  ratelimiterUpload := false
  bboxSizeLimiterUpload := false
  scale_pos := by decide
  changesetMaxElements_pos := by decide
  changesetMaxElements_le := by decide
  changesetTimeoutOpenMax_nonneg := by decide
  changesetTimeoutIdle_nonneg := by decide

@[ext] structure Bbox where
  minlat : Int
  minlon : Int
  maxlat : Int
  maxlon : Int
  deriving DecidableEq, Repr

namespace Bbox

/-- The default constructor: a box outside the valid range, inside out. -/
def undefined (cfg : Settings) : Bbox :=
  ⟨200 * cfg.scale, 200 * cfg.scale, -200 * cfg.scale, -200 * cfg.scale⟩

def expand (b c : Bbox) : Bbox :=
  ⟨min b.minlat c.minlat, min b.minlon c.minlon, max b.maxlat c.maxlat, max b.maxlon c.maxlon⟩

def linearSize (b : Bbox) : Int := (b.maxlon - b.minlon) + (b.maxlat - b.minlat)

def ofPoint (lat lon : Int) : Bbox := ⟨lat, lon, lat, lon⟩

theorem expand_comm (b c : Bbox) : b.expand c = c.expand b := by
  simp only [expand, min_comm, max_comm]

theorem expand_assoc (b c d : Bbox) : (b.expand c).expand d = b.expand (c.expand d) := by
  simp only [expand, min_assoc, max_assoc]

@[simp] theorem expand_self (b : Bbox) : b.expand b = b := by
  simp only [expand, min_self, max_self]

end Bbox

/-- C `round`: to the nearest integer, halves away from zero. -/
def cround (q : ℚ) : Int := if 0 ≤ q then ⌊q + 1 / 2⌋ else -⌊-q + 1 / 2⌋

private theorem cround_of_nonneg {q : ℚ} (nonneg : 0 ≤ q) : cround q = ⌊q + 1 / 2⌋ := if_pos nonneg

private theorem cround_of_neg {q : ℚ} (negative : q < 0) : cround q = -⌊-q + 1 / 2⌋ :=
  if_neg (not_le.mpr negative)

theorem cround_mono {p q : ℚ} (order : p ≤ q) : cround p ≤ cround q := by
  rcases le_or_gt 0 p with positive | negative
  · rw [cround_of_nonneg positive, cround_of_nonneg (positive.trans order)]
    exact Int.floor_mono (by linarith)
  · rcases le_or_gt 0 q with positive' | negative'
    · have low : (0 : ℤ) ≤ ⌊-p + 1 / 2⌋ := Int.floor_nonneg.mpr (by linarith)
      have high : (0 : ℤ) ≤ ⌊q + 1 / 2⌋ := Int.floor_nonneg.mpr (by linarith)
      rw [cround_of_neg negative, cround_of_nonneg positive']
      omega
    · have order' : ⌊-q + 1 / 2⌋ ≤ ⌊-p + 1 / 2⌋ := Int.floor_mono (by linarith)
      rw [cround_of_neg negative, cround_of_neg negative']
      omega

theorem cround_intCast (n : ℤ) : cround (n : ℚ) = n := by
  have floor_half : ∀ m : ℤ, ⌊(m : ℚ) + 1 / 2⌋ = m := by
    intro m
    rw [Int.floor_eq_iff]
    constructor
    · linarith
    · linarith
  rcases le_or_gt 0 (n : ℚ) with positive | negative
  · rw [cround_of_nonneg positive, floor_half]
  · have opposite := floor_half (-n)
    rw [Int.cast_neg] at opposite
    rw [cround_of_neg negative, opposite, neg_neg]

/-- Scaling and rounding does not leave a range of whole numbers. -/
theorem cround_scaled (cfg : Settings) {q : ℚ} {bound : ℤ} (low : -(bound : ℚ) ≤ q)
    (high : q ≤ bound) :
    -bound * cfg.scale ≤ cround (q * cfg.scale) ∧ cround (q * cfg.scale) ≤ bound * cfg.scale := by
  have positive : (0 : ℚ) ≤ cfg.scale := by exact_mod_cast cfg.scale_pos.le
  constructor
  · rw [← cround_intCast (-bound * cfg.scale), Int.cast_mul, Int.cast_neg]
    exact cround_mono (mul_le_mul_of_nonneg_right low positive)
  · rw [← cround_intCast (bound * cfg.scale), Int.cast_mul]
    exact cround_mono (mul_le_mul_of_nonneg_right high positive)

/-- Interleaves the sixteen bits of `x` and `y`, `x` first. -/
def xy2tile (x y : Nat) : Nat :=
  [15, 14, 13, 12, 11, 10, 9, 8, 7, 6, 5, 4, 3, 2, 1, 0].foldl
    (fun tile i =>
      let tile := (tile <<< 1) ||| ((x >>> i) &&& 1)
      (tile <<< 1) ||| ((y >>> i) &&& 1)) 0

def lon2x (lon : ℚ) : Nat := (cround ((lon + 180) * 65535 / 360)).toNat

def lat2y (lat : ℚ) : Nat := (cround ((lat + 90) * 65535 / 180)).toNat

end Cgimap.Model.Types
