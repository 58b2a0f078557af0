/- path: Cgimap/Http/RateLimiter
   generality: I
   source: src/rate_limiter.cpp, src/options.cpp, include/cgimap/options.hpp, src/process_request.cpp
   digest: The debts of clients in memcached: what is stored, how long to wait, how long it lives. -/

import Cgimap.Library.ExceptLists
import Cgimap.Library.LeakyBucket
import Mathlib.Data.List.Induction

/-!
Everything is about the entry of one key. `memcached_get` is given by what it finds: the last
stored state, or nothing (no entry, an entry that was dropped, or no server).
-/

set_option autoImplicit false
set_option relaxedAutoImplicit false

namespace Cgimap.Http.RateLimiter

open Cgimap.Library.ExceptLists
open Cgimap.Library.LeakyBucket

section Numbers

/-- The behaviour of a signed overflow is undefined. -/
inductive Fault where
  | signedOverflow
  deriving DecidableEq, Repr

def int64 (x : Int) : Except Fault Int :=
  if -2 ^ 63 ≤ x ∧ x < 2 ^ 63 then .ok x else .error .signedOverflow

def toInt (n : UInt32) : Int := if n.toNat < 2 ^ 31 then n.toNat else n.toNat - 2 ^ 32

end Numbers

section Settings

/-- The options about rate limits, each a `long` when it is set. -/
structure Options where
  ratelimit : Option Int := none
  moderatorRatelimit : Option Int := none
  maxdebt : Option Int := none
  moderatorMaxdebt : Option Int := none

structure Settings where
  ratelimit : Bool → UInt32
  maxdebt : Bool → UInt32

def globalSettingsDefault : Settings where
  ratelimit moderator := if moderator then 1024 * 1024 else 100 * 1024
  maxdebt moderator := if moderator then 1024 * 1024 * 1024 else 250 * 1024 * 1024

def readRatelimit (name : String) (fallback : UInt32) : Option Int → Except String UInt32
  | none => .ok fallback
  | some parsed =>
      if parsed ≤ 0 then .error (name ++ " must be greater than zero")
      else if parsed > 1024 * 1024 * 1024 then .error (name ++ " must be 1GB or less")
      else .ok (UInt32.ofInt parsed)

def readMaxdebt (name : String) (fallback : UInt32) : Option Int → Except String UInt32
  | none => .ok fallback
  | some parsed =>
      if parsed ≤ 0 then .error (name ++ " must be greater than zero")
      else if parsed > 3500 then .error (name ++ " (in MB) must be 3500 or less")
      else .ok (UInt32.ofInt (parsed * 1024 * 1024))

def setRatelimiterRatelimit (options : Options) (s : Settings) : Except String Settings := do
  let everyone ← readRatelimit "ratelimit" (s.ratelimit false) options.ratelimit
  let moderators ← readRatelimit "moderator-ratelimit" (s.ratelimit true) options.moderatorRatelimit
  .ok { s with ratelimit := fun moderator => if moderator then moderators else everyone }

def setRatelimiterMaxdebt (options : Options) (s : Settings) : Except String Settings := do
  let everyone ← readMaxdebt "maxdebt" (s.maxdebt false) options.maxdebt
  let moderators ← readMaxdebt "moderator-maxdebt" (s.maxdebt true) options.moderatorMaxdebt
  .ok { s with maxdebt := fun moderator => if moderator then moderators else everyone }

/-- `set_new_options`, for the options about rate limits. -/
def globalSettingsViaOptions (options : Options) : Except String Settings := do
  let s ← setRatelimiterRatelimit options globalSettingsDefault
  setRatelimiterMaxdebt options s

end Settings

section Source

structure State where
  lastUpdate : Int
  bytesServed : UInt32
  deriving DecidableEq, Repr

/-- A state with the lifetime it is stored for. -/
structure Entry where
  state : State
  expiration : Int
  deriving DecidableEq, Repr

def bytesLeft (bytesPerSec : UInt32) (now : Int) (sp : State) : Except Fault (Option Int) := do
  let elapsed ← int64 (now - sp.lastUpdate)
  let drained ← int64 (elapsed * bytesPerSec.toNat)
  if drained < sp.bytesServed.toNat then do
    let left ← int64 (sp.bytesServed.toNat - drained)
    .ok (some left)
  else .ok none

def bytesServed (bytesPerSec : UInt32) (now : Int) : Option State → Except Fault UInt32
  | none => .ok 0
  | some sp => do
      let left ← bytesLeft bytesPerSec now sp
      .ok ((left.map UInt32.ofInt).getD 0)

variable (settings : Settings) (moderator : Bool) (now : Int) (found : Option State)

def check : Except Fault (Bool × Int) := do
  let bytesPerSec := settings.ratelimit moderator
  let served ← bytesServed bytesPerSec now found
  let maxBytes := settings.maxdebt moderator
  if served < maxBytes then .ok (false, 0)
  else .ok (true, toInt ((served - maxBytes) / bytesPerSec + 1))

def realtimeMaxdelta : Int := 60 * 60 * 24 * 30

def memcachedExpiration (bytes : UInt32) : Int :=
  let relevantBytes := max (settings.maxdebt moderator) bytes
  min realtimeMaxdelta (2 * relevantBytes.toNat / (settings.ratelimit moderator).toNat)

/-- The new `bytes_served` in `update`. -/
def addBytes (bytesPerSec bytes : UInt32) : Option State → Except Fault UInt32
  | none => .ok bytes
  | some sp => do
      let left ← bytesLeft bytesPerSec now sp
      match left with
      | none => .ok bytes
      | some left => do
          let sum ← int64 (left + bytes.toNat)
          .ok (UInt32.ofInt sum)

/-- `memcached_rate_limiter::update`, as long as `memcached_add` can store an entry that
`memcached_get` has not found. -/
def update (bytes : UInt32) : Except Fault Entry := do
  let served ← addBytes now (settings.ratelimit moderator) bytes found
  .ok ⟨⟨now, served⟩, memcachedExpiration settings moderator bytes⟩

end Source

section Bounds

structure Bounds (settings : Settings) (moderator : Bool) : Prop where
  ratelimit_pos : 0 < (settings.ratelimit moderator).toNat
  ratelimit_le : (settings.ratelimit moderator).toNat ≤ 1024 * 1024 * 1024
  maxdebt_pos : 0 < (settings.maxdebt moderator).toNat
  maxdebt_le : (settings.maxdebt moderator).toNat ≤ 3500 * 1024 * 1024

theorem toNat_ofInt {x : Int} (nonneg : 0 ≤ x) (small : x < 2 ^ 32) :
    ((UInt32.ofInt x).toNat : Int) = x := by
  rw [UInt32.ofInt, UInt32.toNat_ofNat', Nat.mod_eq_of_lt (by omega)]
  omega

private theorem readRatelimit_bounds {name : String} {fallback n : UInt32} {option : Option Int}
    (low : 0 < fallback.toNat) (high : fallback.toNat ≤ 1024 * 1024 * 1024)
    (read : readRatelimit name fallback option = .ok n) :
    0 < n.toNat ∧ n.toNat ≤ 1024 * 1024 * 1024 := by
  cases option with
  | none =>
      cases read
      exact ⟨low, high⟩
  | some parsed =>
      rw [readRatelimit] at read
      split at read
      · cases read
      · split at read
        · cases read
        · cases read
          have same := toNat_ofInt (x := parsed) (by omega) (by omega)
          omega

private theorem readMaxdebt_bounds {name : String} {fallback n : UInt32} {option : Option Int}
    (low : 0 < fallback.toNat) (high : fallback.toNat ≤ 3500 * 1024 * 1024)
    (read : readMaxdebt name fallback option = .ok n) :
    0 < n.toNat ∧ n.toNat ≤ 3500 * 1024 * 1024 := by
  cases option with
  | none =>
      cases read
      exact ⟨low, high⟩
  | some parsed =>
      rw [readMaxdebt] at read
      split at read
      · cases read
      · split at read
        · cases read
        · cases read
          have same := toNat_ofInt (x := parsed * 1024 * 1024) (by omega) (by omega)
          omega

private theorem bounds_of_default (moderator : Bool) : Bounds globalSettingsDefault moderator := by
  cases moderator with
  | false => exact ⟨by decide, by decide, by decide, by decide⟩
  | true => exact ⟨by decide, by decide, by decide, by decide⟩

theorem default_admitted : globalSettingsViaOptions {} = .ok globalSettingsDefault := by
  have rates : (fun moderator : Bool => if moderator then globalSettingsDefault.ratelimit true
      else globalSettingsDefault.ratelimit false) = globalSettingsDefault.ratelimit := by
    funext moderator
    cases moderator with
    | false => rfl
    | true => rfl
  have debts : (fun moderator : Bool => if moderator then globalSettingsDefault.maxdebt true
      else globalSettingsDefault.maxdebt false) = globalSettingsDefault.maxdebt := by
    funext moderator
    cases moderator with
    | false => rfl
    | true => rfl
  show Except.ok (Settings.mk _ _) = _
  exact congrArg₂ (fun r d => Except.ok (Settings.mk r d)) rates debts

theorem bounds_of_options {options : Options} {settings : Settings}
    (admitted : globalSettingsViaOptions options = .ok settings) (moderator : Bool) :
    Bounds settings moderator := by
  obtain ⟨s, rates, debts⟩ := bind_eq_ok.mp admitted
  obtain ⟨rate, everyone, others⟩ := bind_eq_ok.mp rates
  obtain ⟨rate', moderators, same⟩ := bind_eq_ok.mp others
  obtain ⟨debt, everyone', others'⟩ := bind_eq_ok.mp debts
  obtain ⟨debt', moderators', same'⟩ := bind_eq_ok.mp others'
  cases same
  cases same'
  have everyone_default := bounds_of_default false
  have moderator_default := bounds_of_default true
  have rate_bounds := readRatelimit_bounds everyone_default.ratelimit_pos
    everyone_default.ratelimit_le everyone
  have rate_bounds' := readRatelimit_bounds moderator_default.ratelimit_pos
    moderator_default.ratelimit_le moderators
  have debt_bounds := readMaxdebt_bounds everyone_default.maxdebt_pos
    everyone_default.maxdebt_le everyone'
  have debt_bounds' := readMaxdebt_bounds moderator_default.maxdebt_pos
    moderator_default.maxdebt_le moderators'
  cases moderator with
  | false => exact ⟨rate_bounds.1, rate_bounds.2, debt_bounds.1, debt_bounds.2⟩
  | true => exact ⟨rate_bounds'.1, rate_bounds'.2, debt_bounds'.1, debt_bounds'.2⟩

end Bounds

section Exact

/-- A state in unbounded integers. -/
structure Debt where
  lastUpdate : Int
  bytes : Int
  deriving DecidableEq

def State.debt (sp : State) : Debt := ⟨sp.lastUpdate, sp.bytesServed.toNat⟩

/-- What a bucket that leaks `rate` bytes each second still holds. -/
def debtLeft (rate : UInt32) (now : Int) : Option Debt → Int
  | none => 0
  | some d => residual rate.toNat d.bytes (now - d.lastUpdate)

/-- The bytes drained so far fit in `int64_t`. -/
def Drains (rate : UInt32) (now : Int) (debt : Option Debt) : Prop :=
  ∀ d ∈ debt, (now - d.lastUpdate) * rate.toNat < 2 ^ 63

/-- The clock was not ahead. -/
def NotAhead (now : Int) (debt : Option Debt) : Prop := ∀ d ∈ debt, d.lastUpdate ≤ now

variable {rate : UInt32} {now : Int} {sp : State} {found : Option State}

private theorem bytesLeft_of_drains (running : 0 < rate.toNat) (order : sp.lastUpdate ≤ now)
    (drains : (now - sp.lastUpdate) * rate.toNat < 2 ^ 63) :
    bytesLeft rate now sp = .ok (
      if 0 < debtLeft rate now (some sp.debt) then some (debtLeft rate now (some sp.debt)) else none) := by
  have small : (sp.bytesServed.toNat : Int) < 2 ^ 32 := by exact_mod_cast sp.bytesServed.toNat_lt
  have elapsed_le : now - sp.lastUpdate ≤ (now - sp.lastUpdate) * rate.toNat :=
    le_mul_of_one_le_right (by omega) (by omega)
  rw [bytesLeft, int64, if_pos (by omega)]
  show (int64 ((now - sp.lastUpdate) * rate.toNat) >>= _) = _
  rw [int64, if_pos (by omega)]
  show (if (now - sp.lastUpdate) * rate.toNat < sp.bytesServed.toNat then _ else _) = _
  by_cases more : (now - sp.lastUpdate) * rate.toNat < sp.bytesServed.toNat
  · have left : debtLeft rate now (some sp.debt)
        = sp.bytesServed.toNat - (now - sp.lastUpdate) * rate.toNat := residual_of_lt more
    rw [if_pos more, int64, if_pos (by omega), left, if_pos (by omega)]
    rfl
  · have left : debtLeft rate now (some sp.debt) = 0 := residual_of_le (not_lt.mp more)
    rw [if_neg more, left, if_neg (by omega)]

private theorem bytesLeft_of_not_drains (drains : ¬(now - sp.lastUpdate) * rate.toNat < 2 ^ 63) :
    bytesLeft rate now sp = .error .signedOverflow := by
  rw [bytesLeft, int64]
  split
  · show (int64 ((now - sp.lastUpdate) * rate.toNat) >>= _) = _
    rw [int64, if_neg (by omega)]
    rfl
  · rfl

variable (rate now) in
private theorem debtLeft_nonneg (debt : Option Debt) : 0 ≤ debtLeft rate now debt := by
  cases debt with
  | none => exact le_refl 0
  | some d => exact residual_nonneg

variable (rate found) in
private theorem debtLeft_lt (order : NotAhead now (found.map State.debt)) :
    debtLeft rate now (found.map State.debt) < 2 ^ 32 := by
  cases found with
  | none =>
      show (0 : Int) < 2 ^ 32
      decide
  | some sp =>
      have small : (sp.bytesServed.toNat : Int) < 2 ^ 32 := by
        exact_mod_cast sp.bytesServed.toNat_lt
      have drained : 0 ≤ (now - sp.lastUpdate) * rate.toNat :=
        mul_nonneg (Int.sub_nonneg.mpr (order sp.debt rfl)) (Int.natCast_nonneg _)
      show residual _ _ _ < _
      rw [residual_lt_iff (by decide)]
      show (sp.bytesServed.toNat : Int) - _ < _
      exact lt_of_le_of_lt (Int.sub_le_self _ drained) small

theorem bytesServed_of_drains (running : 0 < rate.toNat) (order : NotAhead now (found.map State.debt))
    (drains : Drains rate now (found.map State.debt)) :
    bytesServed rate now found = .ok (UInt32.ofInt (debtLeft rate now (found.map State.debt))) := by
  cases found with
  | none => rfl
  | some sp =>
      have nonneg : 0 ≤ debtLeft rate now (some sp.debt) := debtLeft_nonneg _ _ _
      rw [bytesServed, bytesLeft_of_drains running (order _ rfl) (drains _ rfl)]
      by_cases more : 0 < debtLeft rate now (some sp.debt)
      · rw [if_pos more]
        rfl
      · rw [if_neg more, Option.map_some, le_antisymm (not_lt.mp more) nonneg]
        rfl

theorem addBytes_of_drains (running : 0 < rate.toNat) (order : NotAhead now (found.map State.debt))
    (drains : Drains rate now (found.map State.debt)) (bytes : UInt32) :
    addBytes now rate bytes found
      = .ok (UInt32.ofInt (debtLeft rate now (found.map State.debt) + bytes.toNat)) := by
  have none_left : UInt32.ofInt (0 + bytes.toNat) = bytes := by
    rw [zero_add, ← UInt32.toNat_inj]
    have small := bytes.toNat_lt
    have same := toNat_ofInt (x := (bytes.toNat : Int)) (by omega) (by omega)
    omega
  cases found with
  | none =>
      show Except.ok bytes = .ok (UInt32.ofInt (0 + bytes.toNat))
      rw [none_left]
  | some sp =>
      have nonneg : 0 ≤ debtLeft rate now (some sp.debt) := debtLeft_nonneg _ _ _
      have small : debtLeft rate now (some sp.debt) < 2 ^ 32 :=
        debtLeft_lt rate (some sp) order
      have added := bytes.toNat_lt
      rw [addBytes, bytesLeft_of_drains running (order _ rfl) (drains _ rfl)]
      by_cases more : 0 < debtLeft rate now (some sp.debt)
      · rw [if_pos more]
        show (int64 (debtLeft rate now (some sp.debt) + bytes.toNat) >>= _) = _
        rw [int64, if_pos (by omega)]
        rfl
      · rw [if_neg more, Option.map_some, le_antisymm (not_lt.mp more) nonneg, none_left]
        rfl

end Exact

section Runs

/-- What the requests of one key and role do to its entry: `check` before a request is processed,
and at its end the bytes that were written, a `size_t`. -/
inductive Event where
  | check (now : Int)
  | finish (now : Int) (bytesWritten : Nat)
  deriving DecidableEq, Repr

def Event.time : Event → Int
  | .check now => now
  | .finish now _ => now

def Clock (run : List Event) : Prop := run.Pairwise (fun e e' => e.time ≤ e'.time)

instance (run : List Event) : Decidable (Clock run) :=
  inferInstanceAs (Decidable (run.Pairwise (fun e e' => e.time ≤ e'.time)))

variable (settings : Settings) (moderator : Bool)

/-- The calls of the limiter in `process_request`, on the last stored state. -/
def step (found : Option State) : Event → Except Fault (Option State)
  | .check now => do
      let _ ← check settings moderator now found
      .ok found
  | .finish now bytesWritten =>
      if 0 < bytesWritten then do
        let entry ← update settings moderator now found (UInt32.ofNat bytesWritten)
        .ok (some entry.state)
      else .ok found

/-- The same in unbounded integers. -/
def exactStep (rate : UInt32) (debt : Option Debt) : Event → Option Debt
  | .check _ => debt
  | .finish now bytesWritten =>
      if 0 < bytesWritten then some ⟨now, debtLeft rate now debt + bytesWritten⟩ else debt

def exactDebt (run : List Event) : Option Debt :=
  run.foldl (exactStep (settings.ratelimit moderator)) none

/-- Every update follows the allowed check of its request; requests may overlap. -/
def follows (found : Option State) (allowed : Nat) : List Event → Bool
  | [] => true
  | .check now :: run =>
      match check settings moderator now found with
      | .ok (false, _) => follows found (allowed + 1) run
      | .ok (true, _) => follows found allowed run
      | .error _ => true
  | .finish now bytesWritten :: run =>
      0 < allowed && match step settings moderator found (.finish now bytesWritten) with
        | .ok found' => follows found' (allowed - 1) run
        | .error _ => true

/-- Whenever the run has come to a state, it is the exact debt, and the next check sees what is
exactly left of it. -/
def Refines (run : List Event) : Prop :=
  ∀ before after, run = before ++ after → ∃ found,
    before.foldlM (step settings moderator) none = .ok found ∧
      found.map State.debt = exactDebt settings moderator before ∧
      ∀ now later, after = .check now :: later →
        ∃ served, bytesServed (settings.ratelimit moderator) now found = .ok served ∧
          (served.toNat : Int) =
            debtLeft (settings.ratelimit moderator) now (exactDebt settings moderator before)

def Fits (rate : UInt32) (debt : Option Debt) : Event → Prop
  | .check now => Drains rate now debt
  | .finish now bytesWritten =>
      0 < bytesWritten → Drains rate now debt ∧ debtLeft rate now debt + bytesWritten < 2 ^ 32

end Runs

section Refinement

variable {settings : Settings} {moderator : Bool} {found : Option State} {now : Int}

private theorem drains_of_bytesServed {served : UInt32}
    (done : bytesServed (settings.ratelimit moderator) now found = .ok served) :
    Drains (settings.ratelimit moderator) now (found.map State.debt) := by
  cases found with
  | none => exact fun d member => nomatch member
  | some sp =>
      rintro d ⟨⟩
      by_contra drains
      rw [bytesServed, bytesLeft_of_not_drains drains] at done
      cases done

private theorem drains_of_addBytes {bytes served : UInt32}
    (done : addBytes now (settings.ratelimit moderator) bytes found = .ok served) :
    Drains (settings.ratelimit moderator) now (found.map State.debt) := by
  cases found with
  | none => exact fun d member => nomatch member
  | some sp =>
      rintro d ⟨⟩
      by_contra drains
      rw [addBytes, bytesLeft_of_not_drains drains] at done
      cases done

private theorem check_total {served : UInt32}
    (done : bytesServed (settings.ratelimit moderator) now found = .ok served) :
    ∃ answer, check settings moderator now found = .ok answer := by
  rw [check, done]
  show ∃ answer, (if served < settings.maxdebt moderator then _ else _) = _
  split
  · exact ⟨_, rfl⟩
  · exact ⟨_, rfl⟩

private theorem bytesServed_of_check {answer : Bool × Int}
    (done : check settings moderator now found = .ok answer) :
    ∃ served, bytesServed (settings.ratelimit moderator) now found = .ok served := by
  obtain ⟨served, first, -⟩ := bind_eq_ok.mp done
  exact ⟨served, first⟩

private theorem step_exact_iff (bounds : Bounds settings moderator) (e : Event)
    (order : NotAhead e.time (found.map State.debt)) :
    (∃ found', step settings moderator found e = .ok found' ∧
        found'.map State.debt = exactStep (settings.ratelimit moderator) (found.map State.debt) e) ↔
      Fits (settings.ratelimit moderator) (found.map State.debt) e := by
  cases e with
  | check now =>
      change NotAhead now _ at order
      constructor
      · rintro ⟨found', done, -⟩
        obtain ⟨answer, checked, -⟩ := bind_eq_ok.mp done
        obtain ⟨served, first⟩ := bytesServed_of_check checked
        exact drains_of_bytesServed first
      · intro drains
        obtain ⟨answer, checked⟩ := check_total (bytesServed_of_drains bounds.ratelimit_pos order drains)
        refine ⟨found, ?_, rfl⟩
        rw [step, checked]
        rfl
  | finish now bytesWritten =>
      change NotAhead now _ at order
      rw [step, exactStep, Fits]
      by_cases some_written : 0 < bytesWritten
      · rw [if_pos some_written, if_pos some_written]
        have left_nonneg := debtLeft_nonneg (settings.ratelimit moderator) now
          (found.map State.debt)
        have size : (UInt32.ofNat bytesWritten).toNat = bytesWritten % 2 ^ 32 :=
          UInt32.toNat_ofNat'
        constructor
        · rintro ⟨found', done, same⟩ -
          obtain ⟨entry, updated, stored⟩ := bind_eq_ok.mp done
          cases stored
          obtain ⟨served, added, stored⟩ := bind_eq_ok.mp updated
          cases stored
          refine ⟨drains_of_addBytes added, ?_⟩
          injection Option.some.inj same with _ exact_bytes
          rw [← exact_bytes]
          exact_mod_cast served.toNat_lt
        · intro fits
          obtain ⟨drains, small⟩ := fits some_written
          have kept : ((UInt32.ofNat bytesWritten).toNat : Int) = bytesWritten := by
            rw [size, Nat.mod_eq_of_lt (by omega)]
          refine ⟨_, bind_eq_ok.mpr ⟨_, bind_eq_ok.mpr ⟨_, addBytes_of_drains bounds.ratelimit_pos
            order drains _, rfl⟩, rfl⟩, ?_⟩
          show some (Debt.mk now (UInt32.ofInt (_ + ((UInt32.ofNat bytesWritten).toNat : Int))).toNat) = _
          rw [kept, toNat_ofInt (by omega) small]
      · rw [if_neg some_written, if_neg some_written]
        exact iff_of_true ⟨found, rfl, rfl⟩ fun written => absurd written some_written

private theorem exactDebt_concat (before : List Event) (e : Event) :
    exactDebt settings moderator (before ++ [e])
      = exactStep (settings.ratelimit moderator) (exactDebt settings moderator before) e := by
  rw [exactDebt, List.foldl_append]
  rfl

private theorem notAhead_exactDebt {before : List Event}
    (past : ∀ e ∈ before, e.time ≤ now) : NotAhead now (exactDebt settings moderator before) := by
  induction before using List.reverseRecOn with
  | nil => exact fun d member => nomatch member
  | append_singleton before e ih =>
      have earlier := ih fun e' member => past e' (List.mem_append_left _ member)
      have last := past e (List.mem_append_right _ (List.mem_singleton_self e))
      rw [exactDebt_concat]
      cases e with
      | check now' => exact earlier
      | finish now' bytesWritten =>
          rw [exactStep]
          split
          · rintro d ⟨⟩
            exact last
          · exact earlier

variable (settings moderator) in
private theorem notAhead_of_clock {before after : List Event} {e : Event}
    (clock : Clock (before ++ e :: after)) : NotAhead e.time (exactDebt settings moderator before) :=
  notAhead_exactDebt fun e' member =>
    (List.pairwise_append.mp clock).2.2 e' member e List.mem_cons_self

private theorem run_concat {before : List Event} {e : Event} {found' : Option State} :
    (before ++ [e]).foldlM (step settings moderator) none = .ok found' ↔
      ∃ found, before.foldlM (step settings moderator) none = .ok found ∧
        step settings moderator found e = .ok found' := by
  rw [List.foldlM_append, bind_eq_ok]
  simp only [List.foldlM_cons, List.foldlM_nil, bind_eq_ok]
  constructor
  · rintro ⟨found, before_done, _, e_done, same⟩
    cases same
    exact ⟨found, before_done, e_done⟩
  · rintro ⟨found, before_done, e_done⟩
    exact ⟨found, before_done, found', e_done, rfl⟩

private theorem exact_of_fits (bounds : Bounds settings moderator) {before : List Event} :
    ∀ {after : List Event}, Clock (before ++ after) →
      (∀ done e rest, before = done ++ e :: rest →
        Fits (settings.ratelimit moderator) (exactDebt settings moderator done) e) →
      ∃ found, before.foldlM (step settings moderator) none = .ok found ∧
        found.map State.debt = exactDebt settings moderator before := by
  induction before using List.reverseRecOn with
  | nil => exact fun _ _ => ⟨none, rfl, rfl⟩
  | append_singleton before e ih =>
      intro after clock fits
      rw [List.append_assoc] at clock
      obtain ⟨found, run, exact_found⟩ := ih clock fun done e' rest shape =>
        fits done e' (rest ++ [e]) (by rw [shape, List.append_assoc, List.cons_append])
      have order := notAhead_of_clock settings moderator clock
      rw [← exact_found] at order
      have fits_e := fits before e [] rfl
      rw [← exact_found, ← step_exact_iff bounds e order] at fits_e
      obtain ⟨found', done, exact_found'⟩ := fits_e
      refine ⟨found', run_concat.mpr ⟨found, run, done⟩, ?_⟩
      rw [exactDebt_concat, ← exact_found, exact_found']

/-- The limiter counts exactly in every state of a run, if and only if no step of it exceeds the
types. -/
theorem refines_iff {options : Options} (admitted : globalSettingsViaOptions options = .ok settings)
    {run : List Event} (clock : Clock run) :
    Refines settings moderator run ↔ ∀ before e after, run = before ++ e :: after →
      Fits (settings.ratelimit moderator) (exactDebt settings moderator before) e := by
  have bounds := bounds_of_options admitted moderator
  constructor
  · rintro refines before e after rfl
    obtain ⟨found, done, exact_found, -⟩ := refines before (e :: after) rfl
    obtain ⟨found', done', exact_found', -⟩ := refines (before ++ [e]) after (by simp)
    obtain ⟨found₀, before_done, e_done⟩ := run_concat.mp done'
    rw [done] at before_done
    cases before_done
    have order := notAhead_of_clock settings moderator clock
    rw [exactDebt_concat] at exact_found'
    rw [← exact_found] at order exact_found' ⊢
    exact (step_exact_iff bounds e order).mp ⟨found', e_done, exact_found'⟩
  · rintro fits before after rfl
    obtain ⟨found, done, exact_found⟩ := exact_of_fits bounds clock fun done e rest shape =>
      fits done e (rest ++ after) (by rw [shape, List.append_assoc, List.cons_append])
    refine ⟨found, done, exact_found, ?_⟩
    rintro now later rfl
    have order := notAhead_of_clock settings moderator clock
    have drains := fits before (.check now) later rfl
    rw [← exact_found] at order drains ⊢
    refine ⟨_, bytesServed_of_drains bounds.ratelimit_pos order drains, ?_⟩
    exact toNat_ofInt (debtLeft_nonneg _ _ _) (debtLeft_lt _ _ order)

def sampleRun : List Event := [.check 1000, .finish 1003 5000]

theorem refines_iff_sampleRun : Refines globalSettingsDefault false sampleRun := by
  refine (refines_iff default_admitted (by decide)).mpr fun before e after shape => ?_
  match before with
  | [] =>
      cases shape
      exact fun d member => nomatch member
  | [_] =>
      cases shape
      refine fun _ => ⟨fun d member => (nomatch member), ?_⟩
      show (0 : Int) + 5000 < 2 ^ 32
      decide
  | _ :: _ :: _ => exact absurd (congrArg List.length shape) (by simp [sampleRun])

def largeOptions : Options where
  ratelimit := some 1
  maxdebt := some 3500

def largeSettings : Settings where
  ratelimit moderator := if moderator then 1048576 else 1
  maxdebt moderator := if moderator then 1073741824 else 3670016000

private theorem largeSettings_admitted :
    globalSettingsViaOptions largeOptions = .ok largeSettings := by
  have rates : (fun moderator => if moderator then 1024 * 1024 else UInt32.ofInt 1)
      = largeSettings.ratelimit := rfl
  have debts : (fun moderator => if moderator then 1024 * 1024 * 1024
      else UInt32.ofInt (3500 * 1024 * 1024)) = largeSettings.maxdebt := rfl
  show Except.ok (Settings.mk _ _) = _
  exact congrArg₂ (fun r d => Except.ok (Settings.mk r d)) rates debts

def largeRun : List Event :=
  [.check 0, .finish 0 1900000000, .check 0, .finish 0 1700000000, .check 0, .finish 0 1000000000]

theorem not_refines_largeRun :
    ¬∀ (options : Options) (settings : Settings) (moderator : Bool) (run : List Event),
      globalSettingsViaOptions options = .ok settings → Clock run →
        follows settings moderator none 0 run = true → Refines settings moderator run := by
  intro all
  have refines := all largeOptions largeSettings false largeRun largeSettings_admitted (by decide)
    (by decide +kernel)
  obtain ⟨found, done, exact_found, -⟩ := refines largeRun [] rfl
  have stored : largeRun.foldlM (step largeSettings false) none = .ok (some ⟨0, 305032704⟩) := by
    decide +kernel
  rw [stored] at done
  cases done
  exact absurd exact_found (by decide +kernel)

end Refinement

section Timing

variable (settings : Settings) (moderator : Bool)

/-- Whoever waits as long as told is let in, and nobody earlier. -/
def RetryExact : Prop :=
  ∀ (found : Option State) (now : Int) (w : Nat), NotAhead now (found.map State.debt) →
    check settings moderator now found = .ok (true, w) →
    ∀ later, now ≤ later → Drains (settings.ratelimit moderator) later (found.map State.debt) →
      (now + w ≤ later → check settings moderator later found = .ok (false, 0)) ∧
        (later ≤ now + w - 1 → ∃ w', check settings moderator later found = .ok (true, w'))

/-- An expiration of `0` means never. -/
def Entry.Expired (entry : Entry) (stored now : Int) : Prop :=
  entry.expiration ≠ 0 ∧ stored + entry.expiration ≤ now

/-- What `memcached_get` may find: an entry is not dropped before its expiration. -/
def Entry.MayFind (entry : Entry) (stored now : Int) (found : Option State) : Prop :=
  found = some entry.state ∨ (found = none ∧ entry.Expired stored now)

def NotCut (bytes : UInt32) : Prop :=
  2 * (max (settings.maxdebt moderator) bytes).toNat / (settings.ratelimit moderator).toNat
    ≤ realtimeMaxdelta

instance (bytes : UInt32) : Decidable (NotCut settings moderator bytes) :=
  inferInstanceAs (Decidable (_ ≤ realtimeMaxdelta))

/-- From its expiration on, an entry makes no difference to a check. -/
def DropsSafely (entry : Entry) (stored : Int) : Prop :=
  ∀ later, stored ≤ later → Drains (settings.ratelimit moderator) later (some entry.state.debt) →
    (entry.Expired stored later →
      check settings moderator later (some entry.state) = .ok (false, 0)) ∧
      ∀ found, entry.MayFind stored later found →
        check settings moderator later found = check settings moderator later (some entry.state)

structure UpdatesAt (start : Option State) (run : List Event) (found : Option State) (now : Int)
    (bytes : UInt32) (entry : Entry) : Prop where
  reached : ∃ before bytesWritten after, run = before ++ .finish now bytesWritten :: after ∧
    0 < bytesWritten ∧ bytes = UInt32.ofNat bytesWritten ∧
    before.foldlM (step settings moderator) start = .ok found
  stored : update settings moderator now found bytes = .ok entry
  not_cut : NotCut settings moderator bytes

/-- All that is stored over the limit is drained in twice the time of the larger of the limit
and the bytes. -/
def Forgettable (found : Option State) (now : Int) (bytes : UInt32) : Prop :=
  let lifetime := 2 * max (settings.maxdebt moderator).toNat bytes.toNat
    / (settings.ratelimit moderator).toNat
  lifetime = 0 ∨
    (debtLeft (settings.ratelimit moderator) now (found.map State.debt) + bytes.toNat) % 2 ^ 32 <
      (settings.maxdebt moderator).toNat + lifetime * (settings.ratelimit moderator).toNat

end Timing

section TimingProofs

variable {settings : Settings} {moderator : Bool} {found : Option State} {now later : Int}

private theorem toNat_of_toInt {w : UInt32} {n : Nat} (same : toInt w = n) : w.toNat = n := by
  have small := w.toNat_lt
  rw [toInt] at same
  split at same
  · exact Int.ofNat_inj.mp same
  · omega

private theorem maxdebt_lt (bounds : Bounds settings moderator) :
    ((settings.maxdebt moderator).toNat : Int) < 2 ^ 32 ∧ 0 < ((settings.maxdebt moderator).toNat : Int) :=
  ⟨by exact_mod_cast (settings.maxdebt moderator).toNat_lt, by exact_mod_cast bounds.maxdebt_pos⟩

variable (found now) in
private theorem check_of_drains (bounds : Bounds settings moderator)
    (order : NotAhead now (found.map State.debt))
    (drains : Drains (settings.ratelimit moderator) now (found.map State.debt)) :
    (debtLeft (settings.ratelimit moderator) now (found.map State.debt)
          < (settings.maxdebt moderator).toNat ∧
        check settings moderator now found = .ok (false, 0)) ∨
      ∃ w : UInt32, ((settings.maxdebt moderator).toNat : Int)
          ≤ debtLeft (settings.ratelimit moderator) now (found.map State.debt) ∧
        (w.toNat : Int) = waiting (settings.ratelimit moderator).toNat (settings.maxdebt moderator).toNat
          (debtLeft (settings.ratelimit moderator) now (found.map State.debt)) ∧
        check settings moderator now found = .ok (true, toInt w) := by
  have nonneg : 0 ≤ debtLeft (settings.ratelimit moderator) now (found.map State.debt) :=
    debtLeft_nonneg _ _ _
  have small := debtLeft_lt (settings.ratelimit moderator) found order
  have served := toNat_ofInt nonneg small
  rw [check, bytesServed_of_drains bounds.ratelimit_pos order drains]
  generalize UInt32.ofInt (debtLeft (settings.ratelimit moderator) now (found.map State.debt)) = n
    at served
  rw [← served]
  show _ ∧ (if n < settings.maxdebt moderator then _ else _) = _ ∨ ∃ w, _ ∧ _ ∧
    (if n < settings.maxdebt moderator then _ else _) = _
  by_cases below : n < settings.maxdebt moderator
  · rw [if_pos below]
    exact Or.inl ⟨by exact_mod_cast UInt32.lt_iff_toNat_lt.mp below, rfl⟩
  · rw [if_neg below]
    have above : settings.maxdebt moderator ≤ n := UInt32.not_lt.mp below
    have above_nat := UInt32.le_iff_toNat_le.mp above
    refine Or.inr ⟨(n - settings.maxdebt moderator) / settings.ratelimit moderator + 1,
      Int.ofNat_le.mpr above_nat, ?_, rfl⟩
    have divided : (n.toNat - (settings.maxdebt moderator).toNat)
        / (settings.ratelimit moderator).toNat ≤ n.toNat - (settings.maxdebt moderator).toNat :=
      Nat.div_le_self _ _
    have limit_pos := bounds.maxdebt_pos
    have size := n.toNat_lt
    rw [UInt32.toNat_add, UInt32.toNat_div, UInt32.toNat_sub_of_le _ _ above, UInt32.toNat_one,
      Nat.mod_eq_of_lt (by omega), waiting, ← Int.ofNat_sub above_nat, Int.natCast_add,
      Int.natCast_ediv, Int.natCast_one]

private theorem retryExact_of_bounds (bounds : Bounds settings moderator) :
    RetryExact settings moderator := by
  intro found now w order denied later forward drains_later
  obtain ⟨served, first, -⟩ := bind_eq_ok.mp denied
  have drains := drains_of_bytesServed first
  have running : (0 : Int) < (settings.ratelimit moderator).toNat := by
    exact_mod_cast bounds.ratelimit_pos
  have positive := (maxdebt_lt bounds).2
  rcases check_of_drains _ _ bounds order drains with ⟨-, allowed⟩ | ⟨w₀, -, exact_wait, answer⟩
  · rw [allowed] at denied
    cases denied
  rw [answer, Except.ok.injEq, Prod.mk.injEq] at denied
  rw [toNat_of_toInt denied.2] at exact_wait
  have order_later : NotAhead later (found.map State.debt) := fun d member =>
    le_trans (order d member) forward
  have drained : debtLeft (settings.ratelimit moderator) later (found.map State.debt)
      = residual (settings.ratelimit moderator).toNat
          (debtLeft (settings.ratelimit moderator) now (found.map State.debt)) (later - now) := by
    cases found with
    | none =>
        have zero : residual (settings.ratelimit moderator).toNat 0 (later - now) = 0 :=
          residual_of_le (mul_nonneg (by omega) running.le)
        exact zero.symm
    | some sp =>
        show residual _ _ _ = residual _ (residual _ _ _) _
        rw [residual_residual running.le (by omega)]
        congr 1
        omega
  have below_iff := residual_lt_iff_waiting
    (debtLeft (settings.ratelimit moderator) now (found.map State.debt)) (later - now) running positive
  rw [← drained, ← exact_wait] at below_iff
  rcases check_of_drains _ _ bounds order_later drains_later with ⟨below, allowed⟩ | ⟨w₁, above, -, answer'⟩
  · refine ⟨fun _ => allowed, fun early => ?_⟩
    have waited := below_iff.mp below
    omega
  · refine ⟨fun waited => ?_, fun _ => ⟨_, answer'⟩⟩
    have below := below_iff.mpr (by omega)
    omega

private theorem toNat_max (a b : UInt32) : (max a b).toNat = max a.toNat b.toNat := by
  have order : a ≤ b ↔ a.toNat ≤ b.toNat := UInt32.le_iff_toNat_le
  show (if a ≤ b then b else a).toNat = _
  by_cases less : a ≤ b
  · rw [if_pos less, max_eq_right (order.mp less)]
  · rw [if_neg less, max_eq_left (not_le.mp (fun more => less (order.mpr more))).le]

private theorem toNat_ofInt_mod (x : Int) : ((UInt32.ofInt x).toNat : Int) = x % 2 ^ 32 := by
  rw [UInt32.ofInt, UInt32.toNat_ofNat']
  omega

private theorem debtLeft_le {rate : UInt32} {checked : Int} (forward : checked ≤ now) (debt : Option Debt) :
    debtLeft rate now debt ≤ debtLeft rate checked debt := by
  cases debt with
  | none => exact le_refl 0
  | some d => exact residual_antitone (Int.natCast_nonneg _) (by omega)

private theorem update_eq {bytes : UInt32} {entry : Entry} (bounds : Bounds settings moderator)
    (order : NotAhead now (found.map State.debt)) (not_cut : NotCut settings moderator bytes)
    (stored : update settings moderator now found bytes = .ok entry) :
    entry.state.lastUpdate = now ∧
      (entry.state.bytesServed.toNat : Int) = (debtLeft (settings.ratelimit moderator) now
        (found.map State.debt) + bytes.toNat) % 2 ^ 32 ∧
      entry.expiration = (2 * max (settings.maxdebt moderator).toNat bytes.toNat
        / (settings.ratelimit moderator).toNat : Nat) := by
  obtain ⟨served, added, same⟩ := bind_eq_ok.mp stored
  cases same
  rw [addBytes_of_drains bounds.ratelimit_pos order (drains_of_addBytes added),
    Except.ok.injEq] at added
  refine ⟨rfl, ?_, ?_⟩
  · rw [← added]
    exact toNat_ofInt_mod _
  · change memcachedExpiration settings moderator bytes = _
    rw [memcachedExpiration, min_eq_right not_cut, toNat_max]
    norm_cast

/-- An entry can be dropped when it expires exactly if it was forgettable when it was stored. -/
private theorem dropsSafely_iff {bytes : UInt32} {entry : Entry} (bounds : Bounds settings moderator)
    (order : NotAhead now (found.map State.debt)) (not_cut : NotCut settings moderator bytes)
    (stored : update settings moderator now found bytes = .ok entry) :
    DropsSafely settings moderator entry now ↔ Forgettable settings moderator found now bytes := by
  obtain ⟨time, served, lives⟩ := update_eq bounds order not_cut stored
  have running : (0 : Int) < (settings.ratelimit moderator).toNat := by
    exact_mod_cast bounds.ratelimit_pos
  have positive := (maxdebt_lt bounds).2
  have order_later : ∀ later, now ≤ later →
      NotAhead later ((some entry.state).map State.debt) := by
    rintro later forward d ⟨⟩
    exact time.trans_le forward
  have left : ∀ later, debtLeft (settings.ratelimit moderator) later (some entry.state.debt) =
      residual (settings.ratelimit moderator).toNat entry.state.bytesServed.toNat (later - now) :=
    fun later => congrArg (fun start => residual _ _ (later - start)) time
  unfold Forgettable
  dsimp only
  rw [← served]
  generalize 2 * max (settings.maxdebt moderator).toNat bytes.toNat
    / (settings.ratelimit moderator).toNat = lifetime at lives ⊢
  constructor
  · intro safe
    refine or_iff_not_imp_left.mpr fun lasts => ?_
    -- The last moment at which the entry may still be found.
    have forward : now ≤ now + lifetime := by omega
    have small : (lifetime : Int) * (settings.ratelimit moderator).toNat < 2 ^ 63 := by
      have short : (lifetime : Int) ≤ realtimeMaxdelta := lives ▸ by
        obtain ⟨_, _, same⟩ := bind_eq_ok.mp stored
        cases same
        exact min_le_left _ _
      have rate := bounds.ratelimit_le
      have month : realtimeMaxdelta = 2592000 := rfl
      nlinarith
    have drains : Drains (settings.ratelimit moderator) (now + lifetime) (some entry.state.debt) := by
      rintro d ⟨⟩
      show (now + lifetime - entry.state.lastUpdate) * _ < _
      rw [time, add_sub_cancel_left]
      exact small
    have answer := (safe _ forward drains).1 ⟨by omega, by omega⟩
    rcases check_of_drains (some entry.state) _ bounds (order_later _ forward) drains with
      ⟨below, -⟩ | ⟨w, -, -, denied⟩
    · rw [Option.map_some, left, add_sub_cancel_left, residual_lt_iff positive] at below
      omega
    · rw [denied] at answer
      cases answer
  · rintro forgettable later forward drains
    have expired : entry.Expired now later →
        check settings moderator later (some entry.state) = .ok (false, 0) := by
      rintro ⟨never, passed⟩
      have below : debtLeft (settings.ratelimit moderator) later ((some entry.state).map State.debt) <
          (settings.maxdebt moderator).toNat := by
        rw [Option.map_some, left, residual_lt_iff positive]
        have drained : (lifetime : Int) * (settings.ratelimit moderator).toNat ≤
            (later - now) * (settings.ratelimit moderator).toNat :=
          mul_le_mul_of_nonneg_right (by omega) running.le
        rcases forgettable with zero | less
        · omega
        · omega
      rcases check_of_drains (some entry.state) later bounds (order_later later forward) drains with
        ⟨-, answer⟩ | ⟨w, above, -, -⟩
      · exact answer
      · exact absurd below (not_lt.mpr above)
    refine ⟨expired, ?_⟩
    rintro found' (rfl | ⟨rfl, gone⟩)
    · rfl
    · rw [expired gone]
      rcases check_of_drains none later bounds (fun d member => nomatch member)
        (fun d member => nomatch member) with ⟨-, answer⟩ | ⟨w, above, -, -⟩
      · exact answer
      · exact absurd above (not_le.mpr positive)

/-- When nothing was stored since the check that allowed it, an update is forgettable. -/
theorem forgettable_of_allowed {bytes : UInt32} {checked wait : Int} (bounds : Bounds settings moderator)
    (order : NotAhead checked (found.map State.debt)) (forward : checked ≤ now)
    (allowed : check settings moderator checked found = .ok (false, wait)) :
    Forgettable settings moderator found now bytes := by
  obtain ⟨served, first, -⟩ := bind_eq_ok.mp allowed
  have running : (0 : Int) < (settings.ratelimit moderator).toNat := by
    exact_mod_cast bounds.ratelimit_pos
  have positive := (maxdebt_lt bounds).2
  have below : debtLeft (settings.ratelimit moderator) now (found.map State.debt)
      < (settings.maxdebt moderator).toNat := by
    refine lt_of_le_of_lt (debtLeft_le forward _) ?_
    rcases check_of_drains _ _ bounds order (drains_of_bytesServed first) with ⟨below, -⟩ | ⟨w, -, -, denied⟩
    · exact below
    · rw [denied] at allowed
      cases allowed
  have nonneg := debtLeft_nonneg (settings.ratelimit moderator) now (found.map State.debt)
  refine or_iff_not_imp_left.mpr fun lasts => ?_
  have lives : (0 : Int) < 2 * max ((settings.maxdebt moderator).toNat : Int) bytes.toNat
      / (settings.ratelimit moderator).toNat := by
    exact_mod_cast Nat.pos_of_ne_zero lasts
  have drained := residual_lt_of_lifetime _ (bytes.toNat : Int) running below nonneg lives le_rfl
  rw [residual_lt_iff positive] at drained
  have wrapped : (debtLeft (settings.ratelimit moderator) now (found.map State.debt)
      + bytes.toNat) % 2 ^ 32 ≤ debtLeft (settings.ratelimit moderator) now
      (found.map State.debt) + bytes.toNat := by
    omega
  push_cast
  exact lt_of_le_of_lt wrapped (by linarith)

private theorem notAhead_of_run {start : Option State} {before : List Event}
    (fresh : NotAhead now (start.map State.debt)) (past : ∀ e ∈ before, e.time ≤ now)
    (done : before.foldlM (step settings moderator) start = .ok found) :
    NotAhead now (found.map State.debt) := by
  induction before generalizing start with
  | nil =>
      cases done
      exact fresh
  | cons e before ih =>
      obtain ⟨next, first, rest⟩ := bind_eq_ok.mp done
      refine ih ?_ (fun e' member => past e' (List.mem_cons_of_mem e member)) rest
      have now_le := past e List.mem_cons_self
      cases e with
      | check time =>
          obtain ⟨_, -, same⟩ := bind_eq_ok.mp first
          cases same
          exact fresh
      | finish time bytesWritten =>
          rw [step] at first
          split at first
          · obtain ⟨entry, updated, same⟩ := bind_eq_ok.mp first
            obtain ⟨_, -, same'⟩ := bind_eq_ok.mp updated
            cases same
            cases same'
            rintro d ⟨⟩
            exact now_le
          · cases first
            exact fresh

/-- The waiting time that `check` returns is exact. The lifetimes that `update` chooses in a run,
in which requests may overlap, never let a request pass exactly if every update is forgettable. -/
theorem timing {options : Options} (admitted : globalSettingsViaOptions options = .ok settings)
    (moderator : Bool) :
    RetryExact settings moderator ∧
      ∀ start run, (∀ e ∈ run, NotAhead e.time (start.map State.debt)) → Clock run →
        ((∀ found now bytes entry, UpdatesAt settings moderator start run found now bytes entry →
            DropsSafely settings moderator entry now) ↔
          ∀ found now bytes entry, UpdatesAt settings moderator start run found now bytes entry →
            Forgettable settings moderator found now bytes) := by
  have bounds := bounds_of_options admitted moderator
  refine ⟨retryExact_of_bounds bounds, fun start run fresh clock => ?_⟩
  refine forall₂_congr fun found now => forall₂_congr fun bytes entry => forall_congr' fun updates => ?_
  obtain ⟨before, bytesWritten, after, rfl, -, -, done⟩ := updates.reached
  refine dropsSafely_iff bounds ?_ updates.not_cut updates.stored
  have here : Event.finish now bytesWritten ∈ before ++ .finish now bytesWritten :: after := by simp
  exact notAhead_of_run (fresh _ here)
    (fun e member => (List.pairwise_append.mp clock).2.2 e member _ List.mem_cons_self) done

def debtor : State := ⟨0, 262656000⟩

/-- The debtor waits for six seconds; a client that was served once can be forgotten. -/
theorem timing_debtor :
    check globalSettingsDefault false 6 (some debtor) = .ok (false, 0) ∧
      (∃ w, check globalSettingsDefault false 5 (some debtor) = .ok (true, w)) ∧
      ∀ found now bytes entry, UpdatesAt globalSettingsDefault false none sampleRun found now bytes entry →
        DropsSafely globalSettingsDefault false entry now := by
  obtain ⟨retry, lifetimes⟩ := timing default_admitted false
  have order : NotAhead 0 (some debtor.debt) := by
    rintro d ⟨⟩
    exact le_refl (0 : Int)
  have drains : ∀ t : Int, t * 102400 < 2 ^ 63 →
      Drains (globalSettingsDefault.ratelimit false) t (some debtor.debt) := by
    rintro t small d ⟨⟩
    show (t - 0) * 102400 < 2 ^ 63
    rwa [sub_zero]
  have waits := retry (some debtor) 0 6 order (by decide +kernel)
  refine ⟨(waits 6 (by decide) (drains _ (by decide))).1 (by decide),
    (waits 5 (by decide) (drains _ (by decide))).2 (by decide), ?_⟩
  refine (lifetimes none sampleRun (fun e _ d member => nomatch member) (by decide)).mpr ?_
  rintro found now bytes entry ⟨⟨before, bytesWritten, after, shape, -, rfl, done⟩, -, -⟩
  match before with
  | [] => cases shape
  | [_] =>
      cases shape
      cases done
      exact .inr (by decide +kernel)
  | _ :: _ :: _ => exact absurd (congrArg List.length shape) (by simp [sampleRun])

/-- Three responses of one client at the same time. -/
def overlappingRun : List Event :=
  [.check 0, .check 0, .check 0, .finish 0 400000000, .finish 0 400000000, .finish 0 400000000]

/-- After 7812 seconds the entry is dropped, and the client is still over the limit. -/
theorem not_dropsSafely_overlappingRun :
    ¬∀ (options : Options) (settings : Settings) (moderator : Bool) (run : List Event),
      globalSettingsViaOptions options = .ok settings → Clock run →
        follows settings moderator none 0 run = true → ∀ found now bytes entry,
          UpdatesAt settings moderator none run found now bytes entry →
            DropsSafely settings moderator entry now := by
  intro all
  have updates : UpdatesAt globalSettingsDefault false none overlappingRun (some ⟨0, 800000000⟩) 0
      400000000 ⟨⟨0, 1200000000⟩, 7812⟩ := by
    refine ⟨⟨overlappingRun.dropLast, 400000000, [], rfl, by decide, rfl, ?_⟩, ?_, ?_⟩
    · decide +kernel
    · decide +kernel
    · decide +kernel
  have safe := all {} globalSettingsDefault false overlappingRun default_admitted (by decide)
    (by decide +kernel) _ _ _ _ updates
  have drains : Drains (globalSettingsDefault.ratelimit false) 7812
      (some (State.mk 0 1200000000).debt) := by
    rintro d ⟨⟩
    show (7812 - 0 : Int) * 102400 < 2 ^ 63
    decide
  have allowed := (safe 7812 (by decide) drains).1 ⟨by decide, by decide⟩
  have denied : check globalSettingsDefault false 7812 (some ⟨0, 1200000000⟩) = .ok (true, 1347) := by
    decide +kernel
  rw [denied] at allowed
  cases allowed

end TimingProofs

end Cgimap.Http.RateLimiter
