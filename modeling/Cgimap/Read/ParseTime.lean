/- path: Cgimap/Read/ParseTime
   generality: I
   source: src/time.cpp, include/cgimap/time.hpp
   digest: Reading a time from its text, and that this undoes the text of the database. -/

import Cgimap.Read.DataSelection
import Mathlib.Tactic.IntervalCases

set_option autoImplicit false
set_option relaxedAutoImplicit false

namespace Cgimap.Read.ParseTime

open Cgimap.Model.Types
open Cgimap.Changeset.Updater
open Cgimap.Read.DataSelection

section Strptime

/-- The members of `std::tm` that `timegm` reads. -/
structure Tm where
  year : Int
  mon : Int
  mday : Int
  hour : Int
  min : Int
  sec : Int
  deriving DecidableEq, Repr

def Tm.zero : Tm := ⟨0, 0, 0, 0, 0, 0⟩

def isSpace (c : Char) : Bool := decide (c = ' ' ∨ 9 ≤ c.toNat ∧ c.toNat ≤ 13)

/-- The loop over the digits of a number: at most `n` of them, and none after the
value can no longer stay within `hi`. -/
def readDigits (hi : Nat) : Nat → Nat → List Char → Nat × List Char
  | n + 1, val, c :: rp =>
      if c.isDigit ∧ 10 * val ≤ hi then readDigits hi n (10 * val + (c.toNat - '0'.toNat)) rp
      else (val, c :: rp)
  | _, val, rp => (val, rp)

/-- The number of a directive of `strptime`. -/
def getNumber (lo hi n : Nat) (rp : List Char) : Option (Int × List Char) :=
  let rp := rp.dropWhile isSpace
  if rp.head?.any Char.isDigit then
    let (val, rp) := readDigits hi n 0 rp
    if lo ≤ val ∧ val ≤ hi then some (val, rp) else none
  else none

inductive Directive where
  | Y
  | m
  | d
  | H
  | M
  | S
  | char (c : Char)
  deriving DecidableEq, Repr

def Directive.read (rp : List Char) (tm : Tm) : Directive → Option (Tm × List Char)
  | .Y => (getNumber 0 9999 4 rp).map (Prod.map (fun val => { tm with year := val - 1900 }) id)
  | .m => (getNumber 1 12 2 rp).map (Prod.map (fun val => { tm with mon := val - 1 }) id)
  | .d => (getNumber 1 31 2 rp).map (Prod.map (fun val => { tm with mday := val }) id)
  | .H => (getNumber 0 23 2 rp).map (Prod.map (fun val => { tm with hour := val }) id)
  | .M => (getNumber 0 59 2 rp).map (Prod.map (fun val => { tm with min := val }) id)
  | .S => (getNumber 0 61 2 rp).map (Prod.map (fun val => { tm with sec := val }) id)
  | .char c => if rp.head? = some c then some (tm, rp.tail) else none

/-- `strptime`, which stops at the first directive that does not match and leaves in
`tm` what it has read by then. -/
def strptime : List Directive → List Char → Tm → Tm
  | [], _, tm => tm
  | dir :: format, rp, tm =>
      match dir.read rp tm with
      | none => tm
      | some (tm, rp) => strptime format rp tm

end Strptime

section Timegm

def isLeap (year : Int) : Bool := decide (year % 4 = 0 ∧ (year % 100 ≠ 0 ∨ year % 400 = 0))

/-- Days of a year before a month, January being month 0. -/
def daysBefore (year mon : Int) : Int :=
  [0, 31, 59, 90, 120, 151, 181, 212, 243, 273, 304, 334].getD mon.toNat 0 +
    if isLeap year ∧ 2 ≤ mon then 1 else 0

/-- `timegm`, the seconds since the Epoch as POSIX defines them. -/
def timegm (tm : Tm) : Int :=
  let yday := daysBefore (tm.year + 1900) tm.mon + tm.mday - 1
  tm.sec + tm.min * 60 + tm.hour * 3600 +
    (yday + (tm.year - 70) * 365 + (tm.year - 69) / 4 - (tm.year - 1) / 100 +
      (tm.year + 299) / 400) * 86400

end Timegm

/-- `system_clock::from_time_t`; the clock counts nanoseconds in 64 bits. -/
def fromTimeT (t : Int) : Int := (t * 1000000000).bmod (2 ^ 64)

/-- `%Y-%m-%dT%H:%M:%S`. The `%z` at the end only sets `tm_gmtoff`, which `timegm`
does not read. -/
def isoFormat : List Directive :=
  [.Y, .char '-', .m, .char '-', .d, .char 'T', .H, .char ':', .M, .char ':', .S]

def parseTime (s : String) : Except Exception Int :=
  -- byte 19 is the last one
  if s.utf8ByteSize = 20 ∧ s.toList.getLast? = some 'Z' then
    .ok (fromTimeT (timegm (strptime isoFormat s.toList Tm.zero)))
  else
    .error (.std s!"Unable to parse string '{s}' as an ISO 8601 format date time.")

example : parseTime "2015-08-31T23:40:10Z" = .ok (1441064410 * 1000000000) := by decide +kernel

-- the length is right, but the month is not: January 0, 2015
example : parseTime "2015-13-31T23:40:10Z" = .ok (1419984000 * 1000000000) := by decide +kernel

section Digits

/-- A numeral of `w` digits with the value `v`. -/
structure Numeral (w v : Nat) (ds : List Char) : Prop where
  length : ds.length = w
  digits : ∀ c ∈ ds, c.isDigit = true
  value : Nat.ofDigitChars 10 ds 0 = v

private theorem le_ofDigitChars (ds : List Char) (val : Nat) : val ≤ Nat.ofDigitChars 10 ds val := by
  induction ds generalizing val with
  | nil => exact le_rfl
  | cons c ds ih =>
      rw [Nat.ofDigitChars_cons]
      have further := ih (10 * val + (c.toNat - '0'.toNat))
      omega

private theorem ofDigitChars_zeros (k : Nat) (ds : List Char) :
    Nat.ofDigitChars 10 (List.replicate k '0' ++ ds) 0 = Nat.ofDigitChars 10 ds 0 := by
  induction k with
  | zero => rfl
  | succ k ih =>
      rw [List.replicate_succ, List.cons_append, Nat.ofDigitChars_cons]
      exact ih

private theorem padded_numeral {w n : Nat} (pos : 0 < w) (small : n < 10 ^ w) :
    ∃ ds, padded w n = String.ofList ds ∧ Numeral w n ds := by
  have short : (Nat.toDigits 10 n).length ≤ w :=
    (Nat.length_toDigits_le_iff (by decide) pos).mpr small
  have text : toString (n : Int) = String.ofList (Nat.toDigits 10 n) :=
    Nat.toString_eq_ofList_toDigits
  refine ⟨List.replicate (w - (Nat.toDigits 10 n).length) '0' ++ Nat.toDigits 10 n, ?_, ?_, ?_, ?_⟩
  · unfold padded
    simp only [text, String.length_ofList, String.ofList_append]
  · rw [List.length_append, List.length_replicate]
    omega
  · intro c member
    rcases List.mem_append.mp member with zero | digit
    · rw [List.eq_of_mem_replicate zero]
      rfl
    · exact Nat.isDigit_of_mem_toDigits (by decide) (by decide) digit
  · rw [ofDigitChars_zeros]
    exact Nat.ofDigitChars_toDigits (by decide) (by decide)

private theorem readDigits_append {hi : Nat} {ds : List Char} (rest : List Char) (val : Nat)
    (digits : ∀ c ∈ ds, c.isDigit = true) (le : Nat.ofDigitChars 10 ds val ≤ hi) :
    readDigits hi ds.length val (ds ++ rest) = (Nat.ofDigitChars 10 ds val, rest) := by
  induction ds generalizing val with
  | nil =>
      rw [List.length_nil, List.nil_append]
      rfl
  | cons c ds ih =>
      rw [Nat.ofDigitChars_cons] at le ⊢
      have room : 10 * val ≤ hi := by
        have grows := le_ofDigitChars ds (10 * val + (c.toNat - '0'.toNat))
        omega
      rw [List.length_cons, List.cons_append, readDigits,
        if_pos ⟨digits c List.mem_cons_self, room⟩]
      exact ih _ (fun c' member => digits c' (List.mem_cons_of_mem c member)) le

private theorem isSpace_of_isDigit {c : Char} (digit : c.isDigit = true) : isSpace c = false := by
  have range : 48 ≤ c.toNat ∧ c.toNat ≤ 57 := by
    simpa [Char.isDigit, UInt32.le_iff_toNat_le] using digit
  have notBlank : c ≠ ' ' := by
    rintro rfl
    exact absurd range.1 (by decide)
  simp only [isSpace, notBlank, false_or, decide_eq_false_iff_not]
  omega

private theorem getNumber_numeral {lo hi w v : Nat} {ds : List Char} (numeral : Numeral w v ds)
    (pos : 0 < w) (low : lo ≤ v) (high : v ≤ hi) (rest : List Char) :
    getNumber lo hi w (ds ++ rest) = some ((v : Int), rest) := by
  obtain ⟨length, digits, value⟩ := numeral
  have read : readDigits hi w 0 (ds ++ rest) = (v, rest) := by
    rw [← length, readDigits_append rest 0 digits (by omega), value]
  cases ds with
  | nil => exact absurd length (by rw [List.length_nil]; omega)
  | cons c ds =>
      have digit := digits c List.mem_cons_self
      have stays : (c :: ds ++ rest).dropWhile isSpace = c :: ds ++ rest := by
        rw [List.cons_append, List.dropWhile_cons_of_neg]
        rw [isSpace_of_isDigit digit]
        exact Bool.false_ne_true
      rw [List.cons_append] at read stays ⊢
      unfold getNumber
      simp only [stays, List.head?_cons, Option.any_some, digit, read, low, high, and_self, if_true]

end Digits

section Calendar

/-- The parts of a day within an era of 400 years: centuries, cycles of four years,
years and days, where the longer ones end with the leap day. -/
structure EraParts (doe c q r k : Int) : Prop where
  century : 0 ≤ c ∧ c ≤ 3
  cycle : 0 ≤ q ∧ q ≤ 24
  year : 0 ≤ r ∧ r ≤ 3
  day : 0 ≤ k ∧ k ≤ 365
  leapDay : k = 365 → r = 3 ∧ (q = 24 → c = 3)
  sum : doe = 36524 * c + 1461 * q + 365 * r + k

private theorem exists_eraParts {doe : Int} (nonneg : 0 ≤ doe) (lt : doe < 146097) :
    ∃ c q r k, EraParts doe c q r k := by
  let c := min (doe / 36524) 3
  let q := (doe - 36524 * c) / 1461
  let r := min ((doe - 36524 * c) % 1461 / 365) 3
  refine ⟨c, q, r, doe - 36524 * c - 1461 * q - 365 * r, ?_, ?_, ?_, ?_, ?_, ?_⟩
  all_goals omega

private theorem EraParts.yoe {doe c q r k : Int} (parts : EraParts doe c q r k) :
    (doe - doe / 1460 + doe / 36524 - doe / 146096) / 365 = 100 * c + 4 * q + r := by
  obtain ⟨century, cycle, year, day, leapDay, sum⟩ := parts
  have centuries : doe / 36524 - doe / 146096 = c := by
    have last : doe / 146096 = if doe = 146096 then 1 else 0 := by omega
    omega
  have cycles : doe / 1460 =
      25 * c + q + (if 1460 ≤ 24 * c + q + 365 * r + k then 1 else 0) := by
    split
    · omega
    · omega
  have terms : doe - doe / 1460 + doe / 36524 - doe / 146096 = doe - doe / 1460 + c := by omega
  rw [terms, cycles]
  split
  · omega
  · omega

private theorem EraParts.doy {doe c q r k : Int} (parts : EraParts doe c q r k) :
    doe - (365 * (100 * c + 4 * q + r) + (100 * c + 4 * q + r) / 4 -
      (100 * c + 4 * q + r) / 100) = k := by
  obtain ⟨century, cycle, year, day, leapDay, sum⟩ := parts
  have fours : (100 * c + 4 * q + r) / 4 = 25 * c + q := by omega
  have hundreds : (100 * c + 4 * q + r) / 100 = c := by omega
  omega

private theorem exists_parts (day : Int) : ∃ era c q r k : Int,
    day + 719468 = era * 146097 + (36524 * c + 1461 * q + 365 * r + k) ∧
      EraParts (36524 * c + 1461 * q + 365 * r + k) c q r k := by
  obtain ⟨c, q, r, k, parts⟩ := exists_eraParts
    (Int.emod_nonneg (day + 719468) (by decide : (146097 : Int) ≠ 0))
    (Int.emod_lt_of_pos (day + 719468) (by decide))
  have sum := parts.sum
  refine ⟨(day + 719468) / 146097, c, q, r, k, ?_, sum ▸ parts⟩
  omega

private theorem civil_of_parts {day era c q r k : Int}
    (split : day + 719468 = era * 146097 + (36524 * c + 1461 * q + 365 * r + k))
    (parts : EraParts (36524 * c + 1461 * q + 365 * r + k) c q r k) :
    civil day =
      (100 * c + 4 * q + r + era * 400 + (if (5 * k + 2) / 153 < 10 then 0 else 1),
        (if (5 * k + 2) / 153 < 10 then (5 * k + 2) / 153 + 3 else (5 * k + 2) / 153 - 9),
        k - (153 * ((5 * k + 2) / 153) + 2) / 5 + 1) := by
  have bounds : 0 ≤ 36524 * c + 1461 * q + 365 * r + k ∧
      36524 * c + 1461 * q + 365 * r + k < 146097 := by
    obtain ⟨century, cycle, year, day, leapDay, -⟩ := parts
    omega
  have era' : (day + 719468) / 146097 = era := by omega
  have doe : day + 719468 - era * 146097 = 36524 * c + 1461 * q + 365 * r + k := by omega
  have mp : (5 * k + 2) / 153 ≤ 11 ∧ 0 ≤ (5 * k + 2) / 153 := by
    have day := parts.day
    omega
  unfold civil
  simp only [era', doe, parts.yoe, parts.doy]
  split
  · rename_i first
    rw [if_neg (by omega)]
  · rename_i first
    rw [if_pos (by omega)]

private theorem leapDay_eq (year : Int) :
    (if isLeap year = true then (1 : Int) else 0) =
      year / 4 - (year - 1) / 4 - (year / 100 - (year - 1) / 100) +
        (year / 400 - (year - 1) / 400) := by
  unfold isLeap
  simp only [decide_eq_true_eq]
  split
  · omega
  · omega

private theorem daysBefore_of_march {mp : Int} (year : Int) (low : 0 ≤ mp) (high : mp < 10) :
    daysBefore year (mp + 2) =
      59 + (153 * mp + 2) / 5 + (if isLeap year = true then (1 : Int) else 0) := by
  have late : 2 ≤ mp + 2 := by omega
  unfold daysBefore
  simp only [late, and_true]
  congr 1
  interval_cases mp
  all_goals rfl

private theorem daysBefore_of_january {mp : Int} (year : Int) (low : 10 ≤ mp) (high : mp < 12) :
    daysBefore year (mp - 10) = (153 * mp + 2) / 5 - 306 := by
  have early : ¬ 2 ≤ mp - 10 := by omega
  unfold daysBefore
  simp only [early, and_false, if_false]
  interval_cases mp
  all_goals rfl

private theorem timegm_civil (day hour min sec : Int) :
    timegm ⟨(civil day).1 - 1900, (civil day).2.1 - 1, (civil day).2.2, hour, min, sec⟩ =
      day * 86400 + hour * 3600 + min * 60 + sec := by
  obtain ⟨era, c, q, r, k, split, parts⟩ := exists_parts day
  rw [civil_of_parts split parts]
  obtain ⟨century, cycle, year, dayRange, -, -⟩ := parts
  have months : 0 ≤ (5 * k + 2) / 153 ∧ (5 * k + 2) / 153 < 12 := by omega
  generalize (5 * k + 2) / 153 = mp at months
  -- the year runs from March to February, so its leap day lies before or after the month
  have fours : (100 * c + 4 * q + r + era * 400) / 4 = 25 * c + q + 100 * era := by omega
  have hundreds : (100 * c + 4 * q + r + era * 400) / 100 = c + 4 * era := by omega
  have eras : (100 * c + 4 * q + r + era * 400) / 400 = era := by omega
  generalize sums : 100 * c + 4 * q + r + era * 400 = y at fours hundreds eras
  unfold timegm
  by_cases march : mp < 10
  · have leap := leapDay_eq y
    have month := daysBefore_of_march y months.1 march
    simp only [march, if_true, add_zero]
    rw [show y - 1900 + 1900 = y by omega, show mp + 3 - 1 = mp + 2 by omega, month, leap]
    omega
  · have month := daysBefore_of_january (y + 1) (Int.not_lt.mp march) months.2
    simp only [march, if_false]
    rw [show y + 1 - 1900 + 1900 = y + 1 by omega, show mp - 9 - 1 = mp - 10 by omega, month]
    omega

end Calendar

section RoundTrip

private theorem utf8ByteSize_ofList {l : List Char} (ascii : ∀ c ∈ l, c.toNat < 128) :
    (String.ofList l).utf8ByteSize = l.length := by
  induction l with
  | nil => rfl
  | cons c l ih =>
      have size : c.utf8Size = 1 := by
        have small := ascii c List.mem_cons_self
        unfold Char.utf8Size
        rw [if_pos]
        rw [UInt32.le_iff_toNat_le]
        exact Nat.lt_succ_iff.mp small
      have rest := ih (fun c' member => ascii c' (List.mem_cons_of_mem c member))
      rw [show c :: l = [c] ++ l from rfl, String.ofList_append, String.utf8ByteSize_append, rest,
        ← String.singleton_eq_ofList, String.utf8ByteSize_singleton, size, List.length_append,
        List.length_singleton]

private theorem Numeral.ascii {w v : Nat} {ds : List Char} (numeral : Numeral w v ds) :
    ∀ c ∈ ds, c.toNat < 128 := by
  intro c member
  have range : 48 ≤ c.toNat ∧ c.toNat ≤ 57 := by
    simpa [Char.isDigit, UInt32.le_iff_toNat_le] using numeral.digits c member
  omega

/-- The characters of a time in the text form of the database. -/
def isoText (Y m d H M S : List Char) : List Char :=
  Y ++ '-' :: (m ++ '-' :: (d ++ 'T' :: (H ++ ':' :: (M ++ ':' :: (S ++ ['Z'])))))

variable {Y m d H M S : List Char} {year mon mday hour min sec : Nat}

private theorem utf8ByteSize_isoText (numeralY : Numeral 4 year Y) (numeralm : Numeral 2 mon m)
    (numerald : Numeral 2 mday d) (numeralH : Numeral 2 hour H) (numeralM : Numeral 2 min M)
    (numeralS : Numeral 2 sec S) :
    (String.ofList (isoText Y m d H M S)).utf8ByteSize = 20 := by
  rw [utf8ByteSize_ofList]
  · simp only [isoText, List.length_append, List.length_cons, List.length_nil, numeralY.length,
      numeralm.length, numerald.length, numeralH.length, numeralM.length, numeralS.length]
  · intro c member
    simp only [isoText, List.mem_append, List.mem_cons, List.not_mem_nil, or_false] at member
    rcases member with y | rfl | mo | rfl | da | rfl | ho | rfl | mi | rfl | se | rfl
    · exact numeralY.ascii c y
    · decide
    · exact numeralm.ascii c mo
    · decide
    · exact numerald.ascii c da
    · decide
    · exact numeralH.ascii c ho
    · decide
    · exact numeralM.ascii c mi
    · decide
    · exact numeralS.ascii c se
    · decide

private theorem strptime_isoText (numeralY : Numeral 4 year Y) (numeralm : Numeral 2 mon m)
    (numerald : Numeral 2 mday d) (numeralH : Numeral 2 hour H) (numeralM : Numeral 2 min M)
    (numeralS : Numeral 2 sec S) (years : year ≤ 9999) (months : 1 ≤ mon ∧ mon ≤ 12)
    (days : 1 ≤ mday ∧ mday ≤ 31) (hours : hour ≤ 23) (minutes : min ≤ 59) (seconds : sec ≤ 59) :
    strptime isoFormat (isoText Y m d H M S) Tm.zero =
      ⟨year - 1900, mon - 1, mday, hour, min, sec⟩ := by
  have second : sec ≤ 61 := by omega
  simp only [isoFormat, isoText, strptime, Directive.read, Option.map_some, Prod.map,
    List.head?_cons, List.tail_cons, if_true, id_eq,
    getNumber_numeral numeralY (by decide) (Nat.zero_le year) years,
    getNumber_numeral numeralm (by decide) months.1 months.2,
    getNumber_numeral numerald (by decide) days.1 days.2,
    getNumber_numeral numeralH (by decide) (Nat.zero_le hour) hours,
    getNumber_numeral numeralM (by decide) (Nat.zero_le min) minutes,
    getNumber_numeral numeralS (by decide) (Nat.zero_le sec) second]

private theorem civil_bounds (day : Int) :
    (1 ≤ (civil day).2.1 ∧ (civil day).2.1 ≤ 12) ∧
      (1 ≤ (civil day).2.2 ∧ (civil day).2.2 ≤ 31) := by
  obtain ⟨era, c, q, r, k, split, parts⟩ := exists_parts day
  have dayRange := parts.day
  rw [civil_of_parts split parts]
  refine ⟨?_, ?_⟩
  · dsimp only
    split_ifs
    · omega
    · omega
  · dsimp only
    omega

private theorem civil_year_bounds {day : Int} (low : -719468 ≤ day) (high : day < 2932896) :
    0 ≤ (civil day).1 ∧ (civil day).1 ≤ 9999 := by
  obtain ⟨era, c, q, r, k, split, parts⟩ := exists_parts day
  rw [civil_of_parts split parts]
  obtain ⟨century, cycle, year, dayRange, -, -⟩ := parts
  dsimp only
  split_ifs
  · omega
  · omega

private theorem exists_numeral {w : Nat} {n : Int} (pos : 0 < w) (nonneg : 0 ≤ n)
    (small : n.toNat < 10 ^ w) :
    ∃ v : Nat, (v : Int) = n ∧ ∃ ds, padded w n = String.ofList ds ∧ Numeral w v ds := by
  obtain ⟨ds, text, numeral⟩ := padded_numeral pos small
  rw [Int.toNat_of_nonneg nonneg] at text
  exact ⟨n.toNat, Int.toNat_of_nonneg nonneg, ds, text, numeral⟩

private theorem toCharIso_spec {time : Int} (low : -719468 ≤ time / 1000000 / 86400)
    (high : time / 1000000 / 86400 < 2932896) :
    (toCharIso time).utf8ByteSize = 20 ∧ (toCharIso time).toList.getLast? = some 'Z' ∧
      timegm (strptime isoFormat (toCharIso time).toList Tm.zero) = time / 1000000 := by
  have years := civil_year_bounds low high
  have monthDay := civil_bounds (time / 1000000 / 86400)
  obtain ⟨year, yearEq, Y, textY, numeralY⟩ :=
    exists_numeral (w := 4) (by decide) years.1 (by omega)
  obtain ⟨mon, monEq, m, textm, numeralm⟩ :=
    exists_numeral (w := 2) (n := (civil (time / 1000000 / 86400)).2.1) (by decide) (by omega)
      (by omega)
  obtain ⟨mday, mdayEq, d, textd, numerald⟩ :=
    exists_numeral (w := 2) (n := (civil (time / 1000000 / 86400)).2.2) (by decide) (by omega)
      (by omega)
  obtain ⟨hour, hourEq, H, textH, numeralH⟩ :=
    exists_numeral (w := 2) (n := time / 1000000 % 86400 / 3600) (by decide) (by omega) (by omega)
  obtain ⟨min, minEq, M, textM, numeralM⟩ :=
    exists_numeral (w := 2) (n := time / 1000000 % 86400 / 60 % 60) (by decide) (by omega)
      (by omega)
  obtain ⟨sec, secEq, S, textS, numeralS⟩ :=
    exists_numeral (w := 2) (n := time / 1000000 % 86400 % 60) (by decide) (by omega) (by omega)
  have text : toCharIso time = String.ofList (isoText Y m d H M S) := by
    refine String.toList_inj.mp ?_
    simp only [toCharIso, textY, textm, textd, textH, textM, textS, String.toList_append,
      String.toList_ofList, isoText, List.append_assoc]
    rfl
  rw [text]
  refine ⟨utf8ByteSize_isoText numeralY numeralm numerald numeralH numeralM numeralS, ?_, ?_⟩
  · rw [String.toList_ofList]
    simp only [isoText, List.getLast?_append, List.getLast?_cons, List.getLast?_nil,
      Option.getD_some, Option.getD_none, Option.some_or]
  · rw [String.toList_ofList, strptime_isoText numeralY numeralm numerald numeralH numeralM numeralS
      (by omega) (by omega) (by omega) (by omega) (by omega) (by omega), yearEq, monEq, mdayEq,
      hourEq, minEq, secEq, timegm_civil]
    omega

/-- The seconds that a time of the system clock can have. -/
def InClock (second : Int) : Prop :=
  -2 ^ 63 ≤ second * 1000000000 ∧ second * 1000000000 < 2 ^ 63

instance InClock.decidable (second : Int) : Decidable (InClock second) :=
  inferInstanceAs (Decidable (_ ∧ _))

/-- Reading the text of a time gives the time without the part of its second. -/
theorem parseTime_toCharIso {time : Int} (inClock : InClock (time / 1000000)) :
    parseTime (toCharIso time) = .ok (time / 1000000 * 1000000000) := by
  obtain ⟨low, high⟩ := inClock
  obtain ⟨size, last, read⟩ :=
    toCharIso_spec (show -719468 ≤ time / 1000000 / 86400 by omega) (by omega)
  have point : fromTimeT (time / 1000000) = time / 1000000 * 1000000000 :=
    Int.bmod_eq_of_le_mul_two (by omega) (by omega)
  rw [parseTime, if_pos ⟨size, last⟩, read, point]

end RoundTrip

end Cgimap.Read.ParseTime
