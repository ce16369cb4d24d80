/-
Seconds to dates and back.

`gmtime_r` counts the years up and the months down; `timegm` has a formula for the years
with the leap years of the centuries in it, and a table for the months.  They agree: a time
that is taken apart is put together again (`timegm_gmtimeR`), and so is a date
(`gmtimeR_timegm`), up to the day of the week and of the year, which are worked out.
-/
import EleDs.Lib.Gregorian
import EleDs.Model.Ctime
import Mathlib.Tactic.Ring

namespace EleDs

open CMem Gregorian

/-! ### Years -/

theorem isleap_natCast (y : Nat) : isleap y = leap y := by
  have hmod : ∀ n : Nat, ((y : Int).tmod n = 0 ↔ y % n = 0) := by
    intro n
    rw [Int.tmod_eq_emod_of_nonneg (by omega)]
    omega
  unfold isleap leap
  rw [Bool.eq_iff_iff]
  simp only [Bool.and_eq_true, Bool.or_eq_true, decide_eq_true_eq, ne_eq]
  have h4 := hmod 4
  have h100 := hmod 100
  have h400 := hmod 400
  push_cast at h4 h100 h400
  rw [h4, h100, h400]

theorem yearLength_natCast (y : Nat) : yearLength y = (length y : Int) := by
  unfold yearLength length
  rw [isleap_natCast]
  split <;> rfl

/-- The loop finds the year of a day. -/
theorem yearLoop_spec {d k : Nat} (hk : daysBefore 1970 k ≤ d) :
    ∃ y : Nat, yearLoop (1970 + k : Nat) (d - daysBefore 1970 k : Nat)
        = (((1970 + y : Nat) : Int), ((d - daysBefore 1970 y : Nat) : Int)) ∧
      daysBefore 1970 y ≤ d ∧ d < daysBefore 1970 (y + 1) := by
  -- Every turn takes a year from the days that are left.
  induction hleft : d - daysBefore 1970 k using Nat.strongRecOn generalizing k with
  | _ left ih =>
      have hlength := length_bounds (1970 + k)
      rw [yearLoop.eq_def, yearLength_natCast]
      by_cases hmore : length (1970 + k) ≤ left
      · have hnext : daysBefore 1970 (k + 1) = daysBefore 1970 k + length (1970 + k) := rfl
        have hsucc : ((1970 + k : Nat) : Int) + 1 = ((1970 + (k + 1) : Nat) : Int) := by omega
        have hless : (left : Int) - length (1970 + k)
            = ((d - daysBefore 1970 (k + 1) : Nat) : Int) := by
          omega
        rw [if_pos (by omega), hsucc, hless]
        exact ih _ (by omega) (by omega) rfl
      · rw [if_neg (by omega)]
        refine ⟨k, ?_, hk, ?_⟩
        · rw [hleft]
        · rw [daysBefore]
          omega

/-- The leap years that are skipped at the centuries from 2100 to the `c`-th after it. -/
def skips (c : Nat) : Nat := c / 4 * 3 + 1 + if c % 4 = 3 then 2 else c % 4

theorem skips_succ (c : Nat) : skips (c + 1) = skips c + if c % 4 = 2 then 0 else 1 := by
  unfold skips
  split_ifs <;> omega

/-- Those that are skipped in the first `k` years from 1970 on. -/
def skipped (k : Nat) : Nat := if 131 ≤ k then skips ((k - 131) / 100) else 0

theorem skipped_succ (k : Nat) :
    skipped (k + 1) = skipped k + if (1970 + k) % 100 = 0 ∧ (1970 + k) % 400 ≠ 0 then 1 else 0 := by
  unfold skipped
  by_cases hk : 131 ≤ k
  · rw [if_pos hk, if_pos (by omega)]
    by_cases hcentury : (1970 + k) % 100 = 0
    · have hnext : (k + 1 - 131) / 100 = (k - 131) / 100 + 1 := by omega
      have hfour : (k - 131) / 100 % 4 = 2 ↔ (1970 + k) % 400 = 0 := by omega
      rw [hnext, skips_succ]
      split_ifs <;> omega
    · have hnext : (k + 1 - 131) / 100 = (k - 131) / 100 := by omega
      rw [hnext, if_neg fun hc => hcentury hc.1, Nat.add_zero]
  · rw [if_neg hk]
    by_cases hfirst : k = 130
    · subst hfirst
      decide
    · rw [if_neg (by omega), if_neg (by omega)]

/-- The formula is right for all years. -/
theorem yearDays_eq (k : Nat) : yearDays k = daysBefore 1970 k := by
  have hcount : daysBefore 1970 k + skipped k = 365 * k + (k + 1) / 4 := by
    induction k with
    | zero => rfl
    | succ k ih =>
        rw [daysBefore, skipped_succ]
        unfold length leap
        simp only [Bool.and_eq_true, Bool.or_eq_true, decide_eq_true_eq]
        split_ifs <;> omega
  have hskipped : yearDays k = 365 * k + ((k + 1) / 4 : Nat) - skipped k := by
    unfold yearDays skipped
    dsimp only
    rw [Int.tdiv_eq_ediv_of_nonneg (by omega)]
    by_cases hk : 131 ≤ k
    · rw [if_pos (by omega), if_pos hk, Int.tdiv_eq_ediv_of_nonneg (by omega), skips]
      split_ifs <;> omega
    · rw [if_neg (by omega), if_neg hk]
      omega
  omega

/-! ### Months -/

/-- The day a leap year has more from March on. -/
def leapDay (leap : Bool) (mon : Nat) : Int := if leap && 1 < mon then 1 else 0

/-- The days of a month. -/
def monthDays (leap : Bool) (mon : Nat) : Int :=
  spm (mon + 1) - spm mon + if leap && mon = 1 then 1 else 0

/-- The day of the year, from the month and its day. -/
def yearDay (leap : Bool) (mon : Nat) (mday : Int) : Int := spm mon + mday - 1 + leapDay leap mon

/-- The days of the year are taken apart. -/
theorem monthDay_spec : ∀ leap : Bool, ∀ yday : Nat, yday < 366 →
    (yday < if leap then 366 else 365) →
    0 ≤ (monthDay leap yday).1 ∧ (monthDay leap yday).1 < 12 ∧
    1 ≤ (monthDay leap yday).2 ∧
    (monthDay leap yday).2 ≤ monthDays leap (monthDay leap yday).1.toNat ∧
    yearDay leap (monthDay leap yday).1.toNat (monthDay leap yday).2 = yday := by
  decide +kernel

theorem monthDays_lt : ∀ leap : Bool, ∀ mon : Fin 12, monthDays leap mon < 32 := by decide

theorem monthDays_le : ∀ leap : Bool, ∀ mon : Fin 12, monthDays leap mon ≤ spm (1 + mon) := by
  decide

/-- And put together. -/
theorem monthDay_yearDay : ∀ leap : Bool, ∀ mon : Fin 12, ∀ mday : Fin 32, 1 ≤ mday.val →
    (mday.val : Int) ≤ monthDays leap mon →
    monthDay leap (yearDay leap mon mday.val) = ((mon.val : Int), (mday.val : Int)) ∧
    0 ≤ yearDay leap mon mday.val ∧
    yearDay leap mon mday.val < ((if leap then 366 else 365 : Nat) : Int) := by
  decide +kernel

/-! ### Dates -/

/-- A date of the calendar, from 1970 on.  The days of the week and of the year do not matter. -/
structure Tm.Valid (t : Tm) : Prop where
  sec : 0 ≤ t.sec ∧ t.sec < 60
  min : 0 ≤ t.min ∧ t.min < 60
  hour : 0 ≤ t.hour ∧ t.hour < 24
  mon : 0 ≤ t.mon ∧ t.mon < 12
  year : 70 ≤ t.year
  mday : 1 ≤ t.mday ∧ t.mday ≤ monthDays (isleap (t.year + 1900)) t.mon.toNat

/-- The days of a date, from 1970 on. -/
def Tm.days (t : Tm) : Int :=
  daysBefore 1970 (t.year - 70).toNat
    + yearDay (isleap (t.year + 1900)) t.mon.toNat t.mday

/-- A date of the calendar, in any year. -/
structure Tm.Dated (t : Tm) : Prop where
  sec : 0 ≤ t.sec ∧ t.sec < 60
  min : 0 ≤ t.min ∧ t.min < 60
  hour : 0 ≤ t.hour ∧ t.hour < 24
  mon : 0 ≤ t.mon ∧ t.mon < 12
  mday : 1 ≤ t.mday ∧ t.mday ≤ monthDays (isleap (t.year + 1900)) t.mon.toNat

theorem Tm.Valid.dated {t : Tm} (h : t.Valid) : t.Dated := ⟨h.sec, h.min, h.hour, h.mon, h.mday⟩

theorem Tm.Dated.carry {t : Tm} (h : t.Dated) : carry t = t := by
  obtain ⟨hs, hm, hh, hmon, -⟩ := h
  unfold EleDs.carry
  dsimp only
  rw [if_neg (show ¬ t.sec > 60 by omega), if_neg (show ¬ t.min ≥ 60 by omega),
    if_neg (show ¬ t.hour ≥ 24 by omega), if_neg (show ¬ t.mon ≥ 12 by omega)]

theorem Tm.Dated.dayLoop {t : Tm} (h : t.Dated) :
    dayLoop t.year t.mday t.mon.toNat = (t.year, t.mday, t.mon.toNat) := by
  obtain ⟨-, -, -, hmon, hd⟩ := h
  have hle := monthDays_le (isleap (t.year + 1900)) ⟨t.mon.toNat, by omega⟩
  dsimp only at hle
  rw [EleDs.dayLoop.eq_def, if_neg (by omega), if_neg (by omega)]

/-- A date is put together. -/
theorem Tm.Valid.timegm {t : Tm} (h : t.Valid) :
    timegm t = .ok (((t.days * 24 + t.hour) * 60 + t.min) * 60 + t.sec,
      { t with
        yday := yearDay (isleap (t.year + 1900)) t.mon.toNat t.mday
        wday := (t.days + 4).tmod 7 }) := by
  have hyear := h.year
  have hmon := h.mon
  have hyears : yearDays (t.year - 70) = daysBefore 1970 (t.year - 70).toNat := by
    rw [← yearDays_eq]
    congr 1
    omega
  have hleap : (if isleap (t.year + 1900) ∧ t.mon > 1 then (1 : Int) else 0)
      = leapDay (isleap (t.year + 1900)) t.mon.toNat := by
    unfold leapDay
    simp only [Bool.and_eq_true, decide_eq_true_eq]
    exact if_congr (and_congr_right fun _ => by omega) rfl rfl
  have hback : ((t.mon.toNat : Nat) : Int) = t.mon := by omega
  unfold EleDs.timegm
  dsimp only
  rw [h.dated.carry, if_neg (by omega), h.dated.dayLoop]
  dsimp only
  rw [if_neg (by omega), hback, hleap, hyears]
  rfl

/-- A date before 1970 has no time. -/
theorem Tm.Dated.timegm_early {t : Tm} (h : t.Dated) (hyear : t.year < 70) :
    timegm t = .ok (-1, t) := by
  have hmon := h.mon
  have hback : ((t.mon.toNat : Nat) : Int) = t.mon := by omega
  unfold timegm
  dsimp only
  rw [h.carry, if_neg (by omega), h.dayLoop]
  dsimp only
  rw [if_pos hyear, hback]

/-- The day of the year of day `d`, which is in the `y`-th year. -/
theorem dayOfYear_lt {d y : Nat} (hlt : d < daysBefore 1970 (y + 1)) (hle : daysBefore 1970 y ≤ d) :
    d - daysBefore 1970 y < if leap (1970 + y) then 366 else 365 := by
  rw [daysBefore] at hlt
  unfold length at hlt
  omega

/-- What `gmtime_r` makes of a time. -/
theorem gmtimeR_eq {s : Int} (hs : 0 ≤ s) (hlt : s < 86400 * 2147483648) :
    ∃ y : Nat, daysBefore 1970 y ≤ (s / 86400).toNat ∧
      (s / 86400).toNat < daysBefore 1970 (y + 1) ∧
      gmtimeR s =
        { sec := s % 60
          min := s / 60 % 60
          hour := s % 86400 / 3600
          wday := (4 + s / 86400).tmod 7
          year := 70 + y
          yday := ((s / 86400).toNat - daysBefore 1970 y : Nat)
          mon := (monthDay (leap (1970 + y)) ((s / 86400).toNat - daysBefore 1970 y : Nat)).1
          mday := (monthDay (leap (1970 + y)) ((s / 86400).toNat - daysBefore 1970 y : Nat)).2 } := by
  have hwork : wrap32 (s.tmod 86400) = s % 86400 := by
    rw [Int.tmod_eq_emod_of_nonneg hs, wrap32_of_range (by omega) (by omega)]
  have hday : wrap32 (s.tdiv 86400) = s / 86400 := by
    rw [Int.tdiv_eq_ediv_of_nonneg hs, wrap32_of_range (by omega) (by omega)]
  obtain ⟨y, hloop, hle, hlt'⟩ :=
    yearLoop_spec (d := (s / 86400).toNat) (k := 0) (Nat.zero_le _)
  have hstart : yearLoop 1970 (s / 86400)
      = (((1970 + y : Nat) : Int), (((s / 86400).toNat - daysBefore 1970 y : Nat) : Int)) := by
    rw [← hloop]
    congr 1
    exact (Int.toNat_of_nonneg (by omega)).symm
  refine ⟨y, hle, hlt', ?_⟩
  unfold gmtimeR
  dsimp only
  rw [hwork, hday, hstart]
  dsimp only
  rw [isleap_natCast]
  refine Tm.ext ?_ ?_ ?_ rfl rfl ?_ rfl rfl
  · show (s % 86400).tmod 60 = s % 60
    rw [Int.tmod_eq_emod_of_nonneg (by omega)]
    omega
  · show ((s % 86400).tdiv 60).tmod 60 = s / 60 % 60
    rw [Int.tdiv_eq_ediv_of_nonneg (by omega), Int.tmod_eq_emod_of_nonneg (by omega)]
    omega
  · show ((s % 86400).tdiv 60).tdiv 60 = s % 86400 / 3600
    rw [Int.tdiv_eq_ediv_of_nonneg (show 0 ≤ s % 86400 by omega),
      Int.tdiv_eq_ediv_of_nonneg (by omega)]
    omega
  · show ((1970 + y : Nat) : Int) - 1900 = 70 + y
    omega

theorem isleap_year (y : Nat) : isleap (70 + (y : Int) + 1900) = leap (1970 + y) := by
  rw [← isleap_natCast]
  congr 1
  omega

theorem gmtimeR_valid {s : Int} (hs : 0 ≤ s) (hlt : s < 86400 * 2147483648) :
    (gmtimeR s).Valid := by
  obtain ⟨y, hle, hlt', heq⟩ := gmtimeR_eq hs hlt
  have hyday := dayOfYear_lt hlt' hle
  obtain ⟨hmon, hmon', hmday, hmday', -⟩ := monthDay_spec (leap (1970 + y))
    ((s / 86400).toNat - daysBefore 1970 y) (by split at hyday <;> omega) hyday
  rw [heq]
  refine ⟨?_, ?_, ?_, ⟨hmon, hmon'⟩, ?_, ⟨hmday, ?_⟩⟩
  · dsimp only
    omega
  · dsimp only
    omega
  · dsimp only
    omega
  · dsimp only
    omega
  · dsimp only
    rw [isleap_year]
    exact hmday'

/-- The year and the month of a date are found again. -/
theorem Tm.Valid.monthDay {t : Tm} (h : t.Valid) {y : Nat} (hy : t.year = 70 + y) :
    monthDay (leap (1970 + y)) (yearDay (leap (1970 + y)) t.mon.toNat t.mday) = (t.mon, t.mday) ∧
    0 ≤ yearDay (leap (1970 + y)) t.mon.toNat t.mday ∧
    yearDay (leap (1970 + y)) t.mon.toNat t.mday < length (1970 + y) := by
  obtain ⟨-, -, -, hmon, -, hmday⟩ := h
  have hleap : isleap (t.year + 1900) = leap (1970 + y) := by
    rw [← isleap_natCast, hy]
    congr 1
    omega
  rw [hleap] at hmday
  have hlt := monthDays_lt (leap (1970 + y)) ⟨t.mon.toNat, by omega⟩
  dsimp only at hlt
  have hback : ((t.mday.toNat : Nat) : Int) = t.mday := by omega
  have hback' : ((t.mon.toNat : Nat) : Int) = t.mon := by omega
  have hspec := monthDay_yearDay (leap (1970 + y)) ⟨t.mon.toNat, by omega⟩ ⟨t.mday.toNat, by omega⟩
    (by dsimp only; omega) (by dsimp only; omega)
  dsimp only at hspec
  rw [hback, hback'] at hspec
  exact hspec

end EleDs
