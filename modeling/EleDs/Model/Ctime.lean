/-
Dates and seconds (`rt-thread/components/libc/compilers/common/ctime.c`).

A `time_t` has 64 bits and is an integer here; an `int` has 32.  Division is that of C,
towards zero.  The loops have no bounds of their own, and end because the days get fewer.
The calls with a null pointer are left out.
-/
import EleDs.Lib.Bytes

namespace EleDs

open CMem

/-- `struct tm`, without `tm_isdst`, which is zero. -/
@[ext]
structure Tm where
  sec : Int
  min : Int
  hour : Int
  mday : Int
  mon : Int
  year : Int
  wday : Int
  yday : Int
deriving DecidableEq

/-- `__spm`: the days before a month, in a year that is not a leap year. -/
def SPM : List Int := [0, 31, 59, 90, 120, 151, 181, 212, 243, 273, 304, 334, 365]

/-- `__spm[i]`. -/
def spm (i : Nat) : Int := SPM.getD i 0

theorem spm_pos : ∀ i < 12, 0 < spm (1 + i) ∧ 0 ≤ spm i ∧ (0 < i → 0 < spm i) := by decide

/-- `__isleap`. -/
def isleap (year : Int) : Bool :=
  year.tmod 4 = 0 && (year.tmod 100 ≠ 0 || year.tmod 400 = 0)

/-- The days of a year. -/
def yearLength (year : Int) : Int := if isleap year then 366 else 365

theorem yearLength_pos (year : Int) : 0 < yearLength year := by
  unfold yearLength
  split <;> decide

/-- The loop over the years: the year, and the days that are left in it. -/
def yearLoop (i work : Int) : Int × Int :=
  if work ≥ yearLength i then yearLoop (i + 1) (work - yearLength i) else (i, work)
termination_by work.toNat
decreasing_by
  have := yearLength_pos i
  omega

/-- The loop over the months, down from `i`. -/
def monthLoop (work : Int) : Nat → Nat
  | 0 => 0
  | i + 1 => if spm (i + 1) > work then monthLoop work i else i + 1

/-- The month and its day, from the day of the year: `tm_mon` and `tm_mday`. -/
def monthDay (leap : Bool) (yday : Int) : Int × Int :=
  let late := leap && 58 < yday
  let work := if late then yday - 1 else yday
  let mday := if late && yday = 59 then 2 else 1
  (monthLoop work 11, mday + (work - spm (monthLoop work 11)))

/-- `gmtime_r`. -/
def gmtimeR (timep : Int) : Tm :=
  let work := wrap32 (timep.tmod 86400)
  let day := wrap32 (timep.tdiv 86400)
  let y := yearLoop 1970 day
  let md := monthDay (isleap y.1) y.2
  { sec := work.tmod 60
    min := (work.tdiv 60).tmod 60
    hour := (work.tdiv 60).tdiv 60
    wday := (4 + day).tmod 7
    year := y.1 - 1900
    yday := y.2
    mon := md.1
    mday := md.2 }

/-- The four steps that carry over: seconds, minutes, hours and months. -/
def carry (t : Tm) : Tm :=
  let t := if t.sec > 60 then { t with min := t.min + t.sec.tdiv 60, sec := t.sec.tmod 60 } else t
  let t := if t.min ≥ 60 then { t with hour := t.hour + t.min.tdiv 60, min := t.min.tmod 60 } else t
  let t := if t.hour ≥ 24 then { t with mday := t.mday + t.hour.tdiv 24, hour := t.hour.tmod 24 }
    else t
  if t.mon ≥ 12 then { t with year := t.year + t.mon.tdiv 12, mon := t.mon.tmod 12 } else t

/-- The loop over the days that are too many.  The table it compares with has the days before
a month, not those of a month. -/
def dayLoop (year mday : Int) (mon : Nat) : Int × Int × Nat :=
  if mon > 11 then (year, mday, mon)
  else if mday > spm (1 + mon) then
    let mday' := (if mon = 1 ∧ isleap (year + 1900) then mday - 1 else mday) - spm mon
    if mon + 1 > 11 then dayLoop (year + 1) mday' 0 else dayLoop year mday' (mon + 1)
  else (year, mday, mon)
termination_by (mday.toNat, 12 - mon)
decreasing_by
  all_goals
    have hpos := spm_pos mon (by omega)
    rw [Prod.lex_def]
    dsimp only
    split <;> omega

/-- The days of so many years from 1970 on. -/
def yearDays (years : Int) : Int :=
  let day := years * 365 + (years + 1).tdiv 4
  if years ≥ 131 then
    let years := (years - 131).tdiv 100
    let rest := years % 4
    day - (years / 4 * 3 + 1) - (if rest = 3 then rest - 1 else rest)
  else day

/-- `timegm`, with what it leaves in its argument.  A month that is negative is not in the
table. -/
def timegm (t : Tm) : Except Fault (Int × Tm) :=
  let years := t.year - 70
  let t := carry t
  if t.mon < 0 then .error .readOverrun
  else
    let (year, mday, mon) := dayLoop t.year t.mday t.mon.toNat
    let t := { t with year := year, mday := mday, mon := mon }
    if t.year < 70 then .ok (-1, t)
    else
      let yday := spm mon + t.mday - 1 + (if isleap (t.year + 1900) ∧ t.mon > 1 then 1 else 0)
      let day := yearDays years + yday
      .ok (((day * 24 + t.hour) * 60 + t.min) * 60 + t.sec,
        { t with yday := yday, wday := (day + 4).tmod 7 })

end EleDs
