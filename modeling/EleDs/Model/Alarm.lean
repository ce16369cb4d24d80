/-
The alarm service (`rt-thread/components/drivers/rtc/alarm.c`) and the clock it sets
(`libraries/HAL_Drivers/drivers/drv_rtc.c`).

The clock compares the hour, the minute and the second, so its alarm goes off once a day; it
is not taken back when an alarm is set that is not enabled.  The clock is there and takes
every alarm.  The service reads the time more than once in a call, and each time it reads
is an argument; the callbacks run between the two that `alarm_update` reads.  They are the
program's, and do not touch the alarms.
-/
import EleDs.Model.Ctime
import EleDs.Model.Disp

namespace EleDs

open CMem

/-- `flag & 0xFF00`. -/
inductive AlarmKind where
  | oneshot
  | daily
  | weekly
  | monthly
  | yearly
  | hour
  | minute
  | second
  | other
deriving DecidableEq

/-- `struct rt_alarm`; `id` is its address.  The two states of the flag are apart. -/
structure RtAlarm where
  id : Nat
  kind : AlarmKind
  inited : Bool
  start : Bool
  callback : Bool
  wktime : Tm
deriving DecidableEq

/-- `struct rt_rtc_wkalarm`. -/
structure RtcWkalarm where
  enable : Bool
  sec : Int
  min : Int
  hour : Int
  mday : Int
  mon : Int
  year : Int
deriving DecidableEq

/-- The driver's copy of the alarm, and the hour, the minute and the second in the register. -/
structure Rtc where
  wkalarm : RtcWkalarm
  register : Option (Int × Int × Int)
deriving DecidableEq

/-- `_container`, with the clock. -/
structure Alarms where
  list : List RtAlarm
  current : Option Nat
  rtc : Rtc
deriving DecidableEq

/-- `rt_err_t`. -/
inductive RtErr where
  | eok
  | error
  | negError
deriving DecidableEq

def RT_ALARM_DELAY : Nat := 2

/-- `alarm_mkdaysec`. -/
def alarmMkdaysec (time : Tm) : Nat := uint32 (time.sec + time.min * 60 + time.hour * 3600)

/-- `stm32_rtc_set_alarm`. -/
def rtcSetAlarm (rtc : Rtc) (alarm : RtcWkalarm) : Rtc where
  wkalarm := alarm
  register := if alarm.enable then some (alarm.hour, alarm.min, alarm.sec) else rtc.register

/-- `alarm_set`. -/
def alarmSet (alarm : RtAlarm) (rtc : Rtc) : RtAlarm × Rtc :=
  let rtc := rtcSetAlarm rtc
    { enable := alarm.start, sec := alarm.wktime.sec, min := alarm.wktime.min
      hour := alarm.wktime.hour, mday := alarm.wktime.mday, mon := alarm.wktime.mon
      year := alarm.wktime.year }
  let wk := rtc.wkalarm
  if wk.enable then
    ({ alarm with
        wktime := { alarm.wktime with
          sec := wk.sec, min := wk.min, hour := wk.hour, mday := wk.mday, mon := wk.mon
          year := wk.year } }, rtc)
  else (alarm, rtc)

/-! ### The next second, minute and hour -/

def carryHour (time : Tm) : Tm := if time.hour > 23 then { time with hour := 0 } else time

def carryMinute (time : Tm) : Tm :=
  if time.min > 59 then carryHour { time with min := 0, hour := time.hour + 1 } else time

def carrySecond (time : Tm) : Tm :=
  if time.sec > 59 then carryMinute { time with sec := 0, min := time.min + 1 } else time

/-! ### Waking up -/

/-- `(sec_now - sec_alarm) <= RT_ALARM_DELAY`, of unsigned numbers. -/
def withinDelay (secNow secAlarm : Nat) : Prop :=
  uint32 ((secNow : Int) - secAlarm) ≤ RT_ALARM_DELAY

instance (secNow secAlarm : Nat) : Decidable (withinDelay secNow secAlarm) :=
  inferInstanceAs (Decidable (_ ≤ _))

/-- `alarm_wakeup` up to the callback: the alarm, the time, the clock, and whether it wakes. -/
def alarmWakeup (alarm : RtAlarm) (now : Tm) (rtc : Rtc) :
    Except Fault (RtAlarm × Tm × Rtc × Bool) :=
  let secAlarm := alarmMkdaysec alarm.wktime
  let secNow := alarmMkdaysec now
  let wk := alarm.wktime
  if alarm.start then
    match alarm.kind with
    | .oneshot => do
        let (stamp, wk) ← timegm wk
        let alarm := { alarm with wktime := wk }
        let (stampNow, now) ← timegm now
        if withinDelay (uint32 stampNow) (uint32 stamp) ∧ uint32 stampNow ≥ uint32 stamp then
          let (alarm, rtc) := alarmSet { alarm with start := false } rtc
          .ok (alarm, now, rtc, true)
        else .ok (alarm, now, rtc, false)
    | .second =>
        let wk := { wk with hour := now.hour, min := now.min, sec := now.sec + 1 }
        .ok ({ alarm with wktime := carrySecond wk }, now, rtc, true)
    | .minute =>
        let wk := { wk with hour := now.hour }
        if wk.sec = now.sec then
          .ok ({ alarm with wktime := carryMinute { wk with min := now.min + 1 } }, now, rtc, true)
        else .ok ({ alarm with wktime := wk }, now, rtc, false)
    | .hour =>
        if wk.min = now.min ∧ wk.sec = now.sec then
          .ok ({ alarm with wktime := carryHour { wk with hour := now.hour + 1 } }, now, rtc, true)
        else .ok (alarm, now, rtc, false)
    | .daily => .ok (alarm, now, rtc, withinDelay secNow secAlarm ∧ secNow ≥ secAlarm)
    | .weekly => .ok (alarm, now, rtc, wk.wday = now.wday ∧
        uint32 (secNow + now.wday * 24 * 3600) = uint32 (secAlarm + wk.wday * 24 * 3600))
    | .monthly => .ok (alarm, now, rtc, wk.mday = now.mday ∧ withinDelay secNow secAlarm)
    | .yearly => .ok (alarm, now, rtc,
        wk.mday = now.mday ∧ wk.mon = now.mon ∧ withinDelay secNow secAlarm)
    | .other => .ok (alarm, now, rtc, false)
  else .ok (alarm, now, rtc, false)

/-- The first loop of `alarm_update`, with the callbacks that were called. -/
def wakeAll : List RtAlarm → Tm → Rtc → Except Fault (List RtAlarm × Rtc × List Nat)
  | [], _, rtc => .ok ([], rtc, [])
  | alarm :: rest, now, rtc => do
      let (alarm, now, rtc, wakeup) ← alarmWakeup alarm now rtc
      let (rest, rtc, calls) ← wakeAll rest now rtc
      .ok (alarm :: rest, rtc, if wakeup && alarm.callback then alarm.id :: calls else calls)

/-! ### The next alarm -/

/-- What the second loop of `alarm_update` looks for. -/
structure AlarmSearch where
  secNext : Int
  almNext : Option Nat
  secPrev : Int
  almPrev : Option Nat

/-- One turn of it. -/
def searchStep (secNow : Int) (found : AlarmSearch) (alarm : RtAlarm) : AlarmSearch :=
  let secAlarm := wrap32 (alarmMkdaysec alarm.wktime)
  if alarm.start then
    let secTmp := secAlarm - secNow
    if secTmp > 0 then
      if secTmp < found.secNext then { found with secNext := secTmp, almNext := some alarm.id }
      else found
    else if secTmp < found.secPrev then { found with secPrev := secTmp, almPrev := some alarm.id }
    else found
  else found

/-- `alarm_set` of the alarm behind a pointer. -/
def alarmSetAt (s : Alarms) : Option Nat → Except Fault Alarms
  | none => .error .nullDeref
  | some id =>
      match s.list.find? (·.id = id) with
      | none => .error .nullDeref
      | some alarm =>
          let (alarm, rtc) := alarmSet alarm s.rtc
          .ok { s with list := s.list.map fun a => if a.id = id then alarm else a, rtc := rtc }

/-- Whether the alarm behind a pointer is started. -/
def isStarted (s : Alarms) (id : Nat) : Bool := s.list.any fun a => a.id = id && a.start

/-- `alarm_update`, which reads the times `timestamp` and `timestamp'`. -/
def alarmUpdate (s : Alarms) (timestamp timestamp' : Int) : Except Fault (Alarms × List Nat) :=
  if s.list = [] then .ok (s, [])
  else do
    let (list, rtc, calls) ← wakeAll s.list (gmtimeR timestamp) s.rtc
    let s := { s with list := list, rtc := rtc }
    let secNow := wrap32 (alarmMkdaysec (gmtimeR timestamp'))
    let found := s.list.foldl (searchStep secNow) ⟨86400, none, 0, none⟩
    if found.secNext < 86400 then do
      let s ← alarmSetAt s found.almNext
      .ok ({ s with current := found.almNext }, calls)
    else if found.secPrev < 0 then do
      let s ← alarmSetAt s found.almPrev
      .ok ({ s with current := found.almPrev }, calls)
    else
      match s.current with
      | none => .ok (s, calls)
      | some id => do
          let s ← alarmSetAt s (some id)
          .ok ({ s with current := if isStarted s id then s.current else none }, calls)

/-! ### Setting up -/

def RT_RTC_YEARS_MAX : Int := 137
def RT_ALARM_TM_NOW : Int := -1

/-- A month of 31 days, other than February. -/
def isLongMonth (mon : Int) : Prop := (mon ≤ 6 ∧ mon.tmod 2 = 0) ∨ (mon > 6 ∧ mon.tmod 2 = 1)

instance (mon : Int) : Decidable (isLongMonth mon) := inferInstanceAs (Decidable (_ ∨ _))

/-- `days_of_year_month`. -/
def daysOfYearMonth (year mon : Int) : Int :=
  let y := year + 1900
  if mon = 1 then
    28 + if (y.tmod 4 = 0 ∧ y.tmod 100 ≠ 0) ∨ y.tmod 400 = 0 then 1 else 0
  else if isLongMonth mon then 31
  else 30

/-- `is_valid_date`. -/
def isValidDate (date : Tm) : Prop :=
  ¬ (date.year < 0 ∨ date.year > RT_RTC_YEARS_MAX) ∧ ¬ (date.mon < 0 ∨ date.mon > 11) ∧
    ¬ (date.mday < 1 ∨ date.mday > daysOfYearMonth date.year date.mon)

instance (date : Tm) : Decidable (isValidDate date) := inferInstanceAs (Decidable (_ ∧ _))

/-- A field that is out of range is taken from the time it is now. -/
def orNow (v low high now : Int) : Int := if v > high ∨ v < low then now else v

/-- The `switch` of `alarm_setup`: the time, and whether it goes on after it. -/
def setupKind (kind : AlarmKind) (setup now : Tm) : Tm × Bool :=
  match kind with
  | .second =>
      (carrySecond { setup with hour := now.hour, min := now.min, sec := now.sec + 1 }, true)
  | .minute => (carryMinute { setup with hour := now.hour, min := now.min + 1 }, true)
  | .hour => (carryHour { setup with hour := now.hour + 1 }, true)
  | .daily => (setup, true)
  | .oneshot =>
      let setup := { setup with
        year := if setup.year = RT_ALARM_TM_NOW then now.year else setup.year
        mon := if setup.mon = RT_ALARM_TM_NOW then now.mon else setup.mon
        mday := if setup.mday = RT_ALARM_TM_NOW then now.mday else setup.mday }
      (setup, isValidDate setup)
  | .weekly => ({ setup with wday := orNow setup.wday 0 6 now.wday }, true)
  | .monthly => ({ setup with mday := orNow setup.mday 1 31 now.mday }, true)
  | .yearly =>
      let setup : Tm := { setup with mon := orNow setup.mon 0 11 now.mon }
      let last : Int := if setup.mon = 1 then 29 else if isLongMonth setup.mon then 31 else 30
      ({ setup with mday := orNow setup.mday 1 last now.mday }, true)
  | .other => (setup, false)

/-- `alarm_setup`, which reads the time `timestamp`.  The last second of a day is not waited
for. -/
def alarmSetup (alarm : RtAlarm) (wktime : Tm) (timestamp : Int) : RtAlarm × RtErr :=
  let now := gmtimeR timestamp
  let setup := { wktime with
    sec := orNow wktime.sec 0 59 now.sec
    min := orNow wktime.min 0 59 now.min
    hour := orNow wktime.hour 0 23 now.hour }
  match setupKind alarm.kind setup now with
  | (setup, false) => ({ alarm with wktime := setup }, .negError)
  | (setup, true) =>
      let setup := if setup.hour = 23 ∧ setup.min = 59 ∧ setup.sec = 59
        then { setup with sec := 60 - (RT_ALARM_DELAY : Int) } else setup
      ({ alarm with wktime := setup, inited := true }, .eok)

/-! ### The calls -/

/-- The list with another alarm behind a pointer. -/
def replaceAlarm (s : Alarms) (id : Nat) (alarm : RtAlarm) : Alarms :=
  { s with list := s.list.map fun a => if a.id = id then alarm else a }

/-- Whether a new alarm comes before the one that is set. -/
def comesFirst (secNow secOld secNew : Int) : Prop :=
  (secNew < secOld ∧ secNew > secNow) ∨ (secNew > secNow ∧ secOld < secNow) ∨
    (secNew < secOld ∧ secOld < secNow)

instance (secNow secOld secNew : Int) : Decidable (comesFirst secNow secOld secNew) :=
  inferInstanceAs (Decidable (_ ∨ _))

/-- `rt_alarm_start`, which reads the times `timestamp` and `timestamp'`. -/
def rtAlarmStart (s : Alarms) (id : Nat) (timestamp timestamp' : Int) :
    Except Fault (Alarms × RtErr) :=
  match s.list.find? (·.id = id) with
  | none => .error .nullDeref
  | some alarm =>
      if alarm.start then .ok (s, .eok)
      else
        let (alarm, ret) := alarmSetup alarm alarm.wktime timestamp
        if ret ≠ .eok then .ok (replaceAlarm s id alarm, .negError)
        else
          let alarm := { alarm with start := true }
          let s := replaceAlarm s id alarm
          match s.current with
          | none => do
              let s ← alarmSetAt s (some id)
              .ok ({ s with current := some id }, .eok)
          | some old =>
              match s.list.find? (·.id = old) with
              | none => .error .nullDeref
              | some current =>
                  if comesFirst (wrap32 (alarmMkdaysec (gmtimeR timestamp')))
                      (wrap32 (alarmMkdaysec current.wktime)) (wrap32 (alarmMkdaysec alarm.wktime))
                  then do
                    let s ← alarmSetAt s (some id)
                    .ok ({ s with current := some id }, .eok)
                  else .ok (s, .eok)

/-- The alarm behind a pointer is not started any more. -/
def clearStart (s : Alarms) (id : Nat) : Alarms :=
  { s with list := s.list.map fun a => if a.id = id then { a with start := false } else a }

/-- `rt_alarm_stop`. -/
def rtAlarmStop (s : Alarms) (id : Nat) (timestamp timestamp' : Int) :
    Except Fault (Alarms × List Nat) :=
  match s.list.find? (·.id = id) with
  | none => .error .nullDeref
  | some alarm =>
      if ¬ alarm.start then .ok (s, [])
      else do
        let s := clearStart s id
        let s ← if s.current = some id then do
            let s ← alarmSetAt s (some id)
            .ok { s with current := none }
          else .ok s
        alarmUpdate s timestamp timestamp'

/-- `rt_alarm_delete`. -/
def rtAlarmDelete (s : Alarms) (id : Nat) (timestamp timestamp' : Int) :
    Except Fault (Alarms × List Nat) :=
  match s.list.find? (·.id = id) with
  | none => .error .nullDeref
  | some _ => do
      let s := clearStart s id
      let (s, calls) ← if s.current = some id then do
          let s ← alarmSetAt s (some id)
          alarmUpdate { s with current := none } timestamp timestamp'
        else .ok (s, [])
      .ok ({ s with list := s.list.filter (·.id ≠ id) }, calls)

/-- `rt_alarm_create`, with memory at `id`. -/
def rtAlarmCreate (s : Alarms) (id : Nat) (kind : AlarmKind) (wktime : Tm) (callback : Bool) :
    Alarms :=
  { s with list := ⟨id, kind, false, false, callback, wktime⟩ :: s.list }

/-- `rt_alarm_control` with `RT_ALARM_CTRL_MODIFY`. -/
def rtAlarmModify (s : Alarms) (id : Nat) (kind : AlarmKind) (wktime : Tm)
    (timestamp timestamp' timestamp'' : Int) : Except Fault (Alarms × List Nat × RtErr) := do
  let (s, calls) ← rtAlarmStop s id timestamp timestamp'
  match s.list.find? (·.id = id) with
  | none => .error .nullDeref
  | some alarm =>
      let (alarm, ret) := alarmSetup { alarm with kind := kind, inited := false, start := false }
        wktime timestamp''
      .ok (replaceAlarm s id alarm, calls, ret)

end EleDs
