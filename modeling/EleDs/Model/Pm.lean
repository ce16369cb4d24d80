/-
Going to sleep and waking up (`applications/pm/ele_ds_pm.c`, over the power management
of RT-Thread, `components/drivers/pm/pm.c`).

Every sleep mode has a counter of requests, and an idle pass enters the first mode whose
counter is not zero.  The shell command `sleep_mode` requests deep sleep and releases the
running mode; `pm_entry_func` takes the device down and, from its second call on, up
again, and puts the counters back.

Registers are kept as far as a later step depends on them: whether SysTick runs, and
whether the clocks of the GPIO ports are on.  What an idle pass finds is part of its
input: the interrupt nesting, whether a module reports itself busy, and whether all
devices can be suspended.
-/
import Mathlib.Logic.Function.Basic

namespace EleDs

/-! ### The sleep modes -/

/-- `PM_SLEEP_MODE_NONE` and the others, without `PM_SLEEP_MODE_MAX`. -/
inductive SleepMode where
  | none
  | idle
  | light
  | deep
  | standby
  | shutdown
deriving DecidableEq, Repr

namespace SleepMode

/-- The number a mode has in the enumeration. -/
def toNat : SleepMode → Nat
  | none => 0
  | idle => 1
  | light => 2
  | deep => 3
  | standby => 4
  | shutdown => 5

/-- All modes, in order. -/
def all : List SleepMode := [none, idle, light, deep, standby, shutdown]

/-- The mode with the smaller number. -/
def lower (a b : SleepMode) : SleepMode := if a.toNat < b.toNat then a else b

end SleepMode

/-- `_pm_default_deepsleep`. -/
def pmDefaultDeepsleep : SleepMode := .deep

/-- `PM_BUSY_SLEEP_MODE`. -/
def PM_BUSY_SLEEP_MODE : SleepMode := .idle

/-- `PM_SUSPEND_SLEEP_MODE`. -/
def PM_SUSPEND_SLEEP_MODE : SleepMode := .idle

/-! ### The state -/

/-- `struct rt_pm`, the static counter of `pm_entry_func`, and the hardware. -/
structure Pm where
  /-- How often each mode is requested, an `rt_uint8_t`. -/
  modes : SleepMode → Nat
  /-- `sleep_status`: the modules that ask for a mode, as bits. -/
  sleepStatus : SleepMode → UInt32
  entryStopCnt : Nat
  /-- SysTick is running. -/
  tick : Bool
  /-- The GPIO clocks are on. -/
  gpioClocks : Bool

/-- `ele_ds_pm_init`, on a device that is up. -/
def eleDsPmInit : Pm where
  modes := Function.update (fun _ => 0) .none 1
  sleepStatus := fun _ => 0
  entryStopCnt := 0
  tick := true
  gpioClocks := true

/-- `rt_pm_request`: the counter stops at 255. -/
def rtPmRequest (pm : Pm) (mode : SleepMode) : Pm :=
  if pm.modes mode < 255 then
    { pm with modes := Function.update pm.modes mode (pm.modes mode + 1) }
  else pm

/-- `rt_pm_release`: the counter stops at 0. -/
def rtPmRelease (pm : Pm) (mode : SleepMode) : Pm :=
  if pm.modes mode > 0 then
    { pm with modes := Function.update pm.modes mode (pm.modes mode - 1) }
  else pm

/-- `cmd_entry_sleep_mode`. -/
def cmdEntrySleepMode (pm : Pm) : Pm := rtPmRelease (rtPmRequest pm .deep) .none

/-! ### An idle pass -/

/-- `_judge_sleep_mode`: the first mode but the last that a module asks for. -/
def judgeSleepMode (pm : Pm) : Option SleepMode :=
  SleepMode.all.dropLast.find? fun mode => pm.sleepStatus mode != 0

/-- `_pm_select_sleep_mode`. -/
def pmSelectSleepMode (pm : Pm) : SleepMode :=
  let mode := (SleepMode.all.find? fun mode => pm.modes mode != 0).getD pmDefaultDeepsleep
  match judgeSleepMode pm with
  | none => mode
  | some requestMode => requestMode.lower mode

/-- `pm_clock_init_pwronoff`. -/
def pmClockInitPwronoff (pm : Pm) (enable : Bool) : Pm := { pm with gpioClocks := enable }

/-- `HAL_SuspendTick`. -/
def halSuspendTick (pm : Pm) : Pm := { pm with tick := false }

/-- `HAL_ResumeTick`. -/
def halResumeTick (pm : Pm) : Pm := { pm with tick := true }

/-- The end of `case PM_SLEEP_MODE_DEEP`: up again at the second time. -/
def pmLeaveStop (pm : Pm) : Pm :=
  if pm.entryStopCnt ≥ 2 then
    let pm := { pm with entryStopCnt := 0 }
    let pm := pmClockInitPwronoff (halResumeTick pm) true
    rtPmRequest (rtPmRelease pm .deep) .none
  else pm

/-- `pm_entry_func`, called at interrupt nesting `nest`. -/
def pmEntryFunc (pm : Pm) (mode : SleepMode) (nest : Nat) : Pm :=
  if nest > 0 then pm
  else match mode with
    | .none => pm
    | .idle => pm
    | .light => pm
    | .deep =>
        let pm := { pm with entryStopCnt := pm.entryStopCnt + 1 }
        pmLeaveStop (halSuspendTick (pmClockInitPwronoff pm false))
    | .standby => halSuspendTick pm
    | .shutdown => pm

/-- What an idle pass finds. -/
structure PassInput where
  /-- `rt_interrupt_get_nest()`. -/
  nest : Nat
  /-- `_pm_device_check_idle()`. -/
  modulesIdle : Bool
  /-- `_pm_device_suspend()` returned `RT_EOK`. -/
  suspended : Bool

/-- `_pm_change_sleep_mode`.  No mode has a timer, so there is no tickless part. -/
def pmChangeSleepMode (pm : Pm) (i : PassInput) : Pm :=
  let mode := pmSelectSleepMode pm
  let mode := if i.modulesIdle = false then PM_BUSY_SLEEP_MODE.lower mode else mode
  if mode = .none then pmEntryFunc pm .none i.nest
  else if i.suspended = false then pmEntryFunc pm (PM_SUSPEND_SLEEP_MODE.lower mode) i.nest
  else pmEntryFunc pm mode i.nest

/-- What can happen: a sleep command, or a pass of the idle thread. -/
inductive PmAction where
  | command
  | pass (i : PassInput)

def pmStep (pm : Pm) : PmAction → Pm
  | .command => cmdEntrySleepMode pm
  | .pass i => pmChangeSleepMode pm i

end EleDs
