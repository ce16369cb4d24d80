/-
The device goes to sleep and comes back.

Whether it is up is told by the counter of the running mode, which is 0 or 1.  While it
is 1 nothing of the way down is left: the tick and the clocks run and `entry_stop_cnt`
is 0.  While it is 0 there is a request for deep sleep, so the next passes go there, and
the second one brings the counter back.

`PmSound` is that, with what makes a pass select deep sleep: no other mode is ever
requested.  A command and a pass keep it, and so does any interleaving of them.
-/
import EleDs.Lib.Machine
import EleDs.Model.Pm

namespace EleDs

open Machine

/-! ### The counters -/

/-- The two differ in nothing but the counters. -/
structure CountersOnly (pm pm' : Pm) : Prop where
  sleepStatus : pm'.sleepStatus = pm.sleepStatus
  entryStopCnt : pm'.entryStopCnt = pm.entryStopCnt
  tick : pm'.tick = pm.tick
  gpioClocks : pm'.gpioClocks = pm.gpioClocks

theorem CountersOnly.trans {a b c : Pm} (h : CountersOnly a b) (h' : CountersOnly b c) :
    CountersOnly a c where
  sleepStatus := h'.sleepStatus.trans h.sleepStatus
  entryStopCnt := h'.entryStopCnt.trans h.entryStopCnt
  tick := h'.tick.trans h.tick
  gpioClocks := h'.gpioClocks.trans h.gpioClocks

section Counters

variable (pm : Pm) {mode other : SleepMode}

theorem rtPmRequest_countersOnly (mode : SleepMode) : CountersOnly pm (rtPmRequest pm mode) := by
  unfold rtPmRequest
  split <;> exact ⟨rfl, rfl, rfl, rfl⟩

theorem rtPmRelease_countersOnly (mode : SleepMode) : CountersOnly pm (rtPmRelease pm mode) := by
  unfold rtPmRelease
  split <;> exact ⟨rfl, rfl, rfl, rfl⟩

/-- A counter that was requested is not zero. -/
theorem rtPmRequest_pos : 1 ≤ (rtPmRequest pm mode).modes mode := by
  unfold rtPmRequest
  split
  · simp
  · omega

theorem rtPmRequest_zero (h : pm.modes mode = 0) : (rtPmRequest pm mode).modes mode = 1 := by
  simp [rtPmRequest, h]

theorem rtPmRequest_other (h : other ≠ mode) :
    (rtPmRequest pm mode).modes other = pm.modes other := by
  unfold rtPmRequest
  split
  · exact Function.update_of_ne h _ _
  · rfl

theorem rtPmRelease_self : (rtPmRelease pm mode).modes mode = pm.modes mode - 1 := by
  unfold rtPmRelease
  split
  · simp
  · omega

theorem rtPmRelease_other (h : other ≠ mode) :
    (rtPmRelease pm mode).modes other = pm.modes other := by
  unfold rtPmRelease
  split
  · exact Function.update_of_ne h _ _
  · rfl

end Counters

/-! ### What holds between two steps -/

/-- What is promised of the counters and the hardware. -/
structure PmInv (pm : Pm) : Prop where
  running : pm.modes .none = 0 ∨ pm.modes .none = 1
  awake : pm.modes .none = 1 → pm.entryStopCnt = 0 ∧ pm.tick = true ∧ pm.gpioClocks = true
  asleep : pm.modes .none = 0 → 1 ≤ pm.modes .deep
  once : pm.entryStopCnt ≤ 1

/-- And nobody asks for a mode above deep sleep. -/
structure PmSound (pm : Pm) : Prop extends PmInv pm where
  idle : pm.modes .idle = 0
  light : pm.modes .light = 0
  modules : ∀ mode, pm.sleepStatus mode = 0

theorem eleDsPmInit_sound : PmSound eleDsPmInit where
  running := Or.inr rfl
  awake := fun _ => ⟨rfl, rfl, rfl⟩
  asleep := fun h => nomatch h
  once := Nat.zero_le 1
  idle := rfl
  light := rfl
  modules := fun _ => rfl

/-- A command leaves the device on its way down, with its request. -/
theorem PmSound.command {pm : Pm} (h : PmSound pm) : PmSound (cmdEntrySleepMode pm) := by
  have hsame : CountersOnly pm (cmdEntrySleepMode pm) :=
    (rtPmRequest_countersOnly pm .deep).trans (rtPmRelease_countersOnly _ .none)
  have hnone : (cmdEntrySleepMode pm).modes .none = 0 := by
    rw [cmdEntrySleepMode, rtPmRelease_self, rtPmRequest_other pm (by decide)]
    have := h.running
    omega
  have hdeep : 1 ≤ (cmdEntrySleepMode pm).modes .deep := by
    rw [cmdEntrySleepMode, rtPmRelease_other _ (by decide)]
    exact rtPmRequest_pos pm
  have hother : ∀ mode, mode ≠ .none → mode ≠ .deep →
      (cmdEntrySleepMode pm).modes mode = pm.modes mode := by
    intro mode h1 h2
    rw [cmdEntrySleepMode, rtPmRelease_other _ h1, rtPmRequest_other _ h2]
  refine ⟨⟨Or.inl hnone, ?_, fun _ => hdeep, ?_⟩, ?_, ?_, ?_⟩
  · intro h1
    omega
  · rw [hsame.entryStopCnt]
    exact h.once
  · rw [hother _ (by decide) (by decide)]
    exact h.idle
  · rw [hother _ (by decide) (by decide)]
    exact h.light
  · rw [hsame.sleepStatus]
    exact h.modules

/-- What a pass selects tells whether the device is up. -/
theorem PmSound.select {pm : Pm} (h : PmSound pm) :
    (pm.modes .none = 1 ∧ pmSelectSleepMode pm = .none) ∨
    (pm.modes .none = 0 ∧ pmSelectSleepMode pm = .deep) := by
  have hjudge : judgeSleepMode pm = none := by
    simp [judgeSleepMode, h.modules]
  rcases h.running with h0 | h1
  · have hdeep : (pm.modes .deep != 0) = true := by
      have := h.asleep h0
      simp
      omega
    refine Or.inr ⟨h0, ?_⟩
    simp [pmSelectSleepMode, hjudge, SleepMode.all, List.find?, h0, h.idle, h.light, hdeep]
  · refine Or.inl ⟨h1, ?_⟩
    simp [pmSelectSleepMode, hjudge, SleepMode.all, h1]

/-- A pass does nothing, or takes a device that is going down into STOP mode. -/
theorem PmSound.pass_cases {pm : Pm} (h : PmSound pm) (i : PassInput) :
    pmChangeSleepMode pm i = pm ∨
      (pm.modes .none = 0 ∧ pmChangeSleepMode pm i = pmEntryFunc pm .deep 0) := by
  have hidle : ∀ nest, pmEntryFunc pm .idle nest = pm := by
    intro nest
    unfold pmEntryFunc
    split <;> rfl
  have hnone : ∀ nest, pmEntryFunc pm .none nest = pm := by
    intro nest
    unfold pmEntryFunc
    split <;> rfl
  rcases h.select with ⟨-, hmode⟩ | ⟨h0, hmode⟩
  · left
    simp [pmChangeSleepMode, hmode, PM_BUSY_SLEEP_MODE, SleepMode.lower, SleepMode.toNat, hnone]
  · by_cases hbusy : i.modulesIdle = false
    · left
      simp [pmChangeSleepMode, hmode, hbusy, PM_BUSY_SLEEP_MODE, PM_SUSPEND_SLEEP_MODE,
        SleepMode.lower, SleepMode.toNat, hidle]
    · by_cases hsuspend : i.suspended = false
      · left
        simp [pmChangeSleepMode, hmode, hbusy, hsuspend, PM_SUSPEND_SLEEP_MODE,
          SleepMode.lower, SleepMode.toNat, hidle]
      · have hentry : pmChangeSleepMode pm i = pmEntryFunc pm .deep i.nest := by
          simp [pmChangeSleepMode, hmode, hbusy, hsuspend]
        by_cases hnest : i.nest > 0
        · left
          rw [hentry, pmEntryFunc, if_pos hnest]
        · right
          refine ⟨h0, ?_⟩
          rw [hentry, Nat.eq_zero_of_not_pos hnest]

/-- The first entry takes everything down. -/
theorem pmEntryFunc_down {pm : Pm} (h : pm.entryStopCnt = 0) :
    pmEntryFunc pm .deep 0 = { pm with entryStopCnt := 1, tick := false, gpioClocks := false } := by
  simp [pmEntryFunc, pmLeaveStop, halSuspendTick, pmClockInitPwronoff, h]

/-- The second brings it up again. -/
theorem pmEntryFunc_up {pm : Pm} (h : pm.entryStopCnt = 1) :
    pmEntryFunc pm .deep 0 = rtPmRequest (rtPmRelease
      { pm with entryStopCnt := 0, tick := true, gpioClocks := true } .deep) .none := by
  simp [pmEntryFunc, pmLeaveStop, halSuspendTick, halResumeTick, pmClockInitPwronoff, h]

theorem PmSound.entry {pm : Pm} (h : PmSound pm) (h0 : pm.modes .none = 0) :
    PmSound (pmEntryFunc pm .deep 0) := by
  have hcnt : pm.entryStopCnt = 0 ∨ pm.entryStopCnt = 1 := by
    have := h.once
    omega
  rcases hcnt with hcnt | hcnt
  · rw [pmEntryFunc_down hcnt]
    refine ⟨⟨Or.inl h0, ?_, h.asleep, Nat.le_refl 1⟩, h.idle, h.light, h.modules⟩
    intro h1
    exact absurd (h0.symm.trans h1) (by decide)
  · rw [pmEntryFunc_up hcnt]
    generalize hup : ({ pm with entryStopCnt := 0, tick := true, gpioClocks := true } : Pm) = up
    have hmodes : up.modes = pm.modes := by rw [← hup]
    have hnone : (rtPmRequest (rtPmRelease up .deep) .none).modes .none = 1 := by
      refine rtPmRequest_zero _ ?_
      rw [rtPmRelease_other _ (by decide), hmodes]
      exact h0
    have hother : ∀ mode, mode ≠ .none → mode ≠ .deep →
        (rtPmRequest (rtPmRelease up .deep) .none).modes mode = pm.modes mode := by
      intro mode h1 h2
      rw [rtPmRequest_other _ h1, rtPmRelease_other _ h2, hmodes]
    have hsame : CountersOnly up (rtPmRequest (rtPmRelease up .deep) .none) :=
      (rtPmRelease_countersOnly up .deep).trans (rtPmRequest_countersOnly _ .none)
    refine ⟨⟨Or.inr hnone, ?_, ?_, ?_⟩, ?_, ?_, ?_⟩
    · intro _
      rw [hsame.entryStopCnt, hsame.tick, hsame.gpioClocks, ← hup]
      exact ⟨rfl, rfl, rfl⟩
    · intro hzero
      omega
    · rw [hsame.entryStopCnt, ← hup]
      exact Nat.zero_le 1
    · rw [hother _ (by decide) (by decide)]
      exact h.idle
    · rw [hother _ (by decide) (by decide)]
      exact h.light
    · rw [hsame.sleepStatus, ← hup]
      exact h.modules

theorem PmSound.step {pm : Pm} (h : PmSound pm) (a : PmAction) : PmSound (pmStep pm a) := by
  cases a with
  | command => exact h.command
  | pass i =>
      show PmSound (pmChangeSleepMode pm i)
      rcases h.pass_cases i with heq | ⟨h0, heq⟩
      · rw [heq]
        exact h
      · rw [heq]
        exact h.entry h0

/-! ### Any interleaving -/

/-- One step, as a machine takes it. -/
def PmSteps (pm : Pm) (a : PmAction) (pm' : Pm) : Prop := pm' = pmStep pm a

/-- **However commands and idle passes interleave, the counters and the hardware agree.** -/
theorem pmInv_of_run (actions : List PmAction) (pm : Pm)
    (hrun : Run PmSteps eleDsPmInit actions pm) : PmInv pm := by
  have hstep : ∀ s a s', PmSound s → PmSteps s a s' → PmSound s' := by
    intro s a s' hs hss
    rw [hss]
    exact hs.step a
  exact (run_preserves hstep hrun eleDsPmInit_sound).toPmInv

/-- A pass nothing stands in the way of. -/
def PassInput.free : PassInput where
  nest := 0
  modulesIdle := true
  suspended := true

/-- Two commands, and the two passes that bring the device down and up. -/
theorem pmInv_down_up :
    PmInv (pmStep (pmStep (pmStep (pmStep eleDsPmInit .command) .command) (.pass .free))
      (.pass .free)) :=
  pmInv_of_run [.command, .command, .pass .free, .pass .free] _
    (Run.cons rfl (Run.cons rfl (Run.cons rfl (Run.cons rfl (Run.nil _)))))

/-- **A device on its way down is up again after at most two such passes.** -/
theorem PmSound.wakes {pm : Pm} (h : PmSound pm) :
    (pmStep pm (.pass .free)).modes .none = 1 ∨
      (pmStep (pmStep pm (.pass .free)) (.pass .free)).modes .none = 1 := by
  have hpass : ∀ {pm : Pm}, PmSound pm → pm.modes .none = 0 →
      pmStep pm (.pass .free) = pmEntryFunc pm .deep 0 := by
    intro pm h h0
    rcases h.select with ⟨h1, -⟩ | ⟨-, hmode⟩
    · omega
    · simp [pmStep, pmChangeSleepMode, hmode, PassInput.free]
  have hup : ∀ {pm : Pm}, PmSound pm → pm.modes .none = 0 → pm.entryStopCnt = 1 →
      (pmStep pm (.pass .free)).modes .none = 1 := by
    intro pm h h0 h1
    rw [hpass h h0, pmEntryFunc_up h1]
    refine rtPmRequest_zero _ ?_
    rw [rtPmRelease_other _ (by decide)]
    exact h0
  rcases h.running with h0 | h1
  · have hcnt := h.once
    by_cases h1 : pm.entryStopCnt = 1
    · exact Or.inl (hup h h0 h1)
    · right
      have h0' : pm.entryStopCnt = 0 := by omega
      have hdown := pmEntryFunc_down h0'
      refine hup (h.step (.pass .free)) ?_ ?_
      · rw [hpass h h0, hdown]
        exact h0
      · rw [hpass h h0, hdown]
  · left
    rcases h.pass_cases .free with heq | ⟨h0, -⟩
    · show (pmChangeSleepMode pm .free).modes .none = 1
      rw [heq]
      exact h1
    · omega

end EleDs
