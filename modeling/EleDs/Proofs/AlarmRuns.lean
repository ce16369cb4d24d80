/-
The alarm service, from one call to the next.

Whatever is called, with any alarm of the list and at any time, the call comes back and leaves
the service ready for the next (`Alarms.Reachable.ready`); in particular the clock is set
whenever an alarm is started.  With what an update does this gives the runs: a daily alarm
rings every day (`daily_rings`), and an alarm for once at most once (`oneshot_once`).
-/
import EleDs.Proofs.Alarm

namespace EleDs

open CMem

/-! ### Setting up -/

theorem orNow_bounds (v : Int) {low high now : Int} (h : low ≤ now ∧ now ≤ high) :
    low ≤ orNow v low high now ∧ orNow v low high now ≤ high := by
  unfold orNow
  split <;> omega

theorem daysOfYearMonth_eq (year : Int) {mon : Int} (h : 0 ≤ mon) (h' : mon ≤ 11) :
    daysOfYearMonth year mon = monthDays (isleap (year + 1900)) mon.toNat := by
  have hleap : (((year + 1900).tmod 4 = 0 ∧ (year + 1900).tmod 100 ≠ 0) ∨
      (year + 1900).tmod 400 = 0) ↔ isleap (year + 1900) = true := by
    have hfour : (year + 1900).tmod 400 = 0 → (year + 1900).tmod 4 = 0 := fun h =>
      Int.tmod_eq_zero_of_dvd (Int.dvd_trans (by decide) (Int.dvd_of_tmod_eq_zero h))
    unfold isleap
    simp only [Bool.and_eq_true, Bool.or_eq_true, decide_eq_true_eq, ne_eq]
    omega
  have hother : ∀ leap : Bool, ∀ m : Fin 12, m.val ≠ 1 →
      (if isLongMonth (m.val : Int) then (31 : Int) else 30) = monthDays leap m.val := by
    decide
  obtain ⟨m, rfl⟩ := Int.eq_ofNat_of_zero_le h
  unfold daysOfYearMonth
  dsimp only
  by_cases hfebruary : m = 1
  · rw [if_pos (by omega), if_congr hleap rfl rfl, hfebruary]
    generalize isleap (year + 1900) = leap
    revert leap
    decide
  · rw [if_neg (by omega), hother (isleap (year + 1900)) ⟨m, by omega⟩ hfebruary]
    rfl

theorem setupKind_spec {kind : AlarmKind} {setup now time : Tm} (hsetup : setup.InDay)
    (hnow : now.InDay) (h : setupKind kind setup now = (time, true)) :
    time.InDay ∧ (kind = .oneshot → time.Dated) := by
  obtain ⟨hs, hm, hh⟩ := hsetup
  obtain ⟨hs', hm', hh'⟩ := hnow
  unfold setupKind at h
  cases kind with
  | second =>
      cases h
      exact ⟨carrySecond_inDay (by dsimp only; omega) hm' hh', nofun⟩
  | minute =>
      cases h
      exact ⟨carryMinute_inDay hs (by dsimp only; omega) hh', nofun⟩
  | hour =>
      cases h
      exact ⟨carryHour_inDay hs hm (by dsimp only; omega), nofun⟩
  | daily =>
      cases h
      exact ⟨⟨hs, hm, hh⟩, nofun⟩
  | oneshot =>
      obtain ⟨rfl, hdate⟩ := Prod.mk.inj h
      obtain ⟨-, hmon, hmday⟩ := of_decide_eq_true hdate
      obtain ⟨hmon, hmon'⟩ := not_or.mp hmon
      obtain ⟨hmday, hmday'⟩ := not_or.mp hmday
      rw [daysOfYearMonth_eq _ (not_lt.mp hmon) (not_lt.mp hmon')] at hmday'
      exact ⟨⟨hs, hm, hh⟩, fun _ => ⟨hs, hm, hh,
        ⟨not_lt.mp hmon, Int.lt_of_le_sub_one (not_lt.mp hmon')⟩,
        ⟨not_lt.mp hmday, not_lt.mp hmday'⟩⟩⟩
  | weekly =>
      cases h
      exact ⟨⟨hs, hm, hh⟩, nofun⟩
  | monthly =>
      cases h
      exact ⟨⟨hs, hm, hh⟩, nofun⟩
  | yearly =>
      cases h
      exact ⟨⟨hs, hm, hh⟩, nofun⟩
  | other => cases h

/-- An alarm that is set up can be started. -/
theorem alarmSetup_spec (a : RtAlarm) (wktime : Tm) {t : Int} (ht : OnClock t) :
    (alarmSetup a wktime t).1.id = a.id ∧ (alarmSetup a wktime t).1.start = a.start ∧
      ((alarmSetup a wktime t).2 = .eok →
        ∀ start, { (alarmSetup a wktime t).1 with start }.Good) := by
  have hnow := (gmtimeR_valid ht.1 ht.2).dated.inDay
  unfold alarmSetup
  dsimp only
  rcases hkind : setupKind a.kind _ (gmtimeR t) with ⟨setup, goesOn⟩
  cases goesOn with
  | false => exact ⟨rfl, rfl, nofun⟩
  | true =>
      refine ⟨rfl, rfl, fun _ start => ?_⟩
      have hsec := orNow_bounds wktime.sec ⟨hnow.sec.1, Int.le_sub_one_of_lt hnow.sec.2⟩
      have hmin := orNow_bounds wktime.min ⟨hnow.min.1, Int.le_sub_one_of_lt hnow.min.2⟩
      have hhour := orNow_bounds wktime.hour ⟨hnow.hour.1, Int.le_sub_one_of_lt hnow.hour.2⟩
      obtain ⟨hday, hdate⟩ := setupKind_spec
        ⟨⟨hsec.1, Int.lt_of_le_sub_one hsec.2⟩, ⟨hmin.1, Int.lt_of_le_sub_one hmin.2⟩,
          ⟨hhour.1, Int.lt_of_le_sub_one hhour.2⟩⟩ hnow hkind
      -- The last second of a day is taken back.
      have hback : (0 : Int) ≤ 60 - (RT_ALARM_DELAY : Int) ∧ 60 - (RT_ALARM_DELAY : Int) < 60 := by
        decide
      refine ⟨fun _ => ?_, fun _ hone => ?_⟩
      · dsimp only
        split
        · exact ⟨hback, hday.min, hday.hour⟩
        · exact hday
      · obtain ⟨hs, hm, hh, hmon, hmday⟩ := hdate hone
        dsimp only
        split
        · exact ⟨hback, hm, hh, hmon, hmday⟩
        · exact ⟨hs, hm, hh, hmon, hmday⟩

/-! ### The calls -/

section

variable {s : Alarms} {a : RtAlarm}

theorem replaceAlarm_ids (s : Alarms) (a' : RtAlarm) :
    (replaceAlarm s a'.id a').list.map (·.id) = s.list.map (·.id) := by
  show (s.list.map fun b => if b.id = a'.id then a' else b).map (·.id) = _
  rw [List.map_map]
  refine List.map_congr_left fun b _ => ?_
  show (if b.id = a'.id then a' else b).id = b.id
  split
  · exact Eq.symm ‹_›
  · rfl

/-- Another alarm behind the same pointer. -/
theorem Alarms.Sane.replace (h : s.Sane) (ha : a ∈ s.list) {a' : RtAlarm} (hid : a'.id = a.id)
    (hgood : a'.Good) :
    Alarms.Sane (replaceAlarm s a'.id a') ∧ a' ∈ (replaceAlarm s a'.id a').list := by
  refine ⟨⟨?_, ?_, ?_⟩, List.mem_map.mpr ⟨a, ha, if_pos hid.symm⟩⟩
  · intro b hb
    obtain ⟨c, hc, rfl⟩ := List.mem_map.mp hb
    split
    · exact hgood
    · exact h.good c hc
  · rw [replaceAlarm_ids]
    exact h.apart
  · intro id hcurrent
    obtain ⟨b, hb, rfl⟩ := h.current id hcurrent
    refine List.mem_map.mp ?_
    rw [replaceAlarm_ids]
    exact List.mem_map.mpr ⟨b, hb, rfl⟩

/-- A stopped alarm behind the same pointer. -/
theorem Alarms.Ready.replace (h : s.Ready) (ha : a ∈ s.list) {a' : RtAlarm} (hid : a'.id = a.id)
    (hstop : a'.start = false) : Alarms.Ready (replaceAlarm s a'.id a') := by
  have hno : ¬ a'.start = true := by
    rw [hstop]
    exact Bool.false_ne_true
  obtain ⟨hsane, -⟩ := h.toSane.replace ha hid ⟨fun hs => absurd hs hno, fun hs => absurd hs hno⟩
  refine ⟨hsane, ?_, h.set⟩
  intro b hb hs
  obtain ⟨c, hc, rfl⟩ := List.mem_map.mp hb
  split at hs
  · exact absurd hs hno
  · exact h.armed c hc hs

/-- `rt_alarm_create`. -/
theorem Alarms.Ready.create (h : s.Ready) {id : Nat} (hnew : ∀ b ∈ s.list, b.id ≠ id)
    (kind : AlarmKind) (wktime : Tm) (callback : Bool) :
    Alarms.Ready (rtAlarmCreate s id kind wktime callback) := by
  refine ⟨⟨?_, ?_, ?_⟩, ?_, h.set⟩
  · intro b hb
    rcases List.mem_cons.mp hb with rfl | hb
    · exact ⟨nofun, nofun⟩
    · exact h.good b hb
  · refine List.nodup_cons.mpr ⟨?_, h.apart⟩
    intro hmem
    obtain ⟨b, hb, hid⟩ := List.mem_map.mp hmem
    exact hnew b hb hid
  · intro id hid
    obtain ⟨b, hb, hbid⟩ := h.current id hid
    exact ⟨b, List.mem_cons_of_mem _ hb, hbid⟩
  · intro b hb hs
    rcases List.mem_cons.mp hb with rfl | hb
    · cases hs
    · exact h.armed b hb hs

/-- `rt_alarm_start`. -/
theorem Alarms.Ready.start (h : s.Ready) (ha : a ∈ s.list) {t : Int} (ht : OnClock t) (u : Int) :
    ∃ s' ret, rtAlarmStart s a.id t u = .ok (s', ret) ∧ s'.Ready := by
  unfold rtAlarmStart
  rw [h.find ha]
  dsimp only
  by_cases hstart : a.start = true
  · rw [if_pos hstart]
    exact ⟨_, _, rfl, h⟩
  rw [if_neg hstart]
  obtain ⟨hid, hstopped, hgood⟩ := alarmSetup_spec a a.wktime ht
  generalize alarmSetup a a.wktime t = setup at hid hstopped hgood ⊢
  obtain ⟨b, ret⟩ := setup
  dsimp only at hid hstopped hgood ⊢
  rw [← hid]
  by_cases hret : ret ≠ .eok
  · rw [if_pos hret]
    exact ⟨_, _, rfl, h.replace ha hid (hstopped.trans (Bool.eq_false_iff.mpr hstart))⟩
  rw [if_neg hret]
  have hstarted : ({ b with start := true } : RtAlarm).id = a.id := hid
  obtain ⟨hsane, hmem⟩ := h.toSane.replace ha hstarted (hgood (not_not.mp hret) true)
  have hsetAt := hsane.alarmSetAt hmem
  have hready := hsane.setTo hmem rfl
  have hcurrent' : (replaceAlarm s b.id { b with start := true }).current = s.current := rfl
  dsimp only at hsane hmem hsetAt hready
  cases hcurrent : s.current with
  | none =>
      rw [hcurrent'.trans hcurrent]
      dsimp only [bind, Except.bind]
      rw [hsetAt]
      exact ⟨_, _, rfl, hready⟩
  | some old =>
      obtain ⟨c, hc, rfl⟩ := hsane.current old (hcurrent'.trans hcurrent)
      have harmed := h.set (by rw [hcurrent]; exact Option.some_ne_none _)
      rw [hcurrent'.trans hcurrent]
      dsimp only [bind, Except.bind]
      rw [hsane.find hc]
      dsimp only
      split
      · rw [hsetAt]
        exact ⟨_, _, rfl, hready⟩
      · exact ⟨_, _, rfl, hsane.ready harmed⟩

/-- Clearing the flag of an alarm. -/
theorem Alarms.Ready.clearStart (h : s.Ready) (ha : a ∈ s.list) :
    Alarms.Ready (clearStart s a.id) ∧ { a with start := false } ∈ (clearStart s a.id).list ∧
      (clearStart s a.id).list.map (·.id) = s.list.map (·.id) := by
  have heq : EleDs.clearStart s a.id
      = replaceAlarm s ({ a with start := false } : RtAlarm).id { a with start := false } := by
    unfold EleDs.clearStart replaceAlarm
    dsimp only
    congr 1
    refine List.map_congr_left fun b hb => ?_
    split
    · rw [List.inj_on_of_nodup_map h.apart hb ha ‹_›]
    · rfl
  rw [heq]
  exact ⟨h.replace ha rfl rfl, List.mem_map.mpr ⟨a, ha, if_pos rfl⟩, replaceAlarm_ids s _⟩

/-- `rt_alarm_stop`. -/
theorem Alarms.Ready.stop (h : s.Ready) (ha : a ∈ s.list) {t u : Int} (ht : OnClock t)
    (hu : OnClock u) :
    ∃ s' calls, rtAlarmStop s a.id t u = .ok (s', calls) ∧ s'.Ready ∧
      s'.list.map (·.id) = s.list.map (·.id) := by
  unfold rtAlarmStop
  rw [h.find ha]
  dsimp only
  split
  · exact ⟨_, _, rfl, h, rfl⟩
  obtain ⟨hready, hmem, hids⟩ := h.clearStart ha
  split
  · have hset := hready.setTo hmem none nofun
    have hsetAt := hready.alarmSetAt hmem
    dsimp only [bind, Except.bind] at hsetAt ⊢
    rw [hsetAt]
    obtain ⟨s', calls, hupdate, hupdated⟩ := hset.update ht hu
    exact ⟨s', calls, hupdate, hupdated.ready, hupdated.ids.trans hids⟩
  · obtain ⟨s', calls, hupdate, hupdated⟩ := hready.update ht hu
    exact ⟨s', calls, hupdate, hupdated.ready, hupdated.ids.trans hids⟩

/-- Taking an alarm out that the clock is not set to. -/
theorem Alarms.Ready.filter (h : s.Ready) {id : Nat} (hcurrent : s.current ≠ some id) :
    Alarms.Ready { s with list := s.list.filter (·.id ≠ id) } := by
  refine ⟨⟨?_, ?_, ?_⟩, ?_, h.set⟩
  · exact fun b hb => h.good b (List.mem_of_mem_filter hb)
  · exact h.apart.sublist (List.Sublist.map _ List.filter_sublist)
  · intro id' hid'
    obtain ⟨b, hb, rfl⟩ := h.current id' hid'
    refine ⟨b, List.mem_filter.mpr ⟨hb, decide_eq_true fun heq => hcurrent ?_⟩, rfl⟩
    rw [← heq]
    exact hid'
  · exact fun b hb hs => h.armed b (List.mem_of_mem_filter hb) hs

/-- `rt_alarm_delete`. -/
theorem Alarms.Ready.delete (h : s.Ready) (ha : a ∈ s.list) {t u : Int} (ht : OnClock t)
    (hu : OnClock u) :
    ∃ s' calls, rtAlarmDelete s a.id t u = .ok (s', calls) ∧ s'.Ready := by
  unfold rtAlarmDelete
  rw [h.find ha]
  dsimp only
  obtain ⟨hready, hmem, -⟩ := h.clearStart ha
  split
  · have hset := hready.setTo hmem none nofun
    have hsetAt := hready.alarmSetAt hmem
    dsimp only [bind, Except.bind] at hsetAt ⊢
    rw [hsetAt]
    obtain ⟨s', calls, hupdate, hupdated⟩ := hset.update ht hu
    dsimp only
    rw [hupdate]
    refine ⟨_, _, rfl, hupdated.ready.filter fun hid => ?_⟩
    -- The clock is set to a started alarm, and this one is not started any more.
    rcases hupdated.current a.id hid with hnone | ⟨b, hb, hstart, hid⟩
    · cases hnone
    · rw [List.inj_on_of_nodup_map hready.apart hb hmem hid] at hstart
      cases hstart
  · exact ⟨_, _, rfl, hready.filter ‹_›⟩

/-- `rt_alarm_control`. -/
theorem Alarms.Ready.modify (h : s.Ready) (ha : a ∈ s.list) (kind : AlarmKind) (wktime : Tm)
    {t t' t'' : Int} (ht : OnClock t) (ht' : OnClock t') (ht'' : OnClock t'') :
    ∃ s' calls ret, rtAlarmModify s a.id kind wktime t t' t'' = .ok (s', calls, ret) ∧
      s'.Ready := by
  obtain ⟨s₁, calls, hstop, hready, hids⟩ := h.stop ha ht ht'
  obtain ⟨b, hb, hid⟩ : ∃ b ∈ s₁.list, b.id = a.id := by
    refine List.mem_map.mp ?_
    rw [hids]
    exact List.mem_map.mpr ⟨a, ha, rfl⟩
  unfold rtAlarmModify
  rw [hstop, ← hid]
  dsimp only [bind, Except.bind]
  rw [hready.find hb]
  dsimp only
  obtain ⟨hid', hstopped, -⟩ := alarmSetup_spec
    { b with kind := kind, inited := false, start := false } wktime ht''
  have hreplaced := hready.replace hb hid' hstopped
  rw [hid'] at hreplaced
  exact ⟨_, _, _, rfl, hreplaced⟩

end

/-! ### Reachable states -/

/-- The states the calls and the updates lead to.  A new alarm has memory of its own, and the
other calls are made with an alarm of the list. -/
inductive Alarms.Reachable : Alarms → Prop where
  | init (rtc : Rtc) : Alarms.Reachable ⟨[], none, rtc⟩
  | create {s : Alarms} (id : Nat) (kind : AlarmKind) (wktime : Tm) (callback : Bool) :
      s.Reachable → (∀ b ∈ s.list, b.id ≠ id) →
      Alarms.Reachable (rtAlarmCreate s id kind wktime callback)
  | start {s s' : Alarms} {a : RtAlarm} {t u : Int} {ret : RtErr} : s.Reachable → a ∈ s.list →
      OnClock t → rtAlarmStart s a.id t u = .ok (s', ret) → s'.Reachable
  | stop {s s' : Alarms} {a : RtAlarm} {t u : Int} {calls : List Nat} : s.Reachable → a ∈ s.list →
      OnClock t → OnClock u → rtAlarmStop s a.id t u = .ok (s', calls) → s'.Reachable
  | delete {s s' : Alarms} {a : RtAlarm} {t u : Int} {calls : List Nat} : s.Reachable →
      a ∈ s.list → OnClock t → OnClock u → rtAlarmDelete s a.id t u = .ok (s', calls) →
      s'.Reachable
  | modify {s s' : Alarms} {a : RtAlarm} {kind : AlarmKind} {wktime : Tm} {t t' t'' : Int}
      {calls : List Nat} {ret : RtErr} : s.Reachable → a ∈ s.list → OnClock t → OnClock t' →
      OnClock t'' → rtAlarmModify s a.id kind wktime t t' t'' = .ok (s', calls, ret) → s'.Reachable
  | update {s s' : Alarms} {t u : Int} {calls : List Nat} : s.Reachable → OnClock t → OnClock u →
      alarmUpdate s t u = .ok (s', calls) → s'.Reachable

theorem ready_init (rtc : Rtc) : Alarms.Ready ⟨[], none, rtc⟩ where
  good := fun _ h => absurd h List.not_mem_nil
  apart := List.nodup_nil
  current := fun id h => absurd h.symm (Option.some_ne_none id)
  armed := fun _ h => absurd h List.not_mem_nil
  set := fun h => absurd rfl h

theorem Alarms.Reachable.ready {s : Alarms} (h : s.Reachable) : s.Ready := by
  induction h with
  | init rtc => exact ready_init rtc
  | create id kind wktime callback _ hnew ih => exact ih.create hnew kind wktime callback
  | start _ ha ht hrun ih =>
      obtain ⟨_, _, hrun', hready⟩ := ih.start ha ht _
      cases hrun.symm.trans hrun'
      exact hready
  | stop _ ha ht hu hrun ih =>
      obtain ⟨_, _, hrun', hready, -⟩ := ih.stop ha ht hu
      cases hrun.symm.trans hrun'
      exact hready
  | delete _ ha ht hu hrun ih =>
      obtain ⟨_, _, hrun', hready⟩ := ih.delete ha ht hu
      cases hrun.symm.trans hrun'
      exact hready
  | modify _ ha ht ht' ht'' hrun ih =>
      obtain ⟨_, _, _, hrun', hready⟩ := ih.modify ha _ _ ht ht' ht''
      cases hrun.symm.trans hrun'
      exact hready
  | update _ ht hu hrun ih =>
      obtain ⟨_, _, hrun', hupdated⟩ := ih.update ht hu
      cases hrun.symm.trans hrun'
      exact hupdated.ready

/-- **No call faults.**  In every state the calls lead to, each of them comes back with any
alarm of the list, and so does an update. -/
theorem no_call_faults {s : Alarms} (h : s.Reachable) {a : RtAlarm} (ha : a ∈ s.list)
    (kind : AlarmKind) (wktime : Tm) {t t' t'' : Int} (ht : OnClock t) (ht' : OnClock t')
    (ht'' : OnClock t'') :
    (∃ r, alarmUpdate s t t' = .ok r) ∧ (∃ r, rtAlarmStart s a.id t t' = .ok r) ∧
      (∃ r, rtAlarmStop s a.id t t' = .ok r) ∧ (∃ r, rtAlarmDelete s a.id t t' = .ok r) ∧
      ∃ r, rtAlarmModify s a.id kind wktime t t' t'' = .ok r := by
  obtain ⟨_, _, hupdate, -⟩ := h.ready.update ht ht'
  obtain ⟨_, _, hstart, -⟩ := h.ready.start ha ht t'
  obtain ⟨_, _, hstop, -⟩ := h.ready.stop ha ht ht'
  obtain ⟨_, _, hdelete, -⟩ := h.ready.delete ha ht ht'
  obtain ⟨_, _, _, hmodify, -⟩ := h.ready.modify ha kind wktime ht ht' ht''
  exact ⟨⟨_, hupdate⟩, ⟨_, hstart⟩, ⟨_, hstop⟩, ⟨_, hdelete⟩, ⟨_, hmodify⟩⟩

/-- An alarm at six in the morning, which is started. -/
def morning : RtAlarm := ⟨7, .daily, true, true, true, ⟨0, 0, 6, 0, 0, 0, 0, 0⟩⟩

/-- The service with this alarm. -/
def morningOnly : Alarms := ⟨[morning], some 7, ⟨⟨true, 0, 0, 6, 0, 0, 0⟩, some (6, 0, 0)⟩⟩

theorem morningOnly_reachable : morningOnly.Reachable := by
  have hinit := Alarms.Reachable.init ⟨⟨false, 0, 0, 0, 0, 0, 0⟩, none⟩
  have hcreate := hinit.create 7 .daily ⟨0, 0, 6, 0, 0, 0, 0, 0⟩ true
    fun b hb => absurd hb List.not_mem_nil
  have hrun : rtAlarmStart (rtAlarmCreate ⟨[], none, ⟨⟨false, 0, 0, 0, 0, 0, 0⟩, none⟩⟩ 7 .daily
      ⟨0, 0, 6, 0, 0, 0, 0, 0⟩ true) 7 1000 1000 = .ok (morningOnly, .eok) := by
    decide +kernel
  exact hcreate.start (a := ⟨7, .daily, false, false, true, ⟨0, 0, 6, 0, 0, 0, 0, 0⟩⟩)
    List.mem_cons_self ⟨by decide, by decide⟩ hrun

theorem no_call_faults_morning :
    (∃ r, alarmUpdate morningOnly 1000 1001 = .ok r) ∧
      (∃ r, rtAlarmStart morningOnly 7 1000 1001 = .ok r) ∧
      (∃ r, rtAlarmStop morningOnly 7 1000 1001 = .ok r) ∧
      (∃ r, rtAlarmDelete morningOnly 7 1000 1001 = .ok r) ∧
      ∃ r, rtAlarmModify morningOnly 7 .hour ⟨0, 0, 6, 0, 0, 0, 0, 0⟩ 1000 1001 1002 = .ok r :=
  no_call_faults morningOnly_reachable (a := morning) List.mem_cons_self _ _
    ⟨by decide, by decide⟩ ⟨by decide, by decide⟩ ⟨by decide, by decide⟩

/-! ### Runs -/

/-- A run of `n` updates: update `i` reads the times `t i` and `u i`. -/
structure UpdateRun (n : Nat) (s : Nat → Alarms) (t u : Nat → Int) (calls : Nat → List Nat) :
    Prop where
  reachable : Alarms.Reachable (s 0)
  update : ∀ i < n, alarmUpdate (s i) (t i) (u i) = .ok (s (i + 1), calls i)
  reads : ∀ i < n, OnClock (t i) ∧ OnClock (u i) ∧ t i ≤ u i

/-- A run in which the next update comes within two seconds of the clock going off. -/
structure AlarmRun (n : Nat) (s : Nat → Alarms) (t u : Nat → Int) (calls : Nat → List Nat) : Prop
    extends UpdateRun n s t u calls where
  prompt : ∀ i, i + 1 < n → ∀ r, u i < r → (s (i + 1)).rtc.GoesOff r →
    t (i + 1) ≤ r + RT_ALARM_DELAY

section

variable {n : Nat} {s : Nat → Alarms} {t u : Nat → Int} {calls : Nat → List Nat}

theorem UpdateRun.updated (h : UpdateRun n s t u calls) {i : Nat} (hi : i < n) :
    Updated (s i) (s (i + 1)) (t i) (u i) (calls i) := by
  have hready : ∀ j ≤ i, (s j).Ready →
      ∃ s' calls', alarmUpdate (s j) (t j) (u j) = .ok (s', calls') ∧
        Updated (s j) s' (t j) (u j) calls' := by
    intro j hj hs
    obtain ⟨ht, hu, -⟩ := h.reads j (by omega)
    exact hs.update ht hu
  have hstep : ∀ j ≤ i, (s j).Ready → Updated (s j) (s (j + 1)) (t j) (u j) (calls j) := by
    intro j hj hs
    obtain ⟨s', calls', hrun, hupdated⟩ := hready j hj hs
    rw [h.update j (by omega)] at hrun
    cases hrun
    exact hupdated
  have hall : ∀ j ≤ i, (s j).Ready := by
    intro j
    induction j with
    | zero => exact fun _ => h.reachable.ready
    | succ j ih => exact fun hj => (hstep j (by omega) (ih (by omega))).ready
  exact hstep i le_rfl (hall i le_rfl)

/-- A daily alarm stays in the list. -/
theorem UpdateRun.daily_mem (h : UpdateRun n s t u calls) {a : RtAlarm} (ha : a ∈ (s 0).list)
    (hkind : a.kind = .daily) {i : Nat} (hi : i ≤ n) : a ∈ (s i).list := by
  induction i with
  | zero => exact ha
  | succ i ih => exact (h.updated (by omega)).keeps a (ih (by omega)) hkind

/-- **A daily alarm rings.**  Whenever it is due between the first update and the last, and not
while an update is on, the next update calls it, at most two seconds late. -/
theorem daily_rings (h : AlarmRun n s t u calls) {a : RtAlarm} (ha : a ∈ (s 0).list)
    (hstart : a.start) (hkind : a.kind = .daily) (hcallback : a.callback)
    (hlast : a.wktime.daysec + RT_ALARM_DELAY < 86400) {due : Int}
    (hdue : due % 86400 = a.wktime.daysec) (hfirst : u 0 < due) (hend : ∃ j < n, due ≤ t j)
    (hidle : ∀ i < n, t i < due → u i < due) :
    ∃ i < n, due ≤ t i ∧ t i ≤ due + RT_ALARM_DELAY ∧ a.id ∈ calls i := by
  -- The first update that is not before the alarm.
  obtain ⟨hj, hle⟩ := Nat.find_spec hend
  obtain ⟨k, hk⟩ : ∃ k, Nat.find hend = k + 1 := by
    refine Nat.exists_eq_succ_of_ne_zero fun hzero => ?_
    rw [hzero] at hj hle
    have := (h.reads 0 hj).2.2
    omega
  rw [hk] at hj hle
  have hbefore : t k < due := by
    by_contra hnot
    exact Nat.find_min hend (m := k) (by omega) ⟨by omega, not_lt.mp hnot⟩
  have hidle' := hidle k (by omega) hbefore
  have hupdated := h.updated (i := k) (by omega)
  have hmem := h.daily_mem ha hkind (i := k + 1) (by omega)
  obtain ⟨r, hr, hr', hoff⟩ := hupdated.covers a hmem hstart due hidle' hdue
  have hprompt := h.prompt k hj r hr hoff
  refine ⟨k + 1, hj, hle, by omega, ?_⟩
  refine (h.updated hj).rings a hmem hstart hkind hcallback ?_
  unfold RtAlarm.Due
  have hbounds := ((h.reachable.ready.good a ha).inDay hstart).daysec_bounds
  unfold RT_ALARM_DELAY at *
  omega

end

/-- An update at night, and one two seconds after the alarm. -/
def morningTimes (i : Nat) : Int := if i = 0 then 1000 else 21602

theorem morningRun : AlarmRun 2 (fun _ => morningOnly) morningTimes morningTimes
    (fun i => if i = 0 then [] else [7]) where
  reachable := morningOnly_reachable
  update := by decide +kernel
  reads := fun i _ => by
    unfold OnClock morningTimes
    split <;> decide
  prompt := by
    rintro i hi r hr ⟨hour, min, sec, hregister, hoff⟩
    obtain rfl : i = 0 := by omega
    cases hregister
    have hlate : morningTimes 1 = 21602 := rfl
    have hnight : morningTimes 0 = 1000 := rfl
    rw [hlate]
    rw [hnight] at hr
    unfold RT_ALARM_DELAY
    omega

theorem daily_rings_morning : ∃ i < 2, 21600 ≤ morningTimes i ∧
    morningTimes i ≤ 21600 + RT_ALARM_DELAY ∧ 7 ∈ if i = 0 then [] else [7] :=
  daily_rings morningRun (a := morning) List.mem_cons_self rfl rfl rfl (by decide) rfl (by decide)
    ⟨1, by decide, by decide⟩ (by decide)

/-! ### An alarm for once -/

/-- What `alarm_wakeup` does, whatever the alarm: only a started one wakes, and one for once is
not started any more. -/
structure RtAlarm.Woken (a a' : RtAlarm) (wakeup : Bool) : Prop where
  id : a'.id = a.id
  kind : a'.kind = a.kind
  started : wakeup → a.start
  once : wakeup → a.kind = .oneshot → a'.start = false
  off : a.start = false → a'.start = false

theorem alarmWakeup_woken {a a' : RtAlarm} {now now' : Tm} {rtc rtc' : Rtc} {wakeup : Bool}
    (h : alarmWakeup a now rtc = .ok (a', now', rtc', wakeup)) : a.Woken a' wakeup := by
  unfold alarmWakeup at h
  dsimp only at h
  by_cases hstart : a.start = true
  swap
  · rw [if_neg hstart] at h
    cases h
    exact ⟨rfl, rfl, nofun, nofun, fun hoff => hoff⟩
  rw [if_pos hstart] at h
  have hoff : ∀ b : RtAlarm, a.start = false → b.start = false := fun _ hf =>
    absurd (hf.symm.trans hstart) Bool.false_ne_true
  have hrepeats : ∀ {b : RtAlarm} {w}, a.kind ≠ .oneshot → b.id = a.id → b.kind = a.kind →
      a.Woken b w := fun {b} _ hne hid hkind =>
    ⟨hid, hkind, fun _ => hstart, fun _ hone => absurd hone hne, hoff b⟩
  cases hkind : a.kind with
  | oneshot =>
      rw [hkind] at h
      dsimp only at h
      obtain ⟨⟨stamp, wk⟩, -, h⟩ := except_bind_ok h
      obtain ⟨⟨stampNow, now₁⟩, -, h⟩ := except_bind_ok h
      dsimp only at h
      split at h
      · rw [alarmSet_eq] at h
        cases h
        exact ⟨rfl, hkind.symm, fun _ => hstart, fun _ _ => rfl, fun _ => rfl⟩
      · cases h
        exact ⟨rfl, hkind.symm, nofun, nofun, hoff _⟩
  | second =>
      have hne : a.kind ≠ .oneshot := by rw [hkind]; decide
      rw [hkind] at h
      cases h
      exact hrepeats hne rfl hkind.symm
  | minute =>
      have hne : a.kind ≠ .oneshot := by rw [hkind]; decide
      rw [hkind] at h
      dsimp only at h
      split at h
      · cases h
        exact hrepeats hne rfl hkind.symm
      · cases h
        exact hrepeats hne rfl hkind.symm
  | hour =>
      have hne : a.kind ≠ .oneshot := by rw [hkind]; decide
      rw [hkind] at h
      dsimp only at h
      split at h
      · cases h
        exact hrepeats hne rfl hkind.symm
      · cases h
        exact hrepeats hne rfl rfl
  | daily | weekly | monthly | yearly | other =>
      have hne : a.kind ≠ .oneshot := by rw [hkind]; decide
      rw [hkind] at h
      cases h
      exact hrepeats hne rfl rfl

theorem wakeAll_woken {list list' : List RtAlarm} {now : Tm} {rtc rtc' : Rtc} {calls : List Nat}
    (h : wakeAll list now rtc = .ok (list', rtc', calls)) :
    calls.Sublist (list.map (·.id)) ∧ (∀ a' ∈ list', ∃ a ∈ list, ∃ w, a.Woken a' w) ∧
      ∀ id ∈ calls, ∃ a ∈ list, ∃ a' ∈ list', a.id = id ∧ a.Woken a' true := by
  induction list generalizing now rtc list' rtc' calls with
  | nil =>
      cases h
      exact ⟨.slnil, fun _ h => absurd h List.not_mem_nil, fun _ h => absurd h List.not_mem_nil⟩
  | cons a rest ih =>
      rw [wakeAll] at h
      obtain ⟨⟨a₁, now₁, rtc₁, wakeup⟩, hwake, h⟩ := except_bind_ok h
      obtain ⟨⟨rest', rtc₂, calls'⟩, hrest, h⟩ := except_bind_ok h
      obtain ⟨hsub, hback, hcalls⟩ := ih hrest
      have hwoken := alarmWakeup_woken hwake
      cases h
      refine ⟨?_, ?_, ?_⟩
      · rw [List.map_cons]
        split
        · rw [hwoken.id]
          exact hsub.cons_cons _
        · exact hsub.cons _
      · intro b' hb'
        rcases List.mem_cons.mp hb' with rfl | hb'
        · exact ⟨a, List.mem_cons_self, wakeup, hwoken⟩
        · obtain ⟨b, hb, hfrom⟩ := hback b' hb'
          exact ⟨b, List.mem_cons_of_mem a hb, hfrom⟩
      · intro id hid
        have hlater : id ∈ calls' → ∃ b ∈ a :: rest, ∃ b' ∈ a₁ :: rest', b.id = id ∧
            b.Woken b' true := by
          intro hid
          obtain ⟨b, hb, b', hb', hbid, hfrom⟩ := hcalls id hid
          exact ⟨b, List.mem_cons_of_mem a hb, b', List.mem_cons_of_mem a₁ hb', hbid, hfrom⟩
        split at hid
        · rename_i hcalled
          rcases List.mem_cons.mp hid with rfl | hid
          · refine ⟨a, List.mem_cons_self, a₁, List.mem_cons_self, hwoken.id.symm, ?_⟩
            rw [Bool.and_eq_true] at hcalled
            rw [hcalled.1] at hwoken
            exact hwoken
          · exact hlater hid
        · exact hlater hid

section

variable {n : Nat} {s : Nat → Alarms} {t u : Nat → Int} {calls : Nat → List Nat}

/-- An alarm stays what it is, and once it is stopped it stays so. -/
theorem UpdateRun.back (h : UpdateRun n s t u calls) {i : Nat} (hi : i < n) :
    ∀ a' ∈ (s (i + 1)).list, ∃ a ∈ (s i).list, a'.id = a.id ∧ a'.kind = a.kind ∧
      (a.start = false → a'.start = false) := by
  intro a' ha'
  obtain ⟨rtc', hwake⟩ := (h.updated hi).wakes
  obtain ⟨a, ha, w, hwoken⟩ := (wakeAll_woken hwake).2.1 a' ha'
  exact ⟨a, ha, hwoken.id, hwoken.kind, hwoken.off⟩

theorem UpdateRun.apart (h : UpdateRun n s t u calls) {i : Nat} (hi : i ≤ n) :
    ((s i).list.map (·.id)).Nodup := by
  cases i with
  | zero => exact h.reachable.ready.apart
  | succ i => exact (h.updated hi).ready.apart

theorem UpdateRun.oneshot_kind (h : UpdateRun n s t u calls) {a : RtAlarm} (ha : a ∈ (s 0).list)
    (hkind : a.kind = .oneshot) {i : Nat} (hi : i ≤ n) :
    ∀ b ∈ (s i).list, b.id = a.id → b.kind = .oneshot := by
  induction i with
  | zero =>
      intro b hb hid
      rw [List.inj_on_of_nodup_map (h.apart hi) hb ha hid]
      exact hkind
  | succ i ih =>
      intro b' hb' hid
      obtain ⟨b, hb, hbid, hbkind, -⟩ := h.back hi b' hb'
      exact hbkind.trans (ih (by omega) b hb (hbid.symm.trans hid))

/-- After the update that calls it the alarm is stopped. -/
theorem UpdateRun.stopped (h : UpdateRun n s t u calls) {a : RtAlarm} (ha : a ∈ (s 0).list)
    (hkind : a.kind = .oneshot) {i : Nat} (hi : i < n) (hcall : a.id ∈ calls i) {j : Nat}
    (hij : i < j) (hj : j ≤ n) : ∀ b ∈ (s j).list, b.id = a.id → b.start = false := by
  induction j with
  | zero => exact absurd hij (Nat.not_lt_zero i)
  | succ j ih =>
      intro b' hb' hid
      rcases Nat.lt_or_eq_of_le (Nat.le_of_lt_succ hij) with hless | rfl
      · obtain ⟨b, hb, hbid, -, hoff⟩ := h.back hj b' hb'
        exact hoff (ih hless (by omega) b hb (hbid.symm.trans hid))
      · obtain ⟨rtc', hwake⟩ := (h.updated hi).wakes
        obtain ⟨b, hb, c, hc, hbid, hwoken⟩ := (wakeAll_woken hwake).2.2 a.id hcall
        rw [List.inj_on_of_nodup_map (h.apart hj) hb' hc
          (hid.trans (hbid.symm.trans hwoken.id.symm))]
        exact hwoken.once rfl (h.oneshot_kind ha hkind (by omega) b hb hbid)

/-- **An alarm for once is called at most once.**  No update calls it twice, and none calls it
after another has. -/
theorem oneshot_once (h : UpdateRun n s t u calls) {a : RtAlarm} (ha : a ∈ (s 0).list)
    (hkind : a.kind = .oneshot) {i : Nat} (hi : i < n) (hcall : a.id ∈ calls i) :
    (calls i).count a.id = 1 ∧ ∀ j, i < j → j < n → a.id ∉ calls j := by
  obtain ⟨rtc', hwake⟩ := (h.updated hi).wakes
  have hnodup := (h.apart (Nat.le_of_lt hi)).sublist (wakeAll_woken hwake).1
  refine ⟨List.count_eq_one_of_mem hnodup hcall, ?_⟩
  intro j hij hj hagain
  obtain ⟨rtc'', hwake'⟩ := (h.updated hj).wakes
  obtain ⟨b, hb, b', -, hid, hwoken⟩ := (wakeAll_woken hwake').2.2 a.id hagain
  have hoff := h.stopped ha hkind hi hcall hij (Nat.le_of_lt hj) b hb hid
  exact Bool.false_ne_true (hoff.symm.trans (hwoken.started rfl))

end

/-- An alarm for the first of January 1970 at six. -/
def newYear (start : Bool) (wday : Int) : RtAlarm :=
  ⟨9, .oneshot, true, start, true, ⟨0, 0, 6, 1, 0, 70, wday, 0⟩⟩

/-- The service with this alarm, before it rings and after it. -/
def newYearOnly (i : Nat) : Alarms :=
  if i = 0 then ⟨[newYear true 0], some 9, ⟨⟨true, 0, 0, 6, 1, 0, 70⟩, some (6, 0, 0)⟩⟩
  else ⟨[newYear false 4], none, ⟨⟨false, 0, 0, 6, 1, 0, 70⟩, some (6, 0, 0)⟩⟩

/-- An update when it is due, and one a second later. -/
def newYearTimes (i : Nat) : Int := if i = 0 then 21600 else 21601

def newYearCalls (i : Nat) : List Nat := if i = 0 then [9] else []

theorem newYear_timegm (wday : Int) :
    timegm ⟨0, 0, 6, 1, 0, 70, wday, 0⟩ = .ok (21600, ⟨0, 0, 6, 1, 0, 70, 4, 0⟩) := by
  have hvalid : (⟨0, 0, 6, 1, 0, 70, wday, 0⟩ : Tm).Valid := by
    constructor
    all_goals
      dsimp only
      decide
  have hdays : (⟨0, 0, 6, 1, 0, 70, wday, 0⟩ : Tm).days = 0 := by
    dsimp only [Tm.days]
    decide
  rw [hvalid.timegm, hdays]
  rfl

theorem newYear_wakes (rtc : Rtc) : alarmWakeup (newYear true 0) (gmtimeR 21600) rtc
    = .ok (newYear false 4, gmtimeR 21600, (alarmSet (newYear false 4) rtc).2, true) := by
  have hnow : gmtimeR 21600 = ⟨0, 0, 6, 1, 0, 70, 4, 0⟩ := by decide +kernel
  have hdue : withinDelay (uint32 21600) (uint32 21600) ∧ uint32 21600 ≥ uint32 21600 := by decide
  unfold alarmWakeup newYear
  dsimp only
  rw [if_pos rfl, hnow, newYear_timegm]
  dsimp only [bind, Except.bind]
  rw [newYear_timegm]
  dsimp only
  rw [if_pos hdue]
  rfl

theorem newYear_update :
    alarmUpdate (newYearOnly 0) 21600 21600 = .ok (newYearOnly 1, [9]) := by
  have hwake : wakeAll (newYearOnly 0).list (gmtimeR 21600) (newYearOnly 0).rtc
      = .ok ([newYear false 4], (alarmSet (newYear false 4) (newYearOnly 0).rtc).2, [9]) := by
    show wakeAll [newYear true 0] _ _ = _
    rw [wakeAll, newYear_wakes]
    rfl
  unfold alarmUpdate
  rw [if_neg (by decide), hwake]
  decide +kernel

theorem newYearRun : UpdateRun 2 newYearOnly newYearTimes newYearTimes newYearCalls where
  reachable := by
    have hinit := Alarms.Reachable.init ⟨⟨false, 0, 0, 0, 0, 0, 0⟩, none⟩
    have hcreate := hinit.create 9 .oneshot ⟨0, 0, 6, 1, 0, 70, 0, 0⟩ true
      fun b hb => absurd hb List.not_mem_nil
    have hrun : rtAlarmStart (rtAlarmCreate ⟨[], none, ⟨⟨false, 0, 0, 0, 0, 0, 0⟩, none⟩⟩ 9 .oneshot
        ⟨0, 0, 6, 1, 0, 70, 0, 0⟩ true) 9 1000 1000 = .ok (newYearOnly 0, .eok) := by
      decide +kernel
    exact hcreate.start (a := ⟨9, .oneshot, false, false, true, ⟨0, 0, 6, 1, 0, 70, 0, 0⟩⟩)
      List.mem_cons_self ⟨by decide, by decide⟩ hrun
  update := fun i hi => by
    obtain rfl | rfl : i = 0 ∨ i = 1 := by omega
    · exact newYear_update
    · decide +kernel
  reads := fun i _ => by
    unfold OnClock newYearTimes
    split <;> decide

theorem oneshot_once_newYear :
    (newYearCalls 0).count 9 = 1 ∧ ∀ j, 0 < j → j < 2 → 9 ∉ newYearCalls j :=
  oneshot_once newYearRun (a := newYear true 0) List.mem_cons_self rfl (by decide) (by decide)

end EleDs
