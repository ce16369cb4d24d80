/-
What `alarm_update` does.

The clock has one alarm, and `alarm_update` sets it again when it has run: to the started alarm
that comes next in the day, or to the first of the next day.  So whenever an alarm is due, the
clock has gone off by then (`Rtc.Covers`), and a daily alarm that is due when `alarm_update`
reads the time is called (`Alarms.Ready.update`).  An alarm that is due at the very
second the service looks at the clock is seen neither before nor after; it is due a whole day
later then, and whatever the clock is set to comes before that.
-/
import EleDs.Model.Alarm
import EleDs.Proofs.Ctime
import Mathlib.Data.List.Nodup

namespace EleDs

open CMem

/-! ### The time of the day -/

/-- The time of the day is one. -/
structure Tm.InDay (t : Tm) : Prop where
  sec : 0 ≤ t.sec ∧ t.sec < 60
  min : 0 ≤ t.min ∧ t.min < 60
  hour : 0 ≤ t.hour ∧ t.hour < 24

/-- The second of the day. -/
def Tm.daysec (t : Tm) : Int := t.sec + t.min * 60 + t.hour * 3600

theorem Tm.Dated.inDay {t : Tm} (h : t.Dated) : t.InDay := ⟨h.sec, h.min, h.hour⟩

theorem Tm.InDay.daysec_bounds {t : Tm} (h : t.InDay) : 0 ≤ t.daysec ∧ t.daysec < 86400 := by
  obtain ⟨hs, hm, hh⟩ := h
  unfold Tm.daysec
  omega

theorem Tm.InDay.mkdaysec {t : Tm} (h : t.InDay) : (alarmMkdaysec t : Int) = t.daysec := by
  have hb := h.daysec_bounds
  unfold Tm.daysec at hb
  unfold alarmMkdaysec uint32 Tm.daysec
  omega

theorem Tm.InDay.wrap32 {t : Tm} (h : t.InDay) : wrap32 (alarmMkdaysec t) = t.daysec := by
  have hb := h.daysec_bounds
  rw [h.mkdaysec, wrap32_of_range (by omega) (by omega)]

theorem gmtimeR_daysec {s : Int} (hs : 0 ≤ s) (hlt : s < 86400 * 2147483648) :
    (gmtimeR s).daysec = s % 86400 := by
  obtain ⟨y, -, -, heq⟩ := gmtimeR_eq hs hlt
  rw [heq]
  unfold Tm.daysec
  dsimp only
  omega

/-- `timegm` of a date leaves the time of the day. -/
theorem Tm.Dated.stamp {t : Tm} (h : t.Dated) :
    ∃ stamp t', timegm t = .ok (stamp, t') ∧ t'.Dated ∧ t'.daysec = t.daysec := by
  obtain ⟨hs, hm, hh, hmon, hmday⟩ := h
  by_cases hyear : 70 ≤ t.year
  · exact ⟨_, _, Tm.Valid.timegm ⟨hs, hm, hh, hmon, hyear, hmday⟩, ⟨hs, hm, hh, hmon, hmday⟩, rfl⟩
  · exact ⟨_, _, Tm.Dated.timegm_early ⟨hs, hm, hh, hmon, hmday⟩ (by omega),
      ⟨hs, hm, hh, hmon, hmday⟩, rfl⟩

theorem carryHour_inDay {t : Tm} (hs : 0 ≤ t.sec ∧ t.sec < 60) (hm : 0 ≤ t.min ∧ t.min < 60)
    (hh : 0 ≤ t.hour ∧ t.hour ≤ 24) : (carryHour t).InDay := by
  unfold carryHour
  split
  · exact ⟨hs, hm, (by decide : (0 : Int) ≤ 0 ∧ (0 : Int) < 24)⟩
  · exact ⟨hs, hm, by omega⟩

theorem carryMinute_inDay {t : Tm} (hs : 0 ≤ t.sec ∧ t.sec < 60) (hm : 0 ≤ t.min ∧ t.min ≤ 60)
    (hh : 0 ≤ t.hour ∧ t.hour < 24) : (carryMinute t).InDay := by
  unfold carryMinute
  split
  · refine carryHour_inDay hs (by decide : (0 : Int) ≤ 0 ∧ (0 : Int) < 60) ?_
    dsimp only
    omega
  · exact ⟨hs, by omega, hh⟩

theorem carrySecond_inDay {t : Tm} (hs : 0 ≤ t.sec ∧ t.sec ≤ 60) (hm : 0 ≤ t.min ∧ t.min < 60)
    (hh : 0 ≤ t.hour ∧ t.hour < 24) : (carrySecond t).InDay := by
  unfold carrySecond
  split
  · refine carryMinute_inDay (by decide : (0 : Int) ≤ 0 ∧ (0 : Int) < 60) ?_ hh
    dsimp only
    omega
  · exact ⟨by omega, hm, hh⟩

/-! ### Setting the clock -/

/-- The clock goes off at `r`. -/
def Rtc.GoesOff (rtc : Rtc) (r : Int) : Prop :=
  ∃ hour min sec, rtc.register = some (hour, min, sec) ∧ r % 86400 = sec + min * 60 + hour * 3600

/-- The clock is set to a time of the day. -/
def Rtc.Armed (rtc : Rtc) : Prop :=
  ∃ t : Tm, t.InDay ∧ rtc.register = some (t.hour, t.min, t.sec)

/-- The clock after `alarm_set`. -/
def Rtc.setTo (rtc : Rtc) (alarm : RtAlarm) : Rtc := (alarmSet alarm rtc).2

theorem alarmSet_eq (alarm : RtAlarm) (rtc : Rtc) :
    alarmSet alarm rtc = (alarm, rtc.setTo alarm) := by
  unfold Rtc.setTo alarmSet
  dsimp only
  split <;> rfl

theorem Rtc.setTo_register (rtc : Rtc) (alarm : RtAlarm) : (rtc.setTo alarm).register =
    if alarm.start then some (alarm.wktime.hour, alarm.wktime.min, alarm.wktime.sec)
    else rtc.register := by
  unfold Rtc.setTo alarmSet rtcSetAlarm
  dsimp only
  split <;> rfl

/-! ### Waking up -/

/-- An alarm the service can work with.  One that is not started may have any time. -/
structure RtAlarm.Good (a : RtAlarm) : Prop where
  inDay : a.start → a.wktime.InDay
  date : a.start → a.kind = .oneshot → a.wktime.Dated

/-- What `alarm_wakeup` leaves of an alarm. -/
structure RtAlarm.After (a a' : RtAlarm) : Prop where
  good : a'.Good
  id : a'.id = a.id
  start : a'.start → a.start
  daily : a.kind = .daily → a' = a

theorem RtAlarm.After.of_time {a a' : RtAlarm} (hwk : a'.wktime.InDay) (hid : a'.id = a.id)
    (hstart : a.start) (hkind : a'.kind = a.kind) (hne : a.kind ≠ .oneshot)
    (hne' : a.kind ≠ .daily) : a.After a' where
  good := ⟨fun _ => hwk, fun _ h => absurd (hkind.symm.trans h) hne⟩
  id := hid
  start := fun _ => hstart
  daily := fun h => absurd h hne'

theorem alarmWakeup_spec {a : RtAlarm} (ha : a.Good) {now : Tm} (hnow : now.Dated) (rtc : Rtc) :
    ∃ a' now' rtc' wakeup, alarmWakeup a now rtc = .ok (a', now', rtc', wakeup) ∧
      a.After a' ∧ now'.Dated ∧ now'.daysec = now.daysec ∧ rtc'.register = rtc.register := by
  obtain ⟨hs, hm, hh⟩ := hnow.inDay
  have hsame : a.After a := ⟨ha, rfl, id, fun _ => rfl⟩
  unfold alarmWakeup
  dsimp only
  by_cases hstart : a.start = true
  swap
  · rw [if_neg hstart]
    exact ⟨_, _, _, _, rfl, hsame, hnow, rfl, rfl⟩
  rw [if_pos hstart]
  cases hkind : a.kind with
  | oneshot =>
      obtain ⟨stamp, wk, hstamp, hwk, -⟩ := (ha.date hstart hkind).stamp
      obtain ⟨stampNow, now', hstampNow, hnow', hsec⟩ := hnow.stamp
      have hother : a.kind ≠ .daily := by rw [hkind]; decide
      dsimp only
      rw [hstamp]
      dsimp only [bind, Except.bind]
      rw [hstampNow]
      dsimp only
      split
      · rw [alarmSet_eq]
        exact ⟨_, _, _, _, rfl, ⟨⟨fun _ => hwk.inDay, fun _ _ => hwk⟩, rfl, fun _ => hstart,
          fun h => absurd h hother⟩, hnow', hsec, Rtc.setTo_register _ _⟩
      · exact ⟨_, _, _, _, rfl, ⟨⟨fun _ => hwk.inDay, fun _ _ => hwk⟩, rfl, fun _ => hstart,
          fun h => absurd h hother⟩, hnow', hsec, rfl⟩
  | second =>
      have hwk := carrySecond_inDay (t := { a.wktime with
        hour := now.hour, min := now.min, sec := now.sec + 1 }) (by dsimp only; omega) hm hh
      exact ⟨_, _, _, _, rfl, .of_time hwk rfl hstart hkind.symm (by rw [hkind]; decide)
        (by rw [hkind]; decide), hnow, rfl, rfl⟩
  | minute =>
      have hwk := carryMinute_inDay (t := { a.wktime with hour := now.hour, min := now.min + 1 })
        (ha.inDay hstart).sec (by dsimp only; omega) hh
      have hwk' : ({ a.wktime with hour := now.hour } : Tm).InDay :=
        ⟨(ha.inDay hstart).sec, (ha.inDay hstart).min, hh⟩
      dsimp only
      split
      · exact ⟨_, _, _, _, rfl, .of_time hwk rfl hstart hkind.symm (by rw [hkind]; decide)
          (by rw [hkind]; decide), hnow, rfl, rfl⟩
      · exact ⟨_, _, _, _, rfl, .of_time hwk' rfl hstart hkind.symm (by rw [hkind]; decide)
          (by rw [hkind]; decide), hnow, rfl, rfl⟩
  | hour =>
      have hwk := carryHour_inDay (t := { a.wktime with hour := now.hour + 1 })
        (ha.inDay hstart).sec (ha.inDay hstart).min (by dsimp only; omega)
      dsimp only
      split
      · exact ⟨_, _, _, _, rfl, .of_time hwk rfl hstart hkind.symm (by rw [hkind]; decide)
          (by rw [hkind]; decide), hnow, rfl, rfl⟩
      · exact ⟨_, _, _, _, rfl, hsame, hnow, rfl, rfl⟩
  | daily => exact ⟨_, _, _, _, rfl, hsame, hnow, rfl, rfl⟩
  | weekly => exact ⟨_, _, _, _, rfl, hsame, hnow, rfl, rfl⟩
  | monthly => exact ⟨_, _, _, _, rfl, hsame, hnow, rfl, rfl⟩
  | yearly => exact ⟨_, _, _, _, rfl, hsame, hnow, rfl, rfl⟩
  | other => exact ⟨_, _, _, _, rfl, hsame, hnow, rfl, rfl⟩

/-- The alarm is due, as `alarm_wakeup` sees a daily one. -/
def RtAlarm.Due (a : RtAlarm) (daysec : Int) : Prop :=
  a.wktime.daysec ≤ daysec ∧ daysec ≤ a.wktime.daysec + RT_ALARM_DELAY

theorem alarmWakeup_daily {a : RtAlarm} (ha : a.Good) (hstart : a.start) (hkind : a.kind = .daily)
    {now : Tm} (hnow : now.InDay) (hdue : a.Due now.daysec) (rtc : Rtc) :
    alarmWakeup a now rtc = .ok (a, now, rtc, true) := by
  have hb := hnow.daysec_bounds
  have hb' := (ha.inDay hstart).daysec_bounds
  have hsec := hnow.mkdaysec
  have hsec' := (ha.inDay hstart).mkdaysec
  obtain ⟨hle, hlate⟩ := hdue
  unfold alarmWakeup
  dsimp only
  rw [if_pos hstart, hkind]
  have hdelay : withinDelay (alarmMkdaysec now) (alarmMkdaysec a.wktime) := by
    unfold withinDelay uint32
    omega
  rw [decide_eq_true ⟨hdelay, show alarmMkdaysec a.wktime ≤ alarmMkdaysec now by omega⟩]

/-- The first loop of `alarm_update`. -/
theorem wakeAll_spec {list : List RtAlarm} (hlist : ∀ a ∈ list, a.Good) {now : Tm}
    (hnow : now.Dated) (rtc : Rtc) :
    ∃ list' rtc' calls, wakeAll list now rtc = .ok (list', rtc', calls) ∧
      List.Forall₂ RtAlarm.After list list' ∧ rtc'.register = rtc.register ∧
      ∀ a ∈ list, a.start → a.kind = .daily → a.callback → a.Due now.daysec → a.id ∈ calls := by
  induction list generalizing now rtc with
  | nil => exact ⟨[], rtc, [], rfl, .nil, rfl, fun _ h => absurd h List.not_mem_nil⟩
  | cons a rest ih =>
      have ha := hlist a List.mem_cons_self
      obtain ⟨a', now', rtc₁, wakeup, hwake, hafter, hnow', hsec, hregister⟩ :=
        alarmWakeup_spec ha hnow rtc
      obtain ⟨rest', rtc₂, calls, hrest, hafters, hregister', hcalls⟩ :=
        ih (fun b hb => hlist b (List.mem_cons_of_mem a hb)) hnow' rtc₁
      refine ⟨a' :: rest', rtc₂, if wakeup && a'.callback then a'.id :: calls else calls, ?_,
        .cons hafter hafters, hregister'.trans hregister, ?_⟩
      · rw [wakeAll, hwake]
        dsimp only [bind, Except.bind]
        rw [hrest]
      · intro b hb hstart hkind hcallback hdue
        rcases List.mem_cons.mp hb with rfl | hb
        · -- The alarm itself: it is not changed, and wakes.
          rw [alarmWakeup_daily ha hstart hkind hnow.inDay hdue] at hwake
          obtain ⟨rfl, -, -, rfl⟩ : b = a' ∧ now = now' ∧ rtc = rtc₁ ∧ true = wakeup := by
            simpa using hwake
          rw [hcallback]
          exact List.mem_cons_self
        · have hmem := hcalls b hb hstart hkind hcallback (hsec.symm ▸ hdue)
          split
          · exact List.mem_cons_of_mem _ hmem
          · exact hmem

/-! ### The next alarm -/

/-- The alarm after `now` that the second loop has found in the alarms it has been through. -/
structure FoundNext (now : Int) (list : List RtAlarm) (secNext : Int) (almNext : Option Nat) :
    Prop where
  found : secNext < 86400 → ∃ a ∈ list, a.start ∧ almNext = some a.id ∧ 0 < secNext ∧
    a.wktime.daysec - now = secNext
  least : ∀ a ∈ list, a.start → 0 < a.wktime.daysec - now → secNext ≤ a.wktime.daysec - now

/-- The alarm before `now`. -/
structure FoundPrev (now : Int) (list : List RtAlarm) (secPrev : Int) (almPrev : Option Nat) :
    Prop where
  found : secPrev < 0 → ∃ a ∈ list, a.start ∧ almPrev = some a.id ∧
    a.wktime.daysec - now = secPrev
  least : ∀ a ∈ list, a.start → a.wktime.daysec - now ≤ 0 → secPrev ≤ a.wktime.daysec - now

/-- What the second loop has found. -/
structure Searched (now : Int) (list : List RtAlarm) (found : AlarmSearch) : Prop where
  next : FoundNext now list found.secNext found.almNext
  prev : FoundPrev now list found.secPrev found.almPrev

theorem searched_nil (now : Int) : Searched now [] ⟨86400, none, 0, none⟩ where
  next := ⟨fun h => absurd h (lt_irrefl _), fun _ h => absurd h List.not_mem_nil⟩
  prev := ⟨fun h => absurd h (lt_irrefl _), fun _ h => absurd h List.not_mem_nil⟩

section

variable {now : Int} {list : List RtAlarm} {a : RtAlarm} {sec : Int} {alm : Option Nat}

theorem FoundNext.skip (h : FoundNext now list sec alm)
    (hle : a.start → 0 < a.wktime.daysec - now → sec ≤ a.wktime.daysec - now) :
    FoundNext now (list ++ [a]) sec alm where
  found := fun hlt =>
    let ⟨b, hb, hfound⟩ := h.found hlt
    ⟨b, List.mem_append_left _ hb, hfound⟩
  least := by
    intro b hb
    rcases List.mem_append.mp hb with hb | hb
    · exact h.least b hb
    · rw [List.mem_singleton.mp hb]
      exact hle

theorem FoundNext.take (h : FoundNext now list sec alm) (hstart : a.start)
    (hpos : 0 < a.wktime.daysec - now) (hlt : a.wktime.daysec - now < sec) :
    FoundNext now (list ++ [a]) (a.wktime.daysec - now) (some a.id) where
  found := fun _ => ⟨a, List.mem_append_right _ List.mem_cons_self, hstart, rfl, hpos, rfl⟩
  least := by
    intro b hb hs hb'
    rcases List.mem_append.mp hb with hb | hb
    · exact (le_of_lt hlt).trans (h.least b hb hs hb')
    · rw [List.mem_singleton.mp hb]

theorem FoundPrev.skip (h : FoundPrev now list sec alm)
    (hle : a.start → a.wktime.daysec - now ≤ 0 → sec ≤ a.wktime.daysec - now) :
    FoundPrev now (list ++ [a]) sec alm where
  found := fun hlt =>
    let ⟨b, hb, hfound⟩ := h.found hlt
    ⟨b, List.mem_append_left _ hb, hfound⟩
  least := by
    intro b hb
    rcases List.mem_append.mp hb with hb | hb
    · exact h.least b hb
    · rw [List.mem_singleton.mp hb]
      exact hle

theorem FoundPrev.take (h : FoundPrev now list sec alm) (hstart : a.start)
    (hlt : a.wktime.daysec - now < sec) :
    FoundPrev now (list ++ [a]) (a.wktime.daysec - now) (some a.id) where
  found := fun _ => ⟨a, List.mem_append_right _ List.mem_cons_self, hstart, rfl, rfl⟩
  least := by
    intro b hb hs hb'
    rcases List.mem_append.mp hb with hb | hb
    · exact (le_of_lt hlt).trans (h.least b hb hs hb')
    · rw [List.mem_singleton.mp hb]

theorem searchStep_searched {found : AlarmSearch} (h : Searched now list found) (ha : a.Good) :
    Searched now (list ++ [a]) (searchStep now found a) := by
  unfold searchStep
  dsimp only
  by_cases hstart : a.start = true
  swap
  · rw [if_neg hstart]
    exact ⟨h.next.skip fun hs => absurd hs hstart, h.prev.skip fun hs => absurd hs hstart⟩
  rw [if_pos hstart, (ha.inDay hstart).wrap32]
  by_cases hpos : a.wktime.daysec - now > 0
  · rw [if_pos hpos]
    have hprev := h.prev.skip (a := a) fun _ hle => absurd hle (not_le.mpr hpos)
    split
    · rename_i hless
      exact ⟨h.next.take hstart hpos hless, hprev⟩
    · rename_i hmore
      exact ⟨h.next.skip fun _ _ => not_lt.mp hmore, hprev⟩
  · rw [if_neg hpos]
    have hnext := h.next.skip (a := a) fun _ hgt => absurd hgt hpos
    split
    · rename_i hless
      exact ⟨hnext, h.prev.take hstart hless⟩
    · rename_i hmore
      exact ⟨hnext, h.prev.skip fun _ _ => not_lt.mp hmore⟩

end

theorem foldl_searched (now : Int) {list : List RtAlarm} (hlist : ∀ a ∈ list, a.Good) :
    Searched now list (list.foldl (searchStep now) ⟨86400, none, 0, none⟩) := by
  -- The alarms that are done grow from the front.
  suffices hgo : ∀ done found, Searched now done found →
      Searched now (done ++ list) (list.foldl (searchStep now) found) from
    hgo [] _ (searched_nil now)
  induction list with
  | nil =>
      intro done found h
      rw [List.append_nil]
      exact h
  | cons a rest ih =>
      intro done found h
      have hstep := searchStep_searched h (hlist a List.mem_cons_self)
      have := ih (fun b hb => hlist b (List.mem_cons_of_mem a hb)) _ _ hstep
      rwa [List.append_assoc] at this

/-! ### Between two updates -/

/-- The seconds until the clock shows a second of the day again. -/
def wait (now sec : Int) : Int := if now < sec then sec - now else sec - now + 86400

/-- Whenever the alarm is due after `u`, the clock has gone off by then. -/
def Rtc.Covers (rtc : Rtc) (a : RtAlarm) (u : Int) : Prop :=
  ∀ due, u < due → due % 86400 = a.wktime.daysec → ∃ r, u < r ∧ r ≤ due ∧ rtc.GoesOff r

theorem covers_of_wait {rtc : Rtc} {t : Tm} (ht : t.InDay)
    (hregister : rtc.register = some (t.hour, t.min, t.sec)) {a : RtAlarm} (ha : a.wktime.InDay)
    {u : Int} (hle : wait (u % 86400) t.daysec ≤ wait (u % 86400) a.wktime.daysec) :
    rtc.Covers a u := by
  intro due hlt hdue
  have hb := ht.daysec_bounds
  have hb' := ha.daysec_bounds
  refine ⟨u + wait (u % 86400) t.daysec, ?_, ?_, _, _, _, hregister, ?_⟩
  · unfold wait
    split <;> omega
  · unfold wait at hle ⊢
    split at hle <;> split at hle <;> omega
  · show _ = t.daysec
    unfold wait
    split <;> omega

/-- What holds of the list. -/
structure Alarms.Sane (s : Alarms) : Prop where
  good : ∀ a ∈ s.list, a.Good
  apart : (s.list.map (·.id)).Nodup
  current : ∀ id, s.current = some id → ∃ a ∈ s.list, a.id = id

/-- What holds between two calls: if there is anything to wait for, the clock is set. -/
structure Alarms.Ready (s : Alarms) : Prop extends s.Sane where
  armed : ∀ a ∈ s.list, a.start → s.rtc.Armed
  set : s.current ≠ none → s.rtc.Armed

theorem Alarms.Sane.ready {s : Alarms} (h : s.Sane) (harmed : s.rtc.Armed) : s.Ready :=
  { h with
    armed := fun _ _ _ => harmed
    set := fun _ => harmed }

theorem after_of_mem {list list' : List RtAlarm} (h : List.Forall₂ RtAlarm.After list list') :
    (∀ a' ∈ list', ∃ a ∈ list, a.After a') ∧ (∀ a ∈ list, ∃ a' ∈ list', a.After a') ∧
      list'.map (·.id) = list.map (·.id) := by
  induction h with
  | nil => exact ⟨fun _ h => absurd h List.not_mem_nil, fun _ h => absurd h List.not_mem_nil, rfl⟩
  | @cons a a' rest rest' ha _ ih =>
      obtain ⟨hback, hforth, hids⟩ := ih
      refine ⟨?_, ?_, ?_⟩
      · intro b' hb'
        rcases List.mem_cons.mp hb' with rfl | hb'
        · exact ⟨a, List.mem_cons_self, ha⟩
        · obtain ⟨b, hb, hafter⟩ := hback b' hb'
          exact ⟨b, List.mem_cons_of_mem a hb, hafter⟩
      · intro b hb
        rcases List.mem_cons.mp hb with rfl | hb
        · exact ⟨a', List.mem_cons_self, ha⟩
        · obtain ⟨b', hb', hafter⟩ := hforth b hb
          exact ⟨b', List.mem_cons_of_mem a' hb', hafter⟩
      · rw [List.map_cons, List.map_cons, ha.id, hids]

/-- The first loop leaves the service ready. -/
theorem Alarms.Ready.woken {s : Alarms} (h : s.Ready) {list' : List RtAlarm} {rtc' : Rtc}
    (hafter : List.Forall₂ RtAlarm.After s.list list')
    (hregister : rtc'.register = s.rtc.register) :
    Alarms.Ready { s with list := list', rtc := rtc' } := by
  obtain ⟨hback, hforth, hids⟩ := after_of_mem hafter
  have harmed : s.rtc.Armed → rtc'.Armed := fun ⟨t, ht, hset⟩ => ⟨t, ht, hregister.trans hset⟩
  refine ⟨⟨?_, ?_, ?_⟩, ?_, ?_⟩
  · intro a' ha'
    obtain ⟨a, -, haa'⟩ := hback a' ha'
    exact haa'.good
  · show (list'.map (·.id)).Nodup
    rw [hids]
    exact h.apart
  · intro id hid
    obtain ⟨a, ha, rfl⟩ := h.current id hid
    obtain ⟨a', ha', haa'⟩ := hforth a ha
    exact ⟨a', ha', haa'.id⟩
  · intro a' ha' hstart
    obtain ⟨a, ha, haa'⟩ := hback a' ha'
    exact harmed (h.armed a ha (haa'.start hstart))
  · exact fun hcurrent => harmed (h.set hcurrent)

/-- An alarm is found behind its pointer. -/
theorem Alarms.Sane.find {s : Alarms} (h : s.Sane) {a : RtAlarm} (ha : a ∈ s.list) :
    s.list.find? (·.id = a.id) = some a := by
  cases hfind : s.list.find? (·.id = a.id) with
  | none => exact absurd (List.find?_eq_none.mp hfind a ha) (by simp)
  | some b =>
      have hid := List.find?_some hfind
      rw [List.inj_on_of_nodup_map h.apart (List.mem_of_find?_eq_some hfind) ha
        (of_decide_eq_true hid)]

theorem Alarms.Sane.alarmSetAt {s : Alarms} (h : s.Sane) {a : RtAlarm} (ha : a ∈ s.list) :
    alarmSetAt s (some a.id) = .ok { s with rtc := s.rtc.setTo a } := by
  have hmap : (s.list.map fun b => if b.id = a.id then a else b) = s.list := by
    refine (List.map_congr_left ?_).trans (List.map_id s.list)
    intro b hb
    split
    · exact (List.inj_on_of_nodup_map h.apart hb ha ‹_›).symm
    · rfl
  unfold EleDs.alarmSetAt
  dsimp only
  rw [h.find ha]
  dsimp only
  rw [alarmSet_eq]
  dsimp only
  rw [hmap]

theorem Rtc.Armed.setTo {rtc : Rtc} {a : RtAlarm} (ha : a.Good) (h : a.start ∨ rtc.Armed) :
    (rtc.setTo a).Armed := by
  by_cases hstart : a.start = true
  · exact ⟨a.wktime, ha.inDay hstart, (rtc.setTo_register a).trans (if_pos hstart)⟩
  · obtain ⟨t, ht, hset⟩ := h.resolve_left hstart
    exact ⟨t, ht, ((rtc.setTo_register a).trans (if_neg hstart)).trans hset⟩

/-- Setting the clock to a started alarm. -/
theorem Alarms.Sane.setTo {s : Alarms} (h : s.Sane) {a : RtAlarm} (ha : a ∈ s.list)
    (hstart : a.start) :
    Alarms.Ready { s with rtc := s.rtc.setTo a, current := some a.id } := by
  refine Alarms.Sane.ready ⟨h.good, h.apart, fun id hid => ⟨a, ha, Option.some.inj hid⟩⟩ ?_
  exact .setTo (h.good a ha) (.inl hstart)

/-- Setting it to any, once it is set. -/
theorem Alarms.Ready.setTo {s : Alarms} (h : s.Ready) {a : RtAlarm} (ha : a ∈ s.list)
    (current : Option Nat)
    (hcurrent : ∀ id, current = some id → s.current = some id) :
    Alarms.Ready { s with rtc := s.rtc.setTo a, current := current } where
  good := h.good
  apart := h.apart
  current := fun id hid => h.current id (hcurrent id hid)
  armed := fun b hb hstart => .setTo (h.good a ha) (.inr (h.armed b hb hstart))
  set := fun hne => by
    obtain ⟨id, hid⟩ := Option.ne_none_iff_exists'.mp hne
    refine .setTo (h.good a ha) (.inr (h.set ?_))
    rw [hcurrent id hid]
    exact Option.some_ne_none id

/-- What an update does: it leaves the service ready and the clock set for every alarm, and
calls the daily alarms that are due. -/
structure Updated (s s' : Alarms) (t u : Int) (calls : List Nat) : Prop where
  ready : s'.Ready
  covers : ∀ a ∈ s'.list, a.start → s'.rtc.Covers a u
  keeps : ∀ a ∈ s.list, a.kind = .daily → a ∈ s'.list
  ids : s'.list.map (·.id) = s.list.map (·.id)
  wakes : ∃ rtc, wakeAll s.list (gmtimeR t) s.rtc = .ok (s'.list, rtc, calls)
  current : ∀ id, s'.current = some id →
    s.current = some id ∨ ∃ a ∈ s.list, a.start ∧ a.id = id
  rings : ∀ a ∈ s.list, a.start → a.kind = .daily → a.callback → a.Due (t % 86400) → a.id ∈ calls

/-- The clock is set to the alarm that comes next in the day. -/
theorem Alarms.Ready.next {s : Alarms} (h : s.Ready) {u : Int} {found : AlarmSearch}
    (hfound : Searched (u % 86400) s.list found) (hlt : found.secNext < 86400) :
    ∃ a ∈ s.list, a.start ∧ found.almNext = some a.id ∧
      ∀ b ∈ s.list, b.start → (s.rtc.setTo a).Covers b u := by
  obtain ⟨a, ha, hstart, halm, hpos, hsec⟩ := hfound.next.found hlt
  refine ⟨a, ha, hstart, halm, ?_⟩
  intro b hb hs
  have hbounds := ((h.good a ha).inDay hstart).daysec_bounds
  have hbounds' := ((h.good b hb).inDay hs).daysec_bounds
  have hleast := hfound.next.least b hb hs
  refine covers_of_wait ((h.good a ha).inDay hstart)
    ((s.rtc.setTo_register a).trans (if_pos hstart)) ((h.good b hb).inDay hs) ?_
  unfold wait
  split <;> split <;> omega

/-- If none is left today, it is set to the first of the next day. -/
theorem Alarms.Ready.prev {s : Alarms} (h : s.Ready) {u : Int} {found : AlarmSearch}
    (hfound : Searched (u % 86400) s.list found) (hnext : ¬ found.secNext < 86400)
    (hlt : found.secPrev < 0) :
    ∃ a ∈ s.list, a.start ∧ found.almPrev = some a.id ∧
      ∀ b ∈ s.list, b.start → (s.rtc.setTo a).Covers b u := by
  obtain ⟨a, ha, hstart, halm, hsec⟩ := hfound.prev.found hlt
  refine ⟨a, ha, hstart, halm, ?_⟩
  intro b hb hs
  have hbounds := ((h.good a ha).inDay hstart).daysec_bounds
  have hbounds' := ((h.good b hb).inDay hs).daysec_bounds
  have hnone := hfound.next.least b hb hs
  have hleast := hfound.prev.least b hb hs
  refine covers_of_wait ((h.good a ha).inDay hstart)
    ((s.rtc.setTo_register a).trans (if_pos hstart)) ((h.good b hb).inDay hs) ?_
  unfold wait
  split <;> split <;> omega

/-- If every alarm is due this very second, anything the clock is set to comes first. -/
theorem Alarms.Ready.rest {s : Alarms} (h : s.Ready) {u : Int} {found : AlarmSearch}
    (hfound : Searched (u % 86400) s.list found) (hnext : ¬ found.secNext < 86400)
    (hprev : ¬ found.secPrev < 0) {rtc : Rtc} (hrtc : s.rtc.Armed → rtc.Armed) :
    ∀ b ∈ s.list, b.start → rtc.Covers b u := by
  intro b hb hs
  obtain ⟨t, ht, hset⟩ := hrtc (h.armed b hb hs)
  have hbounds := ht.daysec_bounds
  have hbounds' := ((h.good b hb).inDay hs).daysec_bounds
  have hnone := hfound.next.least b hb hs
  have hleast := hfound.prev.least b hb hs
  refine covers_of_wait ht hset ((h.good b hb).inDay hs) ?_
  unfold wait
  split <;> split <;> omega

/-- A time the clock can have. -/
def OnClock (t : Int) : Prop := 0 ≤ t ∧ t < 86400 * 2147483648

/-- **An update comes back, and does what it should.** -/
theorem Alarms.Ready.update {s : Alarms} (h : s.Ready) {t u : Int} (ht : OnClock t)
    (hu : OnClock u) :
    ∃ s' calls, alarmUpdate s t u = .ok (s', calls) ∧ Updated s s' t u calls := by
  unfold alarmUpdate
  by_cases hempty : s.list = []
  · rw [if_pos hempty]
    have hno : ∀ a, a ∉ s.list := fun a ha => by
      rw [hempty] at ha
      exact List.not_mem_nil ha
    exact ⟨s, [], rfl, h, fun a ha => absurd ha (hno a), fun a ha => absurd ha (hno a), rfl,
      ⟨s.rtc, by rw [hempty]; rfl⟩, fun _ => .inl, fun a ha => absurd ha (hno a)⟩
  rw [if_neg hempty]
  obtain ⟨list', rtc', calls, hwake, hafter, hregister, hcalls⟩ :=
    wakeAll_spec h.good (gmtimeR_valid ht.1 ht.2).dated s.rtc
  rw [gmtimeR_daysec ht.1 ht.2] at hcalls
  have hready := h.woken hafter hregister
  obtain ⟨hback, hforth, hids⟩ := after_of_mem hafter
  have hkeeps : ∀ a ∈ s.list, a.kind = .daily → a ∈ list' := by
    intro a ha hkind
    obtain ⟨a', ha', haa'⟩ := hforth a ha
    rwa [haa'.daily hkind] at ha'
  have hset : ∀ a ∈ list', a.start → ∀ id, some a.id = some id →
      s.current = some id ∨ ∃ b ∈ s.list, b.start ∧ b.id = id := by
    intro a' ha' hstart id hid
    obtain ⟨a, ha, haa'⟩ := hback a' ha'
    exact .inr ⟨a, ha, haa'.start hstart, haa'.id.symm.trans (Option.some.inj hid)⟩
  have hnow : wrap32 (alarmMkdaysec (gmtimeR u)) = u % 86400 := by
    rw [(gmtimeR_valid hu.1 hu.2).dated.inDay.wrap32, gmtimeR_daysec hu.1 hu.2]
  have hfound := foldl_searched (u % 86400) hready.good
  rw [hwake]
  dsimp only [bind, Except.bind] at hfound ⊢
  rw [hnow]
  generalize list'.foldl (searchStep (u % 86400)) ⟨86400, none, 0, none⟩ = found at hfound ⊢
  by_cases hnext : found.secNext < 86400
  · rw [if_pos hnext]
    obtain ⟨a, ha, hstart, halm, hcovers⟩ := hready.next hfound hnext
    rw [halm, hready.alarmSetAt ha]
    exact ⟨_, _, rfl, hready.toSane.setTo ha hstart, hcovers, hkeeps, hids, ⟨rtc', hwake⟩,
      hset a ha hstart, hcalls⟩
  rw [if_neg hnext]
  by_cases hprev : found.secPrev < 0
  · rw [if_pos hprev]
    obtain ⟨a, ha, hstart, halm, hcovers⟩ := hready.prev hfound hnext hprev
    rw [halm, hready.alarmSetAt ha]
    exact ⟨_, _, rfl, hready.toSane.setTo ha hstart, hcovers, hkeeps, hids, ⟨rtc', hwake⟩,
      hset a ha hstart, hcalls⟩
  rw [if_neg hprev]
  cases hcurrent : s.current with
  | none =>
      have hrest := hready.rest hfound hnext hprev fun harmed : rtc'.Armed => harmed
      rw [hcurrent] at hready
      exact ⟨_, _, rfl, hready, hrest, hkeeps, hids, ⟨rtc', hwake⟩,
        (fun _ hid => nomatch hid), hcalls⟩
  | some id =>
      obtain ⟨a, ha, rfl⟩ := hready.current id hcurrent
      have hrest := hready.rest hfound hnext hprev fun harmed =>
        Rtc.Armed.setTo (hready.good a ha) (.inr harmed)
      have hsetAt := hready.alarmSetAt ha
      rw [hcurrent] at hsetAt
      dsimp only
      rw [hsetAt]
      -- It stays the one that is set, or none is.
      have hsame : ∀ {started : Bool} id, (if started then some a.id else none) = some id →
          s.current = some id := by
        intro started id hid
        split at hid
        · exact hcurrent.trans hid
        · cases hid
      exact ⟨_, _, rfl, hready.setTo ha _ hsame, hrest, hkeeps, hids, ⟨rtc', hwake⟩,
        fun id hid => .inl (hsame id hid), hcalls⟩

end EleDs
