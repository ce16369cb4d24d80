/-
Which polls leave a sample behind.

Three of the four ways a poll can go end as they should: a good frame is decoded, and a
read that fails or finds the sensor busy leaves the last sample alone and is reported.
The fourth is a command that does not reach the sensor.  `gzp6816d_readsls` then returns
success without having read anything, and the zeros of its caller's buffer are decoded
(`getGzp6816dData_unsent`).  So the state holds real samples only in the runs in which
every command is sent (`onlySamples_iff`).
-/
import Mathlib.Data.List.Induction
import EleDs.Proofs.Gzp6816d
import EleDs.Model.Sensors

namespace EleDs

open CMem

/-- The poll received a whole frame, and the sensor was not busy. -/
def Poll.good (p : Poll) : Bool := p.transfer == 1 && p.bus && p.recv == 6 && !busy p.frame

/-- The last sample of some polls. -/
def lastSample (initial : Gzp6816dData) (polls : List Poll) : Gzp6816dData :=
  match (polls.filter Poll.good).getLast? with
  | none => initial
  | some p => calRawdata p.frame

/-- The sensor is there and can be opened. -/
def Poll.Reaches (p : Poll) : Prop := p.found = true ∧ p.opens = true

/-- After every poll the state holds the last sample, and a poll succeeds just when it has
brought one. -/
def OnlySamples (s : SensorState) (polls : List Poll) : Prop :=
  ∀ before p after, polls = before ++ p :: after →
    ((getGzp6816dData p (polled s before).gzp6816d).1 = RT_EOK ↔ p.good = true) ∧
    (polled s (before ++ [p])).gzp6816d = lastSample s.gzp6816d (before ++ [p])

/-! ### One poll -/

theorem gzp6816dReadsls_good {p : Poll} (h : p.good = true) (buf : Buf 6) :
    gzp6816dReadsls p buf = (RT_EOK, p.frame) := by
  simp only [Poll.good, Bool.and_eq_true, beq_iff_eq, Bool.not_eq_true'] at h
  obtain ⟨⟨⟨hsent, hbus⟩, hrecv⟩, hbusy⟩ := h
  have hcmd : writeCmd p = RT_EOK := if_pos hsent
  have hread : readBytes p buf = (RT_EOK, p.frame) := by simp [readBytes, hbus, hrecv]
  rw [gzp6816dReadsls, if_pos hcmd, hread]
  simp [hbusy]

/-- A command is sent and no sample comes back: that is an error. -/
theorem gzp6816dReadsls_bad {p : Poll} (hsent : p.transfer = 1) (h : ¬ p.good = true)
    (buf : Buf 6) : (gzp6816dReadsls p buf).1 < 0 := by
  have hcmd : writeCmd p = RT_EOK := if_pos hsent
  rw [gzp6816dReadsls, if_pos hcmd]
  by_cases hread : p.bus = true ∧ p.recv = 6
  · have hbusy : busy p.frame = true := by
      simpa [Poll.good, hsent, hread.1, hread.2] using h
    have hread : readBytes p buf = (RT_EOK, p.frame) := by simp [readBytes, hread.1, hread.2]
    simp [hread, hbusy, RT_EBUSY]
  · have hread : (readBytes p buf).1 = -RT_ERROR := by
      unfold readBytes
      split_ifs with hbus hrecv
      · exact absurd ⟨hbus, hrecv⟩ hread
      · rfl
      · rfl
    simp [hread, RT_ERROR, RT_EOK]

/-- A command is not sent: that is none, and nothing is read. -/
theorem gzp6816dReadsls_unsent {p : Poll} (hsent : p.transfer ≠ 1) (buf : Buf 6) :
    gzp6816dReadsls p buf = (RT_EOK, buf) := by
  have hcmd : writeCmd p = -RT_ERROR := if_neg hsent
  rw [gzp6816dReadsls, if_neg (by rw [hcmd]; decide)]

theorem getGzp6816dData_ok {p : Poll} (hp : p.Reaches) {frame : Buf 6}
    (h : gzp6816dReadsls p (Buf.zero 6) = (RT_EOK, frame)) (data : Gzp6816dData) :
    getGzp6816dData p data = (RT_EOK, calRawdata frame) := by
  simp [getGzp6816dData, hp.1, hp.2, gzp6816dFetchData, h, gzp6816dDataSize]

theorem getGzp6816dData_error {p : Poll} (hp : p.Reaches)
    (h : (gzp6816dReadsls p (Buf.zero 6)).1 < 0) (data : Gzp6816dData) :
    (getGzp6816dData p data).1 ≠ RT_EOK ∧ (getGzp6816dData p data).2 = data := by
  have hfetch : gzp6816dFetchData p data gzp6816dDataSize
      = ((gzp6816dReadsls p (Buf.zero 6)).1, data) := by
    rw [gzp6816dFetchData, if_neg (Nat.lt_irrefl _)]
    simp only
    rw [if_neg (by unfold RT_EOK; omega)]
  have hget : getGzp6816dData p data = ((gzp6816dReadsls p (Buf.zero 6)).1, data) := by
    simp only [getGzp6816dData, hp.1, hp.2, hfetch]
    simp only [Bool.not_true, Bool.false_eq_true, if_false]
    rw [if_neg (by omega)]
  rw [hget]
  exact ⟨by unfold RT_EOK; omega, rfl⟩

/-- **A poll whose command is sent brings a sample or changes nothing.** -/
theorem getGzp6816dData_sent {p : Poll} (hp : p.Reaches) (hsent : p.transfer = 1)
    (data : Gzp6816dData) :
    if p.good then getGzp6816dData p data = (RT_EOK, calRawdata p.frame)
    else (getGzp6816dData p data).1 ≠ RT_EOK ∧ (getGzp6816dData p data).2 = data := by
  split
  · rename_i hgood
    exact getGzp6816dData_ok hp (gzp6816dReadsls_good hgood _) data
  · rename_i hgood
    exact getGzp6816dData_error hp (gzp6816dReadsls_bad hsent hgood _) data

/-- A command that is not sent is a success, and its sample is all zeros. -/
theorem getGzp6816dData_unsent {p : Poll} (hp : p.Reaches) (hsent : p.transfer ≠ 1)
    (data : Gzp6816dData) : getGzp6816dData p data = (RT_EOK, calRawdata (Buf.zero 6)) :=
  getGzp6816dData_ok hp (gzp6816dReadsls_unsent hsent _) data

theorem getAllSensorData_gzp6816d {s : SensorState} (hs : s.initFlag = true) (p : Poll) :
    (getAllSensorData s p).2.gzp6816d = (getGzp6816dData p s.gzp6816d).2 := by
  rw [getAllSensorData, if_neg (by rw [hs]; decide)]
  cases p.sht30 <;> rfl

theorem getAllSensorData_initFlag (s : SensorState) (p : Poll) :
    (getAllSensorData s p).2.initFlag = s.initFlag := by
  unfold getAllSensorData
  split
  · rfl
  · cases p.sht30 <;> rfl

/-! ### All polls -/

theorem polled_initFlag (s : SensorState) (polls : List Poll) :
    (polled s polls).initFlag = s.initFlag := by
  induction polls generalizing s with
  | nil => rfl
  | cons p rest ih =>
      rw [polled, List.foldl_cons]
      exact (ih _).trans (getAllSensorData_initFlag s p)

theorem polled_snoc {s : SensorState} (hs : s.initFlag = true) (polls : List Poll) (p : Poll) :
    (polled s (polls ++ [p])).gzp6816d = (getGzp6816dData p (polled s polls).gzp6816d).2 := by
  have hinit := (polled_initFlag s polls).trans hs
  rw [polled, List.foldl_append, List.foldl_cons, List.foldl_nil]
  exact getAllSensorData_gzp6816d hinit p

theorem lastSample_snoc (initial : Gzp6816dData) (polls : List Poll) (p : Poll) :
    lastSample initial (polls ++ [p])
      = if p.good then calRawdata p.frame else lastSample initial polls := by
  unfold lastSample
  rw [List.filter_append]
  by_cases hgood : p.good = true
  · simp [hgood]
  · simp [hgood]

/-- The state follows the samples as long as every command is sent. -/
theorem polled_eq_lastSample {s : SensorState} (hs : s.initFlag = true) {polls : List Poll}
    (hreach : ∀ p ∈ polls, p.Reaches) (hsent : ∀ p ∈ polls, p.transfer = 1) :
    (polled s polls).gzp6816d = lastSample s.gzp6816d polls := by
  induction polls using List.reverseRecOn with
  | nil => rfl
  | append_singleton polls p ih =>
      have hp : p ∈ polls ++ [p] := by simp
      have hold := ih (fun q hq => hreach q (by simp [hq])) fun q hq => hsent q (by simp [hq])
      have hone := getGzp6816dData_sent (hreach p hp) (hsent p hp) (polled s polls).gzp6816d
      rw [polled_snoc hs, lastSample_snoc]
      split at hone
      · rename_i hgood
        rw [if_pos hgood, hone]
      · rename_i hgood
        rw [if_neg hgood, hone.2, hold]

/-- **Only real samples reach the state just in the runs in which every command is sent.** -/
theorem onlySamples_iff (s : SensorState) (polls : List Poll) (hs : s.initFlag = true)
    (hreach : ∀ p ∈ polls, p.Reaches) :
    OnlySamples s polls ↔ ∀ p ∈ polls, p.transfer = 1 := by
  constructor
  · intro hall p hp
    by_contra hsent
    obtain ⟨before, after, hsplit⟩ := List.append_of_mem hp
    obtain ⟨hret, -⟩ := hall before p after hsplit
    rw [getGzp6816dData_unsent (hreach p hp) hsent] at hret
    have hgood := hret.mp rfl
    simp [Poll.good, hsent] at hgood
  · intro hsent before p after hsplit
    have hmem : ∀ q ∈ before ++ [p], q ∈ polls := by
      intro q hq
      rw [hsplit]
      rcases List.mem_append.mp hq with h | h
      · simp [h]
      · simp [List.mem_singleton.mp h]
    have hp := hmem p (by simp)
    refine ⟨?_, polled_eq_lastSample hs (fun q hq => hreach q (hmem q hq))
      fun q hq => hsent q (hmem q hq)⟩
    have hone := getGzp6816dData_sent (hreach p hp) (hsent p hp) (polled s before).gzp6816d
    split at hone
    · rename_i hgood
      simp [hone, hgood]
    · rename_i hgood
      simp [hone.1, hgood]

/-- The sensor before the first poll. -/
def freshSensors : SensorState := ⟨true, ⟨0, 0, 0, 0⟩, (0, 0)⟩

/-- The poll that receives the driver's test frame. -/
def testPoll : Poll := ⟨true, true, 1, true, 6, testFrame.bytes, none⟩

/-- A poll that is too early for its frame. -/
def busyPoll : Poll := { testPoll with frame := ⟨[0x24, 0, 0, 0, 0, 0], rfl⟩ }

/-- A sample and then a busy sensor. -/
theorem onlySamples_busy : OnlySamples freshSensors [testPoll, busyPoll] :=
  (onlySamples_iff freshSensors [testPoll, busyPoll] rfl (by simp [Poll.Reaches, testPoll, busyPoll])).mpr
    (by simp [testPoll, busyPoll])

/-- A command that is not acknowledged: the poll succeeds, and the sample before it is
replaced by the decoding of six zeros. -/
theorem onlySamples_refuted :
    (∀ p ∈ [testPoll, { testPoll with transfer := -255 }], p.Reaches) ∧
    (getGzp6816dData { testPoll with transfer := -255 } (calRawdata testFrame.bytes)).1 = RT_EOK ∧
    (polled freshSensors [testPoll, { testPoll with transfer := -255 }]).gzp6816d
      = calRawdata (Buf.zero 6) ∧
    ¬ OnlySamples freshSensors [testPoll, { testPoll with transfer := -255 }] := by
  refine ⟨by simp [Poll.Reaches, testPoll], rfl, rfl, ?_⟩
  intro hall
  obtain ⟨hret, -⟩ := hall [testPoll] { testPoll with transfer := -255 } [] rfl
  exact absurd (hret.mp rfl) (by decide)

end EleDs
