/-
One turn of the parser thread.

The states `CRS_DATA` and `CRS_FINISH` are taken apart first: `settle` counts a packet
and `finish` ends a transfer.  `Turn` then lists everything a turn can do to the device,
and `turn_cases` says that the list is complete.  Whatever is said about runs is read off
that list.
-/
import EleDs.Lib.Machine
import EleDs.Proofs.Crc
import EleDs.Proofs.Header

namespace EleDs

open CMem CJson Machine

/-! ### Clearing and finishing -/

section Clear

variable (d : Device)

@[simp] theorem clearClientInfo_deviceCfg : (clearClientInfo d).deviceCfg = d.deviceCfg := by
  by_cases h : d.recvInfo.updateFileFd > 0 <;> simp [clearClientInfo, closeFd, h]

@[simp] theorem clearClientInfo_fs : (clearClientInfo d).fs = d.fs := by
  by_cases h : d.recvInfo.updateFileFd > 0 <;> simp [clearClientInfo, closeFd, h]

/-- Nothing is under way. -/
structure Idle (d : Device) : Prop where
  recvState : d.recvInfo.recvState = .crsNone
  datalen : d.recvInfo.datalen = 0
  recvLen : d.recvInfo.recvLen = 0
  updateFileName : d.recvInfo.updateFileName = Buf.zero 256
  updateFileFd : d.recvInfo.updateFileFd ≤ 0

theorem Idle.not_receiving {d : Device} (h : Idle d) : d.recvInfo.recvState ≠ .crsData := by
  rw [h.recvState]
  decide

theorem clearClientInfo_idle : Idle (clearClientInfo d) := by
  by_cases h : d.recvInfo.updateFileFd > 0
  · constructor <;> simp [clearClientInfo, closeFd, h]
  · constructor <;> simp [clearClientInfo, h]
    omega

theorem clearClientInfo_clearClientInfo :
    clearClientInfo (clearClientInfo d) = clearClientInfo d := by
  by_cases h : d.recvInfo.updateFileFd > 0 <;> simp [clearClientInfo, closeFd, h]

/-- The checksum `crcfile` comes to. -/
def crcOf (fs : FileSystem) (name : Bytes) (r : CrcReads) : UInt32 :=
  (crcfile fs name r).toOption.getD 0

/-- The end of a transfer. -/
def finish (o : Outcomes) : Device :=
  if d.recvInfo.curparseType = .servermsgClientupdate then
    { clearClientInfo d with trace := (clearClientInfo d).trace ++
      [.comparedCrc (crcOf d.fs d.recvInfo.updateFileName.str o.crc) d.recvInfo.updateFileCrc] }
  else clearClientInfo d

theorem crsFinish_eq (o : Outcomes) : crsFinish d o = .ok (.leave 0 (finish d o)) := by
  unfold crsFinish finish
  split
  · obtain ⟨crc, hcrc⟩ := crcfile_total d.fs d.recvInfo.updateFileName.str o.crc
    simp [hcrc, crcOf, Except.toOption, bind, Except.bind]
  · rfl

theorem finish_idle (o : Outcomes) : Idle (finish d o) := by
  have h := clearClientInfo_idle d
  unfold finish
  split
  · exact ⟨h.recvState, h.datalen, h.recvLen, h.updateFileName, h.updateFileFd⟩
  · exact h

@[simp] theorem finish_deviceCfg (o : Outcomes) : (finish d o).deviceCfg = d.deviceCfg := by
  unfold finish
  split <;> simp

end Clear

theorem recvLoop_finish (cj : CJsonLib) (b : Bytes) (len : Nat) (o : Outcomes) (fuel : Nat)
    (d : Device) : recvLoop cj b len o (fuel + 1) (d.setState .crsFinish) = .ok (0, finish d o) := by
  rw [recvLoop]
  simp only [recvStep, Device.setState]
  rw [crsFinish_eq]
  rfl

/-! ### A packet of a transfer -/

/-- The counters after a packet of `len` bytes. -/
def Device.count (d : Device) (len : Nat) : Device :=
  { d with recvInfo :=
    { d.recvInfo with
      recvLen := wrap32 (d.recvInfo.recvLen + len)
      datalen := wrap32 (d.recvInfo.datalen - len) } }

/-- Count the packet, and finish if it was the last. -/
def settle (d : Device) (len : Nat) (o : Outcomes) : Int × Device :=
  if wrap32 (d.recvInfo.datalen - len) ≤ 0 then (0, finish (d.count len) o)
  else (2, d.count len)

theorem advance_settle (cj : CJsonLib) (b : Bytes) (len : Nat) (o : Outcomes) (fuel : Nat)
    (d : Device) :
    (match advance d len with
      | .leave ret d => Except.ok (ret, d)
      | .again d => recvLoop cj b len o (fuel + 1) d) = .ok (settle d len o) := by
  unfold advance settle
  by_cases h : wrap32 (d.recvInfo.datalen - len) ≤ 0
  · simp only [h, if_true]
    exact recvLoop_finish cj b len o fuel (d.count len)
  · simp only [h, if_false]
    rfl

/-- The weather after a copy, saved. -/
def Device.storeWeather (cj : CJsonLib) (d : Device) (w : Buf weatherArraySize) (o : SaveOutcome) :
    Device :=
  { d with
    deviceCfg := { d.deviceCfg with weatherInfo := w }
    fs := (writeEleDsCfg cj d.fs { d.deviceCfg with weatherInfo := w } o).2
    trace := d.trace ++
      [.savedCfg (writeEleDsCfg cj d.fs { d.deviceCfg with weatherInfo := w } o).1] }

/-- The update file after a packet, opened if it was not, and whether that went well. -/
def Device.storeUpdate (d : Device) (data : Bytes) (o : Outcomes) : Bool × Device :=
  let d := if d.recvInfo.updateFileFd ≤ 0 then openUpdateFile d o.openRet else d
  if d.recvInfo.updateFileFd < 0 then (false, d)
  else
    let (writeLen, d) := writeFd d d.recvInfo.updateFileFd data o.write
    (decide (0 ≤ writeLen), d)

/-- What holds of a device whatever is opened and written holds after a packet. -/
theorem storeUpdate_rule {P : Device → Prop} {d : Device} (data : Bytes) (o : Outcomes) (h : P d)
    (hopen : d.recvInfo.updateFileFd ≤ 0 → P (openUpdateFile d o.openRet))
    (hwrite : ∀ d, P d → P (writeFd d d.recvInfo.updateFileFd data o.write).2) :
    P (d.storeUpdate data o).2 := by
  have hopened : P (if d.recvInfo.updateFileFd ≤ 0 then openUpdateFile d o.openRet else d) := by
    split
    · rename_i hfd
      exact hopen hfd
    · exact h
  unfold Device.storeUpdate
  generalize (if d.recvInfo.updateFileFd ≤ 0 then openUpdateFile d o.openRet else d) = opened
    at hopened ⊢
  by_cases hfd : opened.recvInfo.updateFileFd < 0
  · simp only [hfd, if_true]
    exact hopened
  · simp only [hfd, if_false]
    exact hwrite _ hopened

section Data

variable (cj : CJsonLib) {d : Device} (b : Bytes) (len : Nat) (o : Outcomes)

theorem crsData_weather (hpos : 0 < d.recvInfo.datalen)
    (ht : d.recvInfo.curparseType = .servermsgWeather) (h0 : 0 ≤ d.recvInfo.recvLen) :
    crsData cj d b len o
      = d.deviceCfg.weatherInfo.memcpy d.recvInfo.recvLen.toNat (b.take len) >>= fun w =>
          .ok (advance (d.storeWeather cj w o.save) len) := by
  rw [crsData, if_pos hpos, if_pos ht, if_neg (Int.not_lt.mpr h0)]
  rfl

theorem crsData_update (hpos : 0 < d.recvInfo.datalen)
    (ht : d.recvInfo.curparseType = .servermsgClientupdate) :
    crsData cj d b len o
      = .ok (if (d.storeUpdate (b.take len) o).1 then advance (d.storeUpdate (b.take len) o).2 len
        else .leave (-3) (d.storeUpdate (b.take len) o).2) := by
  rw [crsData, if_pos hpos, if_neg (by rw [ht]; decide), if_pos ht]
  simp only [Device.storeUpdate]
  generalize (if d.recvInfo.updateFileFd ≤ 0 then openUpdateFile d o.openRet else d) = opened
  by_cases hfd : opened.recvInfo.updateFileFd < 0
  · rw [if_pos hfd, if_pos hfd]
    rfl
  · rw [if_neg hfd, if_neg hfd]
    generalize writeFd opened opened.recvInfo.updateFileFd (b.take len) o.write = written
    by_cases hw : written.1 < 0
    · rw [if_pos hw, if_neg (by simp; omega)]
    · rw [if_neg hw, if_pos (by simp; omega)]

theorem crsData_otherType (hpos : 0 < d.recvInfo.datalen)
    (hw : d.recvInfo.curparseType ≠ .servermsgWeather)
    (hu : d.recvInfo.curparseType ≠ .servermsgClientupdate) :
    crsData cj d b len o = .ok (.leave (-3) d) := by
  rw [crsData, if_pos hpos, if_neg hw, if_neg hu]

variable (hs : d.recvInfo.recvState = .crsData)

include hs

theorem parseRecvData_crsData : parseRecvData cj d b len o
    = crsData cj d b len o >>= fun
        | .leave ret d => .ok (ret, d)
        | .again d => recvLoop cj b len o 3 d := by
  have hstep : recvStep cj d b len o = crsData cj d b len o := by
    simp only [recvStep, hs]
  rw [← hstep]
  rfl

theorem parseRecvData_drained (h : d.recvInfo.datalen ≤ 0) :
    parseRecvData cj d b len o = .ok (0, finish d o) := by
  rw [parseRecvData_crsData cj b len o hs, crsData, if_neg (Int.not_lt.mpr h)]
  exact recvLoop_finish cj b len o 2 d

theorem parseRecvData_weather (hpos : 0 < d.recvInfo.datalen)
    (ht : d.recvInfo.curparseType = .servermsgWeather) (h0 : 0 ≤ d.recvInfo.recvLen) :
    parseRecvData cj d b len o
      = d.deviceCfg.weatherInfo.memcpy d.recvInfo.recvLen.toNat (b.take len) >>= fun w =>
          .ok (settle (d.storeWeather cj w o.save) len o) := by
  rw [parseRecvData_crsData cj b len o hs, crsData_weather cj b len o hpos ht h0]
  cases d.deviceCfg.weatherInfo.memcpy d.recvInfo.recvLen.toNat (b.take len) with
  | error e => rfl
  | ok w => exact advance_settle cj b len o 2 _

theorem parseRecvData_weather_negative (hpos : 0 < d.recvInfo.datalen)
    (ht : d.recvInfo.curparseType = .servermsgWeather) (h0 : d.recvInfo.recvLen < 0) :
    parseRecvData cj d b len o = .error .writeOverrun := by
  rw [parseRecvData_crsData cj b len o hs, crsData, if_pos hpos, if_pos ht, if_pos h0]
  rfl

theorem parseRecvData_update (hpos : 0 < d.recvInfo.datalen)
    (ht : d.recvInfo.curparseType = .servermsgClientupdate) :
    parseRecvData cj d b len o
      = .ok (if (d.storeUpdate (b.take len) o).1 then
          settle (d.storeUpdate (b.take len) o).2 len o
        else (-3, (d.storeUpdate (b.take len) o).2)) := by
  rw [parseRecvData_crsData cj b len o hs, crsData_update cj b len o hpos ht]
  split
  · exact advance_settle cj b len o 2 _
  · rfl

theorem parseRecvData_otherType (hpos : 0 < d.recvInfo.datalen)
    (hw : d.recvInfo.curparseType ≠ .servermsgWeather)
    (hu : d.recvInfo.curparseType ≠ .servermsgClientupdate) :
    parseRecvData cj d b len o = .ok (-3, d) := by
  rw [parseRecvData_crsData cj b len o hs, crsData_otherType cj b len o hpos hw hu]
  rfl

end Data

/-! ### One turn of the thread -/

/-- Everything a turn can do to the device, with packet `i` in the buffer `b`. -/
inductive Turn (cj : CJsonLib) (b : Bytes) (i : Input) (d : Device) : Device → Prop where
  | refused (hs : d.recvInfo.recvState = .crsNone) : Turn cj b i d (clearClientInfo d)
  | memo (text : Bytes) (memo : Buf memoSize) (hs : d.recvInfo.recvState = .crsNone)
      (hread : readHeader cj (cstr b) = .ok (.memo text))
      (hcopy : d.deviceCfg.memo.memcpy 0 (text ++ [0]) = .ok memo) :
      Turn cj b i d (clearClientInfo (d.withMemo memo))
  | weather (n : Int) (hs : d.recvInfo.recvState = .crsNone)
      (hread : readHeader cj (cstr b) = .ok (.weather n)) : Turn cj b i d (d.expectWeather n)
  | update (info : ClientSoftwareUpdateinfo) (name : Buf 256)
      (hs : d.recvInfo.recvState = .crsNone)
      (hread : readHeader cj (cstr b) = .ok (.update info)) :
      Turn cj b i d (d.expectUpdate info name)
  | drained (hs : d.recvInfo.recvState = .crsData) (h : d.recvInfo.datalen ≤ 0) :
      Turn cj b i d (finish d i.outcomes)
  | weatherData (w : Buf weatherArraySize) (hs : d.recvInfo.recvState = .crsData)
      (hpos : 0 < d.recvInfo.datalen) (ht : d.recvInfo.curparseType = .servermsgWeather)
      (hcopy : d.deviceCfg.weatherInfo.memcpy d.recvInfo.recvLen.toNat i.packet.data = .ok w) :
      Turn cj b i d
        (settle (d.storeWeather cj w i.outcomes.save) i.packet.data.length i.outcomes).2
  | updateData (hs : d.recvInfo.recvState = .crsData) (hpos : 0 < d.recvInfo.datalen)
      (ht : d.recvInfo.curparseType = .servermsgClientupdate) :
      Turn cj b i d (settle (d.storeUpdate i.packet.data i.outcomes).2
        i.packet.data.length i.outcomes).2
  | updateFailed (hs : d.recvInfo.recvState = .crsData)
      (ht : d.recvInfo.curparseType = .servermsgClientupdate) :
      Turn cj b i d (clearClientInfo (d.storeUpdate i.packet.data i.outcomes).2)
  | otherType (hs : d.recvInfo.recvState = .crsData) : Turn cj b i d (clearClientInfo d)

theorem settle_nonneg (d : Device) (len : Nat) (o : Outcomes) : ¬ (settle d len o).1 < 0 := by
  unfold settle
  split <;> simp

/-- What the thread does once the machine is done with a packet. -/
theorem threadParseRecvData_of_ok {cj : CJsonLib} {p : Parser} {i : Input} {r : Int × Device}
    (h : parseRecvData cj p.dev (receive p.buffer i.packet).data i.packet.data.length i.outcomes
      = .ok r) :
    threadParseRecvData cj p i = .ok
      { dev := if r.1 < 0 then clearClientInfo r.2 else r.2
        buffer := receive p.buffer i.packet } := by
  unfold threadParseRecvData
  simp only [h, bind, Except.bind]

theorem threadParseRecvData_ok {cj : CJsonLib} {p p' : Parser} {i : Input}
    (h : threadParseRecvData cj p i = .ok p') :
    ∃ r, parseRecvData cj p.dev (receive p.buffer i.packet).data i.packet.data.length i.outcomes
        = .ok r ∧
      p' = { dev := if r.1 < 0 then clearClientInfo r.2 else r.2
             buffer := receive p.buffer i.packet } := by
  cases hr : parseRecvData cj p.dev (receive p.buffer i.packet).data i.packet.data.length
      i.outcomes with
  | error e =>
      unfold threadParseRecvData at h
      simp only [hr, bind, Except.bind] at h
      cases h
  | ok r =>
      rw [threadParseRecvData_of_ok hr] at h
      cases h
      exact ⟨r, rfl, rfl⟩

/-- **A turn that ends does one of the things on the list.** -/
theorem turn_cases {cj : CJsonLib} {p p' : Parser} {i : Input}
    (hstate : p.dev.recvInfo.recvState = .crsNone ∨ p.dev.recvInfo.recvState = .crsData)
    (h : threadParseRecvData cj p i = .ok p') :
    Turn cj (receive p.buffer i.packet).data i p.dev p'.dev := by
  obtain ⟨r, hr, rfl⟩ := threadParseRecvData_ok h
  rcases hstate with hs | hs
  · -- a header
    rw [parseRecvData_crsNone cj _ _ _ hs] at hr
    obtain ⟨-, -, hr⟩ := except_bind_ok hr
    obtain ⟨header, hread, hr⟩ := except_bind_ok hr
    cases header with
    | noJson =>
        cases hr
        exact .refused hs
    | unknown =>
        cases hr
        simp only [show (-2 : Int) < 0 by decide, if_true, clearClientInfo_clearClientInfo]
        exact .refused hs
    | memo text =>
        obtain ⟨memo, hcopy, hr⟩ := except_bind_ok hr
        cases hr
        exact .memo text memo hs hread hcopy
    | weather n =>
        cases hr
        exact .weather n hs hread
    | update info =>
        obtain ⟨name, -, hr⟩ := except_bind_ok hr
        cases hr
        exact .update info name hs hread
  · -- a packet of a transfer
    by_cases hpos : 0 < p.dev.recvInfo.datalen
    · by_cases hw : p.dev.recvInfo.curparseType = .servermsgWeather
      · by_cases h0 : 0 ≤ p.dev.recvInfo.recvLen
        · rw [parseRecvData_weather cj _ _ _ hs hpos hw h0, receive_take] at hr
          obtain ⟨w, hcopy, hr⟩ := except_bind_ok hr
          cases hr
          simp only [settle_nonneg, if_false]
          exact .weatherData w hs hpos hw hcopy
        · rw [parseRecvData_weather_negative cj _ _ _ hs hpos hw (by omega)] at hr
          cases hr
      · by_cases hu : p.dev.recvInfo.curparseType = .servermsgClientupdate
        · rw [parseRecvData_update cj _ _ _ hs hpos hu, receive_take] at hr
          cases hr
          split
          · simp only [settle_nonneg, if_false]
            exact .updateData hs hpos hu
          · exact .updateFailed hs hu
        · rw [parseRecvData_otherType cj _ _ _ hs hpos hw hu] at hr
          cases hr
          exact .otherType hs
    · rw [parseRecvData_drained cj _ _ _ hs (by omega)] at hr
      cases hr
      exact .drained hs (by omega)

end EleDs
