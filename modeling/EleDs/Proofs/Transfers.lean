/-
Where a transfer comes from, and how it ends.

While a transfer is under way, the receive state still holds what its header said: the
checksum and the name of the file.  `OpenedBy` names the header, and `Origin` is what
is known of the state because of it.

Two promises are then looked at, that a corrupted update is refused and that a packet
that cannot be stored ends the transfer.  The machine computes the checksum and drops
the verdict, and it takes a short `write` and a failed save for good ones; the results
say for exactly which packets that makes no difference.
-/
import EleDs.Proofs.Descriptors
import EleDs.Proofs.Update

namespace EleDs

open CMem CJson Machine

/-! ### The header of an update -/

/-- The `packinfo` of the document. -/
def packinfoOf (cj : CJsonLib) (text : Bytes) : Option CJson := do
  let root ← cj.parse text
  root.getObjectItem (ascii "packinfo")

/-- The checksum the header announces. -/
def announcedCrc (cj : CJsonLib) (text : Bytes) : Option ℚ := do
  let packinfo ← packinfoOf cj text
  let crc ← packinfo.getObjectItem (ascii "crc")
  some crc.valuedouble

/-- The build it is to be filed under. -/
def announcedBuild (cj : CJsonLib) (text : Bytes) : Option Bytes := do
  let packinfo ← packinfoOf cj text
  let build ← packinfo.getObjectItem (ascii "buildinfo")
  build.valuestring

/-- What `parse_json_data` keeps of the header of an update. -/
theorem parseJsonData_update (cj : CJsonLib) (s : Bytes) (n : Nat) :
    Ensures (fun r => ∀ info, r.2.data = .csInfo info →
        (∃ crc, announcedCrc cj (cstr s) = some crc ∧ info.crc = doubleToUInt32 crc) ∧
        ∃ build, announcedBuild cj (cstr s) = some build ∧
          info.buildinfo = (Buf.zero 32).strncpy build 31 buildinfo_fits)
      (parseJsonData cj s n) := by
  unfold parseJsonData
  split
  · exact ensures_ok (by simp)
  · split
    · exact ensures_ok (by simp)
    · rename_i root hroot
      split
      · exact ensures_ok (by simp)
      · rename_i packinfo hpack
        have hinfo : packinfoOf cj (cstr s) = some packinfo := by simp [packinfoOf, hroot, hpack]
        refine ensures_bind fun len _ => ensures_bind fun packcnt _ => ensures_bind fun type _ => ?_
        simp only
        split
        · exact ensures_bind fun text _ => ensures_ok (by simp)
        · exact ensures_bind fun days _ => ensures_ok (by simp)
        · split
          · rename_i hcrc _ hbuild
            split
            · intro r hr
              cases hr
            · rename_i build hstring
              refine ensures_ok fun info h => ?_
              cases h
              refine ⟨⟨_, ?_, rfl⟩, build, ?_, rfl⟩
              · simp [announcedCrc, hinfo, hcrc]
              · simp [announcedBuild, hinfo, hbuild, hstring]
          · exact ensures_ok (by simp)
        · exact ensures_ok (by simp)

theorem readHeader_update_inv {cj : CJsonLib} {s : Bytes} {info : ClientSoftwareUpdateinfo}
    (h : readHeader cj s = .ok (.update info)) :
    (∃ crc, announcedCrc cj (cstr s) = some crc ∧ info.crc = doubleToUInt32 crc) ∧
    ∃ build, announcedBuild cj (cstr s) = some build ∧
      info.buildinfo = (Buf.zero 32).strncpy build 31 buildinfo_fits := by
  unfold readHeader at h
  split at h
  · cases h
  · obtain ⟨r, hr, hmsg⟩ := except_bind_ok h
    refine parseJsonData_update cj s _ r hr info ?_
    simp only at hmsg
    split at hmsg
    · cases hmsg
    · split at hmsg <;> cases hmsg
      assumption

/-! ### The header behind a transfer -/

/-- The packets `past` took the thread from `start` to `p` inside a transfer, and `text` is
the header that opened it. -/
inductive OpenedBy (cj : CJsonLib) (start : Parser) (text : Bytes) :
    List Input → Parser → Prop where
  | header {past : List Input} {p p' : Parser} {i : Input} :
      Run (Turns cj) start past p → p.dev.recvInfo.recvState = .crsNone → Turns cj p i p' →
      p'.dev.recvInfo.recvState = .crsData →
      cstr (receive p.buffer i.packet).data = text → OpenedBy cj start text (past ++ [i]) p'
  | packet {past : List Input} {p p' : Parser} {i : Input} :
      OpenedBy cj start text past p → Turns cj p i p' →
      p'.dev.recvInfo.recvState = .crsData → OpenedBy cj start text (past ++ [i]) p'

/-- What the receive state of an update owes to its header. -/
def Origin (cj : CJsonLib) (d : Device) (text : Bytes) : Prop :=
  d.recvInfo.curparseType = .servermsgClientupdate →
    (∃ info, readHeader cj text = .ok (.update info)) ∧
    ∃ crc build, announcedCrc cj text = some crc ∧ announcedBuild cj text = some build ∧
      d.recvInfo.updateFileCrc = doubleToUInt32 crc ∧
      d.recvInfo.updateFileName.str = updatePath ((cstr build).take 31)

/-- A turn that stays inside a transfer keeps what the header said. -/
theorem Turn.keeps {cj : CJsonLib} {b : Bytes} {i : Input} {d d' : Device} (h : Turn cj b i d d')
    (hs : d.recvInfo.recvState = .crsData) (hs' : d'.recvInfo.recvState = .crsData) :
    d'.recvInfo.curparseType = d.recvInfo.curparseType ∧
    d'.recvInfo.updateFileCrc = d.recvInfo.updateFileCrc ∧
    d'.recvInfo.updateFileName = d.recvInfo.updateFileName := by
  have hsettle : ∀ {d : Device} {len : Nat} {o : Outcomes},
      (settle d len o).2.recvInfo.recvState = .crsData →
      (settle d len o).2.recvInfo.curparseType = d.recvInfo.curparseType ∧
      (settle d len o).2.recvInfo.updateFileCrc = d.recvInfo.updateFileCrc ∧
      (settle d len o).2.recvInfo.updateFileName = d.recvInfo.updateFileName := by
    intro d len o hc
    unfold settle at hc ⊢
    split at hc
    · exact absurd hc (finish_idle _ _).not_receiving
    · rename_i hmore
      rw [if_neg hmore]
      exact ⟨rfl, rfl, rfl⟩
  cases h with
  | refused hn => rw [hs] at hn; cases hn
  | memo text memo hn hread hcopy => rw [hs] at hn; cases hn
  | weather n hn hread => rw [hs] at hn; cases hn
  | update info name hn hread => rw [hs] at hn; cases hn
  | drained _ _ => exact absurd hs' (finish_idle d _).not_receiving
  | weatherData w _ hpos ht hcopy => exact hsettle hs'
  | updateData _ hpos ht =>
      have hkept := hsettle hs'
      have hinfo := (storeUpdate_fileOnly d i.packet.data i.outcomes).recvInfo
      rw [hinfo] at hkept
      exact hkept
  | updateFailed _ ht => exact absurd hs' (clearClientInfo_idle _).not_receiving
  | otherType _ => exact absurd hs' (clearClientInfo_idle _).not_receiving

/-- What a turn in `CRS_NONE` does is what the header it reads asks for. -/
theorem turns_reads {cj : CJsonLib} {p p' : Parser} {i : Input} (h : Turns cj p i p')
    (hs : p.dev.recvInfo.recvState = .crsNone) :
    ∃ header r, readHeader cj (cstr (receive p.buffer i.packet).data) = .ok header ∧
      p.dev.onHeader header = .ok r ∧
      p'.dev = if r.1 < 0 then clearClientInfo r.2 else r.2 := by
  obtain ⟨r, hr, rfl⟩ := threadParseRecvData_ok h
  rw [parseRecvData_crsNone cj _ _ _ hs] at hr
  obtain ⟨-, -, hr⟩ := except_bind_ok hr
  obtain ⟨header, hread, hact⟩ := except_bind_ok hr
  exact ⟨header, r, hread, hact, rfl⟩

/-- The build that is kept is the first 31 bytes of the one announced. -/
theorem strncpy_str (build : Bytes) :
    ((Buf.zero 32).strncpy build 31 buildinfo_fits).str = (cstr build).take 31 := by
  have hcut : (Buf.zero 32).strncpy build 31 buildinfo_fits
      = (Buf.zero 32).strncpy ((cstr build).take 31) 31 buildinfo_fits := by
    have h0 : 0 ∉ (cstr build).take 31 := fun h => zero_not_mem_cstr build (List.mem_of_mem_take h)
    ext1
    simp only [Buf.strncpy]
    rw [cstr_of_not_mem h0, List.take_take, Nat.min_self]
  rw [hcut]
  refine buildinfo_str ?_ ?_
  · exact fun h => zero_not_mem_cstr build (List.mem_of_mem_take h)
  · rw [List.length_take]
    omega

/-- The header that opens a transfer is what the state then holds. -/
theorem origin_of_header {cj : CJsonLib} {p p' : Parser} {i : Input} (h : Turns cj p i p')
    (hs : p.dev.recvInfo.recvState = .crsNone) (hs' : p'.dev.recvInfo.recvState = .crsData) :
    Origin cj p'.dev (cstr (receive p.buffer i.packet).data) := by
  obtain ⟨header, r, hread, hact, hdev⟩ := turns_reads h hs
  intro ht
  cases header with
  | noJson =>
      cases hact
      rw [hdev] at hs'
      exact absurd hs' (clearClientInfo_idle _).not_receiving
  | unknown =>
      cases hact
      rw [hdev] at hs'
      exact absurd hs' (clearClientInfo_idle _).not_receiving
  | memo text =>
      obtain ⟨memo, -, hr⟩ := except_bind_ok hact
      cases hr
      rw [hdev] at hs'
      exact absurd hs' (clearClientInfo_idle _).not_receiving
  | weather n =>
      cases hact
      rw [hdev] at ht
      cases ht
  | update info =>
      obtain ⟨name, hname, hr⟩ := except_bind_ok hact
      cases hr
      obtain ⟨⟨crc, hcrc, hinfo⟩, build, hbuild, hinfo'⟩ := readHeader_update_inv hread
      rw [cstr_cstr] at hcrc hbuild
      obtain ⟨name', hname', hpath⟩ := updateFileName_ok info.buildinfo
      rw [hname] at hname'
      cases hname'
      refine ⟨⟨info, hread⟩, crc, build, hcrc, hbuild, ?_, ?_⟩
      · rw [hdev]
        exact hinfo
      · rw [hdev, ← strncpy_str, ← hinfo']
        exact hpath

/-- **Every transfer under way goes back to a header, and still holds what it said.** -/
theorem openedBy_of_run {cj : CJsonLib} {cfg : EleDsCfg} {fs : FileSystem} {inputs : List Input}
    {p : Parser} (hrun : Run (Turns cj) (Parser.init cfg fs) inputs p)
    (hs : p.dev.recvInfo.recvState = .crsData) :
    ∃ text, OpenedBy cj (Parser.init cfg fs) text inputs p ∧ Origin cj p.dev text := by
  have hall : Along (Turns cj) (fun _ _ => True) (Parser.init cfg fs) inputs :=
    fun _ _ _ _ _ _ => trivial
  have hkeep : ∀ past p i p', Tracked cj (Parser.init cfg fs) past p →
      (p.dev.recvInfo.recvState = .crsData →
        ∃ text, OpenedBy cj (Parser.init cfg fs) text past p ∧ Origin cj p.dev text) →
      True → Turns cj p i p' → p'.dev.recvInfo.recvState = .crsData →
        ∃ text, OpenedBy cj (Parser.init cfg fs) text (past ++ [i]) p' ∧ Origin cj p'.dev text := by
    intro past p i p' htracked hopened _ hstep hs'
    rcases htracked.receiveInv.state with hnone | hdata
    · exact ⟨_, .header htracked.1 hnone hstep hs' rfl, origin_of_header hstep hnone hs'⟩
    · obtain ⟨text, hby, horigin⟩ := hopened hdata
      obtain ⟨htype, hcrc, hname⟩ := (turn_cases (Or.inr hdata) hstep).keeps hdata hs'
      refine ⟨text, .packet hby hstep hs', ?_⟩
      intro ht
      rw [hcrc, hname]
      exact horigin (htype.symm.trans ht)
  exact tracked_invariant hkeep hrun (fun h => nomatch h) hall hs

/-! ### The verdict on an update -/

/-- The packet completes an update: it is the last one, and what `write` said of it was not
negative. -/
def Completes (d : Device) (i : Input) : Prop :=
  d.recvInfo.recvState = .crsData ∧ d.recvInfo.curparseType = .servermsgClientupdate ∧
  (d.recvInfo.datalen ≤ 0 ∨ (d.recvInfo.datalen ≤ i.packet.data.length ∧
    (d.storeUpdate i.packet.data i.outcomes).1 = true))

/-- The files with the packet stored. -/
def filesAfter (d : Device) (i : Input) : FileSystem :=
  if d.recvInfo.datalen ≤ 0 then d.fs else (d.storeUpdate i.packet.data i.outcomes).2.fs

/-- No `read` fails before the file is read to its end. -/
def ReadsToEnd : List ReadOutcome → Bytes → Prop
  | [], _ => True
  | .failed :: _, _ => False
  | .upTo n :: plan, rest => rest = [] ∨ ReadsToEnd plan (rest.drop (readSize (.upTo n :: plan)))

/-- The file can be opened and read to its end, and its checksum is `crc`. -/
def GoodUpdate (d : Device) (i : Input) (crc : ℚ) : Prop :=
  i.outcomes.crc.opens = true ∧
  ∃ content, (filesAfter d i).get d.recvInfo.updateFileName.str = some content ∧
    ReadsToEnd i.outcomes.crc.reads content ∧ ((softCrc32 content 0).toNat : ℚ) = crc

/-- The packet that completes an update is always well received. -/
theorem Completes.returns (cj : CJsonLib) {p : Parser} {i : Input} (h : Completes p.dev i)
    (hd : ∃ n k, Busy p.dev n k) :
    ∃ d, parseRecvData cj p.dev (receive p.buffer i.packet).data i.packet.data.length i.outcomes
      = .ok (0, d) := by
  obtain ⟨hs, ht, hlast⟩ := h
  obtain ⟨n, k, hbusy⟩ := hd
  by_cases hpos : 0 < p.dev.recvInfo.datalen
  · rcases hlast with hle | ⟨hle, hstored⟩
    · omega
    · have hfits := i.packet.fits
      have hsize : packSize = 1500 := rfl
      have htotal := hbusy.total
      have hrange := hbusy.range
      have hsame := (storeUpdate_fileOnly p.dev i.packet.data i.outcomes).recvInfo
      have hwrap : wrap32 ((p.dev.storeUpdate i.packet.data i.outcomes).2.recvInfo.datalen
          - i.packet.data.length) ≤ 0 := by
        rw [hsame]
        show wrap32 (p.dev.recvInfo.datalen - i.packet.data.length) ≤ 0
        rw [wrap32_of_range (by omega) (by omega)]
        omega
      rw [parseRecvData_update cj _ _ _ hs hpos ht, receive_take, if_pos hstored, settle, if_pos hwrap]
      exact ⟨_, rfl⟩
  · rw [parseRecvData_drained cj _ _ _ hs (by omega)]
    exact ⟨_, rfl⟩

/-- After the header of the update of three bytes, in one piece. -/
theorem updatePacket_run : ∃ p, Run (Turns serverLib) freshParser [⟨updatePacket, .good⟩] p ∧
    Expecting p.dev (updatePath (ascii "fw")) 891568578 3 ∧ p.dev.recvInfo.updateFileFd ≤ 0 := by
  obtain ⟨d, hturn, hexpect, hfd, -⟩ := turns_header_update (p := freshParser)
    ⟨rfl, rfl, rfl, rfl, Int.le_refl 0⟩ updateText_isUpdateHeader updatePacket_alone.terminated
  exact ⟨_, run_singleton hturn, hexpect, hfd⟩

/-- A packet of three bytes completes it, and is what the file then holds. -/
theorem Expecting.completes {d : Device} {name : Bytes} {crc : UInt32} {left : Int} {i : Input}
    (h : Expecting d name crc left) (hfd : d.recvInfo.updateFileFd ≤ 0) (hpos : 0 < left)
    (hleft : left ≤ i.packet.data.length) (ho : Succeeds i.outcomes) :
    Completes d i ∧ (filesAfter d i).get d.recvInfo.updateFileName.str = some i.packet.data := by
  have hstore := storeUpdate_first i.packet.data hfd ho
  refine ⟨⟨h.recvState, h.curparseType, Or.inr ⟨?_, by rw [hstore]⟩⟩, ?_⟩
  · rw [h.datalen]
    exact hleft
  · rw [filesAfter, if_neg (by rw [h.datalen]; omega), hstore]
    exact FileSystem.get_put _ _ _

theorem abc_nonempty : 0 < (ascii "abc").length := by decide

theorem abc_fits : (ascii "abc").length ≤ packSize := by decide

def abcPacket : Packet := ⟨ascii "abc", abc_nonempty, abc_fits⟩

/-- Behind a transfer opened by the only packet so far stands that packet. -/
theorem OpenedBy.single {cj : CJsonLib} {start p : Parser} {text : Bytes} {i : Input}
    (h : OpenedBy cj start text [i] p) : text = cstr (receive start.buffer i.packet).data := by
  generalize hl : [i] = l at h
  cases h with
  | @header past q _ j hrun _ _ _ htext =>
      have hsplit : [] ++ [i] = past ++ [j] := hl
      obtain ⟨rfl, hj⟩ := List.append_inj' hsplit rfl
      cases hj
      cases hrun
      exact htext.symm
  | @packet past q _ j hby _ _ =>
      have hsplit : [] ++ [i] = past ++ [j] := hl
      obtain ⟨hpast, -⟩ := List.append_inj' hsplit rfl
      rw [← hpast] at hby
      generalize hnil : ([] : List Input) = l at hby
      cases hby <;> simp at hnil

theorem updateText_announcedCrc : announcedCrc serverLib updateText = some 891568578 := rfl

def abxPacket : Packet := ⟨ascii "abx", by decide, by decide⟩

/-- All of the text a save is to write gets into the file. -/
def SaveOutcome.Complete (o : SaveOutcome) (text : Bytes) : Prop :=
  match o with
  | .openFailed => False
  | .opened w => w.ret text = text.length

/-- The device when the packet is about to be written: the update file is open, if `open`
could open it. -/
def Device.opening (d : Device) (o : Outcomes) : Device :=
  if d.recvInfo.updateFileFd ≤ 0 then openUpdateFile d o.openRet else d

/-- What `write` returns for the packet; `none` if there is no file to write to. -/
def Device.writes (d : Device) (i : Input) : Option Int :=
  let opened := d.opening i.outcomes
  if opened.recvInfo.updateFileFd < 0 then none
  else some (writeFd opened opened.recvInfo.updateFileFd i.packet.data i.outcomes.write).1

/-- All of the packet is stored: in the array and with it in the configuration file, or in
the update file. -/
def Stored (cj : CJsonLib) (d : Device) (i : Input) : Prop :=
  match d.recvInfo.curparseType with
  | .servermsgWeather => 0 ≤ d.recvInfo.recvLen ∧
      ∃ w, d.deviceCfg.weatherInfo.memcpy d.recvInfo.recvLen.toNat i.packet.data = .ok w ∧
        i.outcomes.save.Complete
          (cstr (cj.print (eleDsCfgToJson { d.deviceCfg with weatherInfo := w })))
  | .servermsgClientupdate => d.writes i = some (i.packet.data.length : Int)
  | _ => False

/-- The failures nobody looks at: whatever goes wrong with a weather packet, and a `write`
that takes a part of an update packet. -/
def Unnoticed (cj : CJsonLib) (d : Device) (i : Input) : Prop :=
  match d.recvInfo.curparseType with
  | .servermsgWeather => ¬ Stored cj d i
  | .servermsgClientupdate => ∃ n, d.writes i = some n ∧ 0 ≤ n ∧ n < i.packet.data.length
  | _ => False

/-- The device `case CRS_DATA` is left with. -/
def Flow.dev : Flow → Device
  | .again d => d
  | .leave _ d => d

/-- The counters are not the ones they were. -/
def Moved (d d' : Device) : Prop :=
  d'.recvInfo.recvLen ≠ d.recvInfo.recvLen ∨ d'.recvInfo.datalen ≠ d.recvInfo.datalen

/-- A packet that is not stored ends the transfer, and the counters move only for one that
is, and by its length. -/
def StorageChecked (cj : CJsonLib) (p : Parser) (i : Input) : Prop :=
  (¬ Stored cj p.dev i →
    ∃ ret d p', parseRecvData cj p.dev (receive p.buffer i.packet).data i.packet.data.length
        i.outcomes = .ok (ret, d) ∧ ret < 0 ∧
      threadParseRecvData cj p i = .ok p' ∧ Idle p'.dev) ∧
  ∀ flow, crsData cj p.dev (receive p.buffer i.packet).data i.packet.data.length i.outcomes
      = .ok flow → Moved p.dev flow.dev →
    Stored cj p.dev i ∧
    flow.dev.recvInfo.recvLen = wrap32 (p.dev.recvInfo.recvLen + i.packet.data.length) ∧
    flow.dev.recvInfo.datalen = wrap32 (p.dev.recvInfo.datalen - i.packet.data.length)

theorem stored_update {cj : CJsonLib} {d : Device} {i : Input}
    (ht : d.recvInfo.curparseType = .servermsgClientupdate) :
    Stored cj d i ↔ d.writes i = some (i.packet.data.length : Int) := by
  simp only [Stored, ht]

theorem ret_le (w : WriteOutcome) (data : Bytes) : w.ret data ≤ data.length := by
  cases w with
  | full => exact Int.le_refl _
  | short n =>
      simp only [WriteOutcome.ret, WriteOutcome.stored, List.length_take]
      omega
  | failed =>
      simp only [WriteOutcome.ret]
      omega

theorem writes_le {d : Device} {i : Input} {n : Int} (h : d.writes i = some n) :
    n ≤ i.packet.data.length := by
  simp only [Device.writes] at h
  split at h
  · cases h
  · cases h
    unfold writeFd
    split
    · simp only
      omega
    · exact ret_le _ _

/-- A packet of an update is taken for stored when `write` returns no negative value. -/
theorem storeUpdate_writes (d : Device) (i : Input) :
    (d.storeUpdate i.packet.data i.outcomes).1 = true ↔ ∃ n, d.writes i = some n ∧ 0 ≤ n := by
  have hstore : d.storeUpdate i.packet.data i.outcomes
      = if (d.opening i.outcomes).recvInfo.updateFileFd < 0 then (false, d.opening i.outcomes)
        else (decide (0 ≤ (writeFd (d.opening i.outcomes) (d.opening i.outcomes).recvInfo.updateFileFd
            i.packet.data i.outcomes.write).1),
          (writeFd (d.opening i.outcomes) (d.opening i.outcomes).recvInfo.updateFileFd
            i.packet.data i.outcomes.write).2) := rfl
  rw [hstore, Device.writes]
  split
  · simp
  · simp

/-- The end of `case CRS_DATA` moves the counters by the length of the packet. -/
theorem advance_counters (d : Device) (len : Nat) :
    (advance d len).dev.recvInfo.recvLen = wrap32 (d.recvInfo.recvLen + len) ∧
    (advance d len).dev.recvInfo.datalen = wrap32 (d.recvInfo.datalen - len) := by
  simp only [advance]
  split <;> exact ⟨rfl, rfl⟩

/-- A packet that is stored need only be counted. -/
theorem StorageChecked.of_stored {cj : CJsonLib} {p : Parser} {i : Input}
    (h : Stored cj p.dev i)
    (hcounts : ∀ flow, crsData cj p.dev (receive p.buffer i.packet).data i.packet.data.length
        i.outcomes = .ok flow →
      flow.dev.recvInfo.recvLen = wrap32 (p.dev.recvInfo.recvLen + i.packet.data.length) ∧
      flow.dev.recvInfo.datalen = wrap32 (p.dev.recvInfo.datalen - i.packet.data.length)) :
    StorageChecked cj p i :=
  ⟨fun hnot => absurd h hnot, fun flow hflow _ => ⟨h, hcounts flow hflow⟩⟩

/-- A turn that ends with a negative result clears the client, and need only leave the
counters alone until then. -/
theorem StorageChecked.of_abort {cj : CJsonLib} {p : Parser} {i : Input} {ret ret' : Int}
    {d d' : Device}
    (h : parseRecvData cj p.dev (receive p.buffer i.packet).data i.packet.data.length i.outcomes
      = .ok (ret, d)) (hneg : ret < 0)
    (hflow : crsData cj p.dev (receive p.buffer i.packet).data i.packet.data.length i.outcomes
      = .ok (.leave ret' d'))
    (hrecv : d'.recvInfo.recvLen = p.dev.recvInfo.recvLen)
    (hleft : d'.recvInfo.datalen = p.dev.recvInfo.datalen) : StorageChecked cj p i := by
  refine ⟨fun _ => ⟨ret, d, _, h, hneg, threadParseRecvData_of_ok h, ?_⟩, ?_⟩
  · simp only [hneg, if_true]
    exact clearClientInfo_idle d
  · intro flow hflow' hmoved
    rw [hflow] at hflow'
    cases hflow'
    rcases hmoved with hmoved | hmoved
    · exact absurd hrecv hmoved
    · exact absurd hleft hmoved

section Storage

variable {cj : CJsonLib} {p : Parser} {i : Input} (hs : p.dev.recvInfo.recvState = .crsData)
  (hpos : 0 < p.dev.recvInfo.datalen)

include hs hpos

/-- A failure that is not noticed ends with a result that is not negative, or outside the
array. -/
theorem Unnoticed.unchecked (h : Unnoticed cj p.dev i) : ¬ StorageChecked cj p i := by
  rintro ⟨haborts, -⟩
  unfold Unnoticed at h
  split at h
  · rename_i ht
    obtain ⟨ret, d, -, hr, hneg, -⟩ := haborts h
    by_cases h0 : 0 ≤ p.dev.recvInfo.recvLen
    · rw [parseRecvData_weather cj _ _ _ hs hpos ht h0] at hr
      obtain ⟨w, -, hr⟩ := except_bind_ok hr
      have hsettled := settle_nonneg (p.dev.storeWeather cj w i.outcomes.save) i.packet.data.length
        i.outcomes
      rw [Except.ok.inj hr] at hsettled
      exact hsettled hneg
    · rw [parseRecvData_weather_negative cj _ _ _ hs hpos ht (by omega)] at hr
      cases hr
  · rename_i ht
    obtain ⟨n, hn, h0, hlt⟩ := h
    have hnot : ¬ Stored cj p.dev i := by
      rw [stored_update ht, hn, Option.some.injEq]
      omega
    obtain ⟨ret, d, -, hr, hneg, -⟩ := haborts hnot
    rw [parseRecvData_update cj _ _ _ hs hpos ht, receive_take,
      if_pos ((storeUpdate_writes p.dev i).mpr ⟨n, hn, h0⟩)] at hr
    have hsettled := settle_nonneg (p.dev.storeUpdate i.packet.data i.outcomes).2
      i.packet.data.length i.outcomes
    rw [Except.ok.inj hr] at hsettled
    exact hsettled hneg
  · exact h

omit hs in
theorem Stored.checked_weather (ht : p.dev.recvInfo.curparseType = .servermsgWeather)
    (h : Stored cj p.dev i) : StorageChecked cj p i := by
  have h0 : 0 ≤ p.dev.recvInfo.recvLen := by
    have hstored := h
    simp only [Stored, ht] at hstored
    exact hstored.1
  refine .of_stored h ?_
  intro flow hflow
  rw [crsData_weather cj _ _ _ hpos ht h0] at hflow
  obtain ⟨w, -, hflow⟩ := except_bind_ok hflow
  cases hflow
  exact advance_counters _ _

omit hs in
theorem Stored.checked_update (ht : p.dev.recvInfo.curparseType = .servermsgClientupdate)
    (h : Stored cj p.dev i) : StorageChecked cj p i := by
  have hok : (p.dev.storeUpdate i.packet.data i.outcomes).1 = true :=
    (storeUpdate_writes p.dev i).mpr ⟨_, (stored_update ht).mp h, Int.natCast_nonneg _⟩
  refine .of_stored h ?_
  intro flow hflow
  rw [crsData_update cj _ _ _ hpos ht, receive_take, if_pos hok] at hflow
  cases hflow
  have hcounts := advance_counters (p.dev.storeUpdate i.packet.data i.outcomes).2
    i.packet.data.length
  rw [(storeUpdate_fileOnly p.dev i.packet.data i.outcomes).recvInfo] at hcounts
  exact hcounts

/-- An update packet for which there is no file, or `write` fails, is noticed. -/
theorem storageChecked_failed (ht : p.dev.recvInfo.curparseType = .servermsgClientupdate)
    (hfail : (p.dev.storeUpdate i.packet.data i.outcomes).1 ≠ true) : StorageChecked cj p i := by
  have hret := parseRecvData_update cj (receive p.buffer i.packet).data i.packet.data.length
    i.outcomes hs hpos ht
  have hflow := crsData_update cj (receive p.buffer i.packet).data i.packet.data.length
    i.outcomes hpos ht
  have hkept := (storeUpdate_fileOnly p.dev i.packet.data i.outcomes).recvInfo
  rw [receive_take, if_neg hfail] at hret hflow
  exact .of_abort hret (by decide) hflow (by rw [hkept]) (by rw [hkept])

end Storage

/-- The first packet of an update depends on its `open` and its `write` alone. -/
theorem writes_first {d : Device} {i : Input} (hfd : d.recvInfo.updateFileFd ≤ 0) :
    d.writes i = if i.outcomes.openRet < 0 then none
      else some (i.outcomes.write.ret i.packet.data) := by
  simp only [Device.writes, Device.opening, if_pos hfd]
  by_cases h : i.outcomes.openRet < 0
  · simp [openUpdateFile, h]
  · simp [openUpdateFile, h, writeFd]

end EleDs
