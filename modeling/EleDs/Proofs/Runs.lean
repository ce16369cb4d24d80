/-
What holds after any number of packets.

The machine is `Turns`: a packet, and how the calls made for it end, take the parser
thread from one state to the next.  Between two packets it is either idle or inside
a transfer, and inside one its two counters split the announced length into what has
come and what is missing.  That is proved for one turn from the list in
`Proofs/Receive.lean`, and for runs by the rules in `Lib/Machine.lean`.

A turn only ends if no array is overrun.  The machine copies the memo and the weather
without looking at their length, so this is a condition on the messages, `StepOk`, and
the report at the end of the file breaks it.
-/
import EleDs.Proofs.Receive

namespace EleDs

open CMem CJson Machine

/-- One turn of the parser thread. -/
def Turns (cj : CJsonLib) (p : Parser) (i : Input) (p' : Parser) : Prop :=
  threadParseRecvData cj p i = .ok p'

theorem turns_unique (cj : CJsonLib) (p : Parser) (i : Input) (a b : Parser)
    (ha : Turns cj p i a) (hb : Turns cj p i b) : a = b := by
  unfold Turns at ha hb
  rw [ha] at hb
  cases hb
  rfl

/-! ### The counters -/

/-- A transfer of `n` bytes is under way, and `k` of them have come. -/
structure Busy (d : Device) (n : Int) (k : Nat) : Prop where
  recvState : d.recvInfo.recvState = .crsData
  curparseType : d.recvInfo.curparseType = .servermsgWeather ∨
    d.recvInfo.curparseType = .servermsgClientupdate
  recvLen : d.recvInfo.recvLen = k
  total : k + d.recvInfo.datalen = n
  range : -2147483648 ≤ n ∧ n < 2147483648
  /-- Only a transfer that has not begun can have nothing to wait for. -/
  waiting : k = 0 ∨ 0 < d.recvInfo.datalen

/-- What only changes the descriptor leaves the counters alone. -/
theorem Busy.of_eq {d d' : Device} {n : Int} {k : Nat} (h : Busy d n k) (fd : Int)
    (heq : d'.recvInfo = { d.recvInfo with updateFileFd := fd }) : Busy d' n k where
  recvState := by rw [heq]; exact h.recvState
  curparseType := by rw [heq]; exact h.curparseType
  recvLen := by rw [heq]; exact h.recvLen
  total := by rw [heq]; exact h.total
  range := h.range
  waiting := by rw [heq]; exact h.waiting

/-- The configuration is the same, and so is the receive state but for the descriptor. -/
structure FileOnly (d d' : Device) : Prop where
  recvInfo : d'.recvInfo = { d.recvInfo with updateFileFd := d'.recvInfo.updateFileFd }
  deviceCfg : d'.deviceCfg = d.deviceCfg

theorem openUpdateFile_fileOnly (d : Device) (fd : Int) : FileOnly d (openUpdateFile d fd) := by
  by_cases h : fd < 0
  · constructor <;> simp [openUpdateFile, h]
  · constructor <;> simp [openUpdateFile, h]

theorem writeFd_fileOnly (d : Device) (fd : Int) (data : Bytes) (w : WriteOutcome) :
    FileOnly d (writeFd d fd data w).2 := by
  unfold writeFd
  split
  · exact ⟨rfl, rfl⟩
  · exact ⟨rfl, rfl⟩

theorem FileOnly.trans {d mid d' : Device} (h : FileOnly d mid) (h' : FileOnly mid d') :
    FileOnly d d' where
  recvInfo := by rw [h'.recvInfo, h.recvInfo]
  deviceCfg := by rw [h'.deviceCfg, h.deviceCfg]

theorem storeUpdate_fileOnly (d : Device) (data : Bytes) (o : Outcomes) :
    FileOnly d (d.storeUpdate data o).2 := by
  refine storeUpdate_rule data o ⟨rfl, rfl⟩ ?_ ?_
  · intro _
    exact openUpdateFile_fileOnly d o.openRet
  · intro opened hopened
    exact hopened.trans (writeFd_fileOnly _ _ _ _)

/-- A packet of an open transfer ends it or moves both counters by its length. -/
theorem Busy.settle {d : Device} {n : Int} {k : Nat} (h : Busy d n k)
    (hpos : 0 < d.recvInfo.datalen) {len : Nat} (hlen : len ≤ packSize) (o : Outcomes) :
    Idle (settle d len o).2 ∨ Busy (settle d len o).2 n (k + len) := by
  obtain ⟨hs, ht, hr, htotal, hrange, -⟩ := h
  have hsize : packSize = 1500 := rfl
  have hleft : wrap32 (d.recvInfo.datalen - len) = d.recvInfo.datalen - len :=
    wrap32_of_range (by omega) (by omega)
  unfold EleDs.settle
  by_cases hmore : wrap32 (d.recvInfo.datalen - len) ≤ 0
  · rw [if_pos hmore]
    exact Or.inl (finish_idle _ o)
  · rw [if_neg hmore]
    rw [hleft] at hmore
    -- what has come is below the announced length, so the sum does not overflow
    have hcame : wrap32 (d.recvInfo.recvLen + len) = d.recvInfo.recvLen + len :=
      wrap32_of_range (by omega) (by omega)
    refine Or.inr ⟨hs, ht, ?_, ?_, hrange, Or.inr ?_⟩
    · simp only [Device.count, hcame]
      omega
    · simp only [Device.count, hleft]
      omega
    · simp only [Device.count, hleft]
      omega

theorem Turn.of_idle {cj : CJsonLib} {b : Bytes} {i : Input} {d d' : Device}
    (h : Turn cj b i d d') (hd : Idle d) :
    Idle d' ∨ ∃ n, announced cj (cstr b) = some n ∧ Busy d' n 0 := by
  have hnone := hd.recvState
  cases h with
  | refused hs => exact Or.inl (clearClientInfo_idle d)
  | memo text memo hs hread hcopy => exact Or.inl (clearClientInfo_idle _)
  | weather n hs hread =>
      have hann := (readHeader_announced cj _ _ hread).1 n rfl
      rw [cstr_cstr] at hann
      exact Or.inr ⟨n, hann, rfl, Or.inl rfl, hd.recvLen, by simp [Device.expectWeather],
        announced_range hann, Or.inl rfl⟩
  | update info name hs hread =>
      have hann := (readHeader_announced cj _ _ hread).2 info rfl
      rw [cstr_cstr] at hann
      exact Or.inr ⟨_, hann, rfl, Or.inr rfl, hd.recvLen, by simp [Device.expectUpdate],
        announced_range hann, Or.inl rfl⟩
  | drained hs _ => rw [hnone] at hs; cases hs
  | weatherData w hs _ _ _ => rw [hnone] at hs; cases hs
  | updateData hs _ _ => rw [hnone] at hs; cases hs
  | updateFailed hs _ => rw [hnone] at hs; cases hs
  | otherType hs => rw [hnone] at hs; cases hs

theorem Turn.of_busy {cj : CJsonLib} {b : Bytes} {i : Input} {d d' : Device} {n : Int} {k : Nat}
    (h : Turn cj b i d d') (hd : Busy d n k) :
    Idle d' ∨ Busy d' n (k + i.packet.data.length) := by
  have hdata := hd.recvState
  cases h with
  | refused hs => rw [hdata] at hs; cases hs
  | memo text memo hs hread hcopy => rw [hdata] at hs; cases hs
  | weather n hs hread => rw [hdata] at hs; cases hs
  | update info name hs hread => rw [hdata] at hs; cases hs
  | drained hs _ => exact Or.inl (finish_idle d _)
  | weatherData w hs hpos ht hcopy =>
      have hstored : Busy (d.storeWeather cj w i.outcomes.save) n k := hd.of_eq d.recvInfo.updateFileFd rfl
      exact hstored.settle hpos i.packet.fits _
  | updateData hs hpos ht =>
      have hsame := (storeUpdate_fileOnly d i.packet.data i.outcomes).recvInfo
      refine (hd.of_eq _ hsame).settle ?_ i.packet.fits _
      rw [hsame]
      exact hpos
  | updateFailed hs ht => exact Or.inl (clearClientInfo_idle _)
  | otherType hs => exact Or.inl (clearClientInfo_idle d)

theorem Turn.stays_busy {cj : CJsonLib} {b : Bytes} {i : Input} {d d' : Device} {n : Int} {k : Nat}
    (h : Turn cj b i d d') (hd : Busy d n k) (hs' : d'.recvInfo.recvState = .crsData) :
    Busy d' n (k + i.packet.data.length) :=
  (h.of_busy hd).resolve_left fun hidle => hidle.not_receiving hs'

/-! ### When a turn ends -/

/-- A buffer that holds a header the machine can take in: the string ends inside the
buffer, `parse_json_data` finds what it reads, and a memo fits its array. -/
def HeaderOk (cj : CJsonLib) (b : Bytes) : Prop :=
  0 ∈ b ∧ ∃ result msg, parseJsonData cj b (cstr b).length = .ok (result, msg) ∧
    ∀ s, msg.data = .memo s → ∃ text, s = some text ∧ (cstr text).length < memoSize

/-- The packet keeps the machine inside its arrays. -/
structure StepOk (cj : CJsonLib) (p : Parser) (i : Input) : Prop where
  header : p.dev.recvInfo.recvState = .crsNone → HeaderOk cj (receive p.buffer i.packet).data
  weather : p.dev.recvInfo.recvState = .crsData →
    p.dev.recvInfo.curparseType = .servermsgWeather →
    0 < p.dev.recvInfo.datalen →
    p.dev.recvInfo.recvLen + i.packet.data.length ≤ weatherArraySize

theorem HeaderOk.reads {cj : CJsonLib} {b : Bytes} (h : HeaderOk cj b) :
    ∃ header, readHeader cj (cstr b) = .ok header ∧
      ∀ text, header = .memo text → text.length < memoSize := by
  obtain ⟨-, result, msg, hparse, hmemo⟩ := h
  rw [parseJsonData_cstr] at hparse
  unfold readHeader
  simp only [hparse, bind, Except.bind]
  split
  · exact ⟨.noJson, rfl, fun text h => nomatch h⟩
  · split
    · exact ⟨.unknown, rfl, fun text h => nomatch h⟩
    · cases hd : msg.data with
      | none => exact ⟨.unknown, rfl, fun text h => nomatch h⟩
      | memo s =>
          obtain ⟨text, rfl, hlen⟩ := hmemo s hd
          refine ⟨.memo (cstr text), rfl, ?_⟩
          intro text' h
          cases h
          exact hlen
      | weatherdays days => exact ⟨_, rfl, fun text h => nomatch h⟩
      | csInfo info => exact ⟨_, rfl, fun text h => nomatch h⟩

theorem onHeader_total (d : Device) {h : Header}
    (hmemo : ∀ text, h = .memo text → text.length < memoSize) : ∃ r, d.onHeader h = .ok r := by
  cases h with
  | noJson => exact ⟨_, rfl⟩
  | unknown => exact ⟨_, rfl⟩
  | memo text =>
      have hfits : 0 + (text ++ [0]).length ≤ memoSize := by
        have := hmemo text rfl
        rw [List.length_append, List.length_singleton]
        omega
      obtain ⟨memo, hcopy, -⟩ := Buf.memcpy_ok d.deviceCfg.memo hfits
      exact ⟨_, by simp only [Device.onHeader, hcopy]; rfl⟩
  | weather n => exact ⟨_, rfl⟩
  | update info =>
      obtain ⟨name, hname, -⟩ := updateFileName_ok info.buildinfo
      exact ⟨_, by simp only [Device.onHeader, hname]; rfl⟩

/-- **A packet that keeps the machine inside its arrays is handled to the end.** -/
theorem turn_total {cj : CJsonLib} {p : Parser} {i : Input} (hok : StepOk cj p i)
    (hd : Idle p.dev ∨ ∃ n k, Busy p.dev n k) : ∃ p', Turns cj p i p' := by
  suffices h : ∃ r, parseRecvData cj p.dev (receive p.buffer i.packet).data i.packet.data.length
      i.outcomes = .ok r by
    obtain ⟨r, hr⟩ := h
    exact ⟨_, threadParseRecvData_of_ok hr⟩
  rcases hd with hidle | ⟨n, k, hbusy⟩
  · have hheader := hok.header hidle.recvState
    obtain ⟨header, hread, hmemo⟩ := hheader.reads
    obtain ⟨r, hr⟩ := onHeader_total p.dev hmemo
    refine ⟨r, ?_⟩
    rw [parseRecvData_crsNone cj _ _ _ hidle.recvState, strlen_of_mem hheader.1, hread]
    exact hr
  · have hs := hbusy.recvState
    by_cases hpos : 0 < p.dev.recvInfo.datalen
    · rcases hbusy.curparseType with ht | ht
      · have hlen := hbusy.recvLen
        have hfits : p.dev.recvInfo.recvLen.toNat + i.packet.data.length ≤ weatherArraySize := by
          have := hok.weather hs ht hpos
          omega
        obtain ⟨w, hcopy, -⟩ := Buf.memcpy_ok p.dev.deviceCfg.weatherInfo hfits
        refine ⟨settle (p.dev.storeWeather cj w i.outcomes.save) i.packet.data.length i.outcomes, ?_⟩
        rw [parseRecvData_weather cj _ _ _ hs hpos ht (by omega), receive_take, hcopy]
        rfl
      · exact ⟨_, parseRecvData_update cj _ _ _ hs hpos ht⟩
    · exact ⟨_, parseRecvData_drained cj _ _ _ hs (by omega)⟩

/-! ### The invariant -/

/-- `Transfer cj start past p n k`: the packets `past` took the thread from `start` to `p`
inside a transfer that a header announced as `n` bytes, and the packets after that header
hold `k`. -/
inductive Transfer (cj : CJsonLib) (start : Parser) :
    List Input → Parser → Int → Nat → Prop where
  | opened {past : List Input} {p p' : Parser} {i : Input} {n : Int} :
      Run (Turns cj) start past p → p.dev.recvInfo.recvState = .crsNone → Turns cj p i p' →
      p'.dev.recvInfo.recvState = .crsData →
      announced cj (cstr (receive p.buffer i.packet).data) = some n →
      Transfer cj start (past ++ [i]) p' n 0
  | packet {past : List Input} {p p' : Parser} {i : Input} {n : Int} {k : Nat} :
      Transfer cj start past p n k → Turns cj p i p' →
      p'.dev.recvInfo.recvState = .crsData →
      Transfer cj start (past ++ [i]) p' n (k + i.packet.data.length)

/-- What is promised of the receive state after the packets `past`. -/
structure ReceiveInv (cj : CJsonLib) (start : Parser) (past : List Input) (p : Parser) : Prop where
  state : p.dev.recvInfo.recvState = .crsNone ∨ p.dev.recvInfo.recvState = .crsData
  idle : p.dev.recvInfo.recvState = .crsNone →
    p.dev.recvInfo.datalen = 0 ∧ p.dev.recvInfo.recvLen = 0 ∧
    p.dev.recvInfo.updateFileName = Buf.zero 256 ∧ p.dev.recvInfo.updateFileFd ≤ 0
  transfer : p.dev.recvInfo.recvState = .crsData →
    (p.dev.recvInfo.curparseType = .servermsgWeather ∨
      p.dev.recvInfo.curparseType = .servermsgClientupdate) ∧
    ∃ n k, Transfer cj start past p n k ∧
      wrap32 (p.dev.recvInfo.recvLen + p.dev.recvInfo.datalen) = n ∧
      p.dev.recvInfo.recvLen = k

/-- The same, as a run carries it along. -/
def Tracked (cj : CJsonLib) (start : Parser) (past : List Input) (p : Parser) : Prop :=
  Run (Turns cj) start past p ∧
    (Idle p.dev ∨ ∃ n k, Transfer cj start past p n k ∧ Busy p.dev n k)

theorem Tracked.receiveInv {cj : CJsonLib} {start p : Parser} {past : List Input}
    (h : Tracked cj start past p) : ReceiveInv cj start past p := by
  obtain ⟨-, hidle | ⟨n, k, htransfer, hbusy⟩⟩ := h
  · refine ⟨Or.inl hidle.recvState, ?_, ?_⟩
    · intro _
      exact ⟨hidle.datalen, hidle.recvLen, hidle.updateFileName, hidle.updateFileFd⟩
    · intro hs
      rw [hidle.recvState] at hs
      cases hs
  · refine ⟨Or.inr hbusy.recvState, ?_, ?_⟩
    · intro hs
      rw [hbusy.recvState] at hs
      cases hs
    · intro _
      refine ⟨hbusy.curparseType, n, k, htransfer, ?_, hbusy.recvLen⟩
      rw [hbusy.recvLen, hbusy.total]
      exact wrap32_of_range hbusy.range.1 hbusy.range.2

/-- Every turn that ends carries it one packet further. -/
theorem Tracked.step {cj : CJsonLib} {start p p' : Parser} {past : List Input} {i : Input}
    (h : Tracked cj start past p) (hstep : Turns cj p i p') :
    Tracked cj start (past ++ [i]) p' := by
  obtain ⟨hrun, hd⟩ := h
  refine ⟨run_append hrun (run_singleton hstep), ?_⟩
  rcases hd with hidle | ⟨n, k, htransfer, hbusy⟩
  · rcases (turn_cases (Or.inl hidle.recvState) hstep).of_idle hidle with h | ⟨n, hann, hbusy⟩
    · exact Or.inl h
    · exact Or.inr ⟨n, 0, .opened hrun hidle.recvState hstep hbusy.recvState hann, hbusy⟩
  · rcases (turn_cases (Or.inr hbusy.recvState) hstep).of_busy hbusy with h | hbusy'
    · exact Or.inl h
    · exact Or.inr ⟨n, _, .packet htransfer hstep hbusy'.recvState, hbusy'⟩

/-- A state the thread can get into. -/
def Reachable (cj : CJsonLib) (p : Parser) : Prop :=
  ∃ cfg fs inputs, Run (Turns cj) (Parser.init cfg fs) inputs p

theorem init_tracked (cj : CJsonLib) (cfg : EleDsCfg) (fs : FileSystem) :
    Tracked cj (Parser.init cfg fs) [] (Parser.init cfg fs) :=
  ⟨Run.nil _, Or.inl ⟨rfl, rfl, rfl, rfl, Int.le_refl 0⟩⟩

/-- What every turn from a tracked state keeps holds wherever a run ends. -/
theorem tracked_invariant {cj : CJsonLib} {cfg : EleDsCfg} {fs : FileSystem}
    {Inv : List Input → Parser → Prop} {Ok : Parser → Input → Prop}
    (hstep : ∀ past p i p', Tracked cj (Parser.init cfg fs) past p → Inv past p → Ok p i →
      Turns cj p i p' → Inv (past ++ [i]) p')
    {inputs : List Input} {p : Parser} (hrun : Run (Turns cj) (Parser.init cfg fs) inputs p)
    (hinit : Inv [] (Parser.init cfg fs))
    (hall : Along (Turns cj) Ok (Parser.init cfg fs) inputs) : Inv inputs p := by
  have hkeep : ∀ past p i p', Tracked cj (Parser.init cfg fs) past p ∧ Inv past p → Ok p i →
      Turns cj p i p' → Tracked cj (Parser.init cfg fs) (past ++ [i]) p' ∧ Inv (past ++ [i]) p' := by
    rintro past p i p' ⟨htracked, hinv⟩ hok hturn
    exact ⟨htracked.step hturn, hstep past p i p' htracked hinv hok hturn⟩
  exact (run_invariant hkeep hrun [] ⟨init_tracked cj cfg fs, hinit⟩ hall).2

theorem tracked_of_run {cj : CJsonLib} {cfg : EleDsCfg} {fs : FileSystem} {inputs : List Input}
    {p : Parser} (hrun : Run (Turns cj) (Parser.init cfg fs) inputs p) :
    Tracked cj (Parser.init cfg fs) inputs p := by
  have hall : Along (Turns cj) (fun _ _ => True) (Parser.init cfg fs) inputs :=
    fun _ _ _ _ _ _ => trivial
  exact run_invariant (fun _ _ _ _ h _ hstep => h.step hstep) hrun [] (init_tracked cj cfg fs) hall

/-- Between two messages a reachable thread is idle. -/
theorem Reachable.idle {cj : CJsonLib} {p : Parser} (h : Reachable cj p)
    (hs : p.dev.recvInfo.recvState = .crsNone) : Idle p.dev := by
  obtain ⟨cfg, fs, inputs, hrun⟩ := h
  have hinv := (tracked_of_run hrun).receiveInv.idle hs
  exact ⟨hs, hinv.1, hinv.2.1, hinv.2.2.1, hinv.2.2.2⟩

theorem Tracked.idle_or_busy {cj : CJsonLib} {start p : Parser} {past : List Input}
    (h : Tracked cj start past p) : Idle p.dev ∨ ∃ n k, Busy p.dev n k :=
  h.2.imp_right fun ⟨n, k, _, hbusy⟩ => ⟨n, k, hbusy⟩

/-- A packet that is fine can be taken. -/
theorem Tracked.next {cj : CJsonLib} {start p : Parser} {past : List Input} {i : Input}
    (h : Tracked cj start past p) (hok : StepOk cj p i) :
    ∃ p', Turns cj p i p' ∧ Tracked cj start (past ++ [i]) p' := by
  obtain ⟨p', hp'⟩ := turn_total hok h.idle_or_busy
  exact ⟨p', hp', h.step hp'⟩

/-- A run whose packets are all fine goes to its end. -/
theorem tracked_of_along {cj : CJsonLib} {start : Parser} {inputs : List Input}
    (hstart : Tracked cj start [] start)
    (hok : Along (Turns cj) (StepOk cj) start inputs) : ∃ p, Tracked cj start inputs p := by
  obtain ⟨p, -, htracked⟩ := run_total (fun _ _ _ h hok => h.next hok) inputs [] start hstart hok
  exact ⟨p, htracked⟩

def memoPacket : Packet := ⟨memoText, by decide, by decide⟩

theorem memoPacket_stepOk : StepOk serverLib freshParser ⟨memoPacket, .good⟩ := by
  have hstr : cstr (receive freshParser.buffer memoPacket).data = memoText := by decide +kernel
  have hparse : parseJsonData serverLib (receive freshParser.buffer memoPacket).data
      (cstr (receive freshParser.buffer memoPacket).data).length
        = .ok (0, { data := .memo (some (ascii "hi")), len := 2, packcnt := 1,
                    msgtype := .servermsgMemo }) := by
    rw [parseJsonData_cstr, hstr]
    rfl
  constructor
  · intro _
    refine ⟨by decide +kernel, 0, _, hparse, ?_⟩
    intro s hs
    cases hs
    exact ⟨ascii "hi", rfl, by decide⟩
  · intro h
    cases h

theorem memoPacket_along :
    Along (Turns serverLib) (StepOk serverLib) freshParser [⟨memoPacket, .good⟩] :=
  along_cons memoPacket_stepOk fun _ _ => along_nil

/-- A turn changes nothing of the configuration but the memo, when it takes in a memo, and
the weather, when it takes in a packet of a weather report. -/
structure Framed (cj : CJsonLib) (p : Parser) (i : Input) (p' : Parser) : Prop where
  others : p'.dev.deviceCfg =
    { p.dev.deviceCfg with
      memo := p'.dev.deviceCfg.memo
      weatherInfo := p'.dev.deviceCfg.weatherInfo }
  memo : p'.dev.deviceCfg.memo ≠ p.dev.deviceCfg.memo →
    p.dev.recvInfo.recvState = .crsNone ∧
    ∃ text, readHeader cj (cstr (receive p.buffer i.packet).data) = .ok (.memo text)
  weather : p'.dev.deviceCfg.weatherInfo ≠ p.dev.deviceCfg.weatherInfo →
    p.dev.recvInfo.recvState = .crsData ∧ p.dev.recvInfo.curparseType = .servermsgWeather

theorem settle_deviceCfg (d : Device) (len : Nat) (o : Outcomes) :
    (settle d len o).2.deviceCfg = d.deviceCfg := by
  unfold settle
  split
  · rw [finish_deviceCfg]
    rfl
  · rfl

/-- A turn that leaves the configuration alone. -/
theorem framed_of_eq {cj : CJsonLib} {p p' : Parser} {i : Input}
    (h : p'.dev.deviceCfg = p.dev.deviceCfg) : Framed cj p i p' where
  others := by rw [h]
  memo := fun hne => absurd (by rw [h]) hne
  weather := fun hne => absurd (by rw [h]) hne

theorem framed_of_turns {cj : CJsonLib} {p p' : Parser} {i : Input}
    (hstate : p.dev.recvInfo.recvState = .crsNone ∨ p.dev.recvInfo.recvState = .crsData)
    (h : Turns cj p i p') : Framed cj p i p' := by
  have hturn := turn_cases hstate h
  generalize hb : (receive p.buffer i.packet).data = b at hturn
  generalize hd' : p'.dev = d' at hturn
  cases hturn with
  | refused hs => exact framed_of_eq (by rw [hd', clearClientInfo_deviceCfg])
  | memo text memo hs hread hcopy =>
      constructor
      · rw [hd', clearClientInfo_deviceCfg]
        rfl
      · exact fun _ => ⟨hs, text, by rw [hb]; exact hread⟩
      · intro hne
        rw [hd', clearClientInfo_deviceCfg] at hne
        exact absurd rfl hne
  | weather n hs hread => exact framed_of_eq (by rw [hd']; rfl)
  | update info name hs hread => exact framed_of_eq (by rw [hd']; rfl)
  | drained hs _ => exact framed_of_eq (by rw [hd', finish_deviceCfg])
  | weatherData w hs hpos ht hcopy =>
      constructor
      · rw [hd', settle_deviceCfg]
        rfl
      · intro hne
        rw [hd', settle_deviceCfg] at hne
        exact absurd rfl hne
      · exact fun _ => ⟨hs, ht⟩
  | updateData hs hpos ht =>
      exact framed_of_eq (by rw [hd', settle_deviceCfg, (storeUpdate_fileOnly _ _ _).deviceCfg])
  | updateFailed hs ht =>
      exact framed_of_eq
        (by rw [hd', clearClientInfo_deviceCfg, (storeUpdate_fileOnly _ _ _).deviceCfg])
  | otherType hs => exact framed_of_eq (by rw [hd', clearClientInfo_deviceCfg])

/-- The packets are all handled, and no turn touches more of the configuration than it may. -/
def FrameKept (cj : CJsonLib) (start : Parser) (inputs : List Input) : Prop :=
  (∃ p, Run (Turns cj) start inputs p ∧
    p.dev.deviceCfg =
      { start.dev.deviceCfg with
        memo := p.dev.deviceCfg.memo
        weatherInfo := p.dev.deviceCfg.weatherInfo }) ∧
  ∀ before i after, inputs = before ++ i :: after →
    ∃ p p', Run (Turns cj) start before p ∧ Turns cj p i p' ∧ Framed cj p i p'

/-- The packets of the report. -/
def overlongWeather : List Input :=
  [⟨weatherPacket, .good⟩, ⟨.full 1, .good⟩]

/-- A packet the server may send: `parse_json_data` finds what it reads, and the files
behave, but for `open` never returning 0. -/
def Admissible (cj : CJsonLib) (p : Parser) (i : Input) : Prop :=
  (p.dev.recvInfo.recvState = .crsNone →
    ∃ r, parseJsonData cj (receive p.buffer i.packet).data
      (cstr (receive p.buffer i.packet).data).length = .ok r) ∧
  i.outcomes.openRet ≠ 0

/-- The header leaves the machine waiting for the report. -/
theorem weatherPacket_taken : Turns serverLib freshParser ⟨weatherPacket, .good⟩
    ⟨freshParser.dev.expectWeather 3000, receive freshParser.buffer weatherPacket⟩ := by
  have hstr : cstr (receive freshParser.buffer weatherPacket).data = weatherText := by
    decide +kernel
  have hparse : parseRecvData serverLib freshParser.dev
      (receive freshParser.buffer weatherPacket).data weatherPacket.data.length .good
        = .ok (1, freshParser.dev.expectWeather 3000) := by
    rw [parseRecvData_crsNone _ _ _ _ rfl, strlen_of_mem (by decide +kernel), hstr,
      readHeader_weather weatherText_isWeatherHeader]
    rfl
  exact threadParseRecvData_of_ok (p := freshParser) (i := ⟨weatherPacket, .good⟩) hparse

theorem weatherPacket_turns {p : Parser} (h : Turns serverLib freshParser ⟨weatherPacket, .good⟩ p) :
    p.dev = freshParser.dev.expectWeather 3000 := by
  rw [turns_unique _ _ _ _ _ h weatherPacket_taken]

theorem overlongWeather_admissible :
    Along (Turns serverLib) (Admissible serverLib) freshParser overlongWeather := by
  refine along_cons ⟨?_, by decide⟩ fun mid hmid =>
    along_cons ⟨?_, by decide⟩ fun _ _ => along_nil
  · intro _
    have hstr : cstr (receive freshParser.buffer weatherPacket).data = weatherText := by
      decide +kernel
    rw [parseJsonData_cstr, hstr]
    exact ⟨_, rfl⟩
  · intro hs
    rw [weatherPacket_turns hmid] at hs
    cases hs

/-- The copy runs past the array. -/
theorem overlongWeather_overrun (p : Parser) :
    ¬ Run (Turns serverLib) freshParser overlongWeather p := by
  intro h
  cases h with
  | cons hfirst hrest =>
      cases hrest with
      | cons hsecond _ =>
          have hdev := weatherPacket_turns hfirst
          obtain ⟨r, hr, -⟩ := threadParseRecvData_ok hsecond
          rw [hdev, parseRecvData_weather _ _ _ _ rfl (by decide) rfl (by decide), receive_take,
            Buf.memcpy_overrun (by rw [Packet.length_full]; decide)] at hr
          cases hr

end EleDs
