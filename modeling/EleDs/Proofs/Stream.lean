/-
How the stream is cut.

The server's messages arrive as one stream, and what the parser thread gets at once is
whatever the ring buffer holds.  The machine has no framing of its own, so the outcome
depends on the cut: a header that shares its packet with anything, or that meets the
remains of a longer packet in the buffer, is not recognised.

What does hold is that the cuts that respect the messages all agree.  `Aligned` is a
cut that does; each message then has one effect, `Message.effect`, whatever the sizes of
the pieces its payload comes in.
-/
import EleDs.Proofs.Update

namespace EleDs

open CMem CJson Machine

/-! ### Messages -/

/-- A message of the server: a header and, for the last two kinds, a payload. -/
inductive Message where
  | memo (header message : Bytes)
  | weather (header payload : Bytes)
  | update (header payload build : Bytes) (crc : UInt32)

namespace Message

def header : Message → Bytes
  | memo header _ => header
  | weather header _ => header
  | update header _ _ _ => header

def payload : Message → Bytes
  | memo _ _ => []
  | weather _ payload => payload
  | update _ payload _ _ => payload

/-- The header is one of its kind and announces the payload. -/
def WellFormed (cj : CJsonLib) : Message → Prop
  | memo header message => IsMemoHeader cj header message
  | weather header payload => IsWeatherHeader cj header payload.length
  | update header payload build crc => IsUpdateHeader cj header payload.length crc build

/-- There is a payload where one is announced, and the message fits the array it is for. -/
def Fits : Message → Prop
  | memo _ message => message.length < memoSize
  | weather _ payload => 0 < payload.length ∧ payload.length ≤ weatherArraySize
  | update _ payload _ _ => 0 < payload.length

end Message

/-- The bytes the server sends. -/
def stream (msgs : List Message) : Bytes := msgs.flatMap fun m => m.header ++ m.payload

/-- Every call made for the packets succeeds. -/
def AllSucceed (cut : List Input) : Prop :=
  ∀ i ∈ cut, Succeeds i.outcomes ∧ i.outcomes.save = .opened .full

/-- Fed to the thread from `start`, the two cuts end alike. -/
def Agree (cj : CJsonLib) (start : Parser) (cut cut' : List Input) : Prop :=
  ∃ p p', Run (Turns cj) start cut p ∧ Run (Turns cj) start cut' p' ∧
    p.dev.recvInfo = p'.dev.recvInfo ∧
    p.dev.deviceCfg.memo = p'.dev.deviceCfg.memo ∧
    p.dev.deviceCfg.weatherInfo = p'.dev.deviceCfg.weatherInfo ∧
    ∀ build, p.dev.fs.get (updatePath build) = p'.dev.fs.get (updatePath build)

/-! ### What a message does -/

/-- The device without its log and its descriptors. -/
structure View where
  recvInfo : RecvInfo
  deviceCfg : EleDsCfg
  fs : FileSystem

def Device.view (d : Device) : View := ⟨d.recvInfo, d.deviceCfg, d.fs⟩

/-- The receive state after `clear_client_info` with no file open. -/
def RecvInfo.cleared (r : RecvInfo) : RecvInfo :=
  { r with
    recvState := .crsNone
    curparseType := .clientmsgNone
    datalen := 0
    recvLen := 0
    updateFileName := Buf.zero 256 }

/-- An array with `src` copied over its start, if it fits. -/
def copied {n : Nat} (a : Buf n) (src : Bytes) : Buf n := (a.memcpy 0 src).toOption.getD a

/-- What a message does to the device. -/
def Message.effect (cj : CJsonLib) (v : View) : Message → View
  | .memo _ message =>
      { v with
        recvInfo := v.recvInfo.cleared
        deviceCfg := { v.deviceCfg with memo := copied v.deviceCfg.memo (message ++ [0]) } }
  | .weather _ payload =>
      let cfg := { v.deviceCfg with weatherInfo := copied v.deviceCfg.weatherInfo payload }
      { recvInfo := v.recvInfo.cleared
        deviceCfg := cfg
        fs := (writeEleDsCfg cj v.fs cfg (.opened .full)).2 }
  | .update _ payload build crc =>
      { v with
        recvInfo := clearedInfo crc
        fs := v.fs.put (updatePath build) payload }

theorem clearClientInfo_view {d : Device} (hfd : d.recvInfo.updateFileFd ≤ 0) :
    (clearClientInfo d).view = { d.view with recvInfo := d.recvInfo.cleared } := by
  have h : ¬ d.recvInfo.updateFileFd > 0 := by omega
  simp [clearClientInfo, h, Device.view, RecvInfo.cleared]

theorem memcpy_copied {n : Nat} {a b : Buf n} {src : Bytes} (h : a.memcpy 0 src = .ok b) :
    copied a src = b := by
  rw [copied, h]
  rfl

/-! ### One message -/

theorem run_memo {cj : CJsonLib} {p : Parser} {i : Input} {text message : Bytes}
    (hd : Idle p.dev) (h : IsMemoHeader cj text message) (hfits : message.length < memoSize)
    (hterm : Terminated p.buffer i text) :
    ∃ p', Run (Turns cj) p [i] p' ∧ Idle p'.dev ∧
      p'.dev.view = (Message.memo text message).effect cj p.dev.view := by
  have hread := readHeader_memo h
  obtain ⟨len, packinfo, hheader, -⟩ := h
  have hlen : 0 + (message ++ [0]).length ≤ memoSize := by
    rw [List.length_append, List.length_singleton]
    omega
  obtain ⟨memo, hcopy, -⟩ := Buf.memcpy_ok p.dev.deviceCfg.memo hlen
  have hact : p.dev.onHeader (.memo message) = .ok (0, clearClientInfo (p.dev.withMemo memo)) := by
    simp only [Device.onHeader, hcopy]
    rfl
  have hcopied : copied p.dev.view.deviceCfg.memo (message ++ [0]) = memo := memcpy_copied hcopy
  have hview := clearClientInfo_view (d := p.dev.withMemo memo) hd.updateFileFd
  refine ⟨_, run_singleton (turns_header hd hheader.noNul hterm hread hact (by simp)),
    clearClientInfo_idle _, hview.trans ?_⟩
  rw [Message.effect, hcopied]
  rfl

/-- A weather report is on its way: `done` has been copied over `base`, `left` is missing. -/
structure Reporting (d : Device) (base : Buf weatherArraySize) (done : Bytes) (left : Int) :
    Prop where
  recvState : d.recvInfo.recvState = .crsData
  curparseType : d.recvInfo.curparseType = .servermsgWeather
  datalen : d.recvInfo.datalen = left
  recvLen : d.recvInfo.recvLen = done.length
  updateFileFd : d.recvInfo.updateFileFd ≤ 0
  weatherInfo : d.deviceCfg.weatherInfo = copied base done

theorem copied_data {n : Nat} {a : Buf n} {src : Bytes} (h : src.length ≤ n) :
    (copied a src).data = overwrite a.data 0 src := by
  have hfits : 0 + src.length ≤ n := by omega
  obtain ⟨b, hb, hdata⟩ := Buf.memcpy_ok a hfits
  rw [memcpy_copied hb, hdata]

/-- Copying on where the last copy stopped. -/
theorem memcpy_copied_next {n : Nat} (a : Buf n) (done data : Bytes)
    (h : done.length + data.length ≤ n) :
    (copied a done).memcpy done.length data = .ok (copied a (done ++ data)) := by
  obtain ⟨b, hb, hdata⟩ := Buf.memcpy_ok (copied a done) h
  rw [hb]
  congr 1
  ext1
  rw [hdata, copied_data (by omega), copied_data (by rw [List.length_append]; omega)]
  have hfits : 0 + done.length ≤ a.data.length := by rw [a.size]; omega
  have hjoin := overwrite_overwrite (b := data) hfits
  rwa [Nat.zero_add] at hjoin

/-- What the report makes of the device, over the files `fs`. -/
def reported (cj : CJsonLib) (d : Device) (fs : FileSystem) (weather : Buf weatherArraySize) :
    View :=
  let cfg := { d.deviceCfg with weatherInfo := weather }
  { recvInfo := d.recvInfo.cleared
    deviceCfg := cfg
    fs := (writeEleDsCfg cj fs cfg (.opened .full)).2 }

/-- A piece of the report, copied and saved. -/
theorem turns_weather (cj : CJsonLib) {p : Parser} {i : Input} {base : Buf weatherArraySize}
    {done : Bytes} {left : Int} (h : Reporting p.dev base done left) (hleft : 0 < left)
    (hfits : done.length + i.packet.data.length ≤ weatherArraySize)
    (hsave : i.outcomes.save = .opened .full) :
    Turns cj p i
      { dev := (settle (p.dev.storeWeather cj (copied base (done ++ i.packet.data)) (.opened .full))
          i.packet.data.length i.outcomes).2
        buffer := receive p.buffer i.packet } := by
  have hparse := parseRecvData_weather cj (receive p.buffer i.packet).data i.packet.data.length
    i.outcomes h.recvState (by rw [h.datalen]; exact hleft) h.curparseType
    (by rw [h.recvLen]; omega)
  rw [receive_take, h.weatherInfo, h.recvLen, Int.toNat_natCast, memcpy_copied_next _ _ _ hfits,
    hsave] at hparse
  have hturn := threadParseRecvData_of_ok hparse
  rwa [if_neg (settle_nonneg _ _ _)] at hturn

/-- The last piece of a report clears the receive state. -/
theorem settle_weather_last {d : Device} (ht : d.recvInfo.curparseType = .servermsgWeather)
    (hfd : d.recvInfo.updateFileFd ≤ 0) (len : Nat) (hlen : d.recvInfo.datalen = len)
    (o : Outcomes) :
    Idle (settle d len o).2 ∧
      (settle d len o).2.view = { d.view with recvInfo := d.recvInfo.cleared } := by
  have htype : (d.count len).recvInfo.curparseType ≠ .servermsgClientupdate := by
    show d.recvInfo.curparseType ≠ _
    rw [ht]
    decide
  have hwrap : wrap32 (d.recvInfo.datalen - len) ≤ 0 := by
    rw [hlen, Int.sub_self]
    decide
  rw [settle, if_pos hwrap, finish, if_neg htype]
  exact ⟨clearClientInfo_idle _, clearClientInfo_view (d := d.count len) hfd⟩

/-- The device after a piece that was not the last. -/
def Device.afterPiece (cj : CJsonLib) (d : Device) (w : Buf weatherArraySize) (len : Nat) : Device :=
  (d.storeWeather cj w (.opened .full)).count len

/-- Such a piece moves the counters. -/
theorem Reporting.next (cj : CJsonLib) {d : Device} {base : Buf weatherArraySize} {done : Bytes}
    {left : Int} (h : Reporting d base done left) (data : Bytes) (hmore : data.length < left)
    (hfits : done.length + left ≤ weatherArraySize) (o : Outcomes) :
    (settle (d.storeWeather cj (copied base (done ++ data)) (.opened .full)) data.length o).2
        = d.afterPiece cj (copied base (done ++ data)) data.length ∧
      Reporting (d.afterPiece cj (copied base (done ++ data)) data.length) base (done ++ data)
        (left - data.length) := by
  have hsize : weatherArraySize = 1176 := rfl
  have hwrap : wrap32 (d.recvInfo.datalen - data.length) = left - data.length := by
    rw [h.datalen, wrap32_of_range] <;> omega
  have hcame : wrap32 (d.recvInfo.recvLen + data.length) = (done ++ data).length := by
    rw [h.recvLen, List.length_append, wrap32_of_range] <;> omega
  have hmore' : ¬ wrap32 ((d.storeWeather cj (copied base (done ++ data))
      (.opened .full)).recvInfo.datalen - data.length) ≤ 0 := by
    show ¬ wrap32 (d.recvInfo.datalen - data.length) ≤ 0
    omega
  refine ⟨?_, h.recvState, h.curparseType, hwrap, hcame, h.updateFileFd, rfl⟩
  rw [settle, if_neg hmore']
  rfl

/-- The pieces of a report, from a device that has `done` of it. -/
theorem run_report (cj : CJsonLib) (fs : FileSystem) (base : Buf weatherArraySize)
    (pieces : List Input) : ∀ (p : Parser) (done : Bytes), pieces ≠ [] →
    Reporting p.dev base done (payload pieces).length →
    done.length + (payload pieces).length ≤ weatherArraySize →
    (∀ content, p.dev.fs.put CONFIG_FILE_PATH content = fs.put CONFIG_FILE_PATH content) →
    AllSucceed pieces →
    ∃ p', Run (Turns cj) p pieces p' ∧ Idle p'.dev ∧
      p'.dev.view = reported cj p.dev fs (copied base (done ++ payload pieces)) := by
  induction pieces with
  | nil => intro p done hne; exact absurd rfl hne
  | cons i rest ih =>
      intro p done _ hd hfits hfs hall
      have hi := i.packet.nonempty
      have hlen : (payload (i :: rest)).length = i.packet.data.length + (payload rest).length := by
        rw [payload_cons, List.length_append]
      have hturn := turns_weather cj hd (by omega) (by omega) (hall i (List.mem_cons_self ..)).2
      by_cases hrest : rest = []
      · -- the last piece
        subst hrest
        have hnil : payload [] = [] := rfl
        have hleft : p.dev.recvInfo.datalen = i.packet.data.length := by
          rw [hd.datalen, hlen, hnil, List.length_nil, Nat.add_zero]
        obtain ⟨hidle, hview⟩ := settle_weather_last
          (d := p.dev.storeWeather cj (copied base (done ++ i.packet.data)) (.opened .full))
          hd.curparseType hd.updateFileFd i.packet.data.length hleft i.outcomes
        refine ⟨_, run_singleton hturn, hidle, hview.trans ?_⟩
        rw [payload_cons, hnil, List.append_nil]
        simp only [Device.view, reported, Device.storeWeather, writeEleDsCfg, hfs]
      · have hpos : 0 < (payload rest).length := by
          obtain ⟨j, rest', rfl⟩ := List.exists_cons_of_ne_nil hrest
          have := j.packet.nonempty
          rw [payload_cons, List.length_append]
          omega
        obtain ⟨hsettle, hnext⟩ := hd.next cj i.packet.data (by omega) (by omega) i.outcomes
        have hleft : ((payload (i :: rest)).length : Int) - i.packet.data.length
            = (payload rest).length := by omega
        rw [hleft] at hnext
        rw [hsettle] at hturn
        have hfs' : ∀ content, (p.dev.afterPiece cj (copied base (done ++ i.packet.data))
            i.packet.data.length).fs.put CONFIG_FILE_PATH content
              = fs.put CONFIG_FILE_PATH content := by
          intro content
          rw [← hfs content]
          exact FileSystem.put_put _ _ _ _
        obtain ⟨p', hrun, hidle, hview⟩ := ih ⟨_, receive p.buffer i.packet⟩ _ hrest hnext
          (by rw [List.length_append]; omega) hfs' fun j hj => hall j (List.mem_cons_of_mem i hj)
        refine ⟨p', Run.cons hturn hrun, hidle, hview.trans ?_⟩
        rw [payload_cons, List.append_assoc]
        rfl

theorem run_weather {cj : CJsonLib} {p : Parser} {i : Input} {pieces : List Input}
    {text data : Bytes} (hd : Idle p.dev) (h : IsWeatherHeader cj text data.length)
    (hfits : 0 < data.length ∧ data.length ≤ weatherArraySize)
    (hterm : Terminated p.buffer i text) (hpieces : payload pieces = data)
    (hall : AllSucceed pieces) :
    ∃ p', Run (Turns cj) p (i :: pieces) p' ∧ Idle p'.dev ∧
      p'.dev.view = (Message.weather text data).effect cj p.dev.view := by
  have hread := readHeader_weather h
  obtain ⟨packinfo, hheader, -⟩ := h
  have hturn := turns_header hd hheader.noNul hterm hread rfl (by simp)
  have hne : pieces ≠ [] := by
    rintro rfl
    rw [← hpieces] at hfits
    exact absurd hfits.1 (by decide)
  have hnone : p.dev.deviceCfg.weatherInfo = copied p.dev.deviceCfg.weatherInfo [] := by
    ext1
    rw [copied_data (Nat.zero_le _), overwrite]
    simp
  have hreport : Reporting (p.dev.expectWeather data.length) p.dev.deviceCfg.weatherInfo []
      (payload pieces).length :=
    ⟨rfl, rfl, by rw [hpieces]; rfl, hd.recvLen, hd.updateFileFd, hnone⟩
  obtain ⟨p', hrun, hidle, hview⟩ := run_report cj p.dev.fs _ pieces ⟨_, receive p.buffer i.packet⟩ []
    hne hreport (by rw [hpieces]; simpa using hfits.2) (fun _ => rfl) hall
  refine ⟨p', Run.cons hturn hrun, hidle, hview.trans ?_⟩
  rw [hpieces, List.nil_append]
  rfl

theorem run_update {cj : CJsonLib} {p : Parser} {i : Input} {pieces : List Input}
    {text data build : Bytes} {crc : UInt32} (hd : Idle p.dev)
    (h : IsUpdateHeader cj text data.length crc build) (hfits : 0 < data.length)
    (hterm : Terminated p.buffer i text) (hpieces : payload pieces = data)
    (hall : AllSucceed pieces) :
    ∃ p', Run (Turns cj) p (i :: pieces) p' ∧ Idle p'.dev ∧
      p'.dev.view = (Message.update text data build crc).effect cj p.dev.view := by
  obtain ⟨d, hturn, hexpect, hfd, hcfg, hfs, -⟩ := turns_header_update hd h hterm
  obtain ⟨packinfo, hheader, -⟩ := h
  obtain ⟨-, -, -, -, -, hitem⟩ := hheader.parses
  have hrange := (itemInt_range hitem).2
  subst hpieces
  obtain ⟨⟨p', fd, hrun, hreceived⟩, -⟩ := run_payload cj (p := ⟨d, receive p.buffer i.packet⟩)
    hexpect hfd hfits (by omega) fun j hj => (hall j hj).1
  refine ⟨p', Run.cons hturn hrun, idle_of_clearedInfo hreceived.recvInfo, ?_⟩
  rw [Message.effect, Device.view, hreceived.recvInfo, hreceived.deviceCfg, hreceived.files, hcfg,
    hfs]
  rfl

/-- **A message whose header stands alone has its effect, however its payload is cut.** -/
theorem run_message {cj : CJsonLib} {p : Parser} {m : Message} {i : Input} {pieces : List Input}
    (hd : Idle p.dev) (hwf : m.WellFormed cj) (hfits : m.Fits)
    (hterm : Terminated p.buffer i m.header) (hpieces : payload pieces = m.payload)
    (hall : AllSucceed pieces) :
    ∃ p', Run (Turns cj) p (i :: pieces) p' ∧ Idle p'.dev ∧
      p'.dev.view = m.effect cj p.dev.view := by
  cases m with
  | memo text message =>
      have hnil : pieces = [] := by
        cases pieces with
        | nil => rfl
        | cons j rest =>
            have := j.packet.nonempty
            have hlen := congrArg List.length hpieces
            rw [payload_cons, List.length_append] at hlen
            simp only [Message.payload, List.length_nil] at hlen
            omega
      subst hnil
      exact run_memo hd hwf hfits hterm
  | weather text data => exact run_weather hd hwf hfits hterm hpieces hall
  | update text data build crc => exact run_update hd hwf hfits hterm hpieces hall

/-! ### Whole streams -/

/-- The buffer after some packets. -/
def bufferAfter (buffer : Buf packSize) (inputs : List Input) : Buf packSize :=
  inputs.foldl (fun b i => receive b i.packet) buffer

theorem run_buffer {cj : CJsonLib} {p p' : Parser} {inputs : List Input}
    (h : Run (Turns cj) p inputs p') : p'.buffer = bufferAfter p.buffer inputs := by
  induction h with
  | nil p => rfl
  | cons hstep _ ih =>
      obtain ⟨r, -, rfl⟩ := threadParseRecvData_ok hstep
      exact ih

/-- A cut of the messages that respects them, for a buffer in a given state: each header is
a packet of its own with a NUL behind it, and no packet holds parts of two messages. -/
inductive Aligned : Buf packSize → List Message → List Input → Prop where
  | nil (buffer : Buf packSize) : Aligned buffer [] []
  | cons {buffer : Buf packSize} {m : Message} {msgs : List Message} {i : Input}
      {pieces rest : List Input} (hterm : Terminated buffer i m.header)
      (hpieces : payload pieces = m.payload)
      (hrest : Aligned (bufferAfter buffer (i :: pieces)) msgs rest) :
      Aligned buffer (m :: msgs) (i :: pieces ++ rest)

/-- It is a cut of the stream. -/
theorem Aligned.payload_eq {buffer : Buf packSize} {msgs : List Message} {cut : List Input}
    (h : Aligned buffer msgs cut) : payload cut = stream msgs := by
  induction h with
  | nil buffer => rfl
  | cons hterm hpieces _ ih =>
      have happend : ∀ a b, payload (a ++ b) = payload a ++ payload b := fun a b =>
        List.flatMap_append
      rw [happend, payload_cons, hterm.1, hpieces, ih]
      simp [stream]

theorem run_aligned {cj : CJsonLib} {buffer : Buf packSize} {msgs : List Message}
    {cut : List Input} (h : Aligned buffer msgs cut) :
    ∀ {p : Parser}, p.buffer = buffer → Idle p.dev → (∀ m ∈ msgs, m.WellFormed cj ∧ m.Fits) →
    AllSucceed cut →
    ∃ p', Run (Turns cj) p cut p' ∧ p'.dev.view = msgs.foldl (Message.effect cj) p.dev.view := by
  induction h with
  | nil buffer => intro p _ _ _ _; exact ⟨p, Run.nil p, rfl⟩
  | @cons buffer m msgs i pieces rest hterm hpieces _ ih =>
      intro p hbuffer hd hmsgs hall
      subst hbuffer
      have hm := hmsgs m (List.mem_cons_self ..)
      obtain ⟨mid, hrun, hidle, hview⟩ := run_message hd hm.1 hm.2 hterm hpieces
        fun j hj => hall j (List.mem_append_left _ (List.mem_cons_of_mem i hj))
      obtain ⟨p', hrun', hview'⟩ := ih (run_buffer hrun) hidle
        (fun m' hm' => hmsgs m' (List.mem_cons_of_mem m hm'))
        fun j hj => hall j (List.mem_append_right _ hj)
      exact ⟨p', run_append hrun hrun', by rw [hview', hview]; rfl⟩

/-- The update of three bytes as one message. -/
def updateMessage : Message := .update updateText (ascii "abc") (ascii "fw") 891568578

theorem updateMessage_ok : ∀ m ∈ [updateMessage], m.WellFormed serverLib ∧ m.Fits := by
  intro m hm
  rw [List.mem_singleton.mp hm]
  exact ⟨updateText_isUpdateHeader, (by decide : 0 < (ascii "abc").length)⟩

/-- Cut after the header, and once more. -/
def updateCut : List Input := ⟨updatePacket, .good⟩ :: updatePieces

/-- Cut after the header only. -/
def updateCut' : List Input := [⟨updatePacket, .good⟩, ⟨⟨ascii "abc", by decide, by decide⟩, .good⟩]

theorem good_allSucceed {cut : List Input} (h : ∀ i ∈ cut, i.outcomes = .good) :
    AllSucceed cut := by
  intro i hi
  rw [h i hi]
  exact ⟨good_succeeds, rfl⟩

theorem updateCut_aligned : Aligned freshParser.buffer [updateMessage] updateCut := by
  have hpieces : payload updatePieces = updateMessage.payload := rfl
  have h := Aligned.cons (m := updateMessage) updatePacket_alone.terminated hpieces (Aligned.nil _)
  rwa [List.append_nil] at h

theorem updateCut'_aligned : Aligned freshParser.buffer [updateMessage] updateCut' := by
  have hpieces : payload updateCut'.tail = updateMessage.payload := rfl
  have h := Aligned.cons (m := updateMessage) updatePacket_alone.terminated hpieces (Aligned.nil _)
  rwa [List.append_nil] at h

/-- The update in a single packet. -/
def mergedCut : List Input := [⟨⟨updateText ++ ascii "abc", by decide, by decide⟩, .good⟩]

/-- The packet is taken for no header at all. -/
theorem mergedCut_refused {p : Parser} (h : Run (Turns serverLib) freshParser mergedCut p) :
    p.dev.fs = fun _ => none := by
  cases h with
  | cons hstep hrest =>
      cases hrest
      obtain ⟨r, hr, rfl⟩ := threadParseRecvData_ok hstep
      have hread : readHeader serverLib (cstr (receive freshParser.buffer
          ⟨updateText ++ ascii "abc", by decide, by decide⟩).data) = .ok .noJson := by
        rw [readHeader, if_pos (by decide +kernel)]
      rw [parseRecvData_crsNone _ _ _ _ rfl, strlen_of_mem (by decide +kernel), hread] at hr
      cases hr
      rfl

end EleDs
