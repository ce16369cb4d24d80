/-
Whether the machine and the server stay in step.

Here the server does all it can: every header is a packet of its own with zeros behind
it, and every payload comes in packets of its own that add up to what the header
announced.  The machine then takes each header for a header, as long as every message
before it had an end it could see.  A report or an update that announces nothing has
none: the machine waits for data anyway, and what comes next is the following header.

`Going` is a transfer the machine can finish.  Every piece but the last keeps it, and
the last one, whatever happens to it, leaves the machine idle.
-/
import EleDs.Proofs.Descriptors
import EleDs.Proofs.Stream

namespace EleDs

open CMem CJson Machine

/-! ### What the server sends -/

/-- The three kinds of messages. -/
inductive Kind where
  | memo (message : Bytes)
  | weather
  | update

/-- A message: a header and the payload it announces. -/
structure Sent where
  kind : Kind
  header : Bytes
  payload : Bytes

namespace Sent

/-- The header has the members of its kind, and announces the payload. -/
def WellFormed (cj : CJsonLib) (m : Sent) : Prop :=
  match m.kind with
  | .memo message => m.payload = [] ∧ ∃ len packinfo, IsHeader cj m.header 0x80 len packinfo ∧
      packinfo.getObjectItem (ascii "message") = some (.string message)
  | .weather => IsWeatherHeader cj m.header m.payload.length
  | .update => ∃ packinfo, IsHeader cj m.header 0x82 m.payload.length packinfo ∧
      (∃ crc, packinfo.getObjectItem (ascii "crc") = some crc) ∧
      (∃ version, packinfo.getObjectItem (ascii "version") = some version) ∧
      ∃ build, packinfo.getObjectItem (ascii "buildinfo") = some (.string build)

/-- A header holds no NUL. -/
theorem WellFormed.noNul {cj : CJsonLib} {m : Sent} (h : m.WellFormed cj) : 0 ∉ m.header := by
  unfold WellFormed at h
  split at h
  · obtain ⟨-, len, packinfo, hheader, -⟩ := h
    exact hheader.noNul
  · obtain ⟨packinfo, hheader, -⟩ := h
    exact hheader.noNul
  · obtain ⟨packinfo, hheader, -⟩ := h
    exact hheader.noNul

/-- What is announced is not nothing, and fits the array it is for. -/
def Fits (m : Sent) : Prop :=
  match m.kind with
  | .memo message => (cstr message).length < memoSize
  | .weather => 0 < m.payload.length ∧ m.payload.length ≤ weatherArraySize
  | .update => 0 < m.payload.length

end Sent

/-- A message and the packets it comes in. -/
structure Delivery where
  msg : Sent
  header : Input
  pieces : List Input

def Delivery.packets (d : Delivery) : List Input := d.header :: d.pieces

/-- The packets of several messages, in order. -/
def packetsOf (ds : List Delivery) : List Input := ds.flatMap Delivery.packets

/-- The messages come one after the other into the buffer, each header alone in its packet
and each payload in packets that carry nothing else. -/
inductive Arrives (cj : CJsonLib) : Buf packSize → List Delivery → Prop where
  | nil (buffer : Buf packSize) : Arrives cj buffer []
  | cons {buffer : Buf packSize} {d : Delivery} {rest : List Delivery}
      (hwf : d.msg.WellFormed cj) (halone : Alone buffer d.header d.msg.header)
      (hpieces : payload d.pieces = d.msg.payload)
      (hrest : Arrives cj (bufferAfter buffer d.packets) rest) : Arrives cj buffer (d :: rest)

/-- No call made for a packet of an update fails, but for the one that completes it. -/
def Unbroken (d : Delivery) : Prop :=
  d.msg.kind = .update →
    ∀ i ∈ d.pieces.dropLast, 0 ≤ i.outcomes.openRet ∧ i.outcomes.write ≠ .failed

/-- Every header meets the machine idle, and is what it reads. -/
def Synced (cj : CJsonLib) (start : Parser) (ds : List Delivery) : Prop :=
  ∀ before d after, ds = before ++ d :: after →
    ∃ p, Run (Turns cj) start (packetsOf before) p ∧ p.dev.recvInfo.recvState = .crsNone ∧
      cstr (receive p.buffer d.header.packet).data = d.msg.header

/-! ### A transfer that can be finished -/

/-- `k` of `n` bytes have come, and the rest can. -/
structure Going (d : Device) (n k : Nat) : Prop where
  busy : Busy d n k
  weather : d.recvInfo.curparseType = .servermsgWeather → n ≤ weatherArraySize
  isOpen : 0 < d.recvInfo.updateFileFd → (d.fds d.recvInfo.updateFileFd).isSome

theorem Going.stepOk (cj : CJsonLib) {p : Parser} {n k : Nat} (h : Going p.dev n k) {i : Input}
    (hlen : k + i.packet.data.length ≤ n) : StepOk cj p i := by
  have hs := h.busy.recvState
  constructor
  · intro hnone
    rw [hs] at hnone
    cases hnone
  · intro _ ht _
    have hfits := h.weather ht
    rw [h.busy.recvLen]
    omega

/-- The piece that completes a transfer ends it. -/
theorem Going.last (cj : CJsonLib) {p : Parser} {n k : Nat} (h : Going p.dev n k) {i : Input}
    (hlen : k + i.packet.data.length = n) : ∃ p', Turns cj p i p' ∧ Idle p'.dev := by
  obtain ⟨p', hturn⟩ := turn_total (h.stepOk cj (i := i) (by omega)) (Or.inr ⟨n, k, h.busy⟩)
  refine ⟨p', hturn, ?_⟩
  rcases (turn_cases (Or.inr h.busy.recvState) hturn).of_busy h.busy with hidle | hbusy
  · exact hidle
  · have hpos := i.packet.nonempty
    have htotal := hbusy.total
    rcases hbusy.waiting with h0 | hmore
    · omega
    · omega

/-- An update packet whose calls do not fail is stored, in a file that is open. -/
theorem storeUpdate_isOpen {d : Device} (data : Bytes) {o : Outcomes}
    (hfd : 0 < d.recvInfo.updateFileFd → (d.fds d.recvInfo.updateFileFd).isSome)
    (hopen : 0 ≤ o.openRet) (hwrite : o.write ≠ .failed) :
    (d.storeUpdate data o).1 = true ∧
      (0 < (d.storeUpdate data o).2.recvInfo.updateFileFd →
        ((d.storeUpdate data o).2.fds (d.storeUpdate data o).2.recvInfo.updateFileFd).isSome) := by
  have hret : 0 ≤ o.write.ret data := by
    cases hw : o.write with
    | full => simp [WriteOutcome.ret]
    | short n => simp [WriteOutcome.ret]
    | failed => exact absurd hw hwrite
  by_cases hle : d.recvInfo.updateFileFd ≤ 0
  · have hneg : ¬ o.openRet < 0 := by omega
    simp [Device.storeUpdate, hle, openUpdateFile, hneg, writeFd, hret]
  · have hneg : ¬ d.recvInfo.updateFileFd < 0 := by omega
    obtain ⟨name, hname⟩ := Option.isSome_iff_exists.mp (hfd (by omega))
    simp [Device.storeUpdate, hle, hneg, writeFd, hname, hret]

/-- What is left of a device when the piece it has stored is counted. -/
theorem settle_more {d : Device} {n k : Nat} (h : Busy d n k) {len : Nat} (hlen : k + len < n)
    (o : Outcomes) : settle d len o = (2, d.count len) := by
  have htotal := h.total
  have hrange := h.range
  have hwrap : wrap32 (d.recvInfo.datalen - len) = d.recvInfo.datalen - len :=
    wrap32_of_range (by omega) (by omega)
  rw [settle, if_neg (by rw [hwrap]; omega)]

/-- A piece of a report that neither completes nor overruns it is copied and counted. -/
theorem turns_weather_more (cj : CJsonLib) {p : Parser} {n k : Nat} (h : Busy p.dev n k) {i : Input}
    (ht : p.dev.recvInfo.curparseType = .servermsgWeather) (hlen : k + i.packet.data.length < n)
    (hfits : k + i.packet.data.length ≤ weatherArraySize) :
    ∃ w, Turns cj p i ⟨(p.dev.storeWeather cj w i.outcomes.save).count i.packet.data.length,
      receive p.buffer i.packet⟩ := by
  have hcame := h.recvLen
  have htotal := h.total
  have hroom : p.dev.recvInfo.recvLen.toNat + i.packet.data.length ≤ weatherArraySize := by omega
  obtain ⟨w, hcopy, -⟩ := Buf.memcpy_ok p.dev.deviceCfg.weatherInfo hroom
  have hstored : Busy (p.dev.storeWeather cj w i.outcomes.save) n k :=
    h.of_eq p.dev.recvInfo.updateFileFd rfl
  have hparse := parseRecvData_weather cj (receive p.buffer i.packet).data
    i.packet.data.length i.outcomes h.recvState (by omega) ht (by omega)
  rw [receive_take, hcopy] at hparse
  have hturn := threadParseRecvData_of_ok hparse
  rw [settle_more hstored hlen] at hturn
  exact ⟨w, hturn⟩

/-- Every other piece leaves the transfer open. -/
theorem Going.more (cj : CJsonLib) {p : Parser} {n k : Nat} (h : Going p.dev n k) {i : Input}
    (hlen : k + i.packet.data.length < n)
    (hstore : p.dev.recvInfo.curparseType = .servermsgClientupdate →
      0 ≤ i.outcomes.openRet ∧ i.outcomes.write ≠ .failed) :
    ∃ p', Turns cj p i p' ∧ Going p'.dev n (k + i.packet.data.length) ∧
      p'.dev.recvInfo.curparseType = p.dev.recvInfo.curparseType := by
  have hs := h.busy.recvState
  have hpos : 0 < p.dev.recvInfo.datalen := by
    have := h.busy.total
    omega
  -- the device with the piece stored, and the turn that counts it
  obtain ⟨d, hturn, htype, hsame, hopen⟩ : ∃ d : Device,
      Turns cj p i ⟨d.count i.packet.data.length, receive p.buffer i.packet⟩ ∧
      d.recvInfo.curparseType = p.dev.recvInfo.curparseType ∧
      d.recvInfo.recvState = .crsData ∧
      (0 < d.recvInfo.updateFileFd → (d.fds d.recvInfo.updateFileFd).isSome) := by
    rcases h.busy.curparseType with ht | ht
    · have hfits := h.weather ht
      obtain ⟨w, hturn⟩ := turns_weather_more cj h.busy ht hlen (by omega)
      exact ⟨_, hturn, rfl, hs, h.isOpen⟩
    · obtain ⟨hok, hopen⟩ := storeUpdate_isOpen i.packet.data h.isOpen (hstore ht).1 (hstore ht).2
      have hinfo := (storeUpdate_fileOnly p.dev i.packet.data i.outcomes).recvInfo
      have hparse := parseRecvData_update cj (receive p.buffer i.packet).data
        i.packet.data.length i.outcomes hs hpos ht
      rw [receive_take, if_pos hok, settle_more (h.busy.of_eq _ hinfo) hlen] at hparse
      exact ⟨_, threadParseRecvData_of_ok hparse, by rw [hinfo], by rw [hinfo]; exact hs, hopen⟩
  refine ⟨_, hturn, ⟨?_, ?_, hopen⟩, htype⟩
  · exact_mod_cast (turn_cases (Or.inr hs) hturn).stays_busy h.busy hsame
  · intro ht
    exact h.weather (htype.symm.trans ht)

/-- **A transfer that can be finished is finished by its pieces.** -/
theorem Going.run (cj : CJsonLib) {n : Nat} (pieces : List Input) : ∀ {p : Parser} {k : Nat},
    Going p.dev n k → pieces ≠ [] → k + (payload pieces).length = n →
    (p.dev.recvInfo.curparseType = .servermsgClientupdate →
      ∀ i ∈ pieces.dropLast, 0 ≤ i.outcomes.openRet ∧ i.outcomes.write ≠ .failed) →
    ∃ p', Run (Turns cj) p pieces p' ∧ Idle p'.dev := by
  induction pieces with
  | nil => intro p k _ hne; exact absurd rfl hne
  | cons i rest ih =>
      intro p k h _ hlen hstore
      rw [payload_cons, List.length_append] at hlen
      by_cases hrest : rest = []
      · subst hrest
        obtain ⟨p', hturn, hidle⟩ := h.last cj (i := i) (by simpa [payload] using hlen)
        exact ⟨p', run_singleton hturn, hidle⟩
      · obtain ⟨j, rest', rfl⟩ := List.exists_cons_of_ne_nil hrest
        have hj := j.packet.nonempty
        have hpos : 0 < (payload (j :: rest')).length := by
          rw [payload_cons, List.length_append]
          omega
        obtain ⟨mid, hturn, hgoing, htype⟩ := h.more cj (i := i) (by omega)
          fun ht => hstore ht i (by simp)
        obtain ⟨p', hrun, hidle⟩ := ih hgoing hrest (by omega) fun ht j hj =>
          hstore (htype ▸ ht) j (by simp [hj])
        exact ⟨p', Run.cons hturn hrun, hidle⟩

/-! ### One message -/

/-- The header of a memo that fits is taken in at once, and touches nothing but the memo. -/
theorem turns_memo_fits {cj : CJsonLib} {p : Parser} {i : Input} {text message : Bytes} {len : Int}
    {packinfo : CJson} (hd : Idle p.dev) (h : IsHeader cj text 0x80 len packinfo)
    (hmsg : packinfo.getObjectItem (ascii "message") = some (.string message))
    (hterm : Terminated p.buffer i text) (hfits : (cstr message).length < memoSize) :
    ∃ p', Turns cj p i p' ∧ Idle p'.dev ∧ p'.dev.fs = p.dev.fs ∧
      p'.dev.deviceCfg =
        { p.dev.deviceCfg with memo := copied p.dev.deviceCfg.memo (cstr message ++ [0]) } := by
  have hlen : 0 + (cstr message ++ [0]).length ≤ memoSize := by
    rw [List.length_append, List.length_singleton]
    omega
  obtain ⟨memo, hcopy, -⟩ := Buf.memcpy_ok p.dev.deviceCfg.memo hlen
  have hact : p.dev.onHeader (.memo (cstr message))
      = .ok (0, clearClientInfo (p.dev.withMemo memo)) := by
    simp only [Device.onHeader, hcopy]
    rfl
  refine ⟨_, turns_header hd h.noNul hterm (h.readHeader_memo hmsg) hact (by simp),
    clearClientInfo_idle _, ?_, ?_⟩
  · exact clearClientInfo_fs _
  · rw [clearClientInfo_deviceCfg, memcpy_copied hcopy]
    rfl

/-- The message type a transfer of that kind is received under. -/
def Kind.type : Kind → EleMsgType
  | .memo _ => .servermsgMemo
  | .weather => .servermsgWeather
  | .update => .servermsgClientupdate

/-- The header of a report or an update opens the transfer it announces. -/
theorem turns_announced {cj : CJsonLib} {p : Parser} {i : Input} {m : Sent} (hd : Idle p.dev)
    (hwf : m.WellFormed cj) (hkind : m.kind = .weather ∨ m.kind = .update)
    (hterm : Terminated p.buffer i m.header) :
    ∃ p', Turns cj p i p' ∧ Busy p'.dev m.payload.length 0 ∧
      p'.dev.recvInfo.curparseType = m.kind.type ∧ p'.dev.recvInfo.updateFileFd ≤ 0 := by
  rcases hkind with hk | hk
  · simp only [Sent.WellFormed, hk] at hwf
    have hread := readHeader_weather hwf
    obtain ⟨packinfo, hheader, -⟩ := hwf
    obtain ⟨-, -, -, -, -, hitem⟩ := hheader.parses
    refine ⟨_, turns_header hd hheader.noNul hterm hread rfl (by simp), ?_, by rw [hk]; rfl,
      hd.updateFileFd⟩
    exact ⟨rfl, Or.inl rfl, hd.recvLen, by simp [Device.expectWeather], itemInt_range hitem,
      Or.inl rfl⟩
  · simp only [Sent.WellFormed, hk] at hwf
    obtain ⟨packinfo, hheader, ⟨crc, hcrc⟩, ⟨version, hversion⟩, build, hbuild⟩ := hwf
    have hread := hheader.readHeader_update hcrc hversion hbuild
    obtain ⟨-, -, -, -, -, hitem⟩ := hheader.parses
    have hrange := itemInt_range hitem
    obtain ⟨name, hname, -⟩ := updateFileName_ok
      (updateInfo m.payload.length (doubleToUInt32 crc.valuedouble) version build).buildinfo
    refine ⟨_, turns_header hd hheader.noNul hterm hread (by simp only [Device.onHeader, hname]; rfl)
      (by simp), ?_, by rw [hk]; rfl, hd.updateFileFd⟩
    refine ⟨rfl, Or.inr rfl, hd.recvLen, ?_, hrange, Or.inl rfl⟩
    simpa [Device.expectUpdate, updateInfo] using wrap32_ofInt hrange.1 hrange.2

/-- Packets that carry nothing are no packets. -/
theorem pieces_nil {pieces : List Input} (h : payload pieces = []) : pieces = [] := by
  cases pieces with
  | nil => rfl
  | cons j rest =>
      have := j.packet.nonempty
      rw [payload_cons, List.append_eq_nil_iff] at h
      rw [h.1] at this
      cases this

/-- **A message that fits leaves the machine idle for the next.** -/
theorem run_delivery {cj : CJsonLib} {p : Parser} {d : Delivery} (hd : Idle p.dev)
    (hwf : d.msg.WellFormed cj) (hfits : d.msg.Fits) (hterm : Terminated p.buffer d.header d.msg.header)
    (hpieces : payload d.pieces = d.msg.payload) (hstore : Unbroken d) :
    ∃ p', Run (Turns cj) p d.packets p' ∧ Idle p'.dev := by
  by_cases hkind : d.msg.kind = .weather ∨ d.msg.kind = .update
  · obtain ⟨mid, hturn, hbusy, htype, hfd⟩ := turns_announced hd hwf hkind hterm
    have hpos : 0 < d.msg.payload.length := by
      rcases hkind with hk | hk
      · simp only [Sent.Fits, hk] at hfits
        exact hfits.1
      · simpa only [Sent.Fits, hk] using hfits
    have hweather : mid.dev.recvInfo.curparseType = .servermsgWeather →
        d.msg.payload.length ≤ weatherArraySize := by
      intro ht
      rcases hkind with hk | hk
      · simp only [Sent.Fits, hk] at hfits
        exact hfits.2
      · rw [htype, hk] at ht
        cases ht
    have hgoing : Going mid.dev d.msg.payload.length 0 :=
      ⟨hbusy, hweather, fun h => by omega⟩
    have hne : d.pieces ≠ [] := by
      intro hnil
      rw [← hpieces, hnil] at hpos
      exact absurd hpos (by decide)
    have hupdate : mid.dev.recvInfo.curparseType = .servermsgClientupdate →
        ∀ i ∈ d.pieces.dropLast, 0 ≤ i.outcomes.openRet ∧ i.outcomes.write ≠ .failed := by
      intro ht
      rcases hkind with hk | hk
      · rw [htype, hk] at ht
        cases ht
      · exact hstore hk
    obtain ⟨p', hrun, hidle⟩ := hgoing.run cj d.pieces hne (by rw [hpieces]; omega) hupdate
    exact ⟨p', Run.cons hturn hrun, hidle⟩
  · cases hk : d.msg.kind with
    | memo message =>
        simp only [Sent.WellFormed, hk] at hwf
        simp only [Sent.Fits, hk] at hfits
        obtain ⟨hempty, len, packinfo, hheader, hmsg⟩ := hwf
        obtain ⟨p', hturn, hidle, -⟩ := turns_memo_fits hd hheader hmsg hterm hfits
        have hnil := pieces_nil (hpieces.trans hempty)
        refine ⟨p', ?_, hidle⟩
        rw [Delivery.packets, hnil]
        exact run_singleton hturn
    | weather => exact absurd (Or.inl hk) hkind
    | update => exact absurd (Or.inr hk) hkind

/-- The pieces of a report that are all copied fit the array. -/
theorem weather_run_fits {cj : CJsonLib} {n : Nat} (pieces : List Input) : ∀ {p q : Parser} {k : Nat},
    Busy p.dev n k → p.dev.recvInfo.curparseType = .servermsgWeather → pieces ≠ [] →
    k + (payload pieces).length = n → Run (Turns cj) p pieces q → n ≤ weatherArraySize := by
  induction pieces with
  | nil => intro p q k _ _ hne; exact absurd rfl hne
  | cons i rest ih =>
      intro p q k h ht _ hlen hrun
      rw [payload_cons, List.length_append] at hlen
      have hi := i.packet.nonempty
      cases hrun with
      | cons hstep hrest =>
          -- the copy for the first piece was made
          have hcopied : CopiesFit cj p i := by
            by_contra hno
            rw [Turns, (overrun_iff (Or.inr ⟨n, k, h⟩)).mpr hno] at hstep
            cases hstep
          have htotal := h.total
          have hfits := hcopied.weather h.recvState ht (by omega)
          rw [h.recvLen] at hfits
          by_cases hnil : rest = []
          · subst hnil
            simp only [payload, List.flatMap_nil, List.length_nil] at hlen
            omega
          · obtain ⟨j, rest', rfl⟩ := List.exists_cons_of_ne_nil hnil
            have hj := j.packet.nonempty
            have hpos : 0 < (payload (j :: rest')).length := by
              rw [payload_cons, List.length_append]
              omega
            obtain ⟨w, hturn⟩ := turns_weather_more cj (i := i) h ht (by omega) (by omega)
            have hmid := turns_unique cj p i _ _ hstep hturn
            subst hmid
            have hstate : ((p.dev.storeWeather cj w i.outcomes.save).count
                i.packet.data.length).recvInfo.recvState = .crsData := h.recvState
            have hbusy : Busy ((p.dev.storeWeather cj w i.outcomes.save).count
                i.packet.data.length) n (k + i.packet.data.length) := by
              exact_mod_cast (turn_cases (Or.inr h.recvState) hturn).stays_busy h hstate
            exact ih (p := ⟨_, receive p.buffer i.packet⟩) hbusy ht hnil (by omega) hrest

/-- A message that is got through fitted. -/
theorem fits_of_run {cj : CJsonLib} {p q : Parser} {d : Delivery} (hd : Idle p.dev)
    (hwf : d.msg.WellFormed cj) (hterm : Terminated p.buffer d.header d.msg.header)
    (hpieces : payload d.pieces = d.msg.payload) (hrun : Run (Turns cj) p d.packets q)
    (hq : q.dev.recvInfo.recvState = .crsNone) : d.msg.Fits := by
  by_cases hkind : d.msg.kind = .weather ∨ d.msg.kind = .update
  · obtain ⟨mid, hturn, hbusy, htype, -⟩ := turns_announced hd hwf hkind hterm
    cases hrun with
    | cons hstep hrest =>
        have hmid := turns_unique cj p d.header _ _ hstep hturn
        subst hmid
        have hne : d.pieces ≠ [] := by
          intro hnil
          rw [hnil] at hrest
          cases hrest
          rw [hbusy.recvState] at hq
          cases hq
        have hpos : 0 < d.msg.payload.length := by
          rw [List.length_pos_iff, ← hpieces]
          exact fun h => hne (pieces_nil h)
        rcases hkind with hk | hk
        · rw [hk] at htype
          simp only [Sent.Fits, hk]
          exact ⟨hpos, weather_run_fits d.pieces hbusy htype hne (by rw [hpieces]; omega) hrest⟩
        · simpa only [Sent.Fits, hk] using hpos
  · cases hk : d.msg.kind with
    | memo message =>
        simp only [Sent.WellFormed, hk] at hwf
        obtain ⟨-, len, packinfo, hheader, hmsg⟩ := hwf
        obtain ⟨hmem, hstr⟩ := hterm.cstr hheader.noNul
        cases hrun with
        | cons hstep hrest =>
            have hcopied : CopiesFit cj p d.header := by
              by_contra hno
              rw [Turns, (overrun_iff (Or.inl hd)).mpr hno] at hstep
              cases hstep
            simp only [Sent.Fits, hk]
            refine hcopied.memo hd.recvState hmem (cstr message) ?_
            rw [hstr]
            exact hheader.readHeader_memo hmsg
    | weather => exact absurd (Or.inl hk) hkind
    | update => exact absurd (Or.inr hk) hkind

/-! ### All messages -/

theorem packetsOf_append (a b : List Delivery) : packetsOf (a ++ b) = packetsOf a ++ packetsOf b :=
  List.flatMap_append

/-- What a delivery looks like behind others. -/
theorem Arrives.split {cj : CJsonLib} (before : List Delivery) :
    ∀ {buffer : Buf packSize} {d : Delivery} {after : List Delivery},
    Arrives cj buffer (before ++ d :: after) →
    d.msg.WellFormed cj ∧ Alone (bufferAfter buffer (packetsOf before)) d.header d.msg.header ∧
      payload d.pieces = d.msg.payload := by
  induction before with
  | nil =>
      intro buffer d after h
      cases h with
      | cons hwf halone hpieces _ => exact ⟨hwf, halone, hpieces⟩
  | cons d' before ih =>
      intro buffer d after h
      cases h with
      | cons _ _ _ hrest =>
          have hbuffer : bufferAfter buffer (packetsOf (d' :: before))
              = bufferAfter (bufferAfter buffer d'.packets) (packetsOf before) := List.foldl_append
          rw [hbuffer]
          exact ih hrest

/-- Messages that fit are read one after the other. -/
theorem synced_of_fits {cj : CJsonLib} {buffer : Buf packSize} {ds : List Delivery}
    (h : Arrives cj buffer ds) : ∀ {p : Parser}, p.buffer = buffer → Idle p.dev →
    (∀ d ∈ ds.dropLast, d.msg.Fits) → (∀ d ∈ ds.dropLast, Unbroken d) → Synced cj p ds := by
  induction h with
  | nil buffer =>
      intro p _ _ _ _ before d after hsplit
      simp at hsplit
  | @cons buffer d rest hwf halone hpieces _ ih =>
      intro p hbuffer hd hfits hstore before d' after hsplit
      subst hbuffer
      cases before with
      | nil =>
          obtain ⟨rfl, -⟩ := List.cons.inj hsplit
          exact ⟨p, Run.nil p, hd.recvState, (halone.terminated.cstr hwf.noNul).2⟩
      | cons first before =>
          obtain ⟨rfl, hsplit'⟩ := List.cons.inj hsplit
          have hne : rest ≠ [] := by rw [hsplit']; simp
          rw [List.dropLast_cons_of_ne_nil hne] at hfits hstore
          obtain ⟨mid, hrun, hidle⟩ := run_delivery hd hwf (hfits d (List.mem_cons_self ..))
            halone.terminated hpieces (hstore d (List.mem_cons_self ..))
          obtain ⟨q, hrun', hq⟩ := ih (run_buffer hrun) hidle
            (fun e he => hfits e (List.mem_cons_of_mem d he))
            (fun e he => hstore e (List.mem_cons_of_mem d he)) before d' after hsplit'
          exact ⟨q, run_append hrun hrun', hq⟩

/-- And messages that are read one after the other fitted. -/
theorem Synced.fits {cj : CJsonLib} {start : Parser} {ds : List Delivery} (hsync : Synced cj start ds)
    (hreach : Reachable cj start) (harrives : Arrives cj start.buffer ds) :
    ∀ d ∈ ds.dropLast, d.msg.Fits := by
  intro d hd
  obtain ⟨before, after, hsplit⟩ := List.append_of_mem hd
  have hne : ds ≠ [] := by
    rintro rfl
    simp at hd
  obtain ⟨next, rest, hds⟩ : ∃ next rest, ds = before ++ d :: next :: rest := by
    rw [← List.dropLast_append_getLast hne, hsplit]
    cases after with
    | nil => exact ⟨ds.getLast hne, [], by simp⟩
    | cons e after => exact ⟨e, after ++ [ds.getLast hne], by simp⟩
  obtain ⟨p, hrun, hp, -⟩ := hsync before d (next :: rest) hds
  obtain ⟨q, hrun', hq, -⟩ := hsync (before ++ [d]) next rest (by simp [hds])
  -- the two runs share their beginning
  rw [packetsOf_append] at hrun'
  obtain ⟨mid, hfirst, hsecond⟩ := run_split hrun'
  have hmid := run_unique (turns_unique cj) hfirst hrun
  subst hmid
  have hidle : Idle mid.dev := by
    obtain ⟨cfg, fs, inputs, hinit⟩ := hreach
    exact Reachable.idle ⟨cfg, fs, _, run_append hinit hrun⟩ hp
  rw [hds] at harrives
  obtain ⟨hwf, halone, hpieces⟩ := harrives.split before
  rw [← run_buffer hrun] at halone
  exact fits_of_run hidle hwf halone.terminated hpieces (by simpa [packetsOf] using hsecond) hq

/-- The memo, and the update behind it. -/
def memoDelivery : Delivery := ⟨⟨.memo (ascii "hi"), memoText, []⟩, ⟨memoPacket, .good⟩, []⟩

def updateDelivery : Delivery :=
  ⟨⟨.update, updateText, ascii "abc"⟩, ⟨updatePacket, .good⟩, updatePieces⟩

theorem memoDelivery_wellFormed : memoDelivery.msg.WellFormed serverLib :=
  ⟨rfl, 2, _, ⟨by decide, by decide, _, rfl, rfl, rfl, ⟨1, rfl⟩, rfl⟩, rfl⟩

theorem updateDelivery_wellFormed : updateDelivery.msg.WellFormed serverLib :=
  ⟨_, ⟨by decide, by decide, _, rfl, rfl, rfl, ⟨1, rfl⟩, rfl⟩, ⟨_, rfl⟩, ⟨_, rfl⟩, _, rfl⟩

theorem memoThenUpdate_arrives :
    Arrives serverLib freshParser.buffer [memoDelivery, updateDelivery] := by
  refine .cons memoDelivery_wellFormed ⟨rfl, packSize - memoText.length - 1, by decide +kernel⟩ rfl ?_
  refine .cons updateDelivery_wellFormed ⟨rfl, packSize - updateText.length - 1, by decide +kernel⟩
    rfl (.nil _)

def emptyWeatherText : Bytes :=
  ascii "\x7b\"msgtype\":129,\"packcnt\":1,\"packinfo\":\x7b\"len\":0,\"weatherdays\":0\x7d\x7d"

/-- cJSON on the empty report and the update. -/
def emptyWeatherLib : CJsonLib :=
  tableLib
    [(emptyWeatherText, headerJson 129
        [(ascii "len", jsonNumber 0), (ascii "weatherdays", jsonNumber 0)]),
     (updateText, headerJson 130
        [(ascii "len", jsonNumber 3), (ascii "crc", jsonNumber 891568578),
         (ascii "version", jsonNumber 2), (ascii "buildinfo", .string (ascii "fw"))])] []

def emptyWeatherDelivery : Delivery :=
  ⟨⟨.weather, emptyWeatherText, []⟩, ⟨⟨emptyWeatherText, by decide, by decide⟩, .good⟩, []⟩

theorem emptyWeatherDelivery_wellFormed : emptyWeatherDelivery.msg.WellFormed emptyWeatherLib :=
  ⟨_, ⟨by decide, by decide, _, rfl, rfl, rfl, ⟨1, rfl⟩, rfl⟩, 0, rfl⟩

theorem emptyWeather_arrives :
    Arrives emptyWeatherLib freshParser.buffer [emptyWeatherDelivery, updateDelivery] := by
  refine .cons emptyWeatherDelivery_wellFormed
    ⟨rfl, packSize - emptyWeatherText.length - 1, by decide +kernel⟩ rfl ?_
  refine .cons ?_ ⟨rfl, packSize - updateText.length - 1, by decide +kernel⟩ rfl (.nil _)
  exact ⟨_, ⟨by decide, by decide, _, rfl, rfl, rfl, ⟨1, rfl⟩, rfl⟩, ⟨_, rfl⟩, ⟨_, rfl⟩, _, rfl⟩

end EleDs
