/-
An update that arrives in pieces.

When the header of an update comes alone in its packet and the files behave, the
pieces of the payload end up in the update file one after the other, whatever their
sizes: the first one opens and truncates the file, every one is appended, and the one
that completes the announced length closes the file and has its checksum compared.

`Writing` is the state between two pieces.  A piece that does not complete the
payload keeps it, and the last one leads out of it.
-/
import EleDs.Proofs.Runs

namespace EleDs

open CMem CJson Machine

/-- The calls made for a packet of an update succeed, and `open` returns a positive
descriptor. -/
structure Succeeds (o : Outcomes) : Prop where
  openRet : 0 < o.openRet
  write : o.write = .full
  crcOpens : o.crc.opens = true
  crcReads : .failed ∉ o.crc.reads

/-- The payload the packets carry. -/
def payload (pieces : List Input) : Bytes := pieces.flatMap (·.packet.data)

@[simp] theorem payload_cons (i : Input) (rest : List Input) :
    payload (i :: rest) = i.packet.data ++ payload rest := rfl

/-- The receive state `clear_client_info` leaves after an update. -/
def clearedInfo (crc : UInt32) : RecvInfo where
  recvState := .crsNone
  curparseType := .clientmsgNone
  datalen := 0
  recvLen := 0
  updateFileFd := -1
  updateFileName := Buf.zero 256
  updateFileCrc := crc

theorem idle_of_clearedInfo {d : Device} {crc : UInt32} (h : d.recvInfo = clearedInfo crc) :
    Idle d := by
  constructor <;> rw [h]
  · rfl
  · rfl
  · rfl
  · rfl
  · exact (by decide : (-1 : Int) ≤ 0)

/-! ### Between two pieces -/

/-- An update is on its way: its name and checksum are known and `left` bytes are missing. -/
structure Expecting (d : Device) (name : Bytes) (crc : UInt32) (left : Int) : Prop where
  recvState : d.recvInfo.recvState = .crsData
  curparseType : d.recvInfo.curparseType = .servermsgClientupdate
  datalen : d.recvInfo.datalen = left
  updateFileName : d.recvInfo.updateFileName.str = name
  updateFileCrc : d.recvInfo.updateFileCrc = crc

/-- And its file is open. -/
structure Writing (d : Device) (name : Bytes) (crc : UInt32) (left : Int) (fd : Int) : Prop
    extends Expecting d name crc left where
  updateFileFd : d.recvInfo.updateFileFd = fd
  positive : 0 < fd
  isOpen : d.fds fd = some name

/-- The update file opened, truncated and filled with a first piece. -/
def Device.createFile (d : Device) (fd : Int) (data : Bytes) : Device :=
  { d with
    recvInfo := { d.recvInfo with updateFileFd := fd }
    fs := d.fs.put d.recvInfo.updateFileName.str data
    fds := Function.update d.fds fd (some d.recvInfo.updateFileName.str)
    trace := d.trace ++ [.opened d.recvInfo.updateFileName.str fd, .wrote fd data data.length] }

/-- A further piece behind what the file holds. -/
def Device.appendFile (d : Device) (fd : Int) (name content data : Bytes) : Device :=
  { d with
    fs := d.fs.put name (content ++ data)
    trace := d.trace ++ [.wrote fd data data.length] }

theorem storeUpdate_first {d : Device} (data : Bytes) {o : Outcomes}
    (hfd : d.recvInfo.updateFileFd ≤ 0) (ho : Succeeds o) :
    d.storeUpdate data o = (true, d.createFile o.openRet data) := by
  have hneg : ¬ o.openRet < 0 := by have := ho.openRet; omega
  simp [Device.storeUpdate, hfd, openUpdateFile, hneg, writeFd, ho.write, WriteOutcome.stored,
    WriteOutcome.ret, Device.createFile]

theorem storeUpdate_next {d : Device} (data : Bytes) {name content : Bytes} {crc : UInt32}
    {left fd : Int} {o : Outcomes} (h : Writing d name crc left fd)
    (hfile : d.fs.get name = some content) (ho : Succeeds o) :
    d.storeUpdate data o = (true, d.appendFile fd name content data) := by
  have hle : ¬ fd ≤ 0 := by have := h.positive; omega
  have hlt : ¬ fd < 0 := by omega
  simp [Device.storeUpdate, h.updateFileFd, hle, hlt, writeFd, h.isOpen, hfile, ho.write,
    WriteOutcome.stored, WriteOutcome.ret, Device.appendFile]

theorem Expecting.createFile {d : Device} {name : Bytes} {crc : UInt32} {left fd : Int}
    (h : Expecting d name crc left) (hfd : 0 < fd) (data : Bytes) :
    Writing (d.createFile fd data) name crc left fd where
  recvState := h.recvState
  curparseType := h.curparseType
  datalen := h.datalen
  updateFileName := h.updateFileName
  updateFileCrc := h.updateFileCrc
  updateFileFd := rfl
  positive := hfd
  isOpen := by simp [Device.createFile, h.updateFileName]

theorem Writing.appendFile {d : Device} {name : Bytes} {crc : UInt32} {left fd : Int}
    (h : Writing d name crc left fd) (content data : Bytes) :
    Writing (d.appendFile fd name content data) name crc left fd where
  recvState := h.recvState
  curparseType := h.curparseType
  datalen := h.datalen
  updateFileName := h.updateFileName
  updateFileCrc := h.updateFileCrc
  updateFileFd := h.updateFileFd
  positive := h.positive
  isOpen := h.isOpen

theorem Writing.settle_more {d : Device} {name : Bytes} {crc : UInt32} {left fd : Int}
    (h : Writing d name crc left fd) (len : Nat) (hlen : (len : Int) < left)
    (hleft : left < 2147483648) (o : Outcomes) :
    settle d len o = (2, d.count len) ∧ Writing (d.count len) name crc (left - len) fd := by
  have hwrap : wrap32 (d.recvInfo.datalen - len) = left - len := by
    rw [h.datalen]
    exact wrap32_of_range (by omega) (by omega)
  refine ⟨?_, ⟨h.recvState, h.curparseType, hwrap, h.updateFileName, h.updateFileCrc⟩,
    h.updateFileFd, h.positive, h.isOpen⟩
  rw [settle, if_neg (by rw [hwrap]; omega)]

theorem crcOf_eq {fs : FileSystem} {name content : Bytes} {o : Outcomes} (ho : Succeeds o)
    (hfile : fs.get name = some content) : crcOf fs name o.crc = softCrc32 content 0 := by
  rw [crcOf, crcfile_eq ho.crcOpens ho.crcReads hfile]
  rfl

theorem Writing.settle_last {d : Device} {name content : Bytes} {crc : UInt32} {left fd : Int}
    (h : Writing d name crc left fd) (len : Nat) (hlen : (len : Int) = left) {o : Outcomes}
    (ho : Succeeds o) (hfile : d.fs.get name = some content) :
    settle d len o = (0,
      { d with
        recvInfo := clearedInfo crc
        fds := Function.update d.fds fd none
        trace := d.trace ++ [.closed fd, .comparedCrc (softCrc32 content 0) crc] }) := by
  have hwrap : wrap32 (d.recvInfo.datalen - len) = 0 := by
    rw [h.datalen, hlen, Int.sub_self]
    rfl
  have hpos := h.positive
  have hcrc := crcOf_eq ho hfile
  rw [settle, if_pos (Int.le_of_eq hwrap)]
  simp [finish, Device.count, h.curparseType, clearClientInfo, h.updateFileFd, hpos, closeFd,
    h.updateFileCrc, h.updateFileName, hcrc, clearedInfo]

/-! ### The pieces, one after the other -/

theorem turns_update (cj : CJsonLib) {p : Parser} {i : Input} {name : Bytes} {crc : UInt32}
    {left : Int} {d : Device} (h : Expecting p.dev name crc left) (hleft : 0 < left)
    (hstore : p.dev.storeUpdate i.packet.data i.outcomes = (true, d)) :
    Turns cj p i
      { dev := (settle d i.packet.data.length i.outcomes).2
        buffer := receive p.buffer i.packet } := by
  have hparse := parseRecvData_update cj (receive p.buffer i.packet).data i.packet.data.length
    i.outcomes h.recvState (by rw [h.datalen]; exact hleft) h.curparseType
  rw [receive_take, hstore] at hparse
  have hturn := threadParseRecvData_of_ok hparse
  simp only [if_true, settle_nonneg, if_false] at hturn
  exact hturn

/-- The log entry of a piece. -/
def wroteEvent (fd : Int) (i : Input) : Event := .wrote fd i.packet.data i.packet.data.length

/-- From `d` the payload was received into the file `name` over the files `fs`, with the
calls `calls` made for it. -/
structure Received (d : Device) (fs : FileSystem) (name content : Bytes) (crc : UInt32)
    (calls : List Event) (d' : Device) : Prop where
  deviceCfg : d'.deviceCfg = d.deviceCfg
  recvInfo : d'.recvInfo = clearedInfo crc
  files : d'.fs = fs.put name content
  trace : d'.trace = d.trace ++ calls

/-- The rest of the payload, from a device that has stored a piece of `len` bytes but not
counted it. -/
theorem run_pieces (cj : CJsonLib) (fs : FileSystem) {name : Bytes} {crc : UInt32} {fd : Int}
    (rest : List Input) : ∀ (d : Device) (buffer : Buf packSize) (content : Bytes) (len : Nat)
      (o : Outcomes), Writing d name crc (len + (payload rest).length : Nat) fd →
    len + (payload rest).length < 2147483648 → d.fs = fs.put name content → Succeeds o →
    (∀ i ∈ rest, Succeeds i.outcomes) →
    (∃ p, Run (Turns cj) ⟨(settle d len o).2, buffer⟩ rest p ∧
      Received d fs name (content ++ payload rest) crc
        (rest.map (wroteEvent fd) ++
          [.closed fd, .comparedCrc (softCrc32 (content ++ payload rest) 0) crc]) p.dev) ∧
    ∀ before after, rest = before ++ after → after ≠ [] →
      ∃ p, Run (Turns cj) ⟨(settle d len o).2, buffer⟩ before p ∧
        p.dev.recvInfo.recvState = .crsData := by
  induction rest with
  | nil =>
      intro d buffer content len o hd _ hfs ho _
      have hlast := hd.settle_last len (by simp [payload]) ho
        (by rw [hfs]; exact FileSystem.get_put fs name content)
      refine ⟨⟨_, Run.nil _, ?_⟩, ?_⟩
      · rw [hlast]
        exact ⟨rfl, rfl, by simpa [payload] using hfs, by simp [payload]⟩
      · intro before after hsplit hne
        exact absurd (List.append_eq_nil_iff.mp hsplit.symm).2 hne
  | cons i rest ih =>
      intro d buffer content len o hd hbound hfs ho hrest
      have hi := i.packet.nonempty
      have hlen : (payload (i :: rest)).length = i.packet.data.length + (payload rest).length := by
        rw [payload_cons, List.length_append]
      obtain ⟨hmore, hwriting⟩ := hd.settle_more len (by omega) (by omega) o
      rw [hmore]
      -- the next piece, stored behind what is already there
      have hfile : (d.count len).fs.get name = some content := by
        show d.fs.get name = some content
        rw [hfs]
        exact FileSystem.get_put fs name content
      have hi' := hrest i (List.mem_cons_self ..)
      have hstore := storeUpdate_next i.packet.data hwriting hfile hi'
      have hturn := turns_update cj (p := ⟨d.count len, buffer⟩) hwriting.toExpecting (by omega)
        hstore
      have hleft : ((len + (payload (i :: rest)).length : Nat) : Int) - len
          = (i.packet.data.length + (payload rest).length : Nat) := by omega
      rw [hleft] at hwriting
      have hfs' : ((d.count len).appendFile fd name content i.packet.data).fs
          = fs.put name (content ++ i.packet.data) := by
        show d.fs.put name _ = _
        rw [hfs, FileSystem.put_put]
      obtain ⟨⟨p, hrun, hreceived⟩, hbefore⟩ := ih _ (receive buffer i.packet)
        (content ++ i.packet.data) i.packet.data.length i.outcomes
        (hwriting.appendFile content i.packet.data) (by omega) hfs' hi'
        fun j hj => hrest j (List.mem_cons_of_mem i hj)
      refine ⟨⟨p, Run.cons hturn hrun, ?_⟩, ?_⟩
      · rw [List.append_assoc, ← payload_cons] at hreceived
        refine ⟨hreceived.deviceCfg, hreceived.recvInfo, hreceived.files, ?_⟩
        rw [hreceived.trace]
        simp [Device.appendFile, Device.count, wroteEvent]
      · intro before after hsplit hne
        cases before with
        | nil => exact ⟨_, Run.nil _, hwriting.recvState⟩
        | cons j before =>
            obtain ⟨rfl, hsplit'⟩ := List.cons.inj hsplit
            obtain ⟨p, hrun, hs⟩ := hbefore before after hsplit' hne
            exact ⟨p, Run.cons hturn hrun, hs⟩

/-- The whole payload, from a device that has just read the header. -/
theorem run_payload (cj : CJsonLib) {p : Parser} {name : Bytes} {crc : UInt32} {pieces : List Input}
    (h : Expecting p.dev name crc (payload pieces).length)
    (hfd : p.dev.recvInfo.updateFileFd ≤ 0) (hpos : 0 < (payload pieces).length)
    (hbound : (payload pieces).length < 2147483648) (hok : ∀ i ∈ pieces, Succeeds i.outcomes) :
    (∃ p' fd, Run (Turns cj) p pieces p' ∧
      Received p.dev p.dev.fs name (payload pieces) crc
        (.opened name fd :: pieces.map (wroteEvent fd) ++
          [.closed fd, .comparedCrc (softCrc32 (payload pieces) 0) crc]) p'.dev) ∧
    ∀ before after, pieces = before ++ after → after ≠ [] →
      ∃ mid, Run (Turns cj) p before mid ∧ mid.dev.recvInfo.recvState = .crsData := by
  cases pieces with
  | nil => exact absurd hpos (by decide)
  | cons i rest =>
      have hi := hok i (List.mem_cons_self ..)
      have hlen : (payload (i :: rest)).length = i.packet.data.length + (payload rest).length := by
        rw [payload_cons, List.length_append]
      have hfirst := turns_update cj h (by omega) (storeUpdate_first i.packet.data hfd hi)
      have hwriting := h.createFile hi.openRet i.packet.data
      rw [hlen] at hwriting
      obtain ⟨⟨p', hrun, hreceived⟩, hbefore⟩ := run_pieces cj p.dev.fs rest _
        (receive p.buffer i.packet) i.packet.data i.packet.data.length i.outcomes hwriting (by omega)
        (by rw [Device.createFile, h.updateFileName]) hi fun j hj => hok j (List.mem_cons_of_mem i hj)
      refine ⟨⟨p', i.outcomes.openRet, Run.cons hfirst hrun, hreceived.deviceCfg,
        hreceived.recvInfo, hreceived.files, ?_⟩, ?_⟩
      · rw [hreceived.trace]
        simp [Device.createFile, wroteEvent, h.updateFileName]
      · intro before after hsplit hne
        cases before with
        | nil => exact ⟨p, Run.nil p, h.recvState⟩
        | cons j before =>
            obtain ⟨rfl, hsplit'⟩ := List.cons.inj hsplit
            obtain ⟨mid, hmid, hs⟩ := hbefore before after hsplit' hne
            exact ⟨mid, Run.cons hfirst hmid, hs⟩

/-! ### From the header to the end -/

/-- The packet holds a header, alone, and a NUL stands behind it in the buffer. -/
def Terminated (buffer : Buf packSize) (i : Input) (text : Bytes) : Prop :=
  i.packet.data = text ∧ ∃ rest, (receive buffer i.packet).data = text ++ 0 :: rest

theorem Terminated.cstr {buffer : Buf packSize} {i : Input} {text : Bytes}
    (h : Terminated buffer i text) (hnul : 0 ∉ text) :
    0 ∈ (receive buffer i.packet).data ∧ cstr (receive buffer i.packet).data = text := by
  obtain ⟨-, rest, hrest⟩ := h
  rw [hrest, cstr_append_zero hnul]
  simp

/-- The packet holds a header, alone, and the buffer only zeros behind it. -/
def Alone (buffer : Buf packSize) (i : Input) (text : Bytes) : Prop :=
  i.packet.data = text ∧ ∃ k, (receive buffer i.packet).data = text ++ List.replicate (k + 1) 0

theorem Alone.terminated {buffer : Buf packSize} {i : Input} {text : Bytes}
    (h : Alone buffer i text) : Terminated buffer i text := by
  obtain ⟨hdata, k, hk⟩ := h
  exact ⟨hdata, List.replicate k 0, by rw [hk, List.replicate_succ]⟩

/-- A header that stands alone is read and acted on. -/
theorem turns_header {cj : CJsonLib} {p : Parser} {i : Input} {text : Bytes} {h : Header}
    {r : Int × Device} (hd : Idle p.dev) (hnul : 0 ∉ text) (hterm : Terminated p.buffer i text)
    (hread : readHeader cj text = .ok h) (hact : p.dev.onHeader h = .ok r) (hr : 0 ≤ r.1) :
    Turns cj p i ⟨r.2, receive p.buffer i.packet⟩ := by
  obtain ⟨hmem, hstr⟩ := hterm.cstr hnul
  have hparse := parseRecvData_crsNone cj (receive p.buffer i.packet).data i.packet.data.length
    i.outcomes hd.recvState
  rw [strlen_of_mem hmem, hstr, hread] at hparse
  have hturn := threadParseRecvData_of_ok (hparse.trans hact)
  rwa [if_neg (by omega)] at hturn

/-- The header of an update leaves the machine waiting for it. -/
theorem turns_header_update {cj : CJsonLib} {p : Parser} {i : Input} {text build : Bytes} {n : Int}
    {crc : UInt32} (hd : Idle p.dev) (h : IsUpdateHeader cj text n crc build)
    (hterm : Terminated p.buffer i text) :
    ∃ d, Turns cj p i ⟨d, receive p.buffer i.packet⟩ ∧ Expecting d (updatePath build) crc n ∧
      d.recvInfo.updateFileFd ≤ 0 ∧ d.deviceCfg = p.dev.deviceCfg ∧ d.fs = p.dev.fs ∧
      d.trace = p.dev.trace := by
  obtain ⟨version, hread⟩ := readHeader_update h
  obtain ⟨packinfo, hheader, hnul, hlen, -⟩ := h
  obtain ⟨name, hname, hpath⟩ := updateFileName_ok (updateInfo n crc version build).buildinfo
  have hbuild : (updateInfo n crc version build).buildinfo.str = build := buildinfo_str hnul hlen
  obtain ⟨-, -, -, -, -, hitem⟩ := hheader.parses
  have hrange := itemInt_range hitem
  have hact : p.dev.onHeader (.update (updateInfo n crc version build))
      = .ok (1, p.dev.expectUpdate (updateInfo n crc version build) name) := by
    simp only [Device.onHeader, hname]
    rfl
  refine ⟨_, turns_header hd hheader.noNul hterm hread hact (by simp), ⟨rfl, rfl, ?_, ?_, rfl⟩,
    hd.updateFileFd, rfl, rfl, rfl⟩
  · exact wrap32_ofInt hrange.1 hrange.2
  · rw [← hbuild]
    exact hpath

def updatePacket : Packet := ⟨updateText, by decide, by decide⟩

/-- Three bytes in two pieces. -/
def updatePieces : List Input :=
  [⟨⟨ascii "a", by decide, by decide⟩, .good⟩, ⟨⟨ascii "bc", by decide, by decide⟩, .good⟩]

theorem good_succeeds : Succeeds .good := ⟨by decide, rfl, rfl, by decide⟩

theorem updatePacket_alone : Alone freshParser.buffer ⟨updatePacket, .good⟩ updateText :=
  ⟨rfl, packSize - updateText.length - 1, by decide +kernel⟩

end EleDs
