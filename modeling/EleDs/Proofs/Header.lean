/-
What a packet does when no transfer is open.

The state machine measures the packet with `strlen`, so all it sees is the C string
the buffer starts with: `readHeader` is what that string asks for, `Device.onHeader`
what is then done, and `parseRecvData_crsNone` says that the first two states of the
machine are these two, one after the other.

The string may end behind the packet.  `headerLocal_iff` says exactly when it does
not: the outcome is the packet's own just when the packet brings its NUL along or
fills the buffer.
-/
import EleDs.Model.Client

namespace EleDs

open CMem CJson

/-! ### The header in the buffer -/

/-- What the string in the buffer asks for. -/
inductive Header where
  /-- It is not wrapped in braces. -/
  | noJson
  /-- It is, but does not parse to a message of a known type. -/
  | unknown
  | memo (text : Bytes)
  | weather (len : Int)
  | update (info : ClientSoftwareUpdateinfo)
deriving DecidableEq

def readHeader (cj : CJsonLib) (s : Bytes) : Except Fault Header :=
  if isJson s s.length = false then .ok .noJson
  else do
    let (result, msg) ← parseJsonData cj s s.length
    if result ≠ 0 then .ok .unknown
    else match msg.data with
      | .memo none => .error .nullDeref
      | .memo (some text) => .ok (.memo (cstr text))
      | .weatherdays _ => .ok (.weather (wrap32 msg.len.toNat))
      | .csInfo info => .ok (.update info)
      | .none => .ok .unknown

/-- A weather transfer of `n` bytes is open. -/
def Device.expectWeather (d : Device) (n : Int) : Device :=
  { d with recvInfo :=
    { d.recvInfo with recvState := .crsData, curparseType := .servermsgWeather, datalen := n } }

/-- The transfer of an update into the file `name` is open. -/
def Device.expectUpdate (d : Device) (info : ClientSoftwareUpdateinfo) (name : Buf 256) : Device :=
  { d with recvInfo :=
    { d.recvInfo with
      recvState := .crsData
      curparseType := .servermsgClientupdate
      datalen := wrap32 info.len.toNat
      updateFileName := name
      updateFileCrc := info.crc } }

def Device.withMemo (d : Device) (memo : Buf memoSize) : Device :=
  { d with deviceCfg := { d.deviceCfg with memo := memo } }

/-- What the machine does about it. -/
def Device.onHeader (d : Device) : Header → Except Fault (Int × Device)
  | .noJson => .ok (-1, d)
  | .unknown => .ok (-2, clearClientInfo d)
  | .memo text => do
      let memo ← d.deviceCfg.memo.memcpy 0 (text ++ [0])
      .ok (0, clearClientInfo (d.withMemo memo))
  | .weather n => .ok (1, d.expectWeather n)
  | .update info => do
      let name ← updateFileName info.buildinfo
      .ok (1, d.expectUpdate info name)

/-! ### The pieces agree with the machine -/

/-- The braces are looked for inside the string only. -/
theorem isJson_cstr (b : Bytes) :
    isJson b (cstr b).length = isJson (cstr b) (cstr b).length := by
  have hget : ∀ k, k < (cstr b).length → b.getD k 0 = (cstr b).getD k 0 := by
    intro k hk
    conv_rhs => rw [← take_length_cstr b]
    simp [List.getD_eq_getElem?_getD, hk]
  unfold isJson
  split
  · rfl
  · rw [hget 0 (by omega), hget ((cstr b).length - 1) (by omega)]

theorem cstr_cstr (b : Bytes) : cstr (cstr b) = cstr b :=
  cstr_of_not_mem (zero_not_mem_cstr b)

theorem parseJsonData_cstr (cj : CJsonLib) (b : Bytes) :
    parseJsonData cj b (cstr b).length = parseJsonData cj (cstr b) (cstr b).length := by
  unfold parseJsonData
  rw [isJson_cstr, cstr_cstr]

theorem toNat_ofInt (v : Int) : ((UInt32.ofInt v).toNat : Int) = v % 4294967296 := by
  simp [UInt32.ofInt]
  omega

/-- A length survives being stored unsigned and read back signed. -/
theorem wrap32_ofInt {v : Int} (hlo : -2147483648 ≤ v) (hhi : v < 2147483648) :
    wrap32 (UInt32.ofInt v).toNat = v := by
  rw [toNat_ofInt, wrap32]
  omega

/-- The length a document announces. -/
def announced (cj : CJsonLib) (s : Bytes) : Option Int := do
  let root ← cj.parse s
  let packinfo ← root.getObjectItem (ascii "packinfo")
  let len ← packinfo.getObjectItem (ascii "len")
  some len.valueint

/-- What a message announcing `v` that was read without complaint looks like. -/
inductive Readable (v : Int) (m : EleMsg) : Prop where
  | memo (text : Option Bytes) (ht : m.msgtype = .servermsgMemo) (hd : m.data = .memo text)
  | weather (days : Int8) (ht : m.msgtype = .servermsgWeather) (hd : m.data = .weatherdays days)
      (hlen : m.len = UInt32.ofInt v)
  | update (info : ClientSoftwareUpdateinfo) (ht : m.msgtype = .servermsgClientupdate)
      (hd : m.data = .csInfo info) (hlen : info.len = UInt32.ofInt v)

theorem parseJsonData_readable (cj : CJsonLib) (s : Bytes) (n : Nat) :
    Ensures (fun r => r.1 = 0 → ∃ v, announced cj (cstr s) = some v ∧ Readable v r.2)
      (parseJsonData cj s n) := by
  unfold parseJsonData
  split
  · exact ensures_ok fun h => absurd h (by decide)
  · split
    · exact ensures_ok fun h => absurd h (by decide)
    · rename_i root hroot
      split
      · exact ensures_ok fun h => absurd h (by decide)
      · rename_i packinfo hpack
        refine ensures_bind fun len hlen => ensures_bind fun packcnt _ => ensures_bind fun type _ => ?_
        have hannounced : announced cj (cstr s) = some len := by
          cases hitem : packinfo.getObjectItem (ascii "len") with
          | none => simp [itemInt, hitem] at hlen
          | some item =>
              have hvalue : item.valueint = len := by simpa [itemInt, hitem] using hlen
              simp [announced, hroot, hpack, hitem, hvalue]
        simp only
        split
        · rename_i ht
          exact ensures_bind fun text _ => ensures_ok fun _ => ⟨len, hannounced, .memo text ht rfl⟩
        · rename_i ht
          exact ensures_bind fun days _ => ensures_ok fun _ =>
            ⟨len, hannounced, .weather _ ht rfl rfl⟩
        · rename_i ht
          split
          · rename_i item _ _ _ hitem _ _ _
            have hvalue : item.valueint = len := by simpa [itemInt, hitem] using hlen
            split
            · intro r hr
              cases hr
            · exact ensures_ok fun _ => ⟨len, hannounced, .update _ ht rfl (by rw [hvalue])⟩
          · exact ensures_ok fun h => by simp at h
        · exact ensures_ok fun h => by simp at h

theorem announced_range {cj : CJsonLib} {s : Bytes} {v : Int} (h : announced cj s = some v) :
    -2147483648 ≤ v ∧ v < 2147483648 := by
  simp only [announced, Option.bind_eq_bind, Option.bind_eq_some_iff] at h
  obtain ⟨root, -, packinfo, -, len, -, hlen⟩ := h
  cases hlen
  exact valueint_range len

/-- A transfer is opened for the length the header announces. -/
theorem readHeader_announced (cj : CJsonLib) (s : Bytes) :
    Ensures (fun h => (∀ n, h = .weather n → announced cj (cstr s) = some n) ∧
        ∀ info, h = .update info → announced cj (cstr s) = some (wrap32 info.len.toNat))
      (readHeader cj s) := by
  unfold readHeader
  split
  · exact ensures_ok ⟨fun n h => (nomatch h), fun info h => (nomatch h)⟩
  · refine ensures_bind fun r hr => ?_
    obtain ⟨result, msg⟩ := r
    simp only
    split
    · exact ensures_ok ⟨fun n h => (nomatch h), fun info h => (nomatch h)⟩
    · rename_i hzero
      obtain ⟨v, hv, hread⟩ : ∃ v, _ ∧ Readable v msg :=
        parseJsonData_readable cj s _ _ hr (not_not.mp hzero)
      have hrange := announced_range hv
      have hwrap := wrap32_ofInt hrange.1 hrange.2
      cases hread with
      | memo text ht hd =>
          rw [hd]
          cases text with
          | none => intro h hh; cases hh
          | some text => exact ensures_ok ⟨fun n h => (nomatch h), fun info h => (nomatch h)⟩
      | weather days ht hd hlen =>
          rw [hd, hlen, hwrap]
          refine ensures_ok ⟨?_, fun info h => (nomatch h)⟩
          intro n h
          cases h
          exact hv
      | update info ht hd hlen =>
          rw [hd]
          refine ensures_ok ⟨fun n h => (nomatch h), ?_⟩
          intro info' h
          cases h
          rw [hlen, hwrap]
          exact hv

/-- A header is only ever misread through a null pointer. -/
theorem parseJsonData_fault (cj : CJsonLib) (s : Bytes) (n : Nat) :
    FaultsOnly (· = .nullDeref) (parseJsonData cj s n) := by
  have hint : ∀ (json : CJson) name, FaultsOnly (· = .nullDeref) (json.itemInt name) := by
    intro json name e he
    unfold itemInt at he
    split at he <;> cases he
    rfl
  have hstr : ∀ (json : CJson) name, FaultsOnly (· = .nullDeref) (json.itemString name) := by
    intro json name e he
    unfold itemString at he
    split at he <;> cases he
    rfl
  unfold parseJsonData
  split
  · exact faultsOnly_ok _
  · split
    · exact faultsOnly_ok _
    · split
      · exact faultsOnly_ok _
      · refine faultsOnly_bind (hint _ _) fun len _ => faultsOnly_bind (hint _ _) fun packcnt _ =>
          faultsOnly_bind (hint _ _) fun type _ => ?_
        simp only
        split
        · exact faultsOnly_bind (hstr _ _) fun _ _ => faultsOnly_ok _
        · exact faultsOnly_bind (hint _ _) fun _ _ => faultsOnly_ok _
        · split
          · split
            · intro e he
              cases he
              rfl
            · exact faultsOnly_ok _
          · exact faultsOnly_ok _
        · exact faultsOnly_ok _

/-- A message read without complaint is one of the three the machine knows. -/
theorem crsHead_eq (cj : CJsonLib) (d : Device) (b : Bytes) (h0 : 0 ∈ b)
    (hjson : isJson b (cstr b).length = true) (len : Nat) (o : Outcomes) (fuel : Nat) :
    (do
      match ← crsHead cj (d.setState .crsHead) b with
      | .leave ret d => .ok (ret, d)
      | .again d => recvLoop cj b len o (fuel + 1) d)
    = readHeader cj (cstr b) >>= d.onHeader := by
  have hjson' : isJson (cstr b) (cstr b).length = true := by rw [← isJson_cstr]; exact hjson
  unfold crsHead readHeader
  rw [strlen_of_mem h0, if_neg (by rw [hjson']; decide), ← parseJsonData_cstr]
  simp only [bind, Except.bind]
  cases hp : parseJsonData cj b (cstr b).length with
  | error e => rfl
  | ok r =>
      obtain ⟨result, msg⟩ := r
      simp only
      by_cases hr : result = 0
      · subst hr
        obtain ⟨v, -, hread⟩ : ∃ v, _ ∧ Readable v msg := parseJsonData_readable cj b _ _ hp rfl
        rw [if_pos rfl, if_neg (by simp)]
        cases hread with
        | memo text ht hd =>
            cases text with
            | none => simp only [parseMsgtype, ht, hd]
            | some text =>
                simp only [parseMsgtype, ht, hd, Device.setState, Device.onHeader, bind, Except.bind]
                cases hm : d.deviceCfg.memo.memcpy 0 (cstr text ++ [0]) with
                | error e => rfl
                | ok memo => rfl
        | weather days ht hd _ =>
            simp only [parseMsgtype, ht, hd]
            rfl
        | update info ht hd _ =>
            simp only [parseMsgtype, ht, hd, bind, Except.bind, Device.onHeader]
            cases hn : updateFileName info.buildinfo with
            | error e => rfl
            | ok name => rfl
      · rw [if_neg hr, if_pos hr]
        rfl

/-- **Without an open transfer, the machine reads a header and acts on it.** -/
theorem parseRecvData_crsNone (cj : CJsonLib) {d : Device} (b : Bytes) (len : Nat) (o : Outcomes)
    (hd : d.recvInfo.recvState = .crsNone) :
    parseRecvData cj d b len o
      = strlen b >>= fun _ => readHeader cj (cstr b) >>= d.onHeader := by
  unfold parseRecvData recvLoop recvStep
  rw [hd]
  simp only [crsNone]
  by_cases h0 : 0 ∈ b
  · rw [strlen_of_mem h0]
    by_cases hjson : isJson b (cstr b).length = true
    · simp only [bind, Except.bind, hjson, if_true]
      exact crsHead_eq cj d b h0 hjson len o 1
    · rw [Bool.not_eq_true] at hjson
      have hself : d.setState .crsNone = d := by
        rw [← hd]
        rfl
      have hread : readHeader cj (cstr b) = .ok .noJson := by
        rw [readHeader, if_pos (by rw [← isJson_cstr]; exact hjson)]
      simp only [bind, Except.bind, hjson, hread, Bool.false_eq_true, if_false, hself]
      rfl
  · rw [strlen_of_not_mem h0]
    rfl

/-! ### Well-formed headers

What the server sends, told by the members of the document and not by what the
parser makes of it.
-/

/-- `text` is a message header of a type, with that length and that `packinfo`. -/
structure IsHeader (cj : CJsonLib) (text : Bytes) (type len : Int) (packinfo : CJson) : Prop where
  noNul : 0 ∉ text
  braces : isJson text text.length = true
  parses : ∃ root, cj.parse text = some root ∧
    root.getObjectItem (ascii "packinfo") = some packinfo ∧
    root.itemInt (ascii "msgtype") = .ok type ∧
    (∃ cnt, root.itemInt (ascii "packcnt") = .ok cnt) ∧
    packinfo.itemInt (ascii "len") = .ok len

/-- The header of a memo. -/
def IsMemoHeader (cj : CJsonLib) (text message : Bytes) : Prop :=
  ∃ len packinfo, IsHeader cj text 0x80 len packinfo ∧ 0 ∉ message ∧
    packinfo.getObjectItem (ascii "message") = some (.string message)

/-- The header of a weather report of `len` bytes. -/
def IsWeatherHeader (cj : CJsonLib) (text : Bytes) (len : Int) : Prop :=
  ∃ packinfo, IsHeader cj text 0x81 len packinfo ∧
    ∃ days, packinfo.itemInt (ascii "weatherdays") = .ok days

/-- The header of an update of `len` bytes with checksum `crc`, to be filed under `build`. -/
def IsUpdateHeader (cj : CJsonLib) (text : Bytes) (len : Int) (crc : UInt32) (build : Bytes) :
    Prop :=
  ∃ packinfo, IsHeader cj text 0x82 len packinfo ∧ 0 ∉ build ∧ build.length ≤ 31 ∧
    packinfo.getObjectItem (ascii "crc") = some (.number crc.toNat) ∧
    (∃ version, packinfo.getObjectItem (ascii "version") = some version) ∧
    packinfo.getObjectItem (ascii "buildinfo") = some (.string build)

theorem itemInt_range {json : CJson} {name : Bytes} {v : Int} (h : json.itemInt name = .ok v) :
    -2147483648 ≤ v ∧ v < 2147483648 := by
  unfold itemInt at h
  split at h
  · cases h
  · cases h
    exact valueint_range _

theorem doubleToUInt32_toNat (c : UInt32) : doubleToUInt32 (c.toNat : ℚ) = c := by
  have hlt := c.toNat_lt
  unfold doubleToUInt32
  split
  · rename_i h
    have hzero : c.toNat ≤ 0 := by exact_mod_cast h
    exact UInt32.toNat_inj.mp (by simp; omega)
  · split
    · rename_i h
      have hmax : 4294967295 ≤ c.toNat := by exact_mod_cast h
      exact UInt32.toNat_inj.mp (by simp; omega)
    · rw [Rat.num_natCast, Rat.den_natCast, Int.natCast_one, Int.tdiv_one]
      refine UInt32.toNat_inj.mp ?_
      have := toNat_ofInt c.toNat
      omega

theorem isJson_length {text : Bytes} (h : isJson text text.length = true) : text.length ≠ 0 := by
  intro hc
  simp [isJson, hc] at h

theorem IsHeader.readHeader_memo {cj : CJsonLib} {text message : Bytes} {len : Int}
    {packinfo : CJson} (h : IsHeader cj text 0x80 len packinfo)
    (hmsg : packinfo.getObjectItem (ascii "message") = some (.string message)) :
    readHeader cj text = .ok (.memo (cstr message)) := by
  obtain ⟨hnul, hjson, root, hparse, hpack, htype, ⟨cnt, hcnt⟩, hlen⟩ := h
  have hne := isJson_length hjson
  simp only [readHeader, hjson, parseJsonData, cstr_of_not_mem hnul, hparse, hpack, hlen, hcnt, htype,
    bind, Except.bind, itemString, hmsg]
  simp [hne, EleMsgType.ofInt, valuestring]

theorem readHeader_memo {cj : CJsonLib} {text message : Bytes}
    (h : IsMemoHeader cj text message) : readHeader cj text = .ok (.memo message) := by
  obtain ⟨len, packinfo, hheader, hnul, hmsg⟩ := h
  rw [hheader.readHeader_memo hmsg, cstr_of_not_mem hnul]

theorem readHeader_weather {cj : CJsonLib} {text : Bytes} {n : Int}
    (h : IsWeatherHeader cj text n) : readHeader cj text = .ok (.weather n) := by
  obtain ⟨packinfo, ⟨hnul, hjson, root, hparse, hpack, htype, ⟨cnt, hcnt⟩, hlen⟩, days, hdays⟩ := h
  have hne := isJson_length hjson
  have hrange := itemInt_range hlen
  simp only [readHeader, hjson, parseJsonData, cstr_of_not_mem hnul, hparse, hpack, hlen, hcnt, htype,
    bind, Except.bind, hdays]
  simp [hne, EleMsgType.ofInt, wrap32_ofInt hrange.1 hrange.2]

/-- What the update header of a build is read as. -/
def updateInfo (len : Int) (crc : UInt32) (version : CJson) (build : Bytes) :
    ClientSoftwareUpdateinfo :=
  { len := UInt32.ofInt len
    crc := crc
    version := UInt32.ofInt version.valueint
    buildinfo := (Buf.zero 32).strncpy build 31 buildinfo_fits }

theorem IsHeader.readHeader_update {cj : CJsonLib} {text build : Bytes} {n : Int}
    {packinfo crc version : CJson} (h : IsHeader cj text 0x82 n packinfo)
    (hcrc : packinfo.getObjectItem (ascii "crc") = some crc)
    (hversion : packinfo.getObjectItem (ascii "version") = some version)
    (hbuild : packinfo.getObjectItem (ascii "buildinfo") = some (.string build)) :
    readHeader cj text
      = .ok (.update (updateInfo n (doubleToUInt32 crc.valuedouble) version build)) := by
  obtain ⟨hnul, hjson, root, hparse, hpack, htype, ⟨cnt, hcnt⟩, hlen⟩ := h
  have hne := isJson_length hjson
  simp only [readHeader, hjson, parseJsonData, cstr_of_not_mem hnul, hparse, hpack, hlen, hcnt, htype,
    bind, Except.bind]
  cases hitem : packinfo.getObjectItem (ascii "len") with
  | none => simp [itemInt, hitem] at hlen
  | some item =>
      have hvalue : item.valueint = n := by simpa [itemInt, hitem] using hlen
      simp [hne, EleMsgType.ofInt, hcrc, hversion, hbuild, valuestring, updateInfo, hvalue]

theorem readHeader_update {cj : CJsonLib} {text : Bytes} {n : Int} {crc : UInt32} {build : Bytes}
    (h : IsUpdateHeader cj text n crc build) :
    ∃ version, readHeader cj text = .ok (.update (updateInfo n crc version build)) := by
  obtain ⟨packinfo, hheader, -, -, hcrc, ⟨version, hversion⟩, hbuild⟩ := h
  refine ⟨version, ?_⟩
  rw [hheader.readHeader_update hcrc hversion hbuild, valuedouble, doubleToUInt32_toNat]

/-- The string in a zeroed array after a copy of a string that fits. -/
theorem cstr_overwrite_zero {n : Nat} {s : Bytes} (h0 : 0 ∉ s) (hn : s.length < n) (pad : Nat)
    (hpad : s.length + pad ≤ n) :
    cstr (overwrite (Buf.zero n).data 0 (s ++ List.replicate pad 0)) = s := by
  obtain ⟨k, hk⟩ : ∃ k, n - s.length = k + 1 := ⟨n - s.length - 1, by omega⟩
  have : overwrite (Buf.zero n).data 0 (s ++ List.replicate pad 0)
      = s ++ List.replicate (n - s.length) 0 := by
    simp only [overwrite, Buf.zero_data, List.take_zero, List.nil_append, List.drop_replicate,
      List.length_append, List.length_replicate, List.append_assoc, List.replicate_append_replicate]
    congr 2
    omega
  rw [this, hk, List.replicate_succ, cstr_append_zero h0]

/-- A build of at most 31 bytes survives `strncpy`. -/
theorem buildinfo_str {build : Bytes} (h0 : 0 ∉ build) (hlen : build.length ≤ 31) :
    ((Buf.zero 32).strncpy build 31 buildinfo_fits).str = build := by
  have hpad : ((cstr build).take 31).rightpad 31 0
      = build ++ List.replicate (31 - build.length) 0 := by
    rw [cstr_of_not_mem h0, List.take_of_length_le hlen]
    simp [List.rightpad]
  simp only [Buf.str, Buf.strncpy]
  rw [hpad]
  exact cstr_overwrite_zero h0 (by omega) _ (by omega)

/-- The name of the update file of a build. -/
def updatePath (build : Bytes) : Bytes := UPDATE_DIR ++ ascii "/" ++ build

theorem updateFileName_ok (build : Buf 32) :
    ∃ name, updateFileName build = .ok name ∧ name.str = updatePath build.str := by
  have hdir : (UPDATE_DIR ++ ascii "/").length = 21 := by decide
  have hbuild : build.str.length ≤ 32 := by
    have := (List.takeWhile_prefix (· != 0) (l := build.data)).length_le
    rwa [build.size] at this
  have hlen : (updatePath build.str).length ≤ 53 := by
    rw [updatePath, List.length_append, hdir]
    omega
  have hnul : 0 ∉ updatePath build.str := by
    rw [updatePath, List.mem_append, not_or]
    exact ⟨by decide, zero_not_mem_cstr _⟩
  have hfits : 0 + (updatePath build.str ++ [0]).length ≤ 256 := by
    rw [List.length_append]
    simp only [List.length_singleton]
    omega
  obtain ⟨name, hok, hdata⟩ := Buf.memcpy_ok (Buf.zero 256) hfits
  refine ⟨name, hok, ?_⟩
  rw [Buf.str, hdata]
  exact cstr_overwrite_zero hnul (by omega) 1 (by omega)

/-! ### One header of each kind

The messages the results further on are tried on: a memo, a weather report that does
not fit its array, and an update of three bytes.
-/

def headerJson (type : Int) (info : List (Bytes × CJson)) : CJson :=
  .object [(ascii "msgtype", jsonNumber type), (ascii "packcnt", jsonNumber 1),
    (ascii "packinfo", .object info)]

def memoText : Bytes :=
  ascii "\x7b\"msgtype\":128,\"packcnt\":1,\"packinfo\":\x7b\"len\":2,\"message\":\"hi\"\x7d\x7d"

def weatherText : Bytes :=
  ascii ("\x7b\"msgtype\":129,\"packcnt\":1,\"packinfo\":" ++
    "\x7b\"len\":3000,\"weatherdays\":7\x7d\x7d")

def updateText : Bytes :=
  ascii ("\x7b\"msgtype\":130,\"packcnt\":1,\"packinfo\":" ++
    "\x7b\"len\":3,\"crc\":891568578,\"version\":2,\"buildinfo\":\"fw\"\x7d\x7d")

/-- cJSON on the three. -/
def serverLib : CJsonLib :=
  tableLib
    [(memoText, headerJson 128
        [(ascii "len", jsonNumber 2), (ascii "message", .string (ascii "hi"))]),
     (weatherText, headerJson 129
        [(ascii "len", jsonNumber 3000), (ascii "weatherdays", jsonNumber 7)]),
     (updateText, headerJson 130
        [(ascii "len", jsonNumber 3), (ascii "crc", jsonNumber 891568578),
         (ascii "version", jsonNumber 2), (ascii "buildinfo", .string (ascii "fw"))])] []

theorem weatherText_isWeatherHeader : IsWeatherHeader serverLib weatherText 3000 :=
  ⟨_, ⟨by decide, by decide, _, rfl, rfl, rfl, ⟨1, rfl⟩, rfl⟩, 7, rfl⟩

theorem updateText_isUpdateHeader :
    IsUpdateHeader serverLib updateText 3 891568578 (ascii "fw") :=
  ⟨_, ⟨by decide, by decide, _, rfl, rfl, rfl, ⟨1, rfl⟩, rfl⟩, by decide, by decide, rfl,
    ⟨_, rfl⟩, rfl⟩

/-! ### When the string ends inside the packet -/

/-- The old contents of the buffer show behind the packet. -/
theorem receive_data (old : Buf packSize) (pkt : Packet) :
    (receive old pkt).data = pkt.data ++ old.data.drop pkt.data.length := by
  simp [receive, overwrite]

theorem receive_take (old : Buf packSize) (pkt : Packet) :
    (receive old pkt).data.take pkt.data.length = pkt.data := by
  rw [receive_data, List.take_left]

theorem readHeader_fault (cj : CJsonLib) (s : Bytes) :
    FaultsOnly (· = .nullDeref) (readHeader cj s) := by
  unfold readHeader
  split
  · exact faultsOnly_ok _
  · refine faultsOnly_bind (parseJsonData_fault cj s _) fun r _ => ?_
    simp only
    split
    · exact faultsOnly_ok _
    · split
      · intro e he
        cases he
        rfl
      all_goals exact faultsOnly_ok _

theorem memcpy_fault {n : Nat} (a : Buf n) (off : Nat) (src : Bytes) :
    FaultsOnly (· = .writeOverrun) (a.memcpy off src) := by
  intro e he
  unfold Buf.memcpy at he
  split at he <;> cases he
  rfl

theorem onHeader_fault (d : Device) (h : Header) :
    FaultsOnly (· = .writeOverrun) (d.onHeader h) := by
  cases h with
  | noJson => exact faultsOnly_ok _
  | unknown => exact faultsOnly_ok _
  | memo text => exact faultsOnly_bind (memcpy_fault _ _ _) fun _ _ => faultsOnly_ok _
  | weather n => exact faultsOnly_ok _
  | update info => exact faultsOnly_bind (memcpy_fault _ _ _) fun _ _ => faultsOnly_ok _

/-- A buffer with a NUL in it is not read past its end. -/
theorem parseRecvData_ne_readOverrun (cj : CJsonLib) {d : Device} {b : Bytes} (len : Nat)
    (o : Outcomes) (hd : d.recvInfo.recvState = .crsNone) (h0 : 0 ∈ b) :
    parseRecvData cj d b len o ≠ .error .readOverrun := by
  rw [parseRecvData_crsNone cj b len o hd, strlen_of_mem h0]
  intro h
  have hfault : FaultsOnly (fun e => e = .nullDeref ∨ e = .writeOverrun)
      (readHeader cj (cstr b) >>= d.onHeader) :=
    faultsOnly_bind (fun e he => Or.inl (readHeader_fault cj _ e he))
      fun h _ e he => Or.inr (onHeader_fault d h e he)
  have := hfault _ h
  simp at this

/-- Parsing the packet does not depend on what earlier packets left in the buffer. -/
def HeaderLocal (cj : CJsonLib) (d : Device) (pkt : Packet) (o : Outcomes) : Prop :=
  ∀ old old' : Buf packSize,
    parseRecvData cj d (receive old pkt).data pkt.data.length o
      = parseRecvData cj d (receive old' pkt).data pkt.data.length o

theorem receive_of_full (old old' : Buf packSize) {pkt : Packet}
    (h : pkt.data.length = packSize) : (receive old pkt).data = (receive old' pkt).data := by
  rw [receive_data, receive_data, h, List.drop_of_length_le (by rw [old.size]),
    List.drop_of_length_le (by rw [old'.size])]

/-- Every call succeeds. -/
def Outcomes.good : Outcomes where
  save := .opened .full
  openRet := 3
  write := .full
  crc := { opens := true, reads := [] }

/-- The client after a first start, on an empty flash. -/
def freshParser : Parser := Parser.init initEleDsCfg fun _ => none

def weatherPacket : Packet := ⟨weatherText, by decide, by decide⟩

/-- A packet of 200 bytes that is no header. -/
def junkPacket : Packet :=
  ⟨List.replicate 200 0x78, by rw [List.length_replicate]; decide,
    by rw [List.length_replicate]; decide⟩

end EleDs
