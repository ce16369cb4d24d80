/-
The receive state machine of the client (`applications/ele_ds/client.c`).

`parseRecvData` is the loop over `recv_state` the parser thread runs on each packet,
case by case as in the source, and `threadParseRecvData` one turn of that thread:
the packet is copied into the one buffer the thread keeps, over whatever the packets
before it left there, and a negative result clears the client.

What the flash does is part of a packet's input: `Outcomes` says how the calls made
on its behalf end.  Every call on the update file, every save and every comparison
of checksums is entered in `trace`, oldest first.

Log lines are left out, and with them the `strlen` of the buffer that stands as an
argument in the one of the update case; no value in the program depends on it.
-/
import EleDs.Model.Common
import EleDs.Model.Config

namespace EleDs

open CMem CJson

/-! ### The data -/

/-- `client_recv_state_t`. -/
inductive ClientRecvState where
  | crsNone
  | crsHead
  | crsData
  | crsFinish
  | crsEnd
  | csrMax
deriving DecidableEq, Repr

/-- `ele_msg_type_t`; the C variable can hold any other integer, too. -/
inductive EleMsgType where
  | clientmsgNone
  | clientmsgSuccess
  | clientmsgFail
  | clientmsgInfo
  | clientmsgCheat
  | servermsgMemo
  | servermsgWeather
  | servermsgClientupdate
  | msgMax
  | other (v : Int)
deriving DecidableEq, Repr

/-- `(ele_msg_type_t)v`. -/
def EleMsgType.ofInt (v : Int) : EleMsgType :=
  if v = -1 then .clientmsgNone
  else if v = 0 then .clientmsgSuccess
  else if v = 1 then .clientmsgFail
  else if v = 2 then .clientmsgInfo
  else if v = 3 then .clientmsgCheat
  else if v = 0x80 then .servermsgMemo
  else if v = 0x81 then .servermsgWeather
  else if v = 0x82 then .servermsgClientupdate
  else if v = 0x83 then .msgMax
  else .other v

/-- `(int32_t)type`. -/
def EleMsgType.toInt : EleMsgType → Int
  | clientmsgNone => -1
  | clientmsgSuccess => 0
  | clientmsgFail => 1
  | clientmsgInfo => 2
  | clientmsgCheat => 3
  | servermsgMemo => 0x80
  | servermsgWeather => 0x81
  | servermsgClientupdate => 0x82
  | msgMax => 0x83
  | other v => v

/-- `client_software_updateinfo_t`. -/
structure ClientSoftwareUpdateinfo where
  crc : UInt32
  len : UInt32
  version : UInt32
  buildinfo : Buf 32
deriving DecidableEq

/-- `sizeof(buildinfo) - 1` bytes. -/
theorem buildinfo_fits : 31 ≤ 32 := by decide

/-- The member of the `data` union a message type uses. -/
inductive EleMsgData where
  | none
  | memo (s : Option Bytes)
  | weatherdays (n : Int8)
  | csInfo (info : ClientSoftwareUpdateinfo)
deriving DecidableEq

/-- `ele_msg_t`. -/
structure EleMsg where
  data : EleMsgData
  len : UInt32
  packcnt : UInt32
  msgtype : EleMsgType
deriving DecidableEq

/-- `recv_info`. -/
structure RecvInfo where
  recvState : ClientRecvState
  curparseType : EleMsgType
  datalen : Int
  recvLen : Int
  updateFileFd : Int
  updateFileName : Buf 256
  updateFileCrc : UInt32
deriving DecidableEq

/-- What the state machine does to the outside, in order. -/
inductive Event where
  /-- `open` of the update file, truncating it. -/
  | opened (name : Bytes) (fd : Int)
  | wrote (fd : Int) (data : Bytes) (ret : Int)
  | closed (fd : Int)
  | savedCfg (ret : Int)
  /-- The comparison `crc_result == target_crc`. -/
  | comparedCrc (crcResult targetCrc : UInt32)
deriving DecidableEq

/-- The parts of `struct ele_ds` the parser thread works on, and the flash. -/
structure Device where
  deviceCfg : EleDsCfg
  recvInfo : RecvInfo
  fs : FileSystem
  /-- The files behind the descriptors that are open for writing. -/
  fds : Int → Option Bytes
  trace : List Event

/-- `CLIENT_RECV_PACKSIZE`. -/
def packSize : Nat := 1500

/-- How the calls made while handling one packet end. -/
structure Outcomes where
  save : SaveOutcome
  openRet : Int
  write : WriteOutcome
  crc : CrcReads

/-! ### The header -/

/-- `(uint32_t)d`: truncated, and saturated as the conversion routine of the target does. -/
def doubleToUInt32 (d : ℚ) : UInt32 :=
  if d ≤ 0 then 0
  else if (4294967295 : ℚ) ≤ d then 4294967295
  else UInt32.ofInt (d.num.tdiv d.den)

/-- `parse_json_data` on a buffer that holds a string of `len` bytes. -/
def parseJsonData (cj : CJsonLib) (buffer : Bytes) (len : Nat) : Except Fault (Int × EleMsg) :=
  let msg : EleMsg := { data := .none, len := 0, packcnt := 0, msgtype := .clientmsgSuccess }
  if len = 0 ∨ isJson buffer len = false then .ok (-1, msg)
  else match cj.parse (cstr buffer) with
    | none => .ok (-2, msg)
    | some root =>
      match root.getObjectItem (ascii "packinfo") with
      | none => .ok (-6, msg)
      | some packinfo => do
        let len ← packinfo.itemInt (ascii "len")
        let packcnt ← root.itemInt (ascii "packcnt")
        let msgtype := EleMsgType.ofInt (← root.itemInt (ascii "msgtype"))
        let msg : EleMsg :=
          { msg with len := UInt32.ofInt len, packcnt := UInt32.ofInt packcnt, msgtype := msgtype }
        match msgtype with
        | .servermsgMemo =>
            let message ← packinfo.itemString (ascii "message")
            .ok (0, { msg with data := .memo message })
        | .servermsgWeather =>
            let days ← packinfo.itemInt (ascii "weatherdays")
            .ok (0, { msg with data := .weatherdays (Int8.ofInt days) })
        | .servermsgClientupdate =>
            match packinfo.getObjectItem (ascii "len"), packinfo.getObjectItem (ascii "crc"),
              packinfo.getObjectItem (ascii "version"),
              packinfo.getObjectItem (ascii "buildinfo") with
            | some len, some crc, some version, some buildinfo =>
                match buildinfo.valuestring with
                | none => .error .nullDeref
                | some s =>
                    let info : ClientSoftwareUpdateinfo :=
                      { len := UInt32.ofInt len.valueint
                        crc := doubleToUInt32 crc.valuedouble
                        version := UInt32.ofInt version.valueint
                        buildinfo := (Buf.zero 32).strncpy s 31 buildinfo_fits }
                    .ok (0, { msg with data := .csInfo info })
            | _, _, _, _ => .ok (-3, msg)
        | _ => .ok (-5, msg)

/-- `sprintf(update_file_name, "%s/%s", UPDATE_DIR, buildinfo)` over a zeroed array. -/
def updateFileName (buildinfo : Buf 32) : Except Fault (Buf 256) :=
  (Buf.zero 256).memcpy 0 (UPDATE_DIR ++ ascii "/" ++ buildinfo.str ++ [0])

/-- `parse_msgtype`. -/
def parseMsgtype (d : Device) (msg : EleMsg) : Except Fault (Int × Device) :=
  let d := { d with recvInfo := { d.recvInfo with curparseType := msg.msgtype } }
  match msg.msgtype, msg.data with
  | .servermsgMemo, .memo s =>
      match s with
      | none => .error .nullDeref
      | some s => do
          let memo ← d.deviceCfg.memo.memcpy 0 (cstr s ++ [0])
          let d := { d with
            deviceCfg := { d.deviceCfg with memo := memo }
            recvInfo := { d.recvInfo with recvState := .crsFinish } }
          .ok (d.recvInfo.curparseType.toInt, d)
  | .servermsgWeather, _ =>
      let d := { d with recvInfo :=
        { d.recvInfo with datalen := wrap32 msg.len.toNat, recvState := .crsData } }
      .ok (d.recvInfo.curparseType.toInt, d)
  | .servermsgClientupdate, .csInfo info => do
      let name ← updateFileName info.buildinfo
      let d := { d with recvInfo :=
        { d.recvInfo with
          recvState := .crsData
          updateFileCrc := info.crc
          datalen := wrap32 info.len.toNat
          updateFileName := name } }
      .ok (d.recvInfo.curparseType.toInt, d)
  | _, _ => .ok (-3, d)

/-- `cur_parsetype_need_recvdata`. -/
def curParsetypeNeedRecvdata (type : EleMsgType) : Bool :=
  type == .servermsgWeather || type == .servermsgClientupdate

/-! ### The update file -/

/-- `close(fd)`. -/
def closeFd (d : Device) (fd : Int) : Device :=
  { d with fds := Function.update d.fds fd none, trace := d.trace ++ [.closed fd] }

/-- `clear_client_info`. -/
def clearClientInfo (d : Device) : Device :=
  let d := { d with recvInfo :=
    { d.recvInfo with
      recvState := .crsNone
      curparseType := .clientmsgNone
      datalen := 0
      recvLen := 0
      updateFileName := Buf.zero 256 } }
  if d.recvInfo.updateFileFd > 0 then
    let d := closeFd d d.recvInfo.updateFileFd
    { d with recvInfo := { d.recvInfo with updateFileFd := -1 } }
  else d

/-- `open(update_file_name, O_WRONLY | O_CREAT | O_TRUNC)`, stored in `update_file_fd`. -/
def openUpdateFile (d : Device) (fd : Int) : Device :=
  let name := d.recvInfo.updateFileName.str
  let d := { d with
    recvInfo := { d.recvInfo with updateFileFd := fd }
    trace := d.trace ++ [.opened name fd] }
  if fd < 0 then d
  else { d with fs := d.fs.put name [], fds := Function.update d.fds fd (some name) }

/-- `write(fd, data, len)`: a descriptor that is not open is an error. -/
def writeFd (d : Device) (fd : Int) (data : Bytes) (w : WriteOutcome) : Int × Device :=
  match d.fds fd with
  | none => (-1, { d with trace := d.trace ++ [.wrote fd data (-1)] })
  | some name =>
      (w.ret data, { d with
        fs := d.fs.put name ((d.fs.get name).getD [] ++ w.stored data)
        trace := d.trace ++ [.wrote fd data (w.ret data)] })

/-! ### The state machine -/

/-- Where one pass through the loop leads. -/
inductive Flow where
  /-- Round again, with `ret` still 0. -/
  | again (d : Device)
  /-- Out of the function. -/
  | leave (ret : Int) (d : Device)

def Device.setState (d : Device) (state : ClientRecvState) : Device :=
  { d with recvInfo := { d.recvInfo with recvState := state } }

/-- `case CRS_NONE`. -/
def crsNone (d : Device) (buffer : Bytes) : Except Fault Flow := do
  let n ← strlen buffer
  if isJson buffer n = true then .ok (.again (d.setState .crsHead))
  else .ok (.leave (-1) (d.setState .crsNone))

/-- `case CRS_HEAD`. -/
def crsHead (cj : CJsonLib) (d : Device) (buffer : Bytes) : Except Fault Flow := do
  let headLen ← strlen buffer
  let (result, msg) ← parseJsonData cj buffer headLen
  if result = 0 then
    let (result, d) ← parseMsgtype d msg
    if result < 0 then .ok (.leave (-2) (clearClientInfo d))
    else if curParsetypeNeedRecvdata (EleMsgType.ofInt result) = true then .ok (.leave 1 d)
    else .ok (.again d)
  else .ok (.leave (-2) (clearClientInfo d))

/-- The end of `case CRS_DATA`: the counters move by the length of the packet. -/
def advance (d : Device) (len : Nat) : Flow :=
  let d := { d with recvInfo :=
    { d.recvInfo with
      recvLen := wrap32 (d.recvInfo.recvLen + len)
      datalen := wrap32 (d.recvInfo.datalen - len) } }
  if d.recvInfo.datalen ≤ 0 then .again (d.setState .crsFinish) else .leave 2 d

/-- `case CRS_DATA`. -/
def crsData (cj : CJsonLib) (d : Device) (buffer : Bytes) (len : Nat) (o : Outcomes) :
    Except Fault Flow :=
  if d.recvInfo.datalen > 0 then
    if d.recvInfo.curparseType = .servermsgWeather then
      if d.recvInfo.recvLen < 0 then .error .writeOverrun
      else do
        let weatherInfo ←
          d.deviceCfg.weatherInfo.memcpy d.recvInfo.recvLen.toNat (buffer.take len)
        let d := { d with deviceCfg := { d.deviceCfg with weatherInfo := weatherInfo } }
        let (ret, fs) := writeEleDsCfg cj d.fs d.deviceCfg o.save
        -- a failed save is only logged; the counters move on and `ret` is set anew
        .ok (advance { d with fs := fs, trace := d.trace ++ [.savedCfg ret] } len)
    else if d.recvInfo.curparseType = .servermsgClientupdate then
      let d := if d.recvInfo.updateFileFd ≤ 0 then openUpdateFile d o.openRet else d
      if d.recvInfo.updateFileFd < 0 then .ok (.leave (-3) d)
      else
        let (writeLen, d) := writeFd d d.recvInfo.updateFileFd (buffer.take len) o.write
        if writeLen < 0 then .ok (.leave (-3) d)
        else .ok (advance d len)
    else .ok (.leave (-3) d)
  else .ok (.again (d.setState .crsFinish))

/-- `case CRS_FINISH`: the outcome of the comparison is dropped by `return 0`. -/
def crsFinish (d : Device) (o : Outcomes) : Except Fault Flow :=
  if d.recvInfo.curparseType = .servermsgClientupdate then do
    let targetCrc := d.recvInfo.updateFileCrc
    let arg1 := d.recvInfo.updateFileName.str
    let d := clearClientInfo d
    let crcResult ← crcfile d.fs arg1 o.crc
    .ok (.leave 0 { d with trace := d.trace ++ [.comparedCrc crcResult targetCrc] })
  else .ok (.leave 0 (clearClientInfo d))

/-- The `switch` of the loop. -/
def recvStep (cj : CJsonLib) (d : Device) (buffer : Bytes) (len : Nat) (o : Outcomes) :
    Except Fault Flow :=
  match d.recvInfo.recvState with
  | .crsNone => crsNone d buffer
  | .crsHead => crsHead cj d buffer
  | .crsData => crsData cj d buffer len o
  | .crsFinish => crsFinish d o
  | .crsEnd => .ok (.leave 0 d)
  | .csrMax => .ok (.leave (-2) d)

/-- The loop, for a bounded number of passes. -/
def recvLoop (cj : CJsonLib) (buffer : Bytes) (len : Nat) (o : Outcomes) :
    Nat → Device → Except Fault (Int × Device)
  | 0, _ => .error .diverged
  | fuel + 1, d => do
      match ← recvStep cj d buffer len o with
      | .leave ret d => .ok (ret, d)
      | .again d => recvLoop cj buffer len o fuel d

/-- `parse_recv_data`.  No packet takes it through more than four passes. -/
def parseRecvData (cj : CJsonLib) (d : Device) (buffer : Bytes) (len : Nat) (o : Outcomes) :
    Except Fault (Int × Device) := recvLoop cj buffer len o 4 d

/-! ### The parser thread -/

/-- What the ring buffer hands over at once. -/
structure Packet where
  data : Bytes
  nonempty : 0 < data.length
  fits : data.length ≤ packSize
deriving DecidableEq

/-- A packet of `packSize` times the same byte. -/
def Packet.full (b : UInt8) : Packet where
  data := List.replicate packSize b
  nonempty := by rw [List.length_replicate]; decide
  fits := by rw [List.length_replicate]

theorem Packet.length_full (b : UInt8) : (Packet.full b).data.length = packSize :=
  List.length_replicate

/-- The thread and its buffer. -/
structure Parser where
  dev : Device
  buffer : Buf packSize

/-- A packet and how the calls made for it end. -/
structure Input where
  packet : Packet
  outcomes : Outcomes

/-- `rt_ringbuffer_get(&rb, buffer, CLIENT_RECV_PACKSIZE)`. -/
def receive (buffer : Buf packSize) (p : Packet) : Buf packSize :=
  ⟨overwrite buffer.data 0 p.data, by
    rw [length_overwrite (by rw [buffer.size]; simpa using p.fits), buffer.size]⟩

/-- One turn of `thread_parse_recv_data`. -/
def threadParseRecvData (cj : CJsonLib) (p : Parser) (i : Input) : Except Fault Parser := do
  let buffer := receive p.buffer i.packet
  let (result, dev) ← parseRecvData cj p.dev buffer.data i.packet.data.length i.outcomes
  .ok { dev := if result < 0 then clearClientInfo dev else dev, buffer := buffer }

/-- The client as `main` and `rt_calloc` leave it, over given files and configuration. -/
def Parser.init (cfg : EleDsCfg) (fs : FileSystem) : Parser where
  dev :=
    { deviceCfg := cfg
      recvInfo :=
        { recvState := .crsNone, curparseType := .clientmsgSuccess, datalen := 0, recvLen := 0
          updateFileFd := 0, updateFileName := Buf.zero 256, updateFileCrc := 0 }
      fs := fs
      fds := fun _ => none
      trace := [] }
  buffer := Buf.zero packSize

end EleDs
