/-
The device configuration and where it is kept (`applications/dfs/dfscfg.c`).

`eleDsCfgToJson` and `jsonToEleDsCfg` are the two halves of the file format, member
by member in the order of the source.  `writeEleDsCfg`, `readEleDsCfg` and
`sysfileInit` are the three ways the file is touched: a save truncates it in place,
a load starts by zeroing the configuration it fills, and a boot loads whatever file
there is and ignores how the load went.
-/
import EleDs.Model.CJson
import EleDs.Model.Files

namespace EleDs

open CMem CJson

/-! ### `weather_info_t`

The array is kept as the bytes the server's payload is copied over, so the members
are read and written at the offsets the C layout gives them.
-/

/-- The members of `weather_info_t` in order: size and alignment. -/
def weatherInfoMembers : List (String × Nat × Nat) :=
  [("fxDate", 11, 1), ("sunrise", 6, 1), ("sunset", 6, 1), ("moonrise", 6, 1),
   ("moonset", 6, 1), ("moonPhase", 16, 1), ("moonPhaseIcon", 4, 1), ("tempMax", 1, 1),
   ("tempMin", 1, 1), ("iconDay", 4, 1), ("textDay", 16, 1), ("iconNight", 4, 1),
   ("textNight", 16, 1), ("wind360Day", 2, 2), ("windDirDay", 16, 1), ("windScaleDay", 8, 1),
   ("windSpeedDay", 1, 1), ("wind360Night", 2, 2), ("windDirNight", 16, 1),
   ("windScaleNight", 8, 1), ("windSpeedNight", 1, 1), ("humidity", 1, 1), ("precip", 4, 4),
   ("pressure", 2, 2), ("vis", 1, 1), ("cloud", 1, 1), ("uvIndex", 1, 1)]

/-- `n` rounded up to a multiple of `align`. -/
def alignUp (n align : Nat) : Nat := (n + align - 1) / align * align

/-- Where a member starts, when the first one of the list starts no earlier than `at_`. -/
def offsetIn (name : String) : List (String × Nat × Nat) → Nat → Nat
  | [], at_ => at_
  | (member, size, align) :: rest, at_ =>
      if member = name then alignUp at_ align
      else offsetIn name rest (alignUp at_ align + size)

def tempMaxOffset : Nat := 55
def tempMinOffset : Nat := 56
def iconDayOffset : Nat := 57
def textDayOffset : Nat := 61
def iconDaySize : Nat := 4
def textDaySize : Nat := 16

/-- `sizeof(weather_info_t)`: its strictest member is a float. -/
def weatherInfoSize : Nat := 168

/-- `sizeof(cfg->weather_info)`. -/
def weatherArraySize : Nat := 7 * weatherInfoSize

example : offsetIn "tempMax" weatherInfoMembers 0 = tempMaxOffset := by decide
example : offsetIn "tempMin" weatherInfoMembers 0 = tempMinOffset := by decide
example : offsetIn "iconDay" weatherInfoMembers 0 = iconDayOffset := by decide
example : offsetIn "textDay" weatherInfoMembers 0 = textDayOffset := by decide
example : alignUp (offsetIn "" weatherInfoMembers 0) 4 = weatherInfoSize := by decide +kernel

/-! ### `ele_ds_cfg_t` -/

/-- `CLIENT_CHEAT_CONTENT_SIZE`. -/
def memoSize : Nat := 256

/-- `CFGFILE_CHECK`. -/
def CFGFILE_CHECK : UInt32 := 0xA5A5A5A5

/-- `ele_client_cfg_t`. -/
structure EleClientCfg where
  username : Buf 21
  passwd : Buf 21
  cityname : Buf 21
  cityid : UInt32
  cntserverInterval : UInt16
  version : UInt32
  battery : UInt8
deriving DecidableEq

/-- `ele_ds_cfg_t`.  `time_t` is a signed integer; its width plays no role. -/
structure EleDsCfg where
  clientcfg : EleClientCfg
  wifiSsid : Buf 32
  wifiPasswd : Buf 32
  serverAddr : Buf 64
  serverPort : UInt16
  curweather : Nat
  weatherInfo : Buf weatherArraySize
  memo : Buf memoSize
  tcpTimeout : UInt32
  alarmEnable : Bool
  alarmTime : Int
  check : UInt32
deriving DecidableEq

/-- `memset(cfg, 0, sizeof(ele_ds_cfg_t))`. -/
def EleDsCfg.zero : EleDsCfg where
  clientcfg :=
    { username := Buf.zero 21, passwd := Buf.zero 21, cityname := Buf.zero 21
      cityid := 0, cntserverInterval := 0, version := 0, battery := 0 }
  wifiSsid := Buf.zero 32
  wifiPasswd := Buf.zero 32
  serverAddr := Buf.zero 64
  serverPort := 0
  curweather := 0
  weatherInfo := Buf.zero weatherArraySize
  memo := Buf.zero memoSize
  tcpTimeout := 0
  alarmEnable := false
  alarmTime := 0
  check := 0

/-- `init_ele_ds_cfg`. -/
def initEleDsCfg : EleDsCfg :=
  { EleDsCfg.zero with
    check := CFGFILE_CHECK
    serverPort := 12675
    tcpTimeout := 3 * 1000
    alarmEnable := false
    alarmTime := 0
    clientcfg := { EleDsCfg.zero.clientcfg with cityid := 101010100, version := 0x25052801 }
    wifiSsid := (Buf.zero 32).strncpy (ascii "esp32-2.4G") 31 (by decide)
    wifiPasswd := (Buf.zero 32).strncpy (ascii "12345678..") 31 (by decide)
    serverAddr := (Buf.zero 64).strncpy (ascii "60.215.128.73") 63 (by decide) }

namespace EleDsCfg

/-- `cfg->weather_info[i].iconDay` as the string printed for it. -/
def iconDay (cfg : EleDsCfg) (i : Nat) : Bytes :=
  cstr (cfg.weatherInfo.data.drop (i * weatherInfoSize + iconDayOffset))

/-- `cfg->weather_info[i].textDay`. -/
def textDay (cfg : EleDsCfg) (i : Nat) : Bytes :=
  cstr (cfg.weatherInfo.data.drop (i * weatherInfoSize + textDayOffset))

/-- `cfg->weather_info[i].tempMax`, an `int8_t`. -/
def tempMax (cfg : EleDsCfg) (i : Nat) : Int :=
  (cfg.weatherInfo.data.getD (i * weatherInfoSize + tempMaxOffset) 0).toInt8.toInt

/-- `cfg->weather_info[i].tempMin`. -/
def tempMin (cfg : EleDsCfg) (i : Nat) : Int :=
  (cfg.weatherInfo.data.getD (i * weatherInfoSize + tempMinOffset) 0).toInt8.toInt

end EleDsCfg

/-! ### The file format -/

/-- The value `cJSON_AddNumberToObject` stores for an integer. -/
def jsonNumber (n : Int) : CJson := .number n

/-- The value `cJSON_AddStringToObject` stores for a character array. -/
def jsonString {n : Nat} (a : Buf n) : CJson := .string a.str

/-- `ele_ds_cfg_to_json`. -/
def eleDsCfgToJson (cfg : EleDsCfg) : CJson :=
  .object
    [(ascii "clientcfg", .object
        [(ascii "username", jsonString cfg.clientcfg.username),
         (ascii "passwd", jsonString cfg.clientcfg.passwd),
         (ascii "cityname", jsonString cfg.clientcfg.cityname),
         (ascii "cityid", jsonNumber cfg.clientcfg.cityid.toNat),
         (ascii "cntserver_interval", jsonNumber cfg.clientcfg.cntserverInterval.toNat),
         (ascii "version", jsonNumber cfg.clientcfg.version.toNat),
         (ascii "battery", jsonNumber cfg.clientcfg.battery.toNat)]),
     (ascii "wifi_ssid", jsonString cfg.wifiSsid),
     (ascii "wifi_passwd", jsonString cfg.wifiPasswd),
     (ascii "server_addr", jsonString cfg.serverAddr),
     (ascii "server_port", jsonNumber cfg.serverPort.toNat),
     (ascii "tcp_timeout", jsonNumber cfg.tcpTimeout.toNat),
     (ascii "alarm_enable", jsonNumber cfg.alarmEnable.toNat),
     (ascii "alarm_time", jsonNumber cfg.alarmTime),
     (ascii "memo", jsonString cfg.memo),
     (ascii "weather_info", .array ((List.range 7).map fun i => .object
        [(ascii "iconDay", .string (cfg.iconDay i)),
         (ascii "textDay", .string (cfg.textDay i)),
         (ascii "tempMax", jsonNumber (cfg.tempMax i)),
         (ascii "tempMin", jsonNumber (cfg.tempMin i))]))]

/-- `cJSON_GetObjectItem(json, name)->valuestring` handed to a function that reads it. -/
def itemText (json : CJson) (name : Bytes) : Except Fault Bytes := do
  match ← json.itemString name with
  | none => .error .nullDeref
  | some s => .ok s

/-- `strcpy` into the `size` bytes of a structure member at `off`. -/
def strcpyMember {n : Nat} (a : Buf n) (off size : Nat) (s : Bytes) : Except Fault (Buf n) :=
  if (cstr s).length < size then a.memcpy off (cstr s ++ [0]) else .error .writeOverrun

/-- The loop over `weather_info`, from entry `i` on. -/
def readWeatherItems : List CJson → Nat → Buf weatherArraySize →
    Except Fault (Buf weatherArraySize)
  | [], _, w => .ok w
  | item :: rest, i, w => do
      let w ← strcpyMember w (i * weatherInfoSize + textDayOffset) textDaySize
        (← itemText item (ascii "textDay"))
      let w ← strcpyMember w (i * weatherInfoSize + iconDayOffset) iconDaySize
        (← itemText item (ascii "iconDay"))
      let w ← w.memcpy (i * weatherInfoSize + tempMaxOffset)
        [UInt8.ofInt (← item.itemInt (ascii "tempMax"))]
      let w ← w.memcpy (i * weatherInfoSize + tempMinOffset)
        [UInt8.ofInt (← item.itemInt (ascii "tempMin"))]
      readWeatherItems rest (i + 1) w

/-- `json_to_ele_ds_cfg`.  Without a `clientcfg` it returns the zeroed configuration. -/
def jsonToEleDsCfg (json : CJson) : Except Fault EleDsCfg := do
  let cfg := EleDsCfg.zero
  match json.getObjectItem (ascii "clientcfg") with
  | none => .ok cfg
  | some clientcfg =>
    let username ← cfg.clientcfg.username.strcpy (← itemText clientcfg (ascii "username"))
    let passwd ← cfg.clientcfg.passwd.strcpy (← itemText clientcfg (ascii "passwd"))
    let cityname ← cfg.clientcfg.cityname.strcpy (← itemText clientcfg (ascii "cityname"))
    let cityid ← clientcfg.itemInt (ascii "cityid")
    let cntserverInterval ← clientcfg.itemInt (ascii "cntserver_interval")
    let _version ← clientcfg.itemInt (ascii "version")
    let battery ← clientcfg.itemInt (ascii "battery")
    let wifiSsid ← cfg.wifiSsid.strcpy (← itemText json (ascii "wifi_ssid"))
    let wifiPasswd ← cfg.wifiPasswd.strcpy (← itemText json (ascii "wifi_passwd"))
    let serverAddr ← cfg.serverAddr.strcpy (← itemText json (ascii "server_addr"))
    let serverPort ← json.itemInt (ascii "server_port")
    let tcpTimeout ← json.itemInt (ascii "tcp_timeout")
    let alarmEnable ← json.itemInt (ascii "alarm_enable")
    let alarmTime ← json.itemInt (ascii "alarm_time")
    -- the version is assigned a second time, from the root object
    let version ← json.itemInt (ascii "version")
    let memo ← cfg.memo.strcpy (← itemText json (ascii "memo"))
    let items := match json.getObjectItem (ascii "weather_info") with
      | none => []
      | some weatherArray => weatherArray.children.take 7
    let weatherInfo ← readWeatherItems items 0 cfg.weatherInfo
    .ok { cfg with
      clientcfg :=
        { username, passwd, cityname
          cityid := UInt32.ofInt cityid
          cntserverInterval := UInt16.ofInt cntserverInterval
          version := UInt32.ofInt version
          battery := UInt8.ofInt battery }
      wifiSsid, wifiPasswd, serverAddr
      serverPort := UInt16.ofInt serverPort
      tcpTimeout := UInt32.ofInt tcpTimeout
      alarmEnable := alarmEnable != 0
      alarmTime, memo, weatherInfo
      check := CFGFILE_CHECK }

/-! ### Saving and loading -/

/-- What the calls `write_ele_ds_cfg` makes do. -/
inductive SaveOutcome where
  /-- `open` returns a negative descriptor and leaves the file alone. -/
  | openFailed
  /-- `open` truncates the file, then `write` does what it does. -/
  | opened (w : WriteOutcome)
deriving DecidableEq, Repr

/-- `write_ele_ds_cfg`: the result of `write` is not looked at. -/
def writeEleDsCfg (cj : CJsonLib) (fs : FileSystem) (cfg : EleDsCfg) (o : SaveOutcome) :
    Int × FileSystem :=
  match o with
  | .openFailed => (-1, fs)
  | .opened w =>
      let text := cstr (cj.print (eleDsCfgToJson cfg))
      (0, fs.put CONFIG_FILE_PATH (w.stored text))

/-- `read_ele_ds_cfg`, reading all of the file. -/
def readEleDsCfg (cj : CJsonLib) (fs : FileSystem) (cfg : EleDsCfg) :
    Except Fault (Int × EleDsCfg) :=
  match fs.get CONFIG_FILE_PATH with
  | none => .ok (-1, cfg)
  | some buf =>
      if buf.length = 0 then .ok (-2, cfg)
      else match cj.parse (cstr buf) with
        | none => .ok (-3, cfg)
        | some json => do
            let cfg ← jsonToEleDsCfg json
            .ok (0, cfg)

/-- `init_cfgfile`. -/
def initCfgfile (cj : CJsonLib) (fs : FileSystem) (o : SaveOutcome) : Int × EleDsCfg × FileSystem :=
  let cfg := initEleDsCfg
  let (ret, fs) := writeEleDsCfg cj fs cfg o
  (if ret ≠ 0 then -1 else 0, cfg, fs)

/-- `sysfile_init`: the configuration and the files after it. -/
def sysfileInit (cj : CJsonLib) (fs : FileSystem) (cfg : EleDsCfg) (o : SaveOutcome) :
    Except Fault (EleDsCfg × FileSystem) :=
  match fs.get CONFIG_FILE_PATH with
  | none =>
      let (_, cfg, fs) := initCfgfile cj fs o
      .ok (cfg, fs)
  | some _ => do
      let (_, cfg) ← readEleDsCfg cj fs cfg
      .ok (cfg, fs)

/-- A boot: `main` sets its `ele_ds` to zero before anything else. -/
def boot (cj : CJsonLib) (fs : FileSystem) (o : SaveOutcome) :
    Except Fault (EleDsCfg × FileSystem) := sysfileInit cj fs EleDsCfg.zero o

end EleDs
