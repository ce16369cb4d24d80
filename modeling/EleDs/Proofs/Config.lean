/-
What survives in the configuration file.

A configuration goes to flash as JSON text and comes back at the next boot.  The
decoder reads the version twice, once from `clientcfg`, where the encoder puts it,
and once from the root object, where it does not; so no file the firmware writes
can be loaded again.  `jsonToEleDsCfg_ok` is that observation, and both results
below rest on it.

The second result is about saves that go wrong.  The file is truncated in place
and the result of `write` is dropped, so the only save after which the device is
sure to come up with a configuration is one that never touched the file.
-/
import EleDs.Model.Config

namespace EleDs

open CMem CJson

/-! ### The decoder needs a version in the root object -/

/-- A document that decodes past `clientcfg` has a version in its root object, and
comes out with the check word set. -/
theorem jsonToEleDsCfg_ok {json clientcfg : CJson}
    (hc : json.getObjectItem (ascii "clientcfg") = some clientcfg) :
    Ensures (fun cfg => (json.getObjectItem (ascii "version")).isSome ∧ cfg.check = CFGFILE_CHECK)
      (jsonToEleDsCfg json) := by
  unfold jsonToEleDsCfg
  simp only [hc]
  repeat refine ensures_bind fun _ _ => ?_
  refine ensures_ok ⟨?_, rfl⟩
  have hversion : ∃ v, json.itemInt (ascii "version") = .ok v := ⟨_, by assumption⟩
  cases hv : json.getObjectItem (ascii "version") with
  | none => simp [itemInt, hv] at hversion
  | some v => rfl

/-- The encoder puts no version there. -/
theorem eleDsCfgToJson_version (cfg : EleDsCfg) :
    (eleDsCfgToJson cfg).getObjectItem (ascii "version") = none := by
  rfl

/-- What the firmware writes, it cannot load: the decoder reads through a null pointer. -/
theorem jsonToEleDsCfg_eleDsCfgToJson (cfg cfg' : EleDsCfg) :
    jsonToEleDsCfg (eleDsCfgToJson cfg) ≠ .ok cfg' := by
  intro h
  have := (jsonToEleDsCfg_ok rfl cfg' h).1
  rw [eleDsCfgToJson_version] at this
  cases this

/-! ### Nothing comes back

A configuration that is written, printed, parsed and decoded should be the one it
was, in every member the file has a key for.
-/

/-- The two agree in every member the file keeps. -/
structure SamePersisted (a b : EleDsCfg) : Prop where
  username : a.clientcfg.username.str = b.clientcfg.username.str
  passwd : a.clientcfg.passwd.str = b.clientcfg.passwd.str
  cityname : a.clientcfg.cityname.str = b.clientcfg.cityname.str
  cityid : a.clientcfg.cityid = b.clientcfg.cityid
  cntserverInterval : a.clientcfg.cntserverInterval = b.clientcfg.cntserverInterval
  version : a.clientcfg.version = b.clientcfg.version
  battery : a.clientcfg.battery = b.clientcfg.battery
  wifiSsid : a.wifiSsid.str = b.wifiSsid.str
  wifiPasswd : a.wifiPasswd.str = b.wifiPasswd.str
  serverAddr : a.serverAddr.str = b.serverAddr.str
  serverPort : a.serverPort = b.serverPort
  tcpTimeout : a.tcpTimeout = b.tcpTimeout
  alarmEnable : a.alarmEnable = b.alarmEnable
  alarmTime : a.alarmTime = b.alarmTime
  memo : a.memo.str = b.memo.str
  weather : ∀ i < 7, a.iconDay i = b.iconDay i ∧ a.textDay i = b.textDay i ∧
    a.tempMax i = b.tempMax i ∧ a.tempMin i = b.tempMin i

/-- Every string of the configuration ends inside its array. -/
structure StringsEnd (cfg : EleDsCfg) : Prop where
  username : 0 ∈ cfg.clientcfg.username.data
  passwd : 0 ∈ cfg.clientcfg.passwd.data
  cityname : 0 ∈ cfg.clientcfg.cityname.data
  wifiSsid : 0 ∈ cfg.wifiSsid.data
  wifiPasswd : 0 ∈ cfg.wifiPasswd.data
  serverAddr : 0 ∈ cfg.serverAddr.data
  memo : 0 ∈ cfg.memo.data
  weather : ∀ i < 7,
    0 ∈ (cfg.weatherInfo.data.drop (i * weatherInfoSize + iconDayOffset)).take iconDaySize ∧
    0 ∈ (cfg.weatherInfo.data.drop (i * weatherInfoSize + textDayOffset)).take textDaySize

/-- Writing the configuration and reading it back is possible, and changes nothing. -/
def RoundTrips (cj : CJsonLib) (cfg : EleDsCfg) : Prop :=
  ∃ json cfg', cj.parse (cj.print (eleDsCfgToJson cfg)) = some json ∧
    jsonToEleDsCfg json = .ok cfg' ∧ SamePersisted cfg cfg'

/-- **No configuration makes the round trip.**  The text is parsed back to the tree
it was printed from, and the decoder then asks that tree for a member it lacks. -/
theorem not_roundTrips (cj : CJsonLib) (cfg : EleDsCfg)
    (hcj : cj.parse (cj.print (eleDsCfgToJson cfg)) = some (eleDsCfgToJson cfg)) :
    ¬ RoundTrips cj cfg := by
  rintro ⟨json, cfg', hparse, hok, -⟩
  rw [hcj] at hparse
  cases hparse
  exact jsonToEleDsCfg_eleDsCfgToJson cfg cfg' hok

/-! ### The default configuration, on flash

What `cJSON_Print` writes for the defaults, and the same text with the version a
user would have to add to the root object by hand.
-/

/-- One line of formatted output: indentation, key and value. -/
private def member (depth : Nat) (key value : String) : Bytes :=
  List.replicate depth 9 ++ ascii "\"" ++ ascii key ++ ascii "\":\t" ++ ascii value

/-- Lines with a comma between each two. -/
private def lines (ls : List Bytes) : Bytes := (ascii ",\n").intercalate ls

private def clientcfgText : Bytes :=
  lines [member 2 "username" "\"\"", member 2 "passwd" "\"\"", member 2 "cityname" "\"\"",
    member 2 "cityid" "101010100", member 2 "cntserver_interval" "0",
    member 2 "version" "621094913", member 2 "battery" "0"]

private def weatherItemText : Bytes :=
  ascii "\x7b\n" ++
  lines [member 3 "iconDay" "\"\"", member 3 "textDay" "\"\"", member 3 "tempMax" "0",
    member 3 "tempMin" "0"] ++
  ascii "\n\t\t\x7d"

private def defaultMembersText : Bytes :=
  lines [member 1 "clientcfg" "\x7b\n" ++ clientcfgText ++ ascii "\n\t\x7d",
    member 1 "wifi_ssid" "\"esp32-2.4G\"", member 1 "wifi_passwd" "\"12345678..\"",
    member 1 "server_addr" "\"60.215.128.73\"", member 1 "server_port" "12675",
    member 1 "tcp_timeout" "3000", member 1 "alarm_enable" "0", member 1 "alarm_time" "0",
    member 1 "memo" "\"\"",
    member 1 "weather_info" "[" ++
      (ascii ", ").intercalate (List.replicate 7 weatherItemText) ++ ascii "]"]

/-- The file a device that boots without one creates. -/
def defaultText : Bytes := ascii "\x7b\n" ++ defaultMembersText ++ ascii "\n\x7d"

/-- The line a user would have to add. -/
private def versionLine : Bytes := ascii ",\n" ++ member 1 "version" "621094913"

/-- The same file with a version in its root object. -/
def versionedText : Bytes :=
  ascii "\x7b\n" ++ defaultMembersText ++ versionLine ++ ascii "\n\x7d"

/-- The document `versionedText` stands for. -/
def versionedJson : CJson :=
  match eleDsCfgToJson initEleDsCfg with
  | .object members => .object (members ++ [(ascii "version", jsonNumber 621094913)])
  | json => json

/-- cJSON on the two files. -/
def defaultLib : CJsonLib :=
  tableLib [(defaultText, eleDsCfgToJson initEleDsCfg), (versionedText, versionedJson)] defaultText

private theorem zero_not_mem_defaultMembersText : 0 ∉ defaultMembersText := by decide +kernel

theorem zero_not_mem_defaultText : 0 ∉ defaultText := by
  simp only [defaultText, List.mem_append, not_or]
  exact ⟨⟨by decide, zero_not_mem_defaultMembersText⟩, by decide⟩

theorem zero_not_mem_versionedText : 0 ∉ versionedText := by
  simp only [versionedText, List.mem_append, not_or]
  exact ⟨⟨⟨by decide, zero_not_mem_defaultMembersText⟩, by decide +kernel⟩, by decide⟩

theorem defaultText_shorter : defaultText.length < versionedText.length := by
  have : 0 < versionLine.length := by decide +kernel
  simp only [defaultText, versionedText, List.length_append]
  omega

theorem versionedJson_decodes : jsonToEleDsCfg versionedJson = .ok initEleDsCfg := by
  have h : (match jsonToEleDsCfg versionedJson with
      | .ok cfg => decide (cfg = initEleDsCfg)
      | .error _ => false) = true := by decide +kernel
  cases hd : jsonToEleDsCfg versionedJson with
  | error e => simp [hd] at h
  | ok cfg => simp [hd] at h; rw [h]

theorem defaultLib_parse_print : defaultLib.parse (defaultLib.print (eleDsCfgToJson initEleDsCfg))
    = some (eleDsCfgToJson initEleDsCfg) := by
  simp [defaultLib, tableLib]

theorem initEleDsCfg_stringsEnd : StringsEnd initEleDsCfg where
  username := by decide
  passwd := by decide
  cityname := by decide
  wifiSsid := by decide
  wifiPasswd := by decide
  serverAddr := by decide
  memo := by decide +kernel
  weather := by decide +kernel

/-- The defaults do not come back. -/
theorem not_roundTrips_defaults :
    StringsEnd initEleDsCfg ∧ ¬ RoundTrips defaultLib initEleDsCfg :=
  ⟨initEleDsCfg_stringsEnd,
    not_roundTrips defaultLib initEleDsCfg defaultLib_parse_print⟩

/-- Saving the defaults and loading them again reads through a null pointer. -/
theorem roundTrips_refuted :
    ¬ ∀ (cj : CJsonLib) (cfg : EleDsCfg), StringsEnd cfg →
      cj.parse (cj.print (eleDsCfgToJson cfg)) = some (eleDsCfgToJson cfg) →
      RoundTrips cj cfg := by
  intro h
  obtain ⟨json, cfg', hparse, hok, -⟩ :=
    h defaultLib initEleDsCfg initEleDsCfg_stringsEnd defaultLib_parse_print
  rw [defaultLib_parse_print] at hparse
  cases hparse
  exact jsonToEleDsCfg_eleDsCfgToJson initEleDsCfg cfg' hok

/-! ### Saves that go wrong -/

/-- How a save of `cfg` ends. -/
inductive SaveEnd where
  /-- The call runs to its end. -/
  | returned (o : SaveOutcome)
  /-- The power fails after the truncating `open`, with `n` bytes written. -/
  | powerLost (n : Nat)
deriving DecidableEq

/-- The text a save of `cfg` writes. -/
def savedText (cj : CJsonLib) (cfg : EleDsCfg) : Bytes := cstr (cj.print (eleDsCfgToJson cfg))

/-- What the call returned, if it did, and the files it left. -/
def SaveEnd.after (cj : CJsonLib) (fs : FileSystem) (cfg : EleDsCfg) :
    SaveEnd → Option Int × FileSystem
  | returned o => (some (writeEleDsCfg cj fs cfg o).1, (writeEleDsCfg cj fs cfg o).2)
  | powerLost n => (none, fs.put CONFIG_FILE_PATH ((savedText cj cfg).take n))

/-- A file that decodes, past its `clientcfg`, to a configuration. -/
def Decodes (cj : CJsonLib) (text : Bytes) (cfg : EleDsCfg) : Prop :=
  text ≠ [] ∧ ∃ json, cj.parse (cstr text) = some json ∧
    (json.getObjectItem (ascii "clientcfg")).isSome ∧ jsonToEleDsCfg json = .ok cfg

/-- After the save, the next boot comes up with the old configuration `a`, the new
one `b` or the defaults, and a save that reported success wrote all of `b`. -/
def Survives (cj : CJsonLib) (fs : FileSystem) (a b : EleDsCfg) (e : SaveEnd) : Prop :=
  ((e.after cj fs b).1 = some 0 →
    (e.after cj fs b).2.get CONFIG_FILE_PATH = some (savedText cj b)) ∧
  ∀ o, ∃ cfg fs', boot cj (e.after cj fs b).2 o = .ok (cfg, fs') ∧
    (cfg = a ∨ cfg = b ∨ cfg = initEleDsCfg) ∧ cfg ≠ EleDsCfg.zero

theorem Decodes.ne_zero {cj : CJsonLib} {text : Bytes} {cfg : EleDsCfg}
    (h : Decodes cj text cfg) : cfg ≠ EleDsCfg.zero := by
  obtain ⟨-, json, -, hclient, hok⟩ := h
  obtain ⟨clientcfg, hc⟩ := Option.isSome_iff_exists.mp hclient
  intro hzero
  have hcheck := (jsonToEleDsCfg_ok hc cfg hok).2
  rw [hzero] at hcheck
  exact absurd hcheck (by decide)

/-- A boot over a file that decodes comes up with it. -/
theorem boot_of_decodes {cj : CJsonLib} {fs : FileSystem} {text : Bytes} {cfg : EleDsCfg}
    (hfile : fs.get CONFIG_FILE_PATH = some text) (h : Decodes cj text cfg) (o : SaveOutcome) :
    boot cj fs o = .ok (cfg, fs) := by
  obtain ⟨hne, json, hparse, -, hok⟩ := h
  have hlen : text.length ≠ 0 := fun hc => hne (List.length_eq_zero_iff.mp hc)
  simp only [boot, sysfileInit, hfile, readEleDsCfg, if_neg hlen, hparse, hok]
  rfl

/-- A boot over an empty or unparsable file leaves the configuration zero. -/
theorem boot_of_unreadable {cj : CJsonLib} {fs : FileSystem} {text : Bytes}
    (hfile : fs.get CONFIG_FILE_PATH = some text)
    (h : text = [] ∨ cj.parse (cstr text) = none) (o : SaveOutcome) :
    boot cj fs o = .ok (EleDsCfg.zero, fs) := by
  simp only [boot, sysfileInit, hfile, readEleDsCfg]
  split
  · rfl
  · rename_i hlen
    rcases h with rfl | hnone
    · simp at hlen
    · simp only [hnone]
      rfl

/-- A boot over a complete save does not come up: the decoder faults. -/
theorem boot_of_saved {cj : CJsonLib} {fs : FileSystem} {text : Bytes} {b : EleDsCfg}
    (hfile : fs.get CONFIG_FILE_PATH = some text) (hne : text ≠ [])
    (hparse : cj.parse (cstr text) = some (eleDsCfgToJson b)) (o : SaveOutcome)
    (r : EleDsCfg × FileSystem) : boot cj fs o ≠ .ok r := by
  have hlen : text.length ≠ 0 := fun hc => hne (List.length_eq_zero_iff.mp hc)
  simp only [boot, sysfileInit, hfile, readEleDsCfg, if_neg hlen, hparse]
  cases hd : jsonToEleDsCfg (eleDsCfgToJson b) with
  | error e => intro h; cases h
  | ok cfg => exact absurd hd (jsonToEleDsCfg_eleDsCfgToJson b cfg)

theorem cstr_savedText (cj : CJsonLib) (b : EleDsCfg) (n : Nat) :
    cstr ((savedText cj b).take n) = (savedText cj b).take n :=
  cstr_of_not_mem fun h => zero_not_mem_cstr _ (List.mem_of_mem_take h)

/-- Whatever part of the new text is in the file, the next boot is not a good one. -/
theorem boot_of_take {cj : CJsonLib} {fs : FileSystem} {b : EleDsCfg} {n : Nat}
    (hcj : cj.parse (savedText cj b) = some (eleDsCfgToJson b))
    (hcut : ∀ n < (savedText cj b).length, cj.parse ((savedText cj b).take n) = none)
    (hfile : fs.get CONFIG_FILE_PATH = some ((savedText cj b).take n)) (o : SaveOutcome) :
    ¬ ∃ cfg fs', boot cj fs o = .ok (cfg, fs') ∧ cfg ≠ EleDsCfg.zero := by
  rintro ⟨cfg, fs', hboot, hne⟩
  by_cases hempty : (savedText cj b).take n = []
  · rw [boot_of_unreadable hfile (Or.inl hempty)] at hboot
    cases hboot
    exact hne rfl
  by_cases hn : n < (savedText cj b).length
  · rw [boot_of_unreadable hfile (Or.inr (by rw [cstr_savedText]; exact hcut n hn))] at hboot
    cases hboot
    exact hne rfl
  · have hall : (savedText cj b).take n = savedText cj b := List.take_of_length_le (by omega)
    exact boot_of_saved hfile hempty (by rw [cstr_savedText, hall]; exact hcj) o _ hboot

/-- What `write` stored is a prefix of what it was given. -/
theorem WriteOutcome.stored_eq_take (w : WriteOutcome) (data : Bytes) :
    ∃ n, w.stored data = data.take n := by
  cases w with
  | full => exact ⟨data.length, (List.take_length).symm⟩
  | short n => exact ⟨n, rfl⟩
  | failed => exact ⟨0, rfl⟩

/-- **A failed save is survived only when it failed before touching the file.** -/
theorem survives_iff (cj : CJsonLib) (fs : FileSystem) (text : Bytes) (a b : EleDsCfg)
    (e : SaveEnd) (hfile : fs.get CONFIG_FILE_PATH = some text) (ha : Decodes cj text a)
    (hcj : cj.parse (savedText cj b) = some (eleDsCfgToJson b))
    (hcut : ∀ n < (savedText cj b).length, cj.parse ((savedText cj b).take n) = none) :
    Survives cj fs a b e ↔ e = .returned .openFailed := by
  constructor
  · rintro ⟨-, hboot⟩
    obtain ⟨cfg, fs', hok, -, hne⟩ := hboot .openFailed
    cases e with
    | powerLost n =>
        exact absurd ⟨cfg, fs', hok, hne⟩
          (boot_of_take hcj hcut (FileSystem.get_put _ _ _) _)
    | returned o =>
        cases o with
        | openFailed => rfl
        | opened w =>
            obtain ⟨n, hn⟩ := w.stored_eq_take (savedText cj b)
            have hget : ((SaveEnd.returned (.opened w)).after cj fs b).2.get CONFIG_FILE_PATH
                = some ((savedText cj b).take n) := by
              rw [← hn]
              exact FileSystem.get_put _ _ _
            exact absurd ⟨cfg, fs', hok, hne⟩ (boot_of_take hcj hcut hget _)
  · rintro rfl
    constructor
    · intro h
      simp [SaveEnd.after, writeEleDsCfg] at h
    · intro o
      exact ⟨a, fs, boot_of_decodes hfile ha o, Or.inl rfl, ha.ne_zero⟩

/-- A flash that holds nothing but a configuration file. -/
def onlyConfig (text : Bytes) : FileSystem := FileSystem.put (fun _ => none) CONFIG_FILE_PATH text

theorem versionedText_parses : defaultLib.parse (cstr versionedText) = some versionedJson := by
  have hne : (defaultText == versionedText) = false := by
    apply beq_false_of_ne
    intro hc
    have := congrArg List.length hc
    have := defaultText_shorter
    omega
  rw [cstr_of_not_mem zero_not_mem_versionedText]
  simp [defaultLib, tableLib, hne]

theorem versionedText_decodes : Decodes defaultLib versionedText initEleDsCfg :=
  ⟨by decide, versionedJson, versionedText_parses, rfl, versionedJson_decodes⟩

theorem defaultLib_parse_take (n : Nat) (hn : n < defaultText.length) :
    defaultLib.parse (defaultText.take n) = none := by
  have hlen : (defaultText.take n).length = n := by
    rw [List.length_take]
    omega
  have hlonger := defaultText_shorter
  have h1 : (defaultText == defaultText.take n) = false := by
    apply beq_false_of_ne
    intro hc
    have := congrArg List.length hc
    omega
  have h2 : (versionedText == defaultText.take n) = false := by
    apply beq_false_of_ne
    intro hc
    have := congrArg List.length hc
    omega
  simp [defaultLib, tableLib, h1, h2]

theorem savedText_defaultLib (cfg : EleDsCfg) : savedText defaultLib cfg = defaultText :=
  cstr_of_not_mem zero_not_mem_defaultText

theorem defaultLib_parse_savedText :
    defaultLib.parse (savedText defaultLib initEleDsCfg) = some (eleDsCfgToJson initEleDsCfg) := by
  rw [savedText_defaultLib]
  exact defaultLib_parse_print

theorem defaultLib_parse_take_savedText (n : Nat)
    (hn : n < (savedText defaultLib initEleDsCfg).length) :
    defaultLib.parse ((savedText defaultLib initEleDsCfg).take n) = none := by
  rw [savedText_defaultLib] at hn ⊢
  exact defaultLib_parse_take n hn

/-- With a version in the root object of the file, a save that cannot open it is survived. -/
theorem survives_openFailed :
    Survives defaultLib (onlyConfig versionedText) initEleDsCfg initEleDsCfg
      (.returned .openFailed) :=
  (survives_iff defaultLib (onlyConfig versionedText) versionedText initEleDsCfg initEleDsCfg
    (.returned .openFailed) (FileSystem.get_put _ _ _) versionedText_decodes
    defaultLib_parse_savedText defaultLib_parse_take_savedText).mpr rfl

/-- Losing power right after the truncating `open` brings the device up with zeros. -/
theorem survives_refuted :
    Decodes defaultLib versionedText initEleDsCfg ∧
    (onlyConfig versionedText).get CONFIG_FILE_PATH = some versionedText ∧
    (∀ o, boot defaultLib
      ((SaveEnd.powerLost 0).after defaultLib (onlyConfig versionedText) initEleDsCfg).2 o
        = .ok (EleDsCfg.zero, onlyConfig [])) ∧
    ¬ Survives defaultLib (onlyConfig versionedText) initEleDsCfg initEleDsCfg (.powerLost 0) := by
  have hboot : ∀ o, boot defaultLib
      ((SaveEnd.powerLost 0).after defaultLib (onlyConfig versionedText) initEleDsCfg).2 o
        = .ok (EleDsCfg.zero, onlyConfig []) := by
    intro o
    have hfs : ((SaveEnd.powerLost 0).after defaultLib (onlyConfig versionedText) initEleDsCfg).2
        = onlyConfig [] := FileSystem.put_put _ _ _ _
    rw [hfs]
    exact boot_of_unreadable (FileSystem.get_put _ _ _) (Or.inl rfl) o
  refine ⟨versionedText_decodes, FileSystem.get_put _ _ _, hboot, ?_⟩
  intro h
  obtain ⟨cfg, fs', hok, -, hne⟩ := h.2 .openFailed
  rw [hboot] at hok
  cases hok
  exact hne rfl

end EleDs
