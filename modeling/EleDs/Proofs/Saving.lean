/-
Saves and boots with the real cJSON.

`Proofs/Config.lean` takes the text format as a parameter and asks two things of it: that
the text of a configuration is parsed back, and that no part of it is.  Both hold of cJSON
(`Proofs/CJsonText.lean`, `Proofs/CJsonPrefix.lean`), so what a boot makes of the file that
a save left behind is settled: a whole text makes the decoder fault, and anything less is
not parsed and leaves a configuration of zeros.

The numbers of a configuration are integers a double can hold; only `alarm_time` has to be
asked for it.
-/
import EleDs.Proofs.CJsonPrefix
import EleDs.Proofs.Config

namespace EleDs

open CMem CJson Rounding

/-! ### The document of a configuration -/

/-- The integers a double holds exactly. -/
def Exact (n : Int) : Prop := n.natAbs < 2 ^ 53

theorem Exact.isDouble {n : Int} (h : Exact n) : IsDouble n :=
  .inl (Format.number_intCast h (by decide) (by decide))

theorem exact_nat {n : Nat} (h : n < 2 ^ 53) : Exact n := by
  rw [Exact, Int.natAbs_natCast]
  exact h

theorem exact_int8 (x : UInt8) : Exact x.toInt8.toInt := by
  have hlo := Int8.le_toInt x.toInt8
  have hhi := Int8.toInt_lt x.toInt8
  rw [Exact]
  omega

/-- A value without others inside, with a text that is not long. -/
def Leaf (t : CJson) : Prop := Document 0 t ∧ ∀ k, (text true k t).length ≤ 7058

theorem leaf_jsonNumber {n : Int} (h : Exact n) : Leaf (jsonNumber n) :=
  ⟨.number 0 h.isDouble, fun k => (length_number_le h.isDouble).trans (by norm_num)⟩

theorem leaf_cstr {m : Bytes} (h : m.length ≤ weatherArraySize) : Leaf (.string (cstr m)) := by
  refine ⟨.string 0 (zero_not_mem_cstr m), fun k => (length_quoted_le _).trans ?_⟩
  have hlen : (cstr m).length ≤ m.length := (List.takeWhile_prefix _).length_le
  have hsize : weatherArraySize = 1176 := rfl
  omega

theorem leaf_jsonString {n : Nat} (a : Buf n) (hn : n ≤ weatherArraySize) : Leaf (jsonString a) :=
  leaf_cstr (a.size.le.trans hn)

theorem leaf_drop (cfg : EleDsCfg) (off : Nat) :
    Leaf (.string (cstr (cfg.weatherInfo.data.drop off))) :=
  leaf_cstr (by rw [List.length_drop, cfg.weatherInfo.size]; omega)

/-- A name of the file format. -/
def IsName (name : Bytes) : Prop := 0 ∉ name ∧ name.length ≤ 18

instance (name : Bytes) : Decidable (IsName name) := inferInstanceAs (Decidable (_ ∧ _))

theorem object_of_leaves {members : List (Bytes × CJson)} (hcount : members.length ≤ 7)
    (hnames : ∀ m ∈ members, IsName m.1) (hleaves : ∀ m ∈ members, Leaf m.2) :
    Document 1 (.object members) ∧ ∀ k ≤ 2, (text true k (.object members)).length ≤ 60000 := by
  refine ⟨.object (fun m hm => (hnames m hm).1) fun m hm => (hleaves m hm).1, fun k hk => ?_⟩
  have hlen := length_object_le (n := k) (fun m hm => (hnames m hm).2)
    fun m hm => (hleaves m hm).2 (k + 1)
  have hmul : members.length * (k + 1 + 6 * 18 + 7058 + 6) ≤ 7 * (k + 1 + 6 * 18 + 7058 + 6) :=
    Nat.mul_le_mul_right _ hcount
  omega

/-- The members of `clientcfg` in the file. -/
def clientcfgMembers (cfg : EleDsCfg) : List (Bytes × CJson) :=
  [(ascii "username", jsonString cfg.clientcfg.username),
   (ascii "passwd", jsonString cfg.clientcfg.passwd),
   (ascii "cityname", jsonString cfg.clientcfg.cityname),
   (ascii "cityid", jsonNumber cfg.clientcfg.cityid.toNat),
   (ascii "cntserver_interval", jsonNumber cfg.clientcfg.cntserverInterval.toNat),
   (ascii "version", jsonNumber cfg.clientcfg.version.toNat),
   (ascii "battery", jsonNumber cfg.clientcfg.battery.toNat)]

/-- Those of one day of the weather. -/
def dayMembers (cfg : EleDsCfg) (i : Nat) : List (Bytes × CJson) :=
  [(ascii "iconDay", .string (cfg.iconDay i)), (ascii "textDay", .string (cfg.textDay i)),
   (ascii "tempMax", jsonNumber (cfg.tempMax i)), (ascii "tempMin", jsonNumber (cfg.tempMin i))]

/-- And those of the root object. -/
def rootMembers (cfg : EleDsCfg) : List (Bytes × CJson) :=
  [(ascii "clientcfg", .object (clientcfgMembers cfg)),
   (ascii "wifi_ssid", jsonString cfg.wifiSsid),
   (ascii "wifi_passwd", jsonString cfg.wifiPasswd),
   (ascii "server_addr", jsonString cfg.serverAddr),
   (ascii "server_port", jsonNumber cfg.serverPort.toNat),
   (ascii "tcp_timeout", jsonNumber cfg.tcpTimeout.toNat),
   (ascii "alarm_enable", jsonNumber cfg.alarmEnable.toNat),
   (ascii "alarm_time", jsonNumber cfg.alarmTime),
   (ascii "memo", jsonString cfg.memo),
   (ascii "weather_info", .array ((List.range 7).map fun i => .object (dayMembers cfg i)))]

theorem eleDsCfgToJson_eq (cfg : EleDsCfg) : eleDsCfgToJson cfg = .object (rootMembers cfg) := rfl

theorem clientcfg_object (cfg : EleDsCfg) : Document 1 (.object (clientcfgMembers cfg)) ∧
    ∀ k ≤ 2, (text true k (.object (clientcfgMembers cfg))).length ≤ 60000 := by
  refine object_of_leaves (Nat.le_refl 7) ?_ ?_
  · simp only [clientcfgMembers, List.forall_mem_cons, List.not_mem_nil, false_implies,
      implies_true, and_true]
    decide +kernel
  · have hcityid := cfg.clientcfg.cityid.toNat_lt
    have hinterval := cfg.clientcfg.cntserverInterval.toNat_lt
    have hversion := cfg.clientcfg.version.toNat_lt
    have hbattery := cfg.clientcfg.battery.toNat_lt
    simp only [clientcfgMembers, List.forall_mem_cons, List.not_mem_nil, false_implies,
      implies_true, and_true]
    exact ⟨leaf_jsonString _ (by decide), leaf_jsonString _ (by decide),
      leaf_jsonString _ (by decide), leaf_jsonNumber (exact_nat (by omega)),
      leaf_jsonNumber (exact_nat (by omega)), leaf_jsonNumber (exact_nat (by omega)),
      leaf_jsonNumber (exact_nat (by omega))⟩

theorem day_object (cfg : EleDsCfg) (i : Nat) : Document 1 (.object (dayMembers cfg i)) ∧
    ∀ k ≤ 2, (text true k (.object (dayMembers cfg i))).length ≤ 60000 := by
  refine object_of_leaves (by simp [dayMembers]) ?_ ?_
  · simp only [dayMembers, List.forall_mem_cons, List.not_mem_nil, false_implies, implies_true,
      and_true]
    decide +kernel
  · simp only [dayMembers, List.forall_mem_cons, List.not_mem_nil, false_implies, implies_true,
      and_true]
    exact ⟨leaf_drop cfg _, leaf_drop cfg _, leaf_jsonNumber (exact_int8 _),
      leaf_jsonNumber (exact_int8 _)⟩

theorem weather_array (cfg : EleDsCfg) :
    Document 2 (.array ((List.range 7).map fun i => .object (dayMembers cfg i))) ∧
      (text true 1 (.array ((List.range 7).map fun i => .object (dayMembers cfg i)))).length
        ≤ 500000 := by
  have hdays : ∀ t ∈ (List.range 7).map fun i => CJson.object (dayMembers cfg i),
      Document 1 t ∧ (text true 2 t).length ≤ 60000 := by
    intro t ht
    obtain ⟨i, -, rfl⟩ := List.mem_map.mp ht
    exact ⟨(day_object cfg i).1, (day_object cfg i).2 2 (Nat.le_refl 2)⟩
  refine ⟨.array fun t ht => (hdays t ht).1, ?_⟩
  have hlen := length_array_le fun t ht => (hdays t ht).2
  rw [List.length_map, List.length_range] at hlen
  omega

/-- What stands in the root object. -/
theorem root_members {cfg : EleDsCfg} (halarm : Exact cfg.alarmTime) :
    ∀ m ∈ rootMembers cfg, IsName m.1 ∧ Document 2 m.2 ∧ (text true 1 m.2).length ≤ 500000 := by
  have hleaf : ∀ {t : CJson}, Leaf t → Document 2 t ∧ (text true 1 t).length ≤ 500000 :=
    fun h => ⟨h.1.mono (by norm_num), (h.2 1).trans (by norm_num)⟩
  have hclient := clientcfg_object cfg
  have hport := cfg.serverPort.toNat_lt
  have htimeout := cfg.tcpTimeout.toNat_lt
  have henable : cfg.alarmEnable.toNat < 2 := Bool.toNat_lt _
  simp only [rootMembers, List.forall_mem_cons, List.not_mem_nil, false_implies, implies_true,
    and_true]
  refine ⟨⟨by decide +kernel, hclient.1.mono (by norm_num), (hclient.2 1 (by norm_num)).trans
    (by norm_num)⟩, ⟨by decide +kernel, hleaf (leaf_jsonString _ (by decide))⟩,
    ⟨by decide +kernel, hleaf (leaf_jsonString _ (by decide))⟩,
    ⟨by decide +kernel, hleaf (leaf_jsonString _ (by decide))⟩,
    ⟨by decide +kernel, hleaf (leaf_jsonNumber (exact_nat (by omega)))⟩,
    ⟨by decide +kernel, hleaf (leaf_jsonNumber (exact_nat (by omega)))⟩,
    ⟨by decide +kernel, hleaf (leaf_jsonNumber (exact_nat (by omega)))⟩,
    ⟨by decide +kernel, hleaf (leaf_jsonNumber halarm)⟩,
    ⟨by decide +kernel, hleaf (leaf_jsonString _ (by decide))⟩,
    ⟨by decide +kernel, weather_array cfg⟩⟩

theorem document_eleDsCfgToJson {cfg : EleDsCfg} (halarm : Exact cfg.alarmTime) :
    Document 3 (eleDsCfgToJson cfg) :=
  .object (fun m hm => (root_members halarm m hm).1.1) fun m hm => (root_members halarm m hm).2.1

/-- The text of a configuration. -/
def cfgText (cfg : EleDsCfg) : Bytes := text true 0 (eleDsCfgToJson cfg)

theorem length_cfgText {cfg : EleDsCfg} (halarm : Exact cfg.alarmTime) :
    (cfgText cfg).length ≤ 6000000 := by
  have hlen := length_object_le (fun m hm => (root_members halarm m hm).1.2)
    fun m hm => (root_members halarm m hm).2.2
  have hcount : (rootMembers cfg).length = 10 := rfl
  rw [hcount] at hlen
  rw [cfgText, eleDsCfgToJson_eq]
  omega

/-! ### Its text -/

theorem savedText_cJsonLib {cfg : EleDsCfg} (halarm : Exact cfg.alarmTime) :
    savedText cJsonLib cfg = cfgText cfg := by
  have hdoc := document_eleDsCfgToJson halarm
  have hprint : cJSONPrint (eleDsCfgToJson cfg) = .ok (some (cfgText cfg)) := by
    obtain ⟨r, hr, hres⟩ := print_yields hdoc true
    rcases hres with rfl | ⟨-, hlong⟩
    · exact hr
    · have hlen := length_cfgText halarm
      rw [cfgText] at hlen
      omega
  have hlib : cJsonLib.print (eleDsCfgToJson cfg) = cfgText cfg := by
    rw [cJsonLib]
    dsimp only
    rw [hprint]
  rw [savedText, hlib]
  exact cstr_of_not_mem (hdoc.text_noNul true 0)

theorem cJsonLib_parse_text {cfg : EleDsCfg} (halarm : Exact cfg.alarmTime) :
    cJsonLib.parse (cfgText cfg) = some (reread (eleDsCfgToJson cfg)) := by
  have hdoc := (document_eleDsCfgToJson halarm).mono (n := CJSON_NESTING_LIMIT) (by decide)
  rw [cJsonLib]
  dsimp only
  rw [parse, cfgText, parse_text hdoc true false []]

theorem cJsonLib_parse_take {cfg : EleDsCfg} (halarm : Exact cfg.alarmTime) {m : Nat}
    (hm : m < (cfgText cfg).length) : cJsonLib.parse ((cfgText cfg).take m) = none := by
  have hdoc := (document_eleDsCfgToJson halarm).mono (n := CJSON_NESTING_LIMIT) (by decide)
  rw [cJsonLib]
  dsimp only
  rw [parse, cfgText, parse_cut hdoc (fun d h => by cases h) true false [] hm]

/-! ### The next boot -/

/-- Looking for a member does not depend on the numbers. -/
theorem getObjectItem_reread (t : CJson) (name : Bytes) :
    (reread t).getObjectItem name = (t.getObjectItem name).map reread := by
  cases t with
  | object members =>
      rw [reread, getObjectItem, getObjectItem]
      induction members with
      | nil => rfl
      | cons m members ih =>
          rw [rereadMembers, List.find?_cons, List.find?_cons]
          dsimp only
          split
          · rfl
          · exact ih
  | number d =>
      rw [reread, rereadNumber]
      split <;> rfl
  | null => rfl
  | bool b => rfl
  | string s => rfl
  | array items => rfl

/-- The decoder does not get through what was saved. -/
theorem boot_of_whole {fs : FileSystem} {cfg : EleDsCfg} (halarm : Exact cfg.alarmTime)
    (hfile : fs.get CONFIG_FILE_PATH = some (cfgText cfg)) (o : SaveOutcome) :
    ∃ f, boot cJsonLib fs o = .error f := by
  have hnul := (document_eleDsCfgToJson halarm).text_noNul true 0
  have hne : (cfgText cfg).length ≠ 0 := by
    rw [cfgText, eleDsCfgToJson_eq, text]
    simp
  have hclient : (reread (eleDsCfgToJson cfg)).getObjectItem (ascii "clientcfg")
      = some (reread (.object (clientcfgMembers cfg))) := by
    rw [getObjectItem_reread]
    rfl
  have hversion : (reread (eleDsCfgToJson cfg)).getObjectItem (ascii "version") = none := by
    rw [getObjectItem_reread, eleDsCfgToJson_version]
    rfl
  simp only [boot, sysfileInit, hfile, readEleDsCfg, if_neg hne,
    cstr_of_not_mem (show 0 ∉ cfgText cfg from hnul), cJsonLib_parse_text halarm]
  cases hd : jsonToEleDsCfg (reread (eleDsCfgToJson cfg)) with
  | error f => exact ⟨f, rfl⟩
  | ok cfg' =>
      have hsome := (jsonToEleDsCfg_ok hclient cfg' hd).1
      rw [hversion] at hsome
      cases hsome

/-- The file after a save that got to it. -/
theorem file_after_save (fs : FileSystem) {cfg : EleDsCfg} (halarm : Exact cfg.alarmTime)
    {e : SaveEnd} (he : e ≠ .returned .openFailed) :
    ∃ n, (e.after cJsonLib fs cfg).2.get CONFIG_FILE_PATH = some ((cfgText cfg).take n) := by
  have htext := savedText_cJsonLib halarm
  cases e with
  | powerLost n =>
      refine ⟨n, ?_⟩
      rw [SaveEnd.after, htext]
      exact FileSystem.get_put _ _ _
  | returned o =>
      cases o with
      | openFailed => exact absurd rfl he
      | opened w =>
          obtain ⟨n, hn⟩ := w.stored_eq_take (cfgText cfg)
          refine ⟨n, ?_⟩
          rw [← hn, ← htext]
          exact FileSystem.get_put _ _ _

/-- **After a save that got to the file the device does not come up with a configuration**:
it starts with zeros if anything is missing in the file, and faults if nothing is. -/
theorem boot_after_save {cfg : EleDsCfg} (halarm : Exact cfg.alarmTime) (fs : FileSystem)
    {e : SaveEnd} (he : e ≠ .returned .openFailed) (o : SaveOutcome) :
    let files := (e.after cJsonLib fs cfg).2
    (boot cJsonLib files o = .ok (EleDsCfg.zero, files) ∧
        files.get CONFIG_FILE_PATH ≠ some (savedText cJsonLib cfg)) ∨
      ((∃ f, boot cJsonLib files o = .error f) ∧
        files.get CONFIG_FILE_PATH = some (savedText cJsonLib cfg)) := by
  intro files
  obtain ⟨n, hfile⟩ := file_after_save fs halarm he
  rw [savedText_cJsonLib halarm]
  by_cases hn : n < (cfgText cfg).length
  · left
    have hnul := (document_eleDsCfgToJson halarm).text_noNul true 0
    have hcut : cstr ((cfgText cfg).take n) = (cfgText cfg).take n :=
      cstr_of_not_mem fun h => hnul (List.mem_of_mem_take h)
    refine ⟨boot_of_unreadable hfile (.inr ?_) o, fun h => ?_⟩
    · rw [hcut]
      exact cJsonLib_parse_take halarm hn
    · have hlen := congrArg (Option.map List.length) (hfile.symm.trans h)
      simp only [Option.map_some, List.length_take, Option.some.injEq] at hlen
      omega
  · right
    rw [List.take_of_length_le (Nat.le_of_not_lt hn)] at hfile
    exact ⟨boot_of_whole halarm hfile o, hfile⟩

/-- The defaults, with the power lost right after the file was opened. -/
theorem boot_after_save_defaults :
    Exact initEleDsCfg.alarmTime ∧ SaveEnd.powerLost 0 ≠ .returned .openFailed ∧
      boot cJsonLib ((SaveEnd.powerLost 0).after cJsonLib (fun _ => none) initEleDsCfg).2 .openFailed
        = .ok (EleDsCfg.zero,
          ((SaveEnd.powerLost 0).after cJsonLib (fun _ => none) initEleDsCfg).2) := by
  have halarm : Exact initEleDsCfg.alarmTime := by
    rw [Exact]
    decide
  have he : SaveEnd.powerLost 0 ≠ .returned .openFailed := by decide
  refine ⟨halarm, he, ?_⟩
  rcases boot_after_save halarm (fun _ => none) he .openFailed with ⟨hboot, -⟩ | ⟨-, hfile⟩
  · exact hboot
  · have hempty : ((SaveEnd.powerLost 0).after cJsonLib (fun _ => none) initEleDsCfg).2.get
        CONFIG_FILE_PATH = some [] := FileSystem.get_put _ _ _
    rw [hempty, savedText_cJsonLib halarm, cfgText, eleDsCfgToJson_eq, text] at hfile
    cases hfile

end EleDs
