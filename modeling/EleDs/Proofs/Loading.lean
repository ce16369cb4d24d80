/-
What a load of the configuration takes from the file.

The decoder sets the configuration to zero, fills member after member from items it does
not check, and returns nothing, so `read_ele_ds_cfg` reports success whatever came of it.
The members are listed once, `textMembers` and `intMembers`, with the item each is filled
from; `Complete` asks for every one of these items, and `allOrNothing_iff` says that this
is what makes a load all or nothing.  A file that cannot be parsed at all is the other
good case: it leaves the configuration alone.
-/
import EleDs.Proofs.Config

namespace EleDs

open CMem CJson

/-! ### Items -/

/-- The integer an item stands for. -/
def CJson.intValue : CJson → Option Int
  | .number d => some (saturate d)
  | .bool b => some (if b then 1 else 0)
  | _ => none

def intItem (json : CJson) (name : Bytes) : Option Int :=
  (json.getObjectItem name).bind CJson.intValue

def textItem (json : CJson) (name : Bytes) : Option Bytes :=
  (json.getObjectItem name).bind CJson.valuestring

theorem valueint_of_intValue {item : CJson} {v : Int} (h : item.intValue = some v) :
    item.valueint = v := by
  cases item with
  | number d =>
      cases h
      rfl
  | bool b => cases b <;> cases h <;> rfl
  | null => cases h
  | string s => cases h
  | array items => cases h
  | object members => cases h

theorem itemInt_of_intItem {json : CJson} {name : Bytes} {v : Int}
    (h : intItem json name = some v) : json.itemInt name = .ok v := by
  obtain ⟨item, hitem, hv⟩ := Option.bind_eq_some_iff.mp h
  simp only [itemInt, hitem, valueint_of_intValue hv]

/-- An item that was read holds what it stands for, if it stands for anything. -/
theorem intItem_of_itemInt {json : CJson} {name : Bytes} {u v : Int}
    (h : json.itemInt name = .ok u) (hv : intItem json name = some v) : v = u := by
  rw [itemInt_of_intItem hv] at h
  exact Except.ok.inj h

theorem itemText_iff {json : CJson} {name s : Bytes} :
    itemText json name = .ok s ↔ textItem json name = some s := by
  unfold itemText textItem itemString
  cases json.getObjectItem name with
  | none => simp [bind, Except.bind]
  | some item =>
      cases hs : item.valuestring with
      | none => simp [bind, Except.bind, hs]
      | some text => simp [bind, Except.bind, hs]

theorem memcpy_inv {n : Nat} {a b : Buf n} {off : Nat} {src : Bytes}
    (h : a.memcpy off src = .ok b) : off + src.length ≤ n ∧ b.data = overwrite a.data off src := by
  unfold Buf.memcpy at h
  split at h
  · rename_i hfits
    cases h
    exact ⟨hfits, rfl⟩
  · cases h

/-- A string that was copied to the start of an array fits it, and is what it then holds. -/
theorem strcpy_inv {n : Nat} {a b : Buf n} {s : Bytes} (h : a.strcpy s = .ok b) :
    (cstr s).length < n ∧ b.str = cstr s := by
  obtain ⟨hfits, hdata⟩ := memcpy_inv h
  have hstands : StandsAt b.data 0 (cstr s ++ [0]) := by
    rw [hdata]
    exact standsAt_overwrite (by rw [a.size]; exact hfits)
  rw [List.length_append, List.length_singleton] at hfits
  exact ⟨by omega, hstands.cstr (zero_not_mem_cstr s)⟩

theorem strcpy_total {n : Nat} (a : Buf n) {s : Bytes} (h : (cstr s).length < n) :
    ∃ b, a.strcpy s = .ok b := by
  have hfits : 0 + (cstr s ++ [0]).length ≤ n := by
    rw [List.length_append, List.length_singleton]
    omega
  obtain ⟨b, hb, -⟩ := a.memcpy_ok hfits
  exact ⟨b, hb⟩

/-! ### A day of the weather -/

/-- The four writes of one pass through the loop over `weather_info`. -/
def writeDay (item : CJson) (i : Nat) (w : Buf weatherArraySize) :
    Except Fault (Buf weatherArraySize) := do
  let w ← strcpyMember w (i * weatherInfoSize + textDayOffset) textDaySize
    (← itemText item (ascii "textDay"))
  let w ← strcpyMember w (i * weatherInfoSize + iconDayOffset) iconDaySize
    (← itemText item (ascii "iconDay"))
  let w ← w.memcpy (i * weatherInfoSize + tempMaxOffset)
    [UInt8.ofInt (← item.itemInt (ascii "tempMax"))]
  w.memcpy (i * weatherInfoSize + tempMinOffset) [UInt8.ofInt (← item.itemInt (ascii "tempMin"))]

theorem readWeatherItems_cons (item : CJson) (rest : List CJson) (i : Nat)
    (w : Buf weatherArraySize) :
    readWeatherItems (item :: rest) i w = writeDay item i w >>= readWeatherItems rest (i + 1) := by
  simp only [readWeatherItems, writeDay, bind_assoc]

/-- Entry `i` of the array holds what the item says. -/
structure EntryFrom (item : CJson) (data : Bytes) (i : Nat) : Prop where
  textDay : ∃ s, textItem item (ascii "textDay") = some s ∧ (cstr s).length < textDaySize ∧
    StandsAt data (i * weatherInfoSize + textDayOffset) (cstr s ++ [0])
  iconDay : ∃ s, textItem item (ascii "iconDay") = some s ∧ (cstr s).length < iconDaySize ∧
    StandsAt data (i * weatherInfoSize + iconDayOffset) (cstr s ++ [0])
  tempMax : ∃ v, item.itemInt (ascii "tempMax") = .ok v ∧
    StandsAt data (i * weatherInfoSize + tempMaxOffset) [UInt8.ofInt v]
  tempMin : ∃ v, item.itemInt (ascii "tempMin") = .ok v ∧
    StandsAt data (i * weatherInfoSize + tempMinOffset) [UInt8.ofInt v]

theorem strcpyMember_inv {n : Nat} {a b : Buf n} {off size : Nat} {s : Bytes}
    (h : strcpyMember a off size s = .ok b) :
    (cstr s).length < size ∧ off + (cstr s ++ [0]).length ≤ n ∧
      b.data = overwrite a.data off (cstr s ++ [0]) := by
  unfold strcpyMember at h
  split at h
  · rename_i hfits
    exact ⟨hfits, memcpy_inv h⟩
  · cases h

/-- The members of an entry that are written lie side by side, in the entry. -/
theorem day_layout : tempMinOffset = tempMaxOffset + 1 ∧ iconDayOffset = tempMinOffset + 1 ∧
    textDayOffset = iconDayOffset + iconDaySize ∧
    textDayOffset + textDaySize ≤ weatherInfoSize := by decide

/-- **A day that was written is in its entry, and nothing before the entry has changed.** -/
theorem writeDay_inv {item : CJson} {i : Nat} {w w' : Buf weatherArraySize}
    (h : writeDay item i w = .ok w') :
    EntryFrom item w'.data i ∧
    ∀ start s, start + s.length ≤ i * weatherInfoSize → StandsAt w.data start s →
      StandsAt w'.data start s := by
  obtain ⟨text, htext, h⟩ := except_bind_ok h
  obtain ⟨w₁, h₁, h⟩ := except_bind_ok h
  obtain ⟨icon, hicon, h⟩ := except_bind_ok h
  obtain ⟨w₂, h₂, h⟩ := except_bind_ok h
  obtain ⟨max, hmax, h⟩ := except_bind_ok h
  obtain ⟨w₃, h₃, h⟩ := except_bind_ok h
  obtain ⟨min, hmin, h₄⟩ := except_bind_ok h
  obtain ⟨htextFits, hfits₁, hdata₁⟩ := strcpyMember_inv h₁
  obtain ⟨hiconFits, hfits₂, hdata₂⟩ := strcpyMember_inv h₂
  obtain ⟨hfits₃, hdata₃⟩ := memcpy_inv h₃
  obtain ⟨hfits₄, hdata₄⟩ := memcpy_inv h₄
  obtain ⟨hminOff, hiconOff, htextOff, hentry⟩ := day_layout
  rw [← w.size] at hfits₁
  rw [← w₁.size] at hfits₂
  rw [← w₂.size] at hfits₃
  rw [← w₃.size] at hfits₄
  have hlen : ∀ t : Bytes, (cstr t ++ [0]).length = (cstr t).length + 1 :=
    fun t => List.length_append
  have hone : ∀ b : UInt8, [b].length = 1 := fun _ => rfl
  -- each write leaves alone what the ones before it wrote
  have htext₁ := standsAt_overwrite hfits₁
  rw [← hdata₁] at htext₁
  have htext₂ := htext₁.overwrite hfits₂ (by rw [hlen, hlen]; omega)
  have hicon₂ := standsAt_overwrite hfits₂
  rw [← hdata₂] at htext₂ hicon₂
  have htext₃ := htext₂.overwrite hfits₃ (by rw [hlen, hone]; omega)
  have hicon₃ := hicon₂.overwrite hfits₃ (by rw [hlen, hone]; omega)
  have hmax₃ := standsAt_overwrite hfits₃
  rw [← hdata₃] at htext₃ hicon₃ hmax₃
  have htext₄ := htext₃.overwrite hfits₄ (by rw [hlen, hone]; omega)
  have hicon₄ := hicon₃.overwrite hfits₄ (by rw [hlen, hone]; omega)
  have hmax₄ := hmax₃.overwrite hfits₄ (by rw [hone, hone]; omega)
  have hmin₄ := standsAt_overwrite hfits₄
  rw [← hdata₄] at htext₄ hicon₄ hmax₄ hmin₄
  refine ⟨⟨⟨text, itemText_iff.mp htext, htextFits, htext₄⟩,
    ⟨icon, itemText_iff.mp hicon, hiconFits, hicon₄⟩, ⟨max, hmax, hmax₄⟩, ⟨min, hmin, hmin₄⟩⟩, ?_⟩
  intro start s hbefore hs
  rw [hdata₄, hdata₃, hdata₂, hdata₁]
  rw [hdata₃, hdata₂, hdata₁] at hfits₄
  rw [hdata₂, hdata₁] at hfits₃
  rw [hdata₁] at hfits₂
  exact (((hs.overwrite hfits₁ (by omega)).overwrite hfits₂ (by omega)).overwrite hfits₃
    (by omega)).overwrite hfits₄ (by omega)

/-- An entry is inside what comes before the next. -/
theorem EntryFrom.kept {item : CJson} {data data' : Bytes} {i j : Nat} (h : EntryFrom item data i)
    (hij : i < j)
    (hkeeps : ∀ start s, start + s.length ≤ j * weatherInfoSize → StandsAt data start s →
      StandsAt data' start s) : EntryFrom item data' i := by
  obtain ⟨⟨text, htext, htextFits, htextAt⟩, ⟨icon, hicon, hiconFits, hiconAt⟩, ⟨max, hmax, hmaxAt⟩,
    ⟨min, hmin, hminAt⟩⟩ := h
  obtain ⟨hminOff, hiconOff, htextOff, hentry⟩ := day_layout
  have hnext : i * weatherInfoSize + weatherInfoSize ≤ j * weatherInfoSize := by
    rw [← Nat.succ_mul]
    exact Nat.mul_le_mul_right _ hij
  have hlen : ∀ t : Bytes, (cstr t ++ [0]).length = (cstr t).length + 1 :=
    fun t => List.length_append
  have hone : ∀ b : UInt8, [b].length = 1 := fun _ => rfl
  refine ⟨⟨text, htext, htextFits, ?_⟩, ⟨icon, hicon, hiconFits, ?_⟩, ⟨max, hmax, ?_⟩,
    ⟨min, hmin, ?_⟩⟩
  · exact hkeeps _ _ (by rw [hlen]; omega) htextAt
  · exact hkeeps _ _ (by rw [hlen]; omega) hiconAt
  · exact hkeeps _ _ (by rw [hone]; omega) hmaxAt
  · exact hkeeps _ _ (by rw [hone]; omega) hminAt

/-- The loop writes item after item into entry after entry. -/
theorem readWeatherItems_inv {items : List CJson} : ∀ {i : Nat} {w w' : Buf weatherArraySize},
    readWeatherItems items i w = .ok w' →
    (∀ k item, items[k]? = some item → EntryFrom item w'.data (i + k)) ∧
    ∀ start s, start + s.length ≤ i * weatherInfoSize → StandsAt w.data start s →
      StandsAt w'.data start s := by
  induction items with
  | nil =>
      intro i w w' h
      cases h
      exact ⟨fun k item hk => by simp at hk, fun _ _ _ hs => hs⟩
  | cons item rest ih =>
      intro i w w' h
      rw [readWeatherItems_cons] at h
      obtain ⟨w₁, hday, hrest⟩ := except_bind_ok h
      obtain ⟨hentry, hkept⟩ := writeDay_inv hday
      obtain ⟨hentries, hkept'⟩ := ih hrest
      constructor
      · intro k item' hk
        cases k with
        | zero =>
            cases hk
            exact hentry.kept (Nat.lt_succ_self i) hkept'
        | succ k =>
            have hlater := hentries k item' hk
            rwa [Nat.add_right_comm] at hlater
      · intro start s hbefore hs
        refine hkept' start s ?_ (hkept start s hbefore hs)
        rw [Nat.succ_mul]
        omega

/-- The item of a day has everything that is read of it. -/
structure CompleteDay (item : CJson) : Prop where
  textDay : ∃ s, textItem item (ascii "textDay") = some s ∧ (cstr s).length < textDaySize
  iconDay : ∃ s, textItem item (ascii "iconDay") = some s ∧ (cstr s).length < iconDaySize
  tempMax : ∃ v, intItem item (ascii "tempMax") = some v
  tempMin : ∃ v, intItem item (ascii "tempMin") = some v

theorem strcpyMember_total {n : Nat} (a : Buf n) (off : Nat) {size : Nat} {s : Bytes}
    (h : (cstr s).length < size) (hfits : off + size ≤ n) :
    ∃ b, strcpyMember a off size s = .ok b := by
  have hlen : off + (cstr s ++ [0]).length ≤ n := by
    rw [List.length_append, List.length_singleton]
    omega
  obtain ⟨b, hb, -⟩ := a.memcpy_ok hlen
  exact ⟨b, by rw [strcpyMember, if_pos h, hb]⟩

theorem writeDay_total {item : CJson} (h : CompleteDay item) {i : Nat} (hi : i < 7)
    (w : Buf weatherArraySize) : ∃ w', writeDay item i w = .ok w' := by
  obtain ⟨⟨text, htext, htextFits⟩, ⟨icon, hicon, hiconFits⟩, ⟨max, hmax⟩, ⟨min, hmin⟩⟩ := h
  obtain ⟨hminOff, hiconOff, htextOff, hentry⟩ := day_layout
  have hend : i * weatherInfoSize + weatherInfoSize ≤ weatherArraySize := by
    rw [weatherArraySize, ← Nat.succ_mul]
    exact Nat.mul_le_mul_right _ hi
  have hmaxFits : i * weatherInfoSize + tempMaxOffset + [UInt8.ofInt max].length
      ≤ weatherArraySize := by
    rw [List.length_singleton]
    omega
  have hminFits : i * weatherInfoSize + tempMinOffset + [UInt8.ofInt min].length
      ≤ weatherArraySize := by
    rw [List.length_singleton]
    omega
  obtain ⟨w₁, h₁⟩ := strcpyMember_total w (i * weatherInfoSize + textDayOffset) htextFits (by omega)
  obtain ⟨w₂, h₂⟩ := strcpyMember_total w₁ (i * weatherInfoSize + iconDayOffset) hiconFits (by omega)
  obtain ⟨w₃, h₃, -⟩ := w₂.memcpy_ok hmaxFits
  obtain ⟨w₄, h₄, -⟩ := w₃.memcpy_ok hminFits
  refine ⟨w₄, ?_⟩
  simp only [writeDay, itemText_iff.mpr htext, itemText_iff.mpr hicon, itemInt_of_intItem hmax,
    itemInt_of_intItem hmin, bind, Except.bind, h₁, h₂, h₃, h₄]

theorem readWeatherItems_total {items : List CJson} : ∀ {i : Nat} (w : Buf weatherArraySize),
    i + items.length ≤ 7 → (∀ item ∈ items, CompleteDay item) →
    ∃ w', readWeatherItems items i w = .ok w' := by
  induction items with
  | nil => intro i w _ _; exact ⟨w, rfl⟩
  | cons item rest ih =>
      intro i w hlen hall
      rw [List.length_cons] at hlen
      obtain ⟨w₁, h₁⟩ := writeDay_total (hall item List.mem_cons_self) (i := i) (by omega) w
      obtain ⟨w', h'⟩ := ih (i := i + 1) w₁ (by omega)
        fun item' hmem => hall item' (List.mem_cons_of_mem item hmem)
      refine ⟨w', ?_⟩
      rw [readWeatherItems_cons, h₁]
      exact h'

/-! ### The members -/

/-- A member that holds a string: the object its item is in, the key, the size of the array
and the string. -/
structure TextMember where
  inClientcfg : Bool
  key : Bytes
  size : Nat
  str : EleDsCfg → Bytes

/-- A member that holds an integer, and when it holds the one of an item. -/
structure IntMember where
  inClientcfg : Bool
  key : Bytes
  Holds : EleDsCfg → Int → Prop

def textMembers : List TextMember :=
  [⟨true, ascii "username", 21, fun cfg => cfg.clientcfg.username.str⟩,
   ⟨true, ascii "passwd", 21, fun cfg => cfg.clientcfg.passwd.str⟩,
   ⟨true, ascii "cityname", 21, fun cfg => cfg.clientcfg.cityname.str⟩,
   ⟨false, ascii "wifi_ssid", 32, fun cfg => cfg.wifiSsid.str⟩,
   ⟨false, ascii "wifi_passwd", 32, fun cfg => cfg.wifiPasswd.str⟩,
   ⟨false, ascii "server_addr", 64, fun cfg => cfg.serverAddr.str⟩,
   ⟨false, ascii "memo", memoSize, fun cfg => cfg.memo.str⟩]

/-- The version is the one of the root object. -/
def intMembers : List IntMember :=
  [⟨true, ascii "cityid", fun cfg v => cfg.clientcfg.cityid = UInt32.ofInt v⟩,
   ⟨true, ascii "cntserver_interval", fun cfg v => cfg.clientcfg.cntserverInterval = UInt16.ofInt v⟩,
   ⟨true, ascii "battery", fun cfg v => cfg.clientcfg.battery = UInt8.ofInt v⟩,
   ⟨false, ascii "server_port", fun cfg v => cfg.serverPort = UInt16.ofInt v⟩,
   ⟨false, ascii "tcp_timeout", fun cfg v => cfg.tcpTimeout = UInt32.ofInt v⟩,
   ⟨false, ascii "alarm_enable", fun cfg v => cfg.alarmEnable = (v != 0)⟩,
   ⟨false, ascii "alarm_time", fun cfg v => cfg.alarmTime = v⟩,
   ⟨false, ascii "version", fun cfg v => cfg.clientcfg.version = UInt32.ofInt v⟩]

/-- The object an item is looked up in. -/
def owner (json clientcfg : CJson) (inClientcfg : Bool) : CJson :=
  if inClientcfg then clientcfg else json

/-- The items the loop over `weather_info` goes through. -/
def weatherItems (json : CJson) : List CJson :=
  match json.getObjectItem (ascii "weather_info") with
  | none => []
  | some weatherArray => weatherArray.children.take 7

/-- What the decoder did, once it is through. -/
structure Decoded (json clientcfg : CJson) (cfg : EleDsCfg) : Prop where
  texts : ∀ m ∈ textMembers, ∃ s, textItem (owner json clientcfg m.inClientcfg) m.key = some s ∧
    (cstr s).length < m.size ∧ m.str cfg = cstr s
  ints : ∀ m ∈ intMembers, ∃ v, (owner json clientcfg m.inClientcfg).itemInt m.key = .ok v ∧
    m.Holds cfg v
  version : ∃ v, clientcfg.itemInt (ascii "version") = .ok v
  weather : readWeatherItems (weatherItems json) 0 (Buf.zero weatherArraySize) = .ok cfg.weatherInfo
  check : cfg.check = CFGFILE_CHECK

theorem jsonToEleDsCfg_decoded {json clientcfg : CJson} {cfg : EleDsCfg}
    (hc : json.getObjectItem (ascii "clientcfg") = some clientcfg)
    (h : jsonToEleDsCfg json = .ok cfg) : Decoded json clientcfg cfg := by
  unfold jsonToEleDsCfg at h
  simp only [hc] at h
  obtain ⟨s₁, hs₁, h⟩ := except_bind_ok h
  obtain ⟨username, husername, h⟩ := except_bind_ok h
  obtain ⟨s₂, hs₂, h⟩ := except_bind_ok h
  obtain ⟨passwd, hpasswd, h⟩ := except_bind_ok h
  obtain ⟨s₃, hs₃, h⟩ := except_bind_ok h
  obtain ⟨cityname, hcityname, h⟩ := except_bind_ok h
  obtain ⟨cityid, hcityid, h⟩ := except_bind_ok h
  obtain ⟨interval, hinterval, h⟩ := except_bind_ok h
  obtain ⟨version', hversion', h⟩ := except_bind_ok h
  obtain ⟨battery, hbattery, h⟩ := except_bind_ok h
  obtain ⟨s₄, hs₄, h⟩ := except_bind_ok h
  obtain ⟨ssid, hssid, h⟩ := except_bind_ok h
  obtain ⟨s₅, hs₅, h⟩ := except_bind_ok h
  obtain ⟨wifiPasswd, hwifiPasswd, h⟩ := except_bind_ok h
  obtain ⟨s₆, hs₆, h⟩ := except_bind_ok h
  obtain ⟨addr, haddr, h⟩ := except_bind_ok h
  obtain ⟨port, hport, h⟩ := except_bind_ok h
  obtain ⟨timeout, htimeout, h⟩ := except_bind_ok h
  obtain ⟨enable, henable, h⟩ := except_bind_ok h
  obtain ⟨time, htime, h⟩ := except_bind_ok h
  obtain ⟨version, hversion, h⟩ := except_bind_ok h
  obtain ⟨s₇, hs₇, h⟩ := except_bind_ok h
  obtain ⟨memo, hmemo, h⟩ := except_bind_ok h
  obtain ⟨weather, hweather, h⟩ := except_bind_ok h
  cases h
  have htext : ∀ {j : CJson} {key s : Bytes} {n : Nat} {a b : Buf n}, itemText j key = .ok s →
      a.strcpy s = .ok b →
      ∃ s, textItem j key = some s ∧ (cstr s).length < n ∧ b.str = cstr s := by
    intro j key s n a b hs hb
    exact ⟨s, itemText_iff.mp hs, strcpy_inv hb⟩
  refine ⟨?_, ?_, ⟨version', hversion'⟩, hweather, rfl⟩
  · simp only [textMembers, List.forall_mem_cons, owner]
    exact ⟨htext hs₁ husername, htext hs₂ hpasswd, htext hs₃ hcityname, htext hs₄ hssid,
      htext hs₅ hwifiPasswd, htext hs₆ haddr, htext hs₇ hmemo, by simp⟩
  · simp only [intMembers, List.forall_mem_cons, owner]
    exact ⟨⟨_, hcityid, rfl⟩, ⟨_, hinterval, rfl⟩, ⟨_, hbattery, rfl⟩, ⟨_, hport, rfl⟩,
      ⟨_, htimeout, rfl⟩, ⟨_, henable, rfl⟩, ⟨_, htime, rfl⟩, ⟨_, hversion, rfl⟩, by simp⟩

/-! ### All or nothing -/

/-- Every item a member is filled from is there, stands for what it should and fits. -/
structure Complete (json clientcfg : CJson) : Prop where
  texts : ∀ m ∈ textMembers, ∃ s, textItem (owner json clientcfg m.inClientcfg) m.key = some s ∧
    (cstr s).length < m.size
  ints : ∀ m ∈ intMembers, ∃ v, intItem (owner json clientcfg m.inClientcfg) m.key = some v
  /-- The version in `clientcfg` is read, too, and not kept. -/
  version : ∃ v, clientcfg.itemInt (ascii "version") = .ok v
  weather : (weatherItems json).length = 7 ∧ ∀ item ∈ weatherItems json, CompleteDay item

/-- Entry `i` of the weather is the one of the item. -/
structure DayFrom (item : CJson) (cfg : EleDsCfg) (i : Nat) : Prop where
  textDay : ∃ s, textItem item (ascii "textDay") = some s ∧ cfg.textDay i = cstr s
  iconDay : ∃ s, textItem item (ascii "iconDay") = some s ∧ cfg.iconDay i = cstr s
  tempMax : ∃ v, intItem item (ascii "tempMax") = some v ∧
    cfg.tempMax i = (UInt8.ofInt v).toInt8.toInt
  tempMin : ∃ v, intItem item (ascii "tempMin") = some v ∧
    cfg.tempMin i = (UInt8.ofInt v).toInt8.toInt

/-- Every member the decoder fills was taken from the document. -/
structure TakenFrom (json clientcfg : CJson) (cfg : EleDsCfg) : Prop where
  texts : ∀ m ∈ textMembers, ∃ s, textItem (owner json clientcfg m.inClientcfg) m.key = some s ∧
    m.str cfg = cstr s
  ints : ∀ m ∈ intMembers, ∃ v, intItem (owner json clientcfg m.inClientcfg) m.key = some v ∧
    m.Holds cfg v
  weather : ∀ i < 7, ∃ item, (weatherItems json)[i]? = some item ∧ DayFrom item cfg i

theorem jsonToEleDsCfg_total {json clientcfg : CJson}
    (hc : json.getObjectItem (ascii "clientcfg") = some clientcfg) (h : Complete json clientcfg) :
    ∃ cfg, jsonToEleDsCfg json = .ok cfg := by
  obtain ⟨htexts, hints, ⟨version', hversion'⟩, hlen, hdays⟩ := h
  simp only [textMembers, List.forall_mem_cons, owner, Bool.false_eq_true, if_true, if_false] at htexts
  simp only [intMembers, List.forall_mem_cons, owner, Bool.false_eq_true, if_true, if_false] at hints
  obtain ⟨⟨s₁, hs₁, hf₁⟩, ⟨s₂, hs₂, hf₂⟩, ⟨s₃, hs₃, hf₃⟩, ⟨s₄, hs₄, hf₄⟩, ⟨s₅, hs₅, hf₅⟩,
    ⟨s₆, hs₆, hf₆⟩, ⟨s₇, hs₇, hf₇⟩, -⟩ := htexts
  obtain ⟨⟨cityid, hcityid⟩, ⟨interval, hinterval⟩, ⟨battery, hbattery⟩, ⟨port, hport⟩,
    ⟨timeout, htimeout⟩, ⟨enable, henable⟩, ⟨time, htime⟩, ⟨version, hversion⟩, -⟩ := hints
  obtain ⟨username, husername⟩ := strcpy_total EleDsCfg.zero.clientcfg.username hf₁
  obtain ⟨passwd, hpasswd⟩ := strcpy_total EleDsCfg.zero.clientcfg.passwd hf₂
  obtain ⟨cityname, hcityname⟩ := strcpy_total EleDsCfg.zero.clientcfg.cityname hf₃
  obtain ⟨ssid, hssid⟩ := strcpy_total EleDsCfg.zero.wifiSsid hf₄
  obtain ⟨wifiPasswd, hwifiPasswd⟩ := strcpy_total EleDsCfg.zero.wifiPasswd hf₅
  obtain ⟨addr, haddr⟩ := strcpy_total EleDsCfg.zero.serverAddr hf₆
  obtain ⟨memo, hmemo⟩ := strcpy_total EleDsCfg.zero.memo hf₇
  obtain ⟨weather, hweather⟩ := readWeatherItems_total (i := 0) EleDsCfg.zero.weatherInfo
    (by rw [hlen]) hdays
  simp only [jsonToEleDsCfg, hc, bind, Except.bind, itemText_iff.mpr hs₁, husername,
    itemText_iff.mpr hs₂, hpasswd, itemText_iff.mpr hs₃, hcityname, itemInt_of_intItem hcityid,
    itemInt_of_intItem hinterval, hversion', itemInt_of_intItem hbattery, itemText_iff.mpr hs₄,
    hssid, itemText_iff.mpr hs₅, hwifiPasswd, itemText_iff.mpr hs₆, haddr,
    itemInt_of_intItem hport, itemInt_of_intItem htimeout, itemInt_of_intItem henable,
    itemInt_of_intItem htime, itemInt_of_intItem hversion, itemText_iff.mpr hs₇, hmemo]
  generalize hr : readWeatherItems _ 0 EleDsCfg.zero.weatherInfo = r
  have hr' : r = .ok weather := hr.symm.trans hweather
  rw [hr']
  exact ⟨_, rfl⟩

theorem EntryFrom.dayFrom {item : CJson} {cfg : EleDsCfg} {i : Nat}
    (h : EntryFrom item cfg.weatherInfo.data i) (hday : CompleteDay item) : DayFrom item cfg i := by
  obtain ⟨⟨text, htext, -, htextAt⟩, ⟨icon, hicon, -, hiconAt⟩, ⟨max, hmax, hmaxAt⟩,
    ⟨min, hmin, hminAt⟩⟩ := h
  obtain ⟨max', hmax'⟩ := hday.tempMax
  obtain ⟨min', hmin'⟩ := hday.tempMin
  obtain rfl := intItem_of_itemInt hmax hmax'
  obtain rfl := intItem_of_itemInt hmin hmin'
  refine ⟨⟨text, htext, htextAt.cstr (zero_not_mem_cstr text)⟩,
    ⟨icon, hicon, hiconAt.cstr (zero_not_mem_cstr icon)⟩, ⟨_, hmax', ?_⟩, ⟨_, hmin', ?_⟩⟩
  · rw [EleDsCfg.tempMax, hmaxAt.getD]
  · rw [EleDsCfg.tempMin, hminAt.getD]

theorem Decoded.taken {json clientcfg : CJson} {cfg : EleDsCfg} (h : Decoded json clientcfg cfg)
    (hcomplete : Complete json clientcfg) : TakenFrom json clientcfg cfg where
  texts := by
    intro m hm
    obtain ⟨s, hs, -, hstr⟩ := h.texts m hm
    exact ⟨s, hs, hstr⟩
  ints := by
    intro m hm
    obtain ⟨v, hv, hholds⟩ := h.ints m hm
    obtain ⟨v', hv'⟩ := hcomplete.ints m hm
    obtain rfl := intItem_of_itemInt hv hv'
    exact ⟨_, hv', hholds⟩
  weather := by
    intro i hi
    obtain ⟨hlen, hdays⟩ := hcomplete.weather
    have hget : (weatherItems json)[i]? = some ((weatherItems json).get ⟨i, by omega⟩) :=
      List.getElem?_eq_getElem _
    have hentry := (readWeatherItems_inv h.weather).1 i _ hget
    rw [Nat.zero_add] at hentry
    exact ⟨_, hget, hentry.dayFrom (hdays _ (List.get_mem _ _))⟩

theorem Decoded.complete {json clientcfg : CJson} {cfg : EleDsCfg} (h : Decoded json clientcfg cfg)
    (htaken : TakenFrom json clientcfg cfg) : Complete json clientcfg where
  texts := by
    intro m hm
    obtain ⟨s, hs, hfits, -⟩ := h.texts m hm
    exact ⟨s, hs, hfits⟩
  ints := by
    intro m hm
    obtain ⟨v, hv, -⟩ := htaken.ints m hm
    exact ⟨v, hv⟩
  version := h.version
  weather := by
    have hle : (weatherItems json).length ≤ 7 := by
      unfold weatherItems
      split
      · decide
      · exact List.length_take_le _ _
    have hge : 6 < (weatherItems json).length := by
      obtain ⟨item, hitem, -⟩ := htaken.weather 6 (by decide)
      exact (List.getElem?_eq_some_iff.mp hitem).1
    refine ⟨by omega, ?_⟩
    intro item hmem
    obtain ⟨i, hi⟩ := List.mem_iff_getElem?.mp hmem
    have hlt : i < 7 := Nat.lt_of_lt_of_le (List.getElem?_eq_some_iff.mp hi).1 hle
    obtain ⟨item', hitem', hday⟩ := htaken.weather i hlt
    rw [hi] at hitem'
    cases hitem'
    obtain ⟨⟨text, htext, htextFits, -⟩, ⟨icon, hicon, hiconFits, -⟩, -, -⟩ :=
      (readWeatherItems_inv h.weather).1 i item hi
    obtain ⟨-, -, ⟨max, hmax, -⟩, ⟨min, hmin, -⟩⟩ := hday
    exact ⟨⟨text, htext, htextFits⟩, ⟨icon, hicon, hiconFits⟩, ⟨max, hmax⟩, ⟨min, hmin⟩⟩

/-- A load ends; it reports success only with every member taken from the file, and failure
only with the configuration as it was. -/
def AllOrNothing (cj : CJsonLib) (fs : FileSystem) (cfg : EleDsCfg) : Prop :=
  ∃ ret cfg', readEleDsCfg cj fs cfg = .ok (ret, cfg') ∧
    ((ret = 0 ∧ cfg'.check = CFGFILE_CHECK ∧
      ∃ text json clientcfg, fs.get CONFIG_FILE_PATH = some text ∧
        cj.parse (cstr text) = some json ∧
        json.getObjectItem (ascii "clientcfg") = some clientcfg ∧
        TakenFrom json clientcfg cfg') ∨
    (ret < 0 ∧ cfg' = cfg))

/-- The contents of the flash for which it is. -/
inductive Loadable (cj : CJsonLib) (fs : FileSystem) : Prop where
  | absent (h : fs.get CONFIG_FILE_PATH = none)
  | empty (h : fs.get CONFIG_FILE_PATH = some [])
  | unparsable (text : Bytes) (h : fs.get CONFIG_FILE_PATH = some text)
      (hparse : cj.parse (cstr text) = none)
  | complete (text : Bytes) (json clientcfg : CJson) (h : fs.get CONFIG_FILE_PATH = some text)
      (hparse : cj.parse (cstr text) = some json)
      (hc : json.getObjectItem (ascii "clientcfg") = some clientcfg)
      (hall : Complete json clientcfg)

theorem AllOrNothing.of_failure {cj : CJsonLib} {fs : FileSystem} {cfg : EleDsCfg} {ret : Int}
    (h : readEleDsCfg cj fs cfg = .ok (ret, cfg)) (hneg : ret < 0) : AllOrNothing cj fs cfg :=
  ⟨ret, cfg, h, Or.inr ⟨hneg, rfl⟩⟩

section Parsed

variable {cj : CJsonLib} {fs : FileSystem} {text : Bytes} {json : CJson}
  (hfile : fs.get CONFIG_FILE_PATH = some text) (hne : text ≠ [])
  (hparse : cj.parse (cstr text) = some json)

include hfile hne hparse

theorem readEleDsCfg_parsed (cfg : EleDsCfg) :
    readEleDsCfg cj fs cfg = jsonToEleDsCfg json >>= fun cfg => .ok (0, cfg) := by
  have hlen : text.length ≠ 0 := fun hc => hne (List.length_eq_zero_iff.mp hc)
  simp only [readEleDsCfg, hfile, if_neg hlen, hparse]

theorem loadable_parsed : Loadable cj fs ↔
    ∃ clientcfg, json.getObjectItem (ascii "clientcfg") = some clientcfg ∧
      Complete json clientcfg := by
  constructor
  · intro hload
    cases hload with
    | absent h => rw [hfile] at h; cases h
    | empty h => rw [hfile] at h; cases h; exact absurd rfl hne
    | unparsable text' h hnone =>
        rw [hfile] at h
        cases h
        rw [hparse] at hnone
        cases hnone
    | complete text' json' clientcfg h hparse' hc hall =>
        rw [hfile] at h
        cases h
        rw [hparse] at hparse'
        cases hparse'
        exact ⟨clientcfg, hc, hall⟩
  · rintro ⟨clientcfg, hc, hall⟩
    exact .complete text json clientcfg hfile hparse hc hall

/-- A document is never reported as a failure, so it is all or nothing only with everything
in it. -/
theorem allOrNothing_parsed (cfg : EleDsCfg) : AllOrNothing cj fs cfg ↔
    ∃ clientcfg, json.getObjectItem (ascii "clientcfg") = some clientcfg ∧
      Complete json clientcfg := by
  rw [AllOrNothing, readEleDsCfg_parsed hfile hne hparse]
  constructor
  · rintro ⟨ret, cfg', hok, hend⟩
    obtain ⟨cfg'', hdecode, hok⟩ := except_bind_ok hok
    cases hok
    rcases hend with ⟨-, -, text', json', clientcfg, hfile', hparse', hc, htaken⟩ | ⟨hneg, -⟩
    · rw [hfile] at hfile'
      cases hfile'
      rw [hparse] at hparse'
      cases hparse'
      exact ⟨clientcfg, hc, (jsonToEleDsCfg_decoded hc hdecode).complete htaken⟩
    · exact absurd hneg (by decide)
  · rintro ⟨clientcfg, hc, hall⟩
    obtain ⟨cfg', hdecode⟩ := jsonToEleDsCfg_total hc hall
    have hdecoded := jsonToEleDsCfg_decoded hc hdecode
    refine ⟨0, cfg', by rw [hdecode]; rfl, Or.inl ⟨rfl, hdecoded.check, text, json, clientcfg,
      hfile, hparse, hc, hdecoded.taken hall⟩⟩

end Parsed

/-- **Loading is all or nothing just for a file that is missing, empty or no JSON, and for one
that has everything.** -/
theorem allOrNothing_iff (cj : CJsonLib) (fs : FileSystem) (cfg : EleDsCfg) :
    AllOrNothing cj fs cfg ↔ Loadable cj fs := by
  cases hfile : fs.get CONFIG_FILE_PATH with
  | none =>
      have hread : readEleDsCfg cj fs cfg = .ok (-1, cfg) := by
        simp only [readEleDsCfg, hfile]
      exact ⟨fun _ => .absent hfile, fun _ => .of_failure hread (by decide)⟩
  | some text =>
      by_cases hne : text = []
      · subst hne
        have hread : readEleDsCfg cj fs cfg = .ok (-2, cfg) := by
          simp only [readEleDsCfg, hfile, List.length_nil, if_true]
        exact ⟨fun _ => .empty hfile, fun _ => .of_failure hread (by decide)⟩
      cases hparse : cj.parse (cstr text) with
      | none =>
          have hlen : text.length ≠ 0 := fun hc => hne (List.length_eq_zero_iff.mp hc)
          have hread : readEleDsCfg cj fs cfg = .ok (-3, cfg) := by
            simp only [readEleDsCfg, hfile, if_neg hlen, hparse]
          exact ⟨fun _ => .unparsable text hfile hparse, fun _ => .of_failure hread (by decide)⟩
      | some json =>
          rw [allOrNothing_parsed hfile hne hparse, loadable_parsed hfile hne hparse]

/-- The defaults with a version in the root object have everything. -/
theorem versionedJson_complete :
    ∃ clientcfg, versionedJson.getObjectItem (ascii "clientcfg") = some clientcfg ∧
      Complete versionedJson clientcfg := by
  refine ⟨_, rfl, ?_, ?_, ⟨_, rfl⟩, rfl, ?_⟩
  · simp only [textMembers, List.forall_mem_cons]
    exact ⟨⟨_, rfl, by decide⟩, ⟨_, rfl, by decide⟩, ⟨_, rfl, by decide⟩, ⟨_, rfl, by decide⟩,
      ⟨_, rfl, by decide⟩, ⟨_, rfl, by decide⟩, ⟨_, rfl, by decide +kernel⟩, by simp⟩
  · simp only [intMembers, List.forall_mem_cons]
    exact ⟨⟨_, rfl⟩, ⟨_, rfl⟩, ⟨_, rfl⟩, ⟨_, rfl⟩, ⟨_, rfl⟩, ⟨_, rfl⟩, ⟨_, rfl⟩, ⟨_, rfl⟩, by simp⟩
  · have hdays : weatherItems versionedJson = (List.range 7).map fun i => .object
        [(ascii "iconDay", .string (initEleDsCfg.iconDay i)),
         (ascii "textDay", .string (initEleDsCfg.textDay i)),
         (ascii "tempMax", jsonNumber (initEleDsCfg.tempMax i)),
         (ascii "tempMin", jsonNumber (initEleDsCfg.tempMin i))] := rfl
    have htexts : ∀ i < 7, (cstr (initEleDsCfg.textDay i)).length < textDaySize := by decide +kernel
    have hicons : ∀ i < 7, (cstr (initEleDsCfg.iconDay i)).length < iconDaySize := by decide +kernel
    intro item hmem
    rw [hdays] at hmem
    obtain ⟨i, hi, rfl⟩ := List.mem_map.mp hmem
    have hlt := List.mem_range.mp hi
    exact ⟨⟨_, rfl, htexts i hlt⟩, ⟨_, rfl, hicons i hlt⟩, ⟨_, rfl⟩, ⟨_, rfl⟩⟩

/-- Such a file is loaded whole. -/
theorem allOrNothing_versioned :
    AllOrNothing defaultLib (onlyConfig versionedText) EleDsCfg.zero := by
  obtain ⟨clientcfg, hc, hall⟩ := versionedJson_complete
  exact (allOrNothing_iff defaultLib (onlyConfig versionedText) EleDsCfg.zero).mpr
    (.complete versionedText versionedJson clientcfg (FileSystem.get_put _ _ _)
      versionedText_parses hc hall)

/-- A day as the configuration file in `res/sysfile` has it. -/
def shippedDay : Bytes :=
  ascii ("\x7b\n\t\t\t\"textDay\":\t\"\",\n\t\t\t\"tempMax\":\t0,\n" ++
    "\t\t\t\"tempMin\":\t0\n\t\t\x7d")

/-- That file. -/
def shippedText : Bytes :=
  ascii ("\x7b\n\t\"wifi_ssid\":\t\"esp-2.4G\",\n\t\"wifi_passwd\":\t\"12345678..\",\n" ++
    "\t\"server_addr\":\t\"60.215.128.73\",\n\t\"server_port\":\t12675,\n" ++
    "\t\"cityid\":\t101010100,\n\t\"tcp_timeout\":\t3000,\n\t\"version\":\t\"V1.0.0\",\n" ++
    "\t\"memo\":\t\"\",\n\t\"weather_info\":\t[") ++
  (ascii ", ").intercalate (List.replicate 7 shippedDay) ++ ascii "]\n\x7d\n"

/-- The document it stands for. -/
def shippedJson : CJson :=
  .object
    [(ascii "wifi_ssid", .string (ascii "esp-2.4G")),
     (ascii "wifi_passwd", .string (ascii "12345678..")),
     (ascii "server_addr", .string (ascii "60.215.128.73")),
     (ascii "server_port", jsonNumber 12675), (ascii "cityid", jsonNumber 101010100),
     (ascii "tcp_timeout", jsonNumber 3000), (ascii "version", .string (ascii "V1.0.0")),
     (ascii "memo", .string []),
     (ascii "weather_info", .array (List.replicate 7 (.object
        [(ascii "textDay", .string []), (ascii "tempMax", jsonNumber 0),
         (ascii "tempMin", jsonNumber 0)])))]

/-- The file the firmware is shipped with is loaded as zeros, and reported as loaded. -/
theorem allOrNothing_refuted : ∃ cj : CJsonLib, cj.parse (cstr shippedText) = some shippedJson ∧
    readEleDsCfg cj (onlyConfig shippedText) initEleDsCfg = .ok (0, EleDsCfg.zero) ∧
    ¬ AllOrNothing cj (onlyConfig shippedText) initEleDsCfg := by
  have hparse : (tableLib [(shippedText, shippedJson)] []).parse (cstr shippedText)
      = some shippedJson := by
    have hnul : 0 ∉ shippedText := by decide +kernel
    rw [cstr_of_not_mem hnul]
    simp [tableLib]
  have hne : shippedText ≠ [] := by decide +kernel
  have hread : readEleDsCfg (tableLib [(shippedText, shippedJson)] []) (onlyConfig shippedText)
      initEleDsCfg = .ok (0, EleDsCfg.zero) := by
    have hfile : (onlyConfig shippedText).get CONFIG_FILE_PATH = some shippedText :=
      FileSystem.get_put _ _ _
    rw [readEleDsCfg_parsed hfile hne hparse]
    rfl
  refine ⟨tableLib [(shippedText, shippedJson)] [], hparse, hread, ?_⟩
  rintro ⟨ret, cfg', hok, ⟨-, hcheck, -⟩ | ⟨hneg, -⟩⟩
  · rw [hread] at hok
    cases hok
    exact absurd hcheck (by decide)
  · rw [hread] at hok
    cases hok
    exact absurd hneg (by decide)

end EleDs
