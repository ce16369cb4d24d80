/-
What is left of the messages after a reboot.

A device boots, receives memos and weather reports, and boots again.  Two things decide
whether it still knows them.  A memo is copied into the configuration and never saved,
so it is lost unless the next report saves it along; and what a report saves is a file
the decoder cannot load (`Proofs/Config.lean`).  So the memo and the weather come back
just when there was nothing to lose.

`Kept` follows the two through a run: the memo in memory, and whether the file is still
the one the device booted from.
-/
import EleDs.Proofs.Config
import EleDs.Proofs.Sync

namespace EleDs

open CMem CJson Machine

/-! ### What is received -/

/-- A memo that fits, or a report of at most seven days. -/
def Sent.Storable (m : Sent) : Prop :=
  match m.kind with
  | .memo message => (cstr message).length < memoSize
  | .weather => ∃ days ≤ 7, m.payload.length = days * weatherInfoSize
  | .update => False

/-- The report has records. -/
def Delivery.Reports (d : Delivery) : Prop := d.msg.kind = .weather ∧ d.msg.payload ≠ []

/-- The memo after the messages, when there was `memo` before. -/
def lastMemo (memo : Bytes) (ds : List Delivery) : Bytes :=
  ds.foldl
    (fun memo d => match d.msg.kind with
      | .memo message => cstr message
      | _ => memo) memo

/-- The configuration file is one the firmware wrote. -/
def Saved (cj : CJsonLib) (fs : FileSystem) : Prop :=
  ∃ cfg, fs.get CONFIG_FILE_PATH = some (savedText cj cfg)

/-- From `p` on, the messages `ds` lead to `q`. -/
structure Kept (cj : CJsonLib) (p : Parser) (ds : List Delivery) (q : Parser) : Prop where
  memo : q.dev.deviceCfg.memo.str = lastMemo p.dev.deviceCfg.memo.str ds
  untouched : (∀ d ∈ ds, ¬ d.Reports) → q.dev.fs = p.dev.fs ∧
    q.dev.deviceCfg = { p.dev.deviceCfg with memo := q.dev.deviceCfg.memo }
  saved : (Saved cj p.dev.fs ∨ ∃ d ∈ ds, d.Reports) → Saved cj q.dev.fs

theorem Kept.nil (cj : CJsonLib) (p : Parser) : Kept cj p [] p where
  memo := rfl
  untouched := fun _ => ⟨rfl, rfl⟩
  saved := by
    rintro (h | ⟨d, hd, -⟩)
    · exact h
    · cases hd

theorem Kept.cons {cj : CJsonLib} {p mid q : Parser} {d : Delivery} {rest : List Delivery}
    (h : Kept cj p [d] mid) (h' : Kept cj mid rest q) : Kept cj p (d :: rest) q where
  memo := by
    rw [h'.memo, h.memo]
    rfl
  untouched := by
    intro hnone
    obtain ⟨hfs, hcfg⟩ := h.untouched fun e he =>
      hnone e (by rw [List.mem_singleton.mp he]; exact List.mem_cons_self ..)
    obtain ⟨hfs', hcfg'⟩ := h'.untouched fun e he => hnone e (List.mem_cons_of_mem d he)
    refine ⟨hfs'.trans hfs, ?_⟩
    rw [hcfg', hcfg]
  saved := by
    rintro (hsaved | ⟨e, he, hreports⟩)
    · exact h'.saved (Or.inl (h.saved (Or.inl hsaved)))
    · rcases List.mem_cons.mp he with rfl | he
      · exact h'.saved (Or.inl (h.saved (Or.inr ⟨e, List.mem_singleton_self e, hreports⟩)))
      · exact h'.saved (Or.inr ⟨e, he, hreports⟩)

/-! ### One message -/

/-- The string an array holds after a string that fits was copied there. -/
theorem copied_str {n : Nat} (a : Buf n) {s : Bytes} (h0 : 0 ∉ s) (hlen : s.length < n) :
    (copied a (s ++ [0])).str = s := by
  have hfits : (s ++ [0]).length ≤ n := by
    rw [List.length_append, List.length_singleton]
    omega
  rw [Buf.str, copied_data hfits, overwrite, List.take_zero, List.nil_append, List.append_assoc]
  exact cstr_append_zero h0 _

section Message

variable {cj : CJsonLib} {p : Parser} {d : Delivery}

theorem run_kept_memo {message : Bytes} (hk : d.msg.kind = .memo message) (hd : Idle p.dev)
    (hwf : d.msg.WellFormed cj) (hstorable : d.msg.Storable)
    (hterm : Terminated p.buffer d.header d.msg.header)
    (hpieces : payload d.pieces = d.msg.payload) :
    ∃ q, Run (Turns cj) p d.packets q ∧ Kept cj p [d] q ∧ Idle q.dev := by
  simp only [Sent.WellFormed, hk] at hwf
  simp only [Sent.Storable, hk] at hstorable
  obtain ⟨hempty, len, packinfo, hheader, hmsg⟩ := hwf
  obtain ⟨q, hturn, hidle, hfs, hcfg⟩ := turns_memo_fits hd hheader hmsg hterm hstorable
  have hnil := pieces_nil (hpieces.trans hempty)
  refine ⟨q, ?_, ⟨?_, ?_, ?_⟩, hidle⟩
  · rw [Delivery.packets, hnil]
    exact run_singleton hturn
  · rw [hcfg]
    show (copied p.dev.deviceCfg.memo (cstr message ++ [0])).str = _
    rw [copied_str _ (zero_not_mem_cstr message) hstorable]
    simp only [lastMemo, List.foldl_cons, List.foldl_nil, hk]
  · intro _
    exact ⟨hfs, by rw [hcfg]⟩
  · rintro (hsaved | ⟨e, he, hreports⟩)
    · rwa [hfs]
    · rw [List.mem_singleton.mp he] at hreports
      rw [Delivery.Reports, hk] at hreports
      cases hreports.1

theorem lastMemo_weather (hk : d.msg.kind = .weather) (memo : Bytes) :
    lastMemo memo [d] = memo := by
  simp only [lastMemo, List.foldl_cons, List.foldl_nil, hk]

/-- A report with no data: the machine waits for it. -/
theorem run_kept_announced (hk : d.msg.kind = .weather) (hd : Idle p.dev)
    (hwf : d.msg.WellFormed cj)
    (hterm : Terminated p.buffer d.header d.msg.header)
    (hpieces : payload d.pieces = d.msg.payload) (hempty : d.msg.payload = []) :
    ∃ q, Run (Turns cj) p d.packets q ∧ Kept cj p [d] q := by
  simp only [Sent.WellFormed, hk] at hwf
  have hnil := pieces_nil (hpieces.trans hempty)
  obtain ⟨packinfo, hheader, -⟩ := id hwf
  have hturn := turns_header hd hheader.noNul hterm (readHeader_weather hwf) rfl (by simp)
  have hrun := run_singleton hturn
  rw [← hnil] at hrun
  refine ⟨_, hrun, (lastMemo_weather hk _).symm, fun _ => ⟨rfl, rfl⟩, ?_⟩
  rintro (hsaved | ⟨e, he, hreports⟩)
  · exact hsaved
  · rw [List.mem_singleton.mp he] at hreports
    exact absurd hempty hreports.2

theorem run_kept_weather (hk : d.msg.kind = .weather) (hd : Idle p.dev)
    (hwf : d.msg.WellFormed cj)
    (hstorable : d.msg.Storable) (hterm : Terminated p.buffer d.header d.msg.header)
    (hpieces : payload d.pieces = d.msg.payload) (hall : AllSucceed d.pieces)
    (hempty : d.msg.payload ≠ []) :
    ∃ q, Run (Turns cj) p d.packets q ∧ Kept cj p [d] q ∧ Idle q.dev := by
  simp only [Sent.WellFormed, hk] at hwf
  simp only [Sent.Storable, hk] at hstorable
  obtain ⟨days, hdays, hlen⟩ := hstorable
  have hpos : 0 < d.msg.payload.length := List.length_pos_iff.mpr hempty
  have hsize : d.msg.payload.length ≤ weatherArraySize := by
    have h1 : weatherInfoSize = 168 := rfl
    have h2 : weatherArraySize = 1176 := rfl
    rw [h1] at hlen
    omega
  obtain ⟨q, hrun, hidle, hview⟩ := run_weather hd hwf ⟨hpos, hsize⟩ hterm hpieces hall
  have hcfg : q.dev.deviceCfg = _ := congrArg View.deviceCfg hview
  have hfs : q.dev.fs = _ := congrArg View.fs hview
  refine ⟨q, hrun, ⟨?_, ?_, ?_⟩, hidle⟩
  · rw [hcfg, lastMemo_weather hk]
    rfl
  · intro hnone
    exact absurd ⟨hk, hempty⟩ (hnone d (List.mem_singleton_self d))
  · intro _
    rw [hfs]
    exact ⟨_, FileSystem.get_put _ _ _⟩

/-- **A message is received, and leaves the machine idle if there was anything in it.** -/
theorem run_kept (hd : Idle p.dev) (hwf : d.msg.WellFormed cj) (hstorable : d.msg.Storable)
    (hterm : Terminated p.buffer d.header d.msg.header)
    (hpieces : payload d.pieces = d.msg.payload) (hall : AllSucceed d.packets) :
    ∃ q, Run (Turns cj) p d.packets q ∧ Kept cj p [d] q ∧ (d.msg.Fits → Idle q.dev) := by
  have hpieces' : AllSucceed d.pieces := fun i hi => hall i (List.mem_cons_of_mem _ hi)
  cases hk : d.msg.kind with
  | memo message =>
      obtain ⟨q, hrun, hkept, hidle⟩ := run_kept_memo hk hd hwf hstorable hterm hpieces
      exact ⟨q, hrun, hkept, fun _ => hidle⟩
  | weather =>
      by_cases hempty : d.msg.payload = []
      · obtain ⟨q, hrun, hkept⟩ := run_kept_announced hk hd hwf hterm hpieces hempty
        refine ⟨q, hrun, hkept, ?_⟩
        intro hfits
        simp only [Sent.Fits, hk, hempty] at hfits
        exact absurd hfits.1 (by decide)
      · obtain ⟨q, hrun, hkept, hidle⟩ :=
          run_kept_weather hk hd hwf hstorable hterm hpieces hpieces' hempty
        exact ⟨q, hrun, hkept, fun _ => hidle⟩
  | update =>
      simp only [Sent.Storable, hk] at hstorable

end Message

/-! ### All messages, and the next boot -/

theorem run_kept_all {cj : CJsonLib} {buffer : Buf packSize} {ds : List Delivery}
    (h : Arrives cj buffer ds) : ∀ {p : Parser}, p.buffer = buffer → Idle p.dev →
    (∀ d ∈ ds, d.msg.Storable) → (∀ d ∈ ds.dropLast, d.msg.Fits) → AllSucceed (packetsOf ds) →
    ∃ q, Run (Turns cj) p (packetsOf ds) q ∧ Kept cj p ds q := by
  induction h with
  | nil buffer => intro p _ _ _ _ _; exact ⟨p, Run.nil p, Kept.nil cj p⟩
  | @cons buffer d rest hwf halone hpieces _ ih =>
      intro p hbuffer hd hstorable hfits hall
      subst hbuffer
      obtain ⟨mid, hrun, hkept, hidle⟩ := run_kept hd hwf (hstorable d (List.mem_cons_self ..))
        halone.terminated hpieces fun i hi => hall i (List.mem_append_left _ hi)
      by_cases hrest : rest = []
      · subst hrest
        exact ⟨mid, by simpa [packetsOf] using hrun, hkept⟩
      · rw [List.dropLast_cons_of_ne_nil hrest] at hfits
        obtain ⟨q, hrun', hkept'⟩ := ih (run_buffer hrun) (hidle (hfits d (List.mem_cons_self ..)))
          (fun e he => hstorable e (List.mem_cons_of_mem d he))
          (fun e he => hfits e (List.mem_cons_of_mem d he))
          fun i hi => hall i (List.mem_append_right _ hi)
        exact ⟨q, run_append hrun hrun', hkept.cons hkept'⟩

/-- The next boot comes up with the memo and the weather of now. -/
def Durable (cj : CJsonLib) (p : Parser) : Prop :=
  ∃ cfg fs, boot cj p.dev.fs (.opened .full) = .ok (cfg, fs) ∧
    cfg.memo.str = p.dev.deviceCfg.memo.str ∧
    ∀ i < 7, cfg.iconDay i = p.dev.deviceCfg.iconDay i ∧
      cfg.textDay i = p.dev.deviceCfg.textDay i ∧
      cfg.tempMax i = p.dev.deviceCfg.tempMax i ∧
      cfg.tempMin i = p.dev.deviceCfg.tempMin i

/-- cJSON reads back what the firmware had it print into the file. -/
def ReadsBack (cj : CJsonLib) (fs : FileSystem) : Prop :=
  ∀ cfg, fs.get CONFIG_FILE_PATH = some (savedText cj cfg) → savedText cj cfg ≠ [] ∧
    ∃ cfg', cj.parse (savedText cj cfg) = some (eleDsCfgToJson cfg')

/-- A device does not boot from a file it saved. -/
theorem Saved.boot {cj : CJsonLib} {fs : FileSystem} (h : Saved cj fs) (hcj : ReadsBack cj fs)
    (o : SaveOutcome) (r : EleDsCfg × FileSystem) : boot cj fs o ≠ .ok r := by
  obtain ⟨cfg, hfile⟩ := h
  obtain ⟨hne, cfg', hparse⟩ := hcj cfg hfile
  refine boot_of_saved (b := cfg') hfile hne ?_ o r
  rw [savedText, cstr_cstr]
  exact hparse

/-- A boot that finds a file leaves the files alone. -/
theorem boot_files {cj : CJsonLib} {fs fs' : FileSystem} {cfg : EleDsCfg} {o : SaveOutcome}
    (h : boot cj fs o = .ok (cfg, fs')) (hfile : (fs.get CONFIG_FILE_PATH).isSome) : fs' = fs := by
  obtain ⟨text, htext⟩ := Option.isSome_iff_exists.mp hfile
  simp only [boot, sysfileInit, htext] at h
  obtain ⟨r, -, hr⟩ := except_bind_ok h
  cases hr
  rfl

/-- And one that does not writes the file it should have found. -/
theorem boot_saved {cj : CJsonLib} {fs fs' : FileSystem} {cfg : EleDsCfg}
    (h : boot cj fs (.opened .full) = .ok (cfg, fs'))
    (hfile : fs.get CONFIG_FILE_PATH = none) : Saved cj fs' := by
  simp only [boot, sysfileInit, hfile, initCfgfile] at h
  cases h
  exact ⟨initEleDsCfg, FileSystem.get_put _ _ _⟩

/-- **What was received survives a reboot just when the device booted from a file, no report
had any records and the last memo is the one in the file.** -/
theorem durable_iff (cj : CJsonLib) (fs fs' : FileSystem) (cfg : EleDsCfg) (ds : List Delivery)
    (hboot : boot cj fs (.opened .full) = .ok (cfg, fs'))
    (harrives : Arrives cj (Parser.init cfg fs').buffer ds)
    (hsync : Synced cj (Parser.init cfg fs') ds) (hstorable : ∀ d ∈ ds, d.msg.Storable)
    (hall : AllSucceed (packetsOf ds)) :
    ∃ p, Run (Turns cj) (Parser.init cfg fs') (packetsOf ds) p ∧
      (ReadsBack cj p.dev.fs →
        (Durable cj p ↔ (fs.get CONFIG_FILE_PATH).isSome ∧ (∀ d ∈ ds, ¬ d.Reports) ∧
          lastMemo cfg.memo.str ds = cfg.memo.str)) := by
  have hidle : Idle (Parser.init cfg fs').dev := ⟨rfl, rfl, rfl, rfl, Int.le_refl 0⟩
  have hfits := hsync.fits ⟨cfg, fs', [], Run.nil _⟩ harrives
  obtain ⟨p, hrun, hkept⟩ := run_kept_all harrives rfl hidle hstorable hfits hall
  refine ⟨p, hrun, ?_⟩
  intro hcj
  constructor
  · rintro ⟨cfg', fs'', hboot', hmemo, -⟩
    have hfile : (fs.get CONFIG_FILE_PATH).isSome := by
      rw [Option.isSome_iff_ne_none]
      intro hnone
      exact (hkept.saved (Or.inl (boot_saved hboot hnone))).boot hcj _ _ hboot'
    have hnone : ∀ d ∈ ds, ¬ d.Reports := by
      intro d hd hreports
      exact (hkept.saved (Or.inr ⟨d, hd, hreports⟩)).boot hcj _ _ hboot'
    refine ⟨hfile, hnone, ?_⟩
    -- the file is the old one, so the second boot ends as the first
    have hsame : p.dev.fs = fs := (hkept.untouched hnone).1.trans (boot_files hboot hfile)
    rw [hsame, hboot] at hboot'
    cases hboot'
    exact (hmemo.trans hkept.memo).symm
  · rintro ⟨hfile, hnone, hlast⟩
    obtain ⟨hfs, hcfg⟩ := hkept.untouched hnone
    have hsame : p.dev.fs = fs := hfs.trans (boot_files hboot hfile)
    refine ⟨cfg, fs', by rw [hsame, hboot], ?_, ?_⟩
    · rw [hkept.memo]
      exact hlast.symm
    · intro i _
      rw [hcfg]
      exact ⟨rfl, rfl, rfl, rfl⟩

/-! ### A memo that is gone -/

/-- A memo without text. -/
def noMemoText : Bytes :=
  ascii "\x7b\"msgtype\":128,\"packcnt\":1,\"packinfo\":\x7b\"len\":0,\"message\":\"\"\x7d\x7d"

/-- cJSON on the configuration files and two memos. -/
def bootLib : CJsonLib :=
  tableLib
    [(versionedText, versionedJson),
     (memoText, headerJson 128
        [(ascii "len", jsonNumber 2), (ascii "message", .string (ascii "hi"))]),
     (noMemoText, headerJson 128
        [(ascii "len", jsonNumber 0), (ascii "message", .string [])]),
     (defaultText, eleDsCfgToJson initEleDsCfg)] defaultText

/-- A device that booted from a file with a version in its root object. -/
def bootedParser : Parser := Parser.init initEleDsCfg (onlyConfig versionedText)

theorem bootLib_boot : boot bootLib (onlyConfig versionedText) (.opened .full)
    = .ok (initEleDsCfg, onlyConfig versionedText) := by
  refine boot_of_decodes (FileSystem.get_put _ _ _) ⟨by decide, versionedJson, ?_, rfl,
    versionedJson_decodes⟩ _
  rw [cstr_of_not_mem zero_not_mem_versionedText]
  simp [bootLib, tableLib]

theorem bootLib_parse_memo : bootLib.parse memoText = some (headerJson 128
    [(ascii "len", jsonNumber 2), (ascii "message", .string (ascii "hi"))]) := by
  rfl

theorem bootLib_parse_noMemo : bootLib.parse noMemoText = some (headerJson 128
    [(ascii "len", jsonNumber 0), (ascii "message", .string [])]) := by
  rfl

/-- The file it booted from is not one it could have written. -/
theorem bootLib_readsBack : ReadsBack bootLib (onlyConfig versionedText) := by
  intro cfg hfile
  have htext : savedText bootLib cfg = defaultText := cstr_of_not_mem zero_not_mem_defaultText
  rw [htext, onlyConfig, FileSystem.get_put] at hfile
  have hlen := congrArg List.length (Option.some.inj hfile)
  have := defaultText_shorter
  omega

def noMemoDelivery : Delivery :=
  ⟨⟨.memo [], noMemoText, []⟩, ⟨⟨noMemoText, by decide, by decide⟩, .good⟩, []⟩

theorem bootedParser_idle : Idle bootedParser.dev := ⟨rfl, rfl, rfl, rfl, Int.le_refl 0⟩

theorem memo_arrives : Arrives bootLib bootedParser.buffer [memoDelivery] := by
  refine .cons ?_ ⟨rfl, packSize - memoText.length - 1, by decide +kernel⟩ rfl (.nil _)
  exact ⟨rfl, 2, _, ⟨by decide, by decide, _, bootLib_parse_memo, rfl, rfl, ⟨1, rfl⟩, rfl⟩, rfl⟩

theorem noMemo_arrives : Arrives bootLib bootedParser.buffer [noMemoDelivery] := by
  refine .cons ?_ ⟨rfl, packSize - noMemoText.length - 1, by decide +kernel⟩ rfl (.nil _)
  exact ⟨rfl, 0, _, ⟨by decide, by decide, _, bootLib_parse_noMemo, rfl, rfl, ⟨1, rfl⟩, rfl⟩, rfl⟩

/-- A single message is in step with the machine. -/
theorem synced_single {cj : CJsonLib} {p : Parser} {d : Delivery} (hd : Idle p.dev)
    (h : Arrives cj p.buffer [d]) : Synced cj p [d] :=
  synced_of_fits h rfl hd (fun _ he => nomatch he) (fun _ he => nomatch he)

theorem memo_storable {d : Delivery} {message : Bytes} (hk : d.msg.kind = .memo message)
    (hlen : (cstr message).length < memoSize) : ∀ e ∈ [d], e.msg.Storable := by
  intro e he
  rw [List.mem_singleton.mp he]
  simpa only [Sent.Storable, hk] using hlen

theorem memo_not_reports {d : Delivery} {message : Bytes} (hk : d.msg.kind = .memo message) :
    ∀ e ∈ [d], ¬ e.Reports := by
  intro e he hreports
  rw [List.mem_singleton.mp he, Delivery.Reports, hk] at hreports
  cases hreports.1

/-- A single memo changes no file. -/
theorem run_single_memo {d : Delivery} {message : Bytes} (hk : d.msg.kind = .memo message)
    (hlen : (cstr message).length < memoSize) (harrives : Arrives bootLib bootedParser.buffer [d])
    (hall : AllSucceed (packetsOf [d])) :
    ∃ p, Run (Turns bootLib) bootedParser (packetsOf [d]) p ∧
      p.dev.fs = onlyConfig versionedText ∧ p.dev.deviceCfg.memo.str = cstr message := by
  obtain ⟨p, hrun, hkept⟩ := run_kept_all harrives rfl bootedParser_idle (memo_storable hk hlen)
    (fun _ he => nomatch he) hall
  refine ⟨p, hrun, (hkept.untouched (memo_not_reports hk)).1, ?_⟩
  rw [hkept.memo]
  simp only [lastMemo, List.foldl_cons, List.foldl_nil, hk]

/-- An empty memo is still there after the reboot, as it was before. -/
theorem durable_noMemo :
    ∃ p, Run (Turns bootLib) bootedParser (packetsOf [noMemoDelivery]) p ∧ Durable bootLib p := by
  have hlen : (cstr []).length < memoSize := by decide
  have hall : AllSucceed (packetsOf [noMemoDelivery]) :=
    good_allSucceed (by simp [packetsOf, Delivery.packets, noMemoDelivery])
  obtain ⟨p, hrun, hiff⟩ := durable_iff bootLib (onlyConfig versionedText) (onlyConfig versionedText)
    initEleDsCfg [noMemoDelivery] bootLib_boot noMemo_arrives
    (synced_single bootedParser_idle noMemo_arrives) (memo_storable rfl hlen) hall
  obtain ⟨q, hrun', hfs, -⟩ := run_single_memo rfl hlen noMemo_arrives hall
  have hsame := run_unique (turns_unique bootLib) hrun hrun'
  have hcj : ReadsBack bootLib p.dev.fs := by
    rw [hsame, hfs]
    exact bootLib_readsBack
  refine ⟨p, hrun, (hiff hcj).mpr ⟨?_, memo_not_reports rfl, by decide +kernel⟩⟩
  rw [onlyConfig, FileSystem.get_put]
  rfl

/-- The memo "hi" is received, and is not there after the reboot. -/
theorem durable_refuted :
    boot bootLib (onlyConfig versionedText) (.opened .full)
      = .ok (initEleDsCfg, onlyConfig versionedText) ∧
    Arrives bootLib bootedParser.buffer [memoDelivery] ∧
    Synced bootLib bootedParser [memoDelivery] ∧
    (∀ d ∈ [memoDelivery], d.msg.Storable) ∧ AllSucceed (packetsOf [memoDelivery]) ∧
    ∃ p, Run (Turns bootLib) bootedParser (packetsOf [memoDelivery]) p ∧
      ReadsBack bootLib p.dev.fs ∧ p.dev.deviceCfg.memo.str = ascii "hi" ∧
      ¬ Durable bootLib p := by
  have hlen : (cstr (ascii "hi")).length < memoSize := by decide
  have hall : AllSucceed (packetsOf [memoDelivery]) :=
    good_allSucceed (by simp [packetsOf, Delivery.packets, memoDelivery])
  obtain ⟨p, hrun, hfs, hmemo⟩ := run_single_memo rfl hlen memo_arrives hall
  refine ⟨bootLib_boot, memo_arrives, synced_single bootedParser_idle memo_arrives,
    memo_storable rfl hlen, hall, p, hrun, ?_, hmemo, ?_⟩
  · rw [hfs]
    exact bootLib_readsBack
  · rintro ⟨cfg, fs, hboot, hsame, -⟩
    rw [hfs, bootLib_boot] at hboot
    cases hboot
    rw [hmemo] at hsame
    exact absurd hsame (by decide +kernel)

end EleDs
