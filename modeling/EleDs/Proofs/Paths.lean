/-
Where the update files are.

The name of an update file is the update directory and the build, as the server spells
it, cut to 31 bytes.  Nobody looks at what is in the build, so it may go up as well as
down.  `entryOf_iff` says for which builds the file is an entry of the directory after
all, by the route the build stands for, and `updates_contained` what follows for runs: as
long as every header brings such a build, nothing outside the directory is opened for
writing or changed, but for the saves of the configuration.
-/
import EleDs.Lib.Paths
import EleDs.Proofs.Config
import EleDs.Proofs.Transfers

namespace EleDs

open CMem CJson Machine Paths

/-! ### Names and routes -/

/-- What a component of a path name does. -/
def moveOf (c : Bytes) : Move Bytes :=
  if c = [] ∨ c = ascii "." then .stay
  else if c = ascii ".." then .up
  else .down c

/-- The route a path name stands for. -/
def routeOf (name : Bytes) : Route Bytes :=
  ((name.splitOn 47).map moveOf).foldl Route.add .nowhere

theorem resolve_walk (name : Bytes) :
    resolve name = ((name.splitOn 47).map moveOf).foldl move [] := by
  have hmove : (fun (dir : Path) (c : Bytes) =>
      if c = [] ∨ c = ascii "." then dir
      else if c = ascii ".." then dir.dropLast
      else dir ++ [c]) = fun dir c => move dir (moveOf c) := by
    funext dir c
    unfold moveOf
    split
    · rfl
    · split <;> rfl
  rw [resolve, hmove, List.foldl_map]

/-- A name behind a directory is followed from there. -/
theorem resolve_append (dir name : Bytes) :
    resolve (dir ++ 47 :: name) = (routeOf name).lead (resolve dir) := by
  rw [resolve_walk, List.splitOn_append_cons_self, List.map_append, List.foldl_append,
    ← resolve_walk, foldl_move]
  rfl

/-- `UPDATE_DIR`. -/
def updateDir : Path := resolve UPDATE_DIR

example : updateDir = [ascii "sysfile", ascii "soft", ascii "update"] := by decide

/-- `q` is an entry of the directory. -/
def EntryOf (dir q : Path) : Prop := ∃ c, q = dir ++ [c]

/-- The build comes down the directories it goes up, and one name more. -/
def StaysInside (build : Bytes) : Prop :=
  (routeOf build).names ≠ [] ∧
  (routeOf build).names.dropLast = updateDir.drop (updateDir.length - (routeOf build).ups)

instance (build : Bytes) : Decidable (StaysInside build) :=
  inferInstanceAs (Decidable (_ ∧ _))

/-- **The file of a build is an entry of the update directory just when the build stays
inside.** -/
theorem entryOf_iff (build : Bytes) :
    EntryOf updateDir (resolve (updatePath build)) ↔ StaysInside build := by
  have hpath : updatePath build = UPDATE_DIR ++ 47 :: build := by
    have hslash : ascii "/" = [47] := by decide
    rw [updatePath, hslash, List.append_assoc]
    rfl
  rw [hpath, resolve_append]
  constructor
  · rintro ⟨c, hc⟩
    have hnames := ((routeOf build).lead_eq_iff updateDir [c]).mp hc
    rw [StaysInside, hnames]
    exact ⟨List.append_ne_nil_of_right_ne_nil _ (List.cons_ne_nil _ _), List.dropLast_concat⟩
  · rintro ⟨hne, hdrop⟩
    refine ⟨(routeOf build).names.getLast hne, ((routeOf build).lead_eq_iff updateDir _).mpr ?_⟩
    rw [← hdrop, List.dropLast_append_getLast hne]

/-! ### What a turn does to the files -/

/-- Nothing outside the update directory was opened for writing or changed, but for the saves
of the configuration. -/
structure Contained (start : FileSystem) (d : Device) : Prop where
  opens : ∀ name fd, .opened name fd ∈ d.trace → EntryOf updateDir (resolve name)
  fds : ∀ fd name, d.fds fd = some name → EntryOf updateDir (resolve name)
  files : ∀ q, ¬ EntryOf updateDir q → q ≠ resolve CONFIG_FILE_PATH → d.fs q = start q
  config : (∀ ret, .savedCfg ret ∉ d.trace) →
    d.fs (resolve CONFIG_FILE_PATH) = start (resolve CONFIG_FILE_PATH)

theorem config_outside : ¬ EntryOf updateDir (resolve CONFIG_FILE_PATH) := by
  rintro ⟨c, hc⟩
  have hlen := congrArg List.length hc
  rw [List.length_append] at hlen
  have hshort : (resolve CONFIG_FILE_PATH).length = 2 := by decide
  have hdir : updateDir.length = 3 := by decide
  rw [hshort, hdir] at hlen
  simp at hlen

theorem put_outside {fs : FileSystem} {name : Bytes} (hname : EntryOf updateDir (resolve name))
    (content : Bytes) {q : Path} (hq : ¬ EntryOf updateDir q) : fs.put name content q = fs q := by
  refine Function.update_of_ne ?_ _ _
  rintro rfl
  exact hq hname

section Steps

variable {start : FileSystem} {d d' : Device}

/-- Calls that open nothing, with no file changed. -/
theorem Contained.quiet (h : Contained start d) (rest : List Event)
    (htrace : d'.trace = d.trace ++ rest) (hrest : ∀ name fd, .opened name fd ∉ rest)
    (hfs : d'.fs = d.fs) (hfds : ∀ fd name, d'.fds fd = some name → d.fds fd = some name) :
    Contained start d' where
  opens := by
    intro name fd hmem
    rw [htrace, List.mem_append] at hmem
    rcases hmem with hold | hnew
    · exact h.opens name fd hold
    · exact absurd hnew (hrest name fd)
  fds := fun fd name hfd => h.fds fd name (hfds fd name hfd)
  files := by
    rw [hfs]
    exact h.files
  config := by
    intro hnone
    rw [hfs]
    refine h.config fun ret hmem => hnone ret ?_
    rw [htrace]
    exact List.mem_append_left rest hmem

theorem Contained.of_eq (h : Contained start d) (htrace : d'.trace = d.trace) (hfs : d'.fs = d.fs)
    (hfds : d'.fds = d.fds) : Contained start d' := by
  refine h.quiet [] (by rw [htrace, List.append_nil]) (fun _ _ => List.not_mem_nil) hfs ?_
  intro fd name hfd
  rwa [hfds] at hfd

theorem Contained.clear (h : Contained start d) : Contained start (clearClientInfo d) := by
  by_cases hfd : d.recvInfo.updateFileFd > 0
  · refine h.quiet [.closed d.recvInfo.updateFileFd] (by simp [clearClientInfo, closeFd, hfd])
      (by simp) (clearClientInfo_fs d) ?_
    intro fd name hopen
    simp only [clearClientInfo, closeFd, hfd, if_true, Function.update_apply] at hopen
    split at hopen
    · cases hopen
    · exact hopen
  · exact h.of_eq (by simp [clearClientInfo, hfd]) (clearClientInfo_fs d)
      (by simp [clearClientInfo, hfd])

theorem Contained.finish (h : Contained start d) (o : Outcomes) : Contained start (finish d o) := by
  unfold EleDs.finish
  split
  · exact h.clear.quiet _ rfl (by simp) rfl fun _ _ hfd => hfd
  · exact h.clear

theorem Contained.settle (h : Contained start d) (len : Nat) (o : Outcomes) :
    Contained start (settle d len o).2 := by
  have hcount : Contained start (d.count len) := h.of_eq rfl rfl rfl
  unfold EleDs.settle
  split
  · exact hcount.finish o
  · exact hcount

theorem Contained.storeWeather (h : Contained start d) (cj : CJsonLib) (w : Buf weatherArraySize)
    (o : SaveOutcome) : Contained start (d.storeWeather cj w o) where
  opens := by
    intro name fd hmem
    rcases List.mem_append.mp hmem with hold | hnew
    · exact h.opens name fd hold
    · simp at hnew
  fds := h.fds
  files := by
    intro q hq hcfg
    cases o with
    | openFailed => exact h.files q hq hcfg
    | opened outcome => exact (Function.update_of_ne hcfg _ _).trans (h.files q hq hcfg)
  config := fun hnone => absurd (List.mem_append_right _ (List.mem_singleton_self _)) (hnone _)

theorem Contained.openUpdateFile (h : Contained start d)
    (hname : EntryOf updateDir (resolve d.recvInfo.updateFileName.str)) (fd : Int) :
    Contained start (openUpdateFile d fd) where
  opens := by
    intro name fd' hmem
    rw [openUpdateFile_trace, List.mem_append, List.mem_singleton] at hmem
    rcases hmem with hold | hnew
    · exact h.opens name fd' hold
    · cases hnew
      exact hname
  fds := by
    intro fd' name hopen
    unfold EleDs.openUpdateFile at hopen
    simp only at hopen
    split at hopen
    · exact h.fds fd' name hopen
    · simp only [Function.update_apply] at hopen
      split at hopen
      · cases hopen
        exact hname
      · exact h.fds fd' name hopen
  files := by
    intro q hq hcfg
    unfold EleDs.openUpdateFile
    simp only
    split
    · exact h.files q hq hcfg
    · exact (put_outside hname _ hq).trans (h.files q hq hcfg)
  config := by
    intro hnone
    have hold : ∀ ret, .savedCfg ret ∉ d.trace := by
      intro ret hmem
      refine hnone ret ?_
      rw [openUpdateFile_trace]
      exact List.mem_append_left _ hmem
    unfold EleDs.openUpdateFile
    simp only
    split
    · exact h.config hold
    · exact (put_outside hname _ config_outside).trans (h.config hold)

theorem Contained.writeFd (h : Contained start d) (fd : Int) (data : Bytes) (w : WriteOutcome) :
    Contained start (writeFd d fd data w).2 := by
  unfold EleDs.writeFd
  split
  · exact h.quiet _ rfl (by simp) rfl fun _ _ hopen => hopen
  · rename_i name hopen
    have hname := h.fds fd name hopen
    constructor
    · intro name' fd' hmem
      rcases List.mem_append.mp hmem with hold | hnew
      · exact h.opens name' fd' hold
      · simp at hnew
    · exact h.fds
    · intro q hq hcfg
      exact (put_outside hname _ hq).trans (h.files q hq hcfg)
    · intro hnone
      have hold : ∀ ret, .savedCfg ret ∉ d.trace :=
        fun ret hmem => hnone ret (List.mem_append_left _ hmem)
      exact (put_outside hname _ config_outside).trans (h.config hold)

theorem Contained.storeUpdate (h : Contained start d)
    (hname : EntryOf updateDir (resolve d.recvInfo.updateFileName.str)) (data : Bytes)
    (o : Outcomes) : Contained start (d.storeUpdate data o).2 := by
  refine storeUpdate_rule data o h ?_ ?_
  · intro _
    exact h.openUpdateFile hname _
  · intro opened hopened
    exact hopened.writeFd _ _ _

/-- While an update is under way, its name is inside. -/
def NameInside (d : Device) : Prop :=
  d.recvInfo.recvState = .crsData → d.recvInfo.curparseType = .servermsgClientupdate →
    EntryOf updateDir (resolve d.recvInfo.updateFileName.str)

/-- **Whatever a turn does, it touches no file outside while the name at hand is inside.** -/
theorem Turn.contained {cj : CJsonLib} {b : Bytes} {i : Input} (h : Turn cj b i d d')
    (hd : Contained start d) (hname : NameInside d) : Contained start d' := by
  cases h with
  | refused hs => exact hd.clear
  | memo text memo hs hread hcopy =>
      have hmemo : Contained start (d.withMemo memo) := hd.of_eq rfl rfl rfl
      exact hmemo.clear
  | weather n hs hread => exact hd.of_eq rfl rfl rfl
  | update info name hs hread => exact hd.of_eq rfl rfl rfl
  | drained hs _ => exact hd.finish _
  | weatherData w hs hpos ht hcopy => exact (hd.storeWeather cj w _).settle _ _
  | updateData hs hpos ht => exact (hd.storeUpdate (hname hs ht) _ _).settle _ _
  | updateFailed hs ht => exact (hd.storeUpdate (hname hs ht) _ _).clear
  | otherType hs => exact hd.clear

end Steps

/-! ### The turn that opens the file -/

/-- The next packet opens the update file. -/
structure Opens (d : Device) : Prop where
  recvState : d.recvInfo.recvState = .crsData
  curparseType : d.recvInfo.curparseType = .servermsgClientupdate
  datalen : 0 < d.recvInfo.datalen
  updateFileFd : d.recvInfo.updateFileFd ≤ 0

/-- Further calls were made. -/
def Extends (d d' : Device) : Prop := ∃ rest, d'.trace = d.trace ++ rest

theorem Extends.refl (d : Device) : Extends d d := ⟨[], (List.append_nil _).symm⟩

theorem Extends.trans {d mid d' : Device} (h : Extends d mid) (h' : Extends mid d') :
    Extends d d' := by
  obtain ⟨rest, hmid⟩ := h
  obtain ⟨rest', hd'⟩ := h'
  exact ⟨rest ++ rest', by rw [hd', hmid, List.append_assoc]⟩

theorem extends_clear (d : Device) : Extends d (clearClientInfo d) := by
  by_cases hfd : d.recvInfo.updateFileFd > 0
  · exact ⟨[.closed d.recvInfo.updateFileFd], by simp [clearClientInfo, closeFd, hfd]⟩
  · exact ⟨[], by simp [clearClientInfo, hfd]⟩

theorem extends_settle (d : Device) (len : Nat) (o : Outcomes) : Extends d (settle d len o).2 := by
  have hcount : Extends d (d.count len) := Extends.refl d
  unfold settle
  split
  · refine hcount.trans ?_
    unfold finish
    split
    · exact (extends_clear _).trans ⟨_, rfl⟩
    · exact extends_clear _
  · exact hcount

theorem extends_storeUpdate {d : Device} (hfd : d.recvInfo.updateFileFd ≤ 0) (data : Bytes)
    (o : Outcomes) : Extends (openUpdateFile d o.openRet) (d.storeUpdate data o).2 := by
  unfold Device.storeUpdate
  simp only [if_pos hfd]
  split
  · exact Extends.refl _
  · obtain ⟨ret, htrace⟩ := writeFd_trace (openUpdateFile d o.openRet)
      (openUpdateFile d o.openRet).recvInfo.updateFileFd data o.write
    exact ⟨_, htrace⟩

/-- What is opened is the name at hand. -/
theorem Opens.trace {cj : CJsonLib} {p p' : Parser} {i : Input} (h : Opens p.dev)
    (hturn : Turns cj p i p') :
    ∃ rest, p'.dev.trace = p.dev.trace ++
      .opened p.dev.recvInfo.updateFileName.str i.outcomes.openRet :: rest := by
  obtain ⟨r, hr, rfl⟩ := threadParseRecvData_ok hturn
  rw [parseRecvData_update cj _ _ _ h.recvState h.datalen h.curparseType, receive_take] at hr
  have hstore := extends_storeUpdate h.updateFileFd i.packet.data i.outcomes
  have hall : Extends (openUpdateFile p.dev i.outcomes.openRet)
      (if r.1 < 0 then clearClientInfo r.2 else r.2) := by
    cases hr
    split
    · simp only [settle_nonneg, if_false]
      exact hstore.trans (extends_settle _ _ _)
    · exact hstore.trans (extends_clear _)
  obtain ⟨rest, hrest⟩ := hall
  refine ⟨rest, ?_⟩
  rw [hrest, openUpdateFile_trace, List.append_assoc]
  rfl

/-! ### Whole runs -/

/-- If the packet is the header of an update, its build stays inside. -/
def HeaderStays (cj : CJsonLib) (p : Parser) (i : Input) : Prop :=
  p.dev.recvInfo.recvState = .crsNone →
    ∀ info build, readHeader cj (cstr (receive p.buffer i.packet).data) = .ok (.update info) →
      announcedBuild cj (cstr (receive p.buffer i.packet).data) = some build →
      StaysInside ((cstr build).take 31)

theorem contained_init (cfg : EleDsCfg) (fs : FileSystem) :
    Contained fs (Parser.init cfg fs).dev where
  opens := by
    intro name fd hmem
    exact absurd hmem List.not_mem_nil
  fds := by
    intro fd name hopen
    cases hopen
  files := fun _ _ _ => rfl
  config := fun _ => rfl

theorem contained_of_run {cj : CJsonLib} {cfg : EleDsCfg} {fs : FileSystem} {inputs : List Input}
    {p : Parser} (hrun : Run (Turns cj) (Parser.init cfg fs) inputs p)
    (hall : Along (Turns cj) (HeaderStays cj) (Parser.init cfg fs) inputs) :
    Contained fs p.dev := by
  have hkeep : ∀ (past : List Input) (p : Parser) i p', Tracked cj (Parser.init cfg fs) past p →
      (Contained fs p.dev ∧ NameInside p.dev) → HeaderStays cj p i → Turns cj p i p' →
      Contained fs p'.dev ∧ NameInside p'.dev := by
    rintro past p i p' htracked ⟨hcontained, hname⟩ hstays hstep
    have hturn := turn_cases htracked.receiveInv.state hstep
    refine ⟨hturn.contained hcontained hname, ?_⟩
    intro hs' ht'
    rcases htracked.receiveInv.state with hnone | hdata
    · obtain ⟨⟨info, hread⟩, crc, build, -, hbuild, -, hfile⟩ :=
        origin_of_header hstep hnone hs' ht'
      rw [hfile]
      exact (entryOf_iff _).mpr (hstays hnone info build hread hbuild)
    · obtain ⟨htype, -, hsame⟩ := hturn.keeps hdata hs'
      rw [hsame]
      exact hname hdata (htype.symm.trans ht')
  exact (tracked_invariant hkeep hrun ⟨contained_init cfg fs, fun h => nomatch h⟩ hall).1

/-- **The file an update is written to is an entry of the update directory just when the build
its header announced stays inside; in a run in which every build does, no other file is opened
or changed.** -/
theorem updates_contained (cj : CJsonLib) (cfg : EleDsCfg) (fs : FileSystem) (inputs : List Input)
    (p : Parser) (hrun : Run (Turns cj) (Parser.init cfg fs) inputs p) :
    (∀ i p', Opens p.dev → Turns cj p i p' →
      ∃ text build, OpenedBy cj (Parser.init cfg fs) text inputs p ∧
        announcedBuild cj text = some build ∧
        ∃ name rest, p'.dev.trace = p.dev.trace ++ .opened name i.outcomes.openRet :: rest ∧
          (EntryOf updateDir (resolve name) ↔ StaysInside ((cstr build).take 31))) ∧
    (Along (Turns cj) (HeaderStays cj) (Parser.init cfg fs) inputs → Contained fs p.dev) := by
  refine ⟨?_, contained_of_run hrun⟩
  intro i p' hopens hturn
  obtain ⟨text, hby, horigin⟩ := openedBy_of_run hrun hopens.recvState
  obtain ⟨-, crc, build, -, hbuild, -, hname⟩ := horigin hopens.curparseType
  obtain ⟨rest, htrace⟩ := hopens.trace hturn
  refine ⟨text, build, hby, hbuild, _, rest, htrace, ?_⟩
  rw [hname]
  exact entryOf_iff _

theorem updateText_stays : HeaderStays serverLib freshParser ⟨updatePacket, .good⟩ := by
  have hstr : cstr (receive freshParser.buffer updatePacket).data = updateText := by decide +kernel
  rintro - info build - hbuild
  rw [hstr] at hbuild
  have hfw : announcedBuild serverLib updateText = some (ascii "fw") := rfl
  rw [hfw] at hbuild
  cases hbuild
  decide +kernel

/-- An update under a plain name. -/
theorem updates_contained_fw : ∃ p, Run (Turns serverLib) freshParser
      [⟨updatePacket, .good⟩, ⟨abcPacket, .good⟩] p ∧ Contained (fun _ => none) p.dev ∧
    ∃ fd, .opened (updatePath (ascii "fw")) fd ∈ p.dev.trace := by
  obtain ⟨d, hturn, hexpect, hfd, -⟩ := turns_header_update (p := freshParser)
    ⟨rfl, rfl, rfl, rfl, Int.le_refl 0⟩ updateText_isUpdateHeader updatePacket_alone.terminated
  have hpayload : Expecting d (updatePath (ascii "fw")) 891568578
      (payload [⟨abcPacket, .good⟩]).length := hexpect
  obtain ⟨⟨p, fd, hrun, hreceived⟩, -⟩ := run_payload serverLib
    (p := ⟨d, receive freshParser.buffer updatePacket⟩) hpayload hfd (by decide) (by decide)
    (by simp [good_succeeds])
  have hall : Along (Turns serverLib) (HeaderStays serverLib) freshParser
      [⟨updatePacket, .good⟩, ⟨abcPacket, .good⟩] := by
    refine along_cons updateText_stays fun mid hmid => along_cons ?_ fun _ _ => along_nil
    rw [turns_unique _ _ _ _ _ hmid hturn]
    intro hnone
    rw [hexpect.recvState] at hnone
    cases hnone
  refine ⟨p, Run.cons hturn hrun, (updates_contained serverLib initEleDsCfg (fun _ => none) _ p
    (Run.cons hturn hrun)).2 hall, fd, ?_⟩
  rw [hreceived.trace]
  simp

/-- The header of an update whose build is two directories up. -/
def escapeText : Bytes :=
  ascii ("\x7b\"msgtype\":130,\"packcnt\":1,\"packinfo\":\x7b\"len\":3,\"crc\":891568578," ++
    "\"version\":2,\"buildinfo\":\"../../config\"\x7d\x7d")

def escapeLib : CJsonLib :=
  tableLib
    [(escapeText, headerJson 130
      [(ascii "len", jsonNumber 3), (ascii "crc", jsonNumber 891568578),
       (ascii "version", jsonNumber 2), (ascii "buildinfo", .string (ascii "../../config"))])] []

theorem escapeText_isUpdateHeader :
    IsUpdateHeader escapeLib escapeText 3 891568578 (ascii "../../config") :=
  ⟨_, ⟨by decide, by decide, _, rfl, rfl, rfl, ⟨1, rfl⟩, rfl⟩, by decide, by decide, rfl,
    ⟨_, rfl⟩, rfl⟩

def escapePacket : Packet := ⟨escapeText, by decide, by decide⟩

/-- Its payload replaces the configuration file. -/
theorem updates_contained_refuted : ∃ p fd,
    Run (Turns escapeLib)
      (Parser.init initEleDsCfg (FileSystem.put (fun _ => none) CONFIG_FILE_PATH defaultText))
      [⟨escapePacket, .good⟩, ⟨abcPacket, .good⟩] p ∧
    .opened (updatePath (ascii "../../config")) fd ∈ p.dev.trace ∧
    ¬ EntryOf updateDir (resolve (updatePath (ascii "../../config"))) ∧
    p.dev.fs.get CONFIG_FILE_PATH = some (ascii "abc") := by
  have halone : Alone (Buf.zero packSize) ⟨escapePacket, .good⟩ escapeText :=
    ⟨rfl, packSize - escapeText.length - 1, by decide +kernel⟩
  obtain ⟨d, hturn, hexpect, hfd, -⟩ := turns_header_update
    (p := Parser.init initEleDsCfg (FileSystem.put (fun _ => none) CONFIG_FILE_PATH defaultText))
    ⟨rfl, rfl, rfl, rfl, Int.le_refl 0⟩ escapeText_isUpdateHeader halone.terminated
  have hpayload : Expecting d (updatePath (ascii "../../config")) 891568578
      (payload [⟨abcPacket, .good⟩]).length := hexpect
  obtain ⟨⟨p, fd, hrun, hreceived⟩, -⟩ := run_payload escapeLib
    (p := ⟨d, receive (Buf.zero packSize) escapePacket⟩) hpayload hfd (by decide) (by decide)
    (by simp [good_succeeds])
  have hplace : resolve (updatePath (ascii "../../config")) = resolve CONFIG_FILE_PATH := by
    decide +kernel
  refine ⟨p, fd, Run.cons hturn hrun, ?_, ?_, ?_⟩
  · rw [hreceived.trace]
    simp
  · rw [hplace]
    exact config_outside
  · rw [hreceived.files, FileSystem.get, ← hplace]
    exact FileSystem.get_put _ _ _

end EleDs
