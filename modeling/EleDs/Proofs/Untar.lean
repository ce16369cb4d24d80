/-
One turn of `untar`, and a whole run over an archive in which nothing is missing.

An entry is described by its header and the data behind it.  If the data is there, one turn
stores it and leads to the next header (`HeaderAt.untarTurn_present`); the two loops over the
data are one loop with two things to do with a piece, and `dataLoop_all` says what it comes
to.  `Intact` is an archive all of whose entries are there, and `untarLoop_intact` the run
over it, by induction over the entries.
-/
import EleDs.Proofs.Microtar

namespace EleDs

open CMem Calls

/-! ### The data of an entry -/

/-- What is done with a piece of data changes files and nothing else, and two pieces are as
good as one. -/
structure Stores (piece : Bytes → TarCall Unit) (eff : FileSystem → Bytes → FileSystem) : Prop where
  on : ∀ {s : TarState} (d : Bytes), s.plan = [] →
    (piece d).on s = .ok (.ok ()) { s with fs := eff s.fs d }
  join : ∀ fs a b, eff (eff fs a) b = eff fs (a ++ b)

theorem stores_nothing : Stores (fun _ => pure ()) fun fs _ => fs :=
  ⟨fun _ _ => rfl, fun _ _ _ => rfl⟩

/-- What `fwrite` does to the files. -/
def appended (path : Bytes) (fs : FileSystem) (d : Bytes) : FileSystem :=
  fs.put path ((fs.get path).getD [] ++ d)

theorem stores_fwrite (path : Bytes) : Stores (fwrite path) (appended path) where
  on d hplan := by
    rw [fwrite, Call.on_bind_ok (nextOutcome_good hplan)]
    rfl
  join fs a b := by
    simp [appended]

section DataLoop

variable {file : Bytes} {piece : Bytes → TarCall Unit} {eff : FileSystem → Bytes → FileSystem}
  (hstores : Stores piece eff) {s : TarState} {p size k : Nat} {name : Bytes} {type : UInt8}
  (H : HeaderAt file p name type size)

theorem InData.withFs (h : InData s p size k) (fs : FileSystem) :
    InData { s with fs := fs } p size k := by
  rcases h with ⟨hk, hs⟩ | ⟨hk, hr⟩
  · exact .inl ⟨hk, hs.pos, hs.offset, hs.idle, hs.plan⟩
  · exact .inr ⟨hk, hr.last, hr.left, hr.offset, hr.plan⟩

include hstores H

/-- **The loop reads all that is left of the data, and goes back to the header.** -/
theorem dataLoop_all (hp : p + rawHeaderSize < 2147483648)
    (hin : p + rawHeaderSize + size ≤ file.length) :
    ∀ (fuel k : Nat) (s : TarState), InData s p size k → k < size → size - k ≤ fuel →
      ∃ s', (dataLoop file piece fuel ((size - k : Nat) : Int)).on s = .ok (.ok ()) s' ∧
        AtHeader s' p ∧ s'.trace = s.trace ∧ s'.isOpen = s.isOpen ∧
        s'.fs = eff s.fs ((file.drop (p + rawHeaderSize + k)).take (size - k)) := by
  intro fuel
  induction fuel with
  | zero =>
      intro k s _ hk hfuel
      omega
  | succ fuel ih =>
      intro k s hs hk hfuel
      obtain ⟨n, hn⟩ : ∃ n, n = min 512 (size - k) := ⟨_, rfl⟩
      have htoRead :
          (if ((size - k : Nat) : Int) > 512 then 512 else ((size - k : Nat) : Int)) = n := by
        split <;> omega
      have hrest : ((size - k : Nat) : Int) - n = ((size - (k + n) : Nat) : Int) := by omega
      obtain ⟨s₁, hread, hsame, hmore, hend⟩ :=
        H.readData hs hp (n := n) (by omega) (by omega) (by omega)
      have hpiece := hstores.on ((file.drop (p + rawHeaderSize + k)).take n)
        (hsame.plan.trans hs.plan)
      rw [dataLoop, if_pos (by omega)]
      simp only [htoRead, hrest, Int.toNat_natCast]
      rw [Call.on_bind_ok hread, Call.on_bind_ok hpiece]
      by_cases hlast : k + n = size
      · have hs₁ := hend hlast
        have hdone : size - (k + n) = 0 := by omega
        have hall : n = size - k := by omega
        refine ⟨{ s₁ with fs := eff s₁.fs ((file.drop (p + rawHeaderSize + k)).take n) }, ?_,
          ⟨hs₁.pos, hs₁.offset, hs₁.idle, hs₁.plan⟩, hsame.trace, hsame.isOpen, ?_⟩
        · rw [hdone]
          cases fuel <;> rfl
        · rw [hall, hsame.fs]
      · have hnext := (hmore (by omega)).withFs
          (eff s₁.fs ((file.drop (p + rawHeaderSize + k)).take n))
        obtain ⟨s', hloop, hs', htrace, hopen, hfs⟩ := ih (k + n) _ hnext (by omega) (by omega)
        refine ⟨s', hloop, hs', htrace.trans hsame.trace, hopen.trans hsame.isOpen, ?_⟩
        have hsplit : size - k = n + (size - (k + n)) := by omega
        have hplace : p + rawHeaderSize + (k + n) = p + rawHeaderSize + k + n := by omega
        rw [hfs, hstores.join, hsame.fs, hsplit, List.take_add, List.drop_drop, hplace]

/-- Data that is not all there ends the loop with an error. -/
theorem dataLoop_short (hp : p < 2147483648)
    (hin : 2147483648 ≤ p + rawHeaderSize ∨ file.length < p + rawHeaderSize + size) :
    ∀ (fuel k : Nat) (s : TarState), InData s p size k → k < size → size - k ≤ fuel →
      (0 < k → p + rawHeaderSize < 2147483648) →
      ∃ e s', (dataLoop file piece fuel ((size - k : Nat) : Int)).on s = .ok (.error e) s' ∧
        s'.trace = s.trace ∧ s'.isOpen = s.isOpen := by
  intro fuel
  induction fuel with
  | zero =>
      intro k s _ hk hfuel _
      omega
  | succ fuel ih =>
      intro k s hs hk hfuel hnear
      obtain ⟨n, hn⟩ : ∃ n, n = min 512 (size - k) := ⟨_, rfl⟩
      have htoRead :
          (if ((size - k : Nat) : Int) > 512 then 512 else ((size - k : Nat) : Int)) = n := by
        split <;> omega
      have hrest : ((size - k : Nat) : Int) - n = ((size - (k + n) : Nat) : Int) := by omega
      rw [dataLoop, if_pos (by omega)]
      simp only [htoRead, hrest, Int.toNat_natCast]
      by_cases hgone : 2147483648 ≤ p + rawHeaderSize ∨ file.length < p + rawHeaderSize + k + n
      · obtain ⟨e, s', hread, hsame⟩ := H.readData_short hs hp (by omega) hgone hk hnear
        exact ⟨e, s', Call.on_bind_error hread, hsame.trace, hsame.isOpen⟩
      · have hpos : 0 < n := by omega
        obtain ⟨s₁, hread, hsame, hmore, -⟩ :=
          H.readData hs (by omega) hpos (by omega) (by omega)
        have hpiece := hstores.on ((file.drop (p + rawHeaderSize + k)).take n)
          (hsame.plan.trans hs.plan)
        have hnext := (hmore (by omega)).withFs
          (eff s₁.fs ((file.drop (p + rawHeaderSize + k)).take n))
        obtain ⟨e, s', hloop, htrace, hopen⟩ :=
          ih (k + n) _ hnext (by omega) (by omega) fun _ => by omega
        rw [Call.on_bind_ok hread, Call.on_bind_ok hpiece]
        exact ⟨e, s', hloop, htrace.trans hsame.trace, hopen.trans hsame.isOpen⟩

end DataLoop

/-! ### Directories -/

theorem mkdir_on (dir : Bytes) (s : TarState) :
    (mkdir dir).on s = .ok (.ok ()) { s with trace := s.trace ++ [.mkdir dir] } := rfl

theorem mkdirs_on (dirs : List Bytes) (s : TarState) :
    (dirs.forM mkdir).on s = .ok (.ok ⟨⟩) { s with trace := s.trace ++ dirs.map .mkdir } := by
  induction dirs generalizing s with
  | nil => simp only [List.map_nil, List.append_nil]; rfl
  | cons dir rest ih =>
      have hcons : (dir :: rest).forM mkdir = (do mkdir dir; rest.forM mkdir) := rfl
      rw [hcons, Call.on_bind_ok (mkdir_on dir s), ih]
      simp

/-- The directories that `mkdir_recursive` asks for. -/
def madeDirs (dir : Bytes) : List Bytes :=
  let tmp := if dir.getLast? = some 47 then dir.dropLast else dir
  slashPrefixes tmp ++ [tmp]

/-- The directories that are asked for before a file is opened, unless that fails. -/
def parentDirs (path : Bytes) : Option (List Bytes) :=
  match beforeLastSlash path with
  | none => some []
  | some dir => if dir = [] then none else some (madeDirs dir)

theorem beforeLastSlash_length {path dir : Bytes} (h : beforeLastSlash path = some dir) :
    dir.length < path.length := by
  induction path generalizing dir with
  | nil => cases h
  | cons b rest ih =>
      rw [beforeLastSlash] at h
      cases hrest : beforeLastSlash rest with
      | none =>
          simp only [hrest] at h
          split at h
          · cases h
            simp
          · cases h
      | some dir' =>
          simp only [hrest] at h
          cases h
          have := ih hrest
          simp only [List.length_cons]
          omega

/-- What is done before a file is opened. -/
theorem makeParents_on {path : Bytes} (hlen : path.length < MAX_PATH) (s : TarState) :
    (makeParents path).on s = match parentDirs path with
      | some dirs => .ok (.ok ()) { s with trace := s.trace ++ dirs.map .mkdir }
      | none => .error .readOverrun s := by
  unfold makeParents parentDirs
  cases hdir : beforeLastSlash path with
  | none => simp
  | some dir =>
      have hshort := beforeLastSlash_length hdir
      have htake : dir.take (MAX_PATH - 1) = dir := List.take_of_length_le (by omega)
      simp only [mkdirRecursive, htake]
      by_cases hempty : dir = []
      · simp only [hempty, if_true]
        rfl
      · rw [if_neg hempty, if_neg hempty, Call.on_bind_ok (mkdirs_on _ s), mkdir_on]
        simp [madeDirs]

theorem fullPath_length (dst name : Bytes) : (fullPath dst name).length < MAX_PATH := by
  rw [fullPath, List.length_take]
  exact Nat.lt_of_le_of_lt (Nat.min_le_left _ _) (by decide)

/-! ### An entry -/

/-- The data of an entry. -/
def dataAt (file : Bytes) (p size : Nat) : Bytes := (file.drop (p + rawHeaderSize)).take size

/-- All the data is there, and `fseek` gets to it. -/
structure Present (file : Bytes) (p size : Nat) : Prop where
  near : p + rawHeaderSize < 2147483648
  small : size < 2147483648
  inside : p + rawHeaderSize + size ≤ file.length

theorem wrap32_small {size : Nat} (h : size < 2147483648) : wrap32 (size : Int) = size :=
  wrap32_of_range (by omega) (by omega)

theorem wrap32_huge {size : Nat} (h : 2147483648 ≤ size) (hlt : size < 4294967296) :
    wrap32 (size : Int) < 0 := by
  unfold wrap32
  omega

/-- No data is read when there is none to read. -/
theorem dataLoop_none (file : Bytes) (piece : Bytes → TarCall Unit) (fuel : Nat) {remaining : Int}
    (h : remaining ≤ 0) (s : TarState) :
    (dataLoop file piece fuel remaining).on s = .ok (.ok ()) s := by
  cases fuel with
  | zero =>
      rw [dataLoop, if_neg (by omega)]
      rfl
  | succ fuel =>
      rw [dataLoop, if_neg (by omega)]
      rfl

/-- The state in which the data of a file is read. -/
def TarState.opened (s : TarState) (name path : Bytes) (dirs : List Bytes) : TarState :=
  { s with
    fs := s.fs.put path []
    trace := s.trace ++ dirs.map .mkdir ++ [.fopen name path true] }

/-- The state after the file is closed. -/
def TarState.closed (s : TarState) (path : Bytes) : TarState :=
  { s with trace := s.trace ++ [.fclose path ((s.fs.get path).getD [])] }

section Entry

variable {file : Bytes} {s : TarState} {p size : Nat} {name path : Bytes} {type : UInt8}

theorem HeaderAt.dataLoop_present (H : HeaderAt file p name type size) (hs : AtHeader s p)
    (hdata : Present file p size) {piece : Bytes → TarCall Unit}
    {eff : FileSystem → Bytes → FileSystem} (hstores : Stores piece eff) :
    ∃ s', (dataLoop file piece (wrap32 size).toNat (wrap32 size)).on s = .ok (.ok ()) s' ∧
      AtHeader s' p ∧ s'.trace = s.trace ∧ s'.isOpen = s.isOpen ∧
      s'.fs = if size = 0 then s.fs else eff s.fs (dataAt file p size) := by
  rw [wrap32_small hdata.small]
  by_cases hzero : size = 0
  · refine ⟨s, dataLoop_none file piece _ (by omega) s, hs, rfl, rfl, ?_⟩
    rw [if_pos hzero]
  · rw [if_neg hzero]
    exact dataLoop_all hstores H hdata.near hdata.inside size 0 s (.inl ⟨rfl, hs⟩) (by omega)
      (Nat.le_refl size)

theorem HeaderAt.dataLoop_absent (H : HeaderAt file p name type size) (hs : AtHeader s p)
    (hp : p < 2147483648) (hpos : 0 < size) (hsmall : size < 2147483648)
    (hdata : ¬ Present file p size) {piece : Bytes → TarCall Unit}
    {eff : FileSystem → Bytes → FileSystem} (hstores : Stores piece eff) :
    ∃ e s', (dataLoop file piece (wrap32 size).toNat (wrap32 size)).on s = .ok (.error e) s' ∧
      s'.trace = s.trace ∧ s'.isOpen = s.isOpen := by
  have hin : 2147483648 ≤ p + rawHeaderSize ∨ file.length < p + rawHeaderSize + size := by
    by_contra hc
    exact hdata ⟨by omega, hsmall, by omega⟩
  rw [wrap32_small hsmall]
  exact dataLoop_short hstores H hp hin size 0 s (.inl ⟨rfl, hs⟩) hpos (Nat.le_refl size)
    fun hc => absurd hc (Nat.lt_irrefl 0)

theorem fopenWb_good (hplan : s.plan = []) (name path : Bytes) :
    (fopenWb name path).on s = .ok (.ok true)
      { s with fs := s.fs.put path [], trace := s.trace ++ [.fopen name path true] } := by
  rw [fopenWb, Call.on_bind_ok (nextOutcome_good hplan)]
  rfl

/-- A file is opened in its directories and closed, whatever becomes of its data. -/
theorem extract_on (hplan : s.plan = []) (hlen : path.length < MAX_PATH) {dirs : List Bytes}
    (hdirs : parentDirs path = some dirs) (remaining : Int) {s' : TarState}
    {r : Except MtarError Unit}
    (hloop : (dataLoop file (fwrite path) remaining.toNat remaining).on (s.opened name path dirs)
      = .ok r s') :
    (extract file name path remaining).on s = .ok (.ok (earlyReturn r)) (s'.closed path) := by
  have hparents := makeParents_on hlen s
  rw [hdirs] at hparents
  have hopen := fopenWb_good (s := { s with trace := s.trace ++ dirs.map .mkdir }) hplan name path
  rw [extract, Call.on_bind_ok hparents, Call.on_bind_ok hopen]
  exact Call.on_bind_ok (Call.on_attempt hloop)

theorem extract_fault (hlen : path.length < MAX_PATH) (hdirs : parentDirs path = none)
    (name : Bytes) (remaining : Int) (s : TarState) :
    (extract file name path remaining).on s = .error .readOverrun s := by
  have hparents := makeParents_on hlen s
  rw [hdirs] at hparents
  rw [extract, Call.on_bind_fault hparents]

theorem skip_on (remaining : Int) {s' : TarState} {r : Except MtarError Unit}
    (hloop : (dataLoop file (fun _ => pure ()) remaining.toNat remaining).on s = .ok r s') :
    (skip file remaining).on s = .ok (.ok (earlyReturn r)) s' := by
  rw [skip, Call.on_bind_ok (Call.on_attempt hloop)]
  rfl

/-- What an entry does to the files. -/
def entryFs (dst name : Bytes) (type : UInt8) (data : Bytes) (fs : FileSystem) : FileSystem :=
  if type = MTAR_TREG then fs.put (fullPath dst name) data else fs

/-- What is asked of the file system for an entry. -/
def entryCalls (dst name : Bytes) (type : UInt8) (data : Bytes) : List FileCall :=
  let path := fullPath dst name
  if type = MTAR_TREG then
    ((parentDirs path).getD []).map .mkdir ++ [.fopen name path true, .fclose path data]
  else []

/-- The directories of the entry can be made. -/
def DirsOk (dst name : Bytes) (type : UInt8) : Prop :=
  type = MTAR_TREG → (parentDirs (fullPath dst name)).isSome = true

instance (dst name : Bytes) (type : UInt8) : Decidable (DirsOk dst name type) :=
  inferInstanceAs (Decidable (_ → _))

theorem AtHeader.opened (hs : AtHeader s p) (name path : Bytes) (dirs : List Bytes) :
    AtHeader (s.opened name path dirs) p := ⟨hs.pos, hs.offset, hs.idle, hs.plan⟩

theorem AtHeader.closed (hs : AtHeader s p) (path : Bytes) : AtHeader (s.closed path) p :=
  ⟨hs.pos, hs.offset, hs.idle, hs.plan⟩

section EntryOn

variable {dst : Bytes}

/-- **An entry whose data is there is stored as a whole.** -/
theorem HeaderAt.entry_present (H : HeaderAt file p name type size) (hs : AtHeader s p)
    (hdata : Present file p size) (hdirs : DirsOk dst name type) :
    ∃ s', (untarEntry file dst name type (wrap32 size)).on s = .ok (.ok none) s' ∧
      AtHeader s' p ∧ s'.isOpen = s.isOpen ∧
      s'.fs = entryFs dst name type (dataAt file p size) s.fs ∧
      s'.trace = s.trace ++ entryCalls dst name type (dataAt file p size) := by
  unfold untarEntry entryFs entryCalls
  by_cases hreg : type = MTAR_TREG
  · obtain ⟨dirs, hsome⟩ := Option.isSome_iff_exists.mp (hdirs hreg)
    obtain ⟨s', hloop, hs', htrace, hopen, hfs⟩ := H.dataLoop_present
      (hs.opened name (fullPath dst name) dirs) hdata (stores_fwrite (fullPath dst name))
    have hput : s'.fs = s.fs.put (fullPath dst name) (dataAt file p size) := by
      rw [hfs]
      by_cases hzero : size = 0
      · simp [hzero, TarState.opened, dataAt]
      · simp [hzero, TarState.opened, appended]
    rw [if_pos hreg, if_pos hreg, if_pos hreg,
      extract_on hs.plan (fullPath_length dst name) hsome _ hloop]
    refine ⟨_, rfl, hs'.closed _, hopen, hput, ?_⟩
    simp [TarState.closed, hput, htrace, TarState.opened, hsome]
  · obtain ⟨s', hloop, hs', htrace, hopen, hfs⟩ := H.dataLoop_present hs hdata stores_nothing
    rw [if_neg hreg, if_neg hreg, if_neg hreg, skip_on _ hloop]
    refine ⟨s', rfl, hs', hopen, ?_, ?_⟩
    · rw [hfs]
      split <;> rfl
    · rw [htrace, List.append_nil]

/-- An entry without data, or of a size that is negative as an `int`, is done with at once. -/
theorem entry_none (hs : AtHeader s p) {remaining : Int} (hneg : remaining ≤ 0)
    (hdirs : DirsOk dst name type) :
    ∃ s', (untarEntry file dst name type remaining).on s = .ok (.ok none) s' ∧ AtHeader s' p := by
  unfold untarEntry
  by_cases hreg : type = MTAR_TREG
  · obtain ⟨dirs, hsome⟩ := Option.isSome_iff_exists.mp (hdirs hreg)
    have hloop := dataLoop_none file (fwrite (fullPath dst name)) remaining.toNat hneg
      (s.opened name (fullPath dst name) dirs)
    rw [if_pos hreg, extract_on hs.plan (fullPath_length dst name) hsome _ hloop]
    exact ⟨_, rfl, (hs.opened name _ dirs).closed _⟩
  · have hloop := dataLoop_none file (fun _ => pure ()) remaining.toNat hneg s
    rw [if_neg hreg, skip_on _ hloop]
    exact ⟨s, rfl, hs⟩

/-- Data that is not there makes `untar` return. -/
theorem HeaderAt.entry_absent (H : HeaderAt file p name type size) (hs : AtHeader s p)
    (hp : p < 2147483648) (hpos : 0 < size) (hsmall : size < 2147483648)
    (hdata : ¬ Present file p size) (hdirs : DirsOk dst name type) :
    ∃ ret s', (untarEntry file dst name type (wrap32 size)).on s = .ok (.ok (some ret)) s' := by
  unfold untarEntry
  by_cases hreg : type = MTAR_TREG
  · obtain ⟨dirs, hsome⟩ := Option.isSome_iff_exists.mp (hdirs hreg)
    obtain ⟨e, s', hloop, -⟩ := H.dataLoop_absent
      (hs.opened name (fullPath dst name) dirs) hp hpos hsmall hdata
      (stores_fwrite (fullPath dst name))
    rw [if_pos hreg, extract_on hs.plan (fullPath_length dst name) hsome _ hloop]
    exact ⟨_, _, rfl⟩
  · obtain ⟨e, s', hloop, -⟩ := H.dataLoop_absent hs hp hpos hsmall hdata stores_nothing
    rw [if_neg hreg, skip_on _ hloop]
    exact ⟨_, _, rfl⟩

theorem entry_fault (hdirs : ¬ DirsOk dst name type) (remaining : Int) (s : TarState) :
    (untarEntry file dst name type remaining).on s = .error .readOverrun s := by
  unfold DirsOk at hdirs
  push Not at hdirs
  obtain ⟨hreg, hnone⟩ := hdirs
  rw [untarEntry, if_pos hreg]
  exact extract_fault (fullPath_length dst name) (by simpa using hnone) name remaining s

end EntryOn

/-! ### A turn -/

/-- Where `mtar_next` goes from an entry of that size. -/
def nextPos (p size : Nat) : Nat :=
  (p + (roundUp size 512 + rawHeaderSize) % 4294967296) % 4294967296

/-- The reader believes to be at `p`, and if that can be sought the stream is there. -/
structure Heading (s : TarState) (p : Nat) : Prop where
  pos : s.pos = p
  plan : s.plan = []
  near : p < 2147483648 → AtHeader s p

theorem AtHeader.heading (hs : AtHeader s p) : Heading s p := ⟨hs.pos, hs.plan, fun _ => hs⟩

section Turn

variable {dst : Bytes}

/-- No header: that is the end, whatever the reason. -/
theorem untarTurn_end {h₀ : MtarHeader} {e : MtarError} {s₁ : TarState}
    (hread : (mtarReadHeader file h₀).on s = .ok (.error e) s₁) :
    (untarTurn file dst h₀).on s = .ok (.ok (.inr 0)) { s₁ with isOpen := false } := by
  rw [untarTurn, Call.on_bind_ok (Call.on_attempt hread)]
  rfl

theorem HeaderAt.untarTurn_on (H : HeaderAt file p name type size) (hs : AtHeader s p)
    (hp : p < 2147483648) (dst : Bytes) (h₀ : MtarHeader) :
    ∃ h s₁, AtHeader s₁ p ∧ Untouched s s₁ ∧
      (untarTurn file dst h₀).on s = Call.on (do
        match ← untarEntry file dst name type (wrap32 size) with
        | some ret => pure (.inr ret)
        | none =>
            let _ ← (mtarNext file).attempt
            pure (.inl h)) s₁ := by
  obtain ⟨h, s₁, hread, rfl, rfl, hsize, hs₁, -, hsame⟩ := H.readHeader hs hp h₀
  refine ⟨h, s₁, hs₁, hsame, ?_⟩
  rw [untarTurn, Call.on_bind_ok (Call.on_attempt hread)]
  exact Call.on_bind_ok (stored_some hsize s₁)

/-- The entry is done with, and the reader goes on to the next one. -/
theorem HeaderAt.untarTurn_next (H : HeaderAt file p name type size) (hs : AtHeader s p)
    (hp : p < 2147483648) (h₀ : MtarHeader) {Q : TarState → Prop}
    (hentry : ∀ s₁, AtHeader s₁ p → Untouched s s₁ →
      ∃ s₂, (untarEntry file dst name type (wrap32 size)).on s₁ = .ok (.ok none) s₂ ∧
        AtHeader s₂ p ∧ Q s₂) :
    ∃ h s₂ s', (untarTurn file dst h₀).on s = .ok (.ok (.inl h)) s' ∧ Q s₂ ∧ Untouched s₂ s' ∧
      Heading s' (nextPos p size) := by
  obtain ⟨h, s₁, hs₁, hsame, hturn⟩ := H.untarTurn_on hs hp dst h₀
  obtain ⟨s₂, hdone, hs₂, hq⟩ := hentry s₁ hs₁ hsame
  obtain ⟨r, s', hnext, hsame', hpos, hnear⟩ := H.next hs₂ hp
  refine ⟨h, s₂, s', ?_, hq, hsame', hpos, hsame'.plan.trans hs₂.plan, ?_⟩
  · rw [hturn, Call.on_bind_ok hdone]
    simp only
    rw [Call.on_bind_ok (Call.on_attempt hnext)]
    rfl
  · intro hlt
    have hat := hnear (by rw [hpos]; exact hlt)
    rwa [hpos] at hat

theorem HeaderAt.untarTurn_early (H : HeaderAt file p name type size) (hs : AtHeader s p)
    (hp : p < 2147483648) (h₀ : MtarHeader)
    (hentry : ∀ s₁, AtHeader s₁ p → Untouched s s₁ →
      ∃ ret s₂, (untarEntry file dst name type (wrap32 size)).on s₁ = .ok (.ok (some ret)) s₂) :
    ∃ ret s', (untarTurn file dst h₀).on s = .ok (.ok (.inr ret)) s' := by
  obtain ⟨h, s₁, hs₁, hsame, hturn⟩ := H.untarTurn_on hs hp dst h₀
  obtain ⟨ret, s₂, hdone⟩ := hentry s₁ hs₁ hsame
  refine ⟨ret, s₂, ?_⟩
  rw [hturn, Call.on_bind_ok hdone]
  rfl

theorem HeaderAt.untarTurn_fault (H : HeaderAt file p name type size) (hs : AtHeader s p)
    (hp : p < 2147483648) (h₀ : MtarHeader) (hdirs : ¬ DirsOk dst name type) :
    ∃ s', (untarTurn file dst h₀).on s = .error .readOverrun s' := by
  obtain ⟨h, s₁, hs₁, hsame, hturn⟩ := H.untarTurn_on hs hp dst h₀
  refine ⟨s₁, ?_⟩
  rw [hturn, Call.on_bind_fault (entry_fault hdirs _ s₁)]

/-- **One turn stores an entry and leads to the next header.** -/
theorem HeaderAt.untarTurn_present (H : HeaderAt file p name type size) (hs : AtHeader s p)
    (hdata : Present file p size) (hdirs : DirsOk dst name type) (h₀ : MtarHeader) :
    ∃ h s', (untarTurn file dst h₀).on s = .ok (.ok (.inl h)) s' ∧
      Heading s' (nextPos p size) ∧ s'.isOpen = s.isOpen ∧
      s'.fs = entryFs dst name type (dataAt file p size) s.fs ∧
      s'.trace = s.trace ++ entryCalls dst name type (dataAt file p size) := by
  have hp : p < 2147483648 := by
    have := hdata.near
    omega
  have hentry : ∀ s₁, AtHeader s₁ p → Untouched s s₁ →
      ∃ s₂, (untarEntry file dst name type (wrap32 size)).on s₁ = .ok (.ok none) s₂ ∧
        AtHeader s₂ p ∧ s₂.isOpen = s.isOpen ∧
        s₂.fs = entryFs dst name type (dataAt file p size) s.fs ∧
        s₂.trace = s.trace ++ entryCalls dst name type (dataAt file p size) := by
    intro s₁ hs₁ hsame
    obtain ⟨s₂, hdone, hs₂, hopen, hfs, htrace⟩ := H.entry_present hs₁ hdata hdirs
    rw [hsame.isOpen] at hopen
    rw [hsame.fs] at hfs
    rw [hsame.trace] at htrace
    exact ⟨s₂, hdone, hs₂, hopen, hfs, htrace⟩
  obtain ⟨h, s₂, s', hturn, ⟨hopen, hfs, htrace⟩, hsame, hhead⟩ := H.untarTurn_next hs hp h₀ hentry
  exact ⟨h, s', hturn, hhead, hsame.isOpen.trans hopen, hsame.fs.trans hfs,
    hsame.trace.trans htrace⟩

end Turn

end Entry

/-! ### A whole archive -/

/-- What `untar` takes from the archive. -/
structure TarEntry where
  name : Bytes
  type : UInt8
  data : Bytes
deriving DecidableEq

/-- The size with the padding. -/
def padded (size : Nat) : Nat := size + (512 - size % 512) % 512

/-- Nothing more is to be read at `p`: the archive ends there, or there is a null record. -/
def EndAt (file : Bytes) (p : Nat) : Prop :=
  file.length ≤ p ∨ p + rawHeaderSize ≤ file.length ∧ (recordAt file p).getD offChecksum 0 = 0

instance (file : Bytes) (p : Nat) : Decidable (EndAt file p) :=
  inferInstanceAs (Decidable (_ ∨ _ ∧ _))

/-- From `p` on the archive holds these entries, each with all its data, and ends at `q`. -/
inductive Intact (file : Bytes) : Nat → List TarEntry → Nat → Prop where
  | done {p : Nat} : EndAt file p → Intact file p [] p
  | entry {p size q : Nat} {name : Bytes} {type : UInt8} {rest : List TarEntry} :
      HeaderAt file p name type size → p + rawHeaderSize + size ≤ file.length →
      Intact file (p + rawHeaderSize + padded size) rest q →
      Intact file p (⟨name, type, dataAt file p size⟩ :: rest) q

/-- What the entries do to the files. -/
def entriesFs (dst : Bytes) (entries : List TarEntry) (fs : FileSystem) : FileSystem :=
  entries.foldl (fun fs e => entryFs dst e.name e.type e.data fs) fs

/-- What is asked of the file system for all entries. -/
def entriesCalls (dst : Bytes) (entries : List TarEntry) : List FileCall :=
  entries.flatMap fun e => entryCalls dst e.name e.type e.data

/-- Without wraparound `mtar_next` goes to the end of the padding. -/
theorem nextPos_padded {p size : Nat} (h : p + rawHeaderSize + size < 2147483648) :
    nextPos p size = p + rawHeaderSize + padded size := by
  unfold rawHeaderSize at h
  unfold nextPos roundUp padded rawHeaderSize
  omega

section Run

variable {file dst : Bytes}

/-- Where there is nothing to be read, the loop ends. -/
theorem untarLoop_end {s : TarState} {p : Nat} (hs : Heading s p) (hend : EndAt file p)
    (dst : Bytes) (turns : Nat) (h₀ : MtarHeader) :
    ∃ s', (untarLoop file dst (turns + 1) h₀).on s = .ok (.ok (some 0)) s' ∧ s'.isOpen = false ∧
      s'.lastHeader = p ∧ s'.fs = s.fs ∧ s'.trace = s.trace := by
  have hread : ∃ e s₁, (mtarReadHeader file h₀).on s = .ok (.error e) s₁ ∧ s₁.lastHeader = p ∧
      Untouched s s₁ := by
    by_cases hfar : 2147483648 ≤ p
    · rw [← hs.pos] at hfar ⊢
      exact mtarReadHeader_far hs.plan hfar h₀
    · have hat := hs.near (by omega)
      rcases hend with heof | ⟨hin, hnull⟩
      · have hgone : file.length < s.offset + rawHeaderSize := by
          rw [hat.offset]
          unfold rawHeaderSize
          omega
        rw [← hs.pos]
        exact mtarReadHeader_short hs.plan hgone h₀
      · obtain ⟨s₁, -, hlast, hsame, hraw⟩ := mtarReadHeader_raw hat (by omega) hin h₀
        rw [rawToHeader, if_pos hnull] at hraw
        exact ⟨_, s₁, hraw, hlast, hsame⟩
  obtain ⟨e, s₁, hread, hlast, hsame⟩ := hread
  refine ⟨{ s₁ with isOpen := false }, ?_, rfl, hlast, hsame.fs, hsame.trace⟩
  rw [untarLoop, Call.on_bind_ok (untarTurn_end hread)]
  rfl

/-- **The loop over an archive in which nothing is missing.**  It can only fail to make a
directory. -/
theorem untarLoop_intact (dst : Bytes) (hlen : file.length < 2147483648) {p q : Nat}
    {entries : List TarEntry} (hintact : Intact file p entries q) :
    ∀ (turns : Nat) (h₀ : MtarHeader) (s : TarState), entries.length ≤ turns → Heading s p →
      (∃ s', (untarLoop file dst (turns + 1) h₀).on s = .ok (.ok (some 0)) s' ∧
        s'.isOpen = false ∧ s'.lastHeader = q ∧ s'.fs = entriesFs dst entries s.fs ∧
        s'.trace = s.trace ++ entriesCalls dst entries) ∨
      ((∃ e ∈ entries, ¬ DirsOk dst e.name e.type) ∧
        ∃ s', (untarLoop file dst (turns + 1) h₀).on s = .error .readOverrun s') := by
  induction hintact with
  | done hend =>
      intro turns h₀ s _ hs
      obtain ⟨s', hrun, hclosed, hlast, hfs, htrace⟩ := untarLoop_end hs hend dst turns h₀
      exact .inl ⟨s', hrun, hclosed, hlast, hfs, htrace.trans (List.append_nil _).symm⟩
  | @entry p size q name type rest H hin _ ih =>
      intro turns h₀ s hturns hs
      have hat := hs.near (by omega)
      by_cases hdirs : DirsOk dst name type
      · obtain ⟨h, s₁, hturn, hhead, hopen, hfs, htrace⟩ :=
          H.untarTurn_present hat ⟨by omega, by omega, hin⟩ hdirs h₀
        rw [nextPos_padded (by omega)] at hhead
        rw [List.length_cons] at hturns
        obtain ⟨more, rfl⟩ : ∃ more, turns = more + 1 := ⟨turns - 1, by omega⟩
        have hstep : (untarLoop file dst (more + 1 + 1) h₀).on s
            = (untarLoop file dst (more + 1) h).on s₁ := by
          rw [untarLoop, Call.on_bind_ok hturn]
        rw [hstep]
        rcases ih more h s₁ (by omega) hhead with
          ⟨s', hrun, hclosed, hlast, hfs', htrace'⟩ | ⟨⟨e, he, hno⟩, s', hrun⟩
        · refine .inl ⟨s', hrun, hclosed, hlast, ?_, ?_⟩
          · rw [hfs', hfs]
            rfl
          · rw [htrace', htrace, List.append_assoc]
            rfl
        · exact .inr ⟨⟨e, List.mem_cons_of_mem _ he, hno⟩, s', hrun⟩
      · obtain ⟨s', hturn⟩ := H.untarTurn_fault hat (by omega) h₀ hdirs
        refine .inr ⟨⟨_, List.mem_cons_self, hdirs⟩, s', ?_⟩
        rw [untarLoop, Call.on_bind_fault hturn]

/-- A loop that has returned stays so. -/
theorem untarLoop_more {ret : Int} {s' : TarState} (k : Nat) :
    ∀ (turns : Nat) (h₀ : MtarHeader) (s : TarState),
      (untarLoop file dst turns h₀).on s = .ok (.ok (some ret)) s' →
      (untarLoop file dst (turns + k) h₀).on s = .ok (.ok (some ret)) s' := by
  intro turns
  induction turns with
  | zero =>
      intro h₀ s h
      cases h
  | succ turns ih =>
      intro h₀ s h
      rw [Nat.add_right_comm, untarLoop]
      rw [untarLoop] at h
      cases hturn : (untarTurn file dst h₀).on s with
      | error f t =>
          rw [Call.on_bind_fault hturn] at h
          cases h
      | ok r t =>
          cases r with
          | error e =>
              rw [Call.on_bind_error hturn] at h
              cases h
          | ok next =>
              rw [Call.on_bind_ok hturn] at h ⊢
              cases next with
              | inl h₁ => exact ih h₁ t h
              | inr v => exact h

end Run

/-! ### Whatever the calls come back with -/

/-- A property of all that is done with an entry, but for opening a file. -/
structure EntryCalls (C : ∀ α : Type, TarCall α → Prop) : Prop extends ReaderCalls C where
  noDirectory : ∀ {α : Type}, C α (Call.fault .readOverrun)
  files : ∀ g : TarState → FileSystem, C _ (modify fun s => { s with fs := g s })
  mkdir : ∀ dir, C _ (mkdir dir)
  fclose : ∀ path, C _ (fclose path)

/-- The property holds of opening the file of the entry. -/
def AtOpening (C : ∀ α : Type, TarCall α → Prop) (dst name : Bytes) : Prop :=
  ∀ opened (g : TarState → FileSystem), C _ (modify fun s => { s with
    fs := g s
    trace := s.trace ++ [.fopen name (fullPath dst name) opened] })

namespace EntryCalls

variable {C : ∀ α : Type, TarCall α → Prop} (hC : EntryCalls C) (file : Bytes)

include hC

theorem makeParents (path : Bytes) : C _ (makeParents path) := by
  have hall : ∀ dirs : List Bytes, C _ (dirs.forM EleDs.mkdir) := by
    intro dirs
    induction dirs with
    | nil => exact hC.value _
    | cons dir rest ih => exact hC.bind (hC.mkdir dir) fun _ => ih
  unfold EleDs.makeParents
  split
  · unfold mkdirRecursive
    simp only
    split
    · exact hC.bind hC.noDirectory fun _ => hC.bind (hall _) fun _ => hC.mkdir _
    · exact hC.bind (hall _) fun _ => hC.mkdir _
  · exact hC.value _

/-- The loop does not run out of its fuel, as every turn makes less of what remains. -/
theorem dataLoop {piece : Bytes → TarCall Unit} (hpiece : ∀ d, C _ (piece d)) :
    ∀ (fuel : Nat) (remaining : Int), remaining.toNat ≤ fuel →
      C _ (dataLoop file piece fuel remaining) := by
  intro fuel
  induction fuel with
  | zero =>
      intro remaining hfuel
      rw [EleDs.dataLoop, if_neg (by omega)]
      exact hC.value _
  | succ fuel ih =>
      intro remaining hfuel
      rw [EleDs.dataLoop]
      split
      · refine hC.bind (hC.mtarReadData file _) fun data => hC.bind (hpiece data) fun _ => ih _ ?_
        split <;> omega
      · exact hC.value _

/-- All that is done with a file that is open. -/
theorem store (path : Bytes) (remaining : Int) : C _ (do
    let r ← (EleDs.dataLoop file (fwrite path) remaining.toNat remaining).attempt
    EleDs.fclose path
    pure (earlyReturn r)) := by
  have hwrite : ∀ d, C _ (fwrite path d) := fun d =>
    hC.bind hC.nextOutcome fun o => hC.files _
  refine hC.bind (hC.attempt (hC.dataLoop file hwrite _ _ (Nat.le_refl _))) fun r => ?_
  exact hC.bind (hC.fclose _) fun _ => hC.value _

theorem untarEntry {dst name : Bytes} {type : UInt8}
    (hopen : type = MTAR_TREG → AtOpening C dst name) (remaining : Int) :
    C _ (untarEntry file dst name type remaining) := by
  unfold EleDs.untarEntry
  split
  · rename_i hreg
    have hfopen : C _ (fopenWb name (fullPath dst name)) := by
      refine hC.bind hC.nextOutcome fun o => ?_
      exact hC.bind (hopen hreg _ _) fun _ => hC.value _
    refine hC.bind (hC.makeParents _) fun _ => hC.bind hfopen fun opened => ?_
    split
    · exact hC.store file _ _
    · exact hC.value _
  · have hnothing : ∀ d : Bytes, C _ (pure () : TarCall Unit) := fun _ => hC.value _
    refine hC.bind (hC.attempt (hC.dataLoop file hnothing _ _ (Nat.le_refl _))) fun r => ?_
    exact hC.value _

end EntryCalls

/-- `P` says nothing about the reader, the files and the calls that open none. -/
structure EntryBlind (P : TarState → Prop) : Prop where
  reader : ∀ s pos rem last offset plan, P s → P { s with
    pos := pos, remainingData := rem, lastHeader := last, offset := offset, plan := plan }
  files : ∀ s fs, P s → P { s with fs := fs }
  mkdir : ∀ s dir, P s → P { s with trace := s.trace ++ [.mkdir dir] }
  fclose : ∀ s path content, P s → P { s with trace := s.trace ++ [.fclose path content] }

theorem EntryBlind.keeps {P : TarState → Prop} (hP : EntryBlind P) :
    EntryCalls fun _ x => Call.Keeps P x where
  toCompositional := Call.keeps_compositional P
  own := by
    intro g hg s hs
    obtain ⟨pos, rem, last, offset, plan, hown⟩ := hg s
    have hkept := hP.reader s pos rem last offset plan hs
    rw [← hown] at hkept
    exact hkept
  unset := Call.Keeps.broken _
  raw h rh := Call.Keeps.lift _
  noDirectory := Call.Keeps.broken _
  files g := Call.Keeps.change fun s hs => hP.files s _ hs
  mkdir dir := Call.Keeps.change fun s hs => hP.mkdir s dir hs
  fclose path := Call.Keeps.change fun s hs => hP.fclose s path _ hs

/-- There is a block in the archive that is read as this header. -/
def Block (file : Bytes) (h : MtarHeader) : Prop :=
  ∃ p h₀, p + rawHeaderSize ≤ file.length ∧ rawToHeader h₀ (recordAt file p) = .ok (.ok h)

/-- A property of all that unpacking is made of, but for opening the files. -/
structure UntarCalls (C : ∀ α : Type, TarCall α → Prop) : Prop extends EntryCalls C where
  isOpen : ∀ b, C _ (modify fun s => { s with isOpen := b })

namespace UntarCalls

variable {C : ∀ α : Type, TarCall α → Prop} (hC : UntarCalls C) {file dst : Bytes}
  (hopen : ∀ h, Block file h → h.type = MTAR_TREG → AtOpening C dst h.name.str)

include hC hopen

theorem untarTurn (h₀ : MtarHeader) : C _ (untarTurn file dst h₀) := by
  refine hC.bind_returned (hC.attempt (hC.mtarReadHeader file h₀)) fun s r s' hread => ?_
  cases r with
  | error e => exact hC.bind (hC.isOpen false) fun _ => hC.value _
  | ok h =>
      have hblock : Block file h := by
        obtain ⟨p, hin, hraw⟩ := mtarReadHeader_returns (Call.attempt_returns hread)
        exact ⟨p, h₀, hin, hraw⟩
      refine hC.bind (hC.stored _) fun size => ?_
      refine hC.bind (hC.untarEntry file (hopen h hblock) _) fun early => ?_
      cases early with
      | some ret => exact hC.value _
      | none => exact hC.bind (hC.attempt (hC.mtarNext file)) fun _ => hC.value _

theorem untarLoop (turns : Nat) : ∀ h₀, C _ (untarLoop file dst turns h₀) := by
  induction turns with
  | zero => exact fun h₀ => hC.value _
  | succ turns ih =>
      intro h₀
      refine hC.bind (hC.untarTurn hopen h₀) fun next => ?_
      cases next with
      | inl h => exact ih h
      | inr ret => exact hC.value _

omit hopen in
theorem mtarOpen (file : Bytes) : C _ (mtarOpen file) := by
  refine hC.bind (hC.own fun s => ⟨_, _, _, _, s.plan, rfl⟩) fun _ => ?_
  refine hC.bind hC.nextOutcome fun o => ?_
  cases o with
  | bad n => exact hC.error _
  | good =>
      refine hC.bind (hC.isOpen true) fun _ => ?_
      refine hC.bind (hC.attempt (hC.mtarReadHeader file _)) fun r => ?_
      cases r with
      | ok h => exact hC.value _
      | error e => exact hC.bind (hC.isOpen false) fun _ => hC.error _

theorem untarFile (turns : Nat) : C _ (untarFile file dst turns) := by
  refine hC.bind (hC.attempt (hC.mtarOpen file)) fun r => ?_
  cases r with
  | error e => exact hC.value _
  | ok _ => exact hC.untarLoop hopen turns _

end UntarCalls

end EleDs
