/-
When `mtar_open` gets through, and what a result of `untar` says.

Opening an archive takes three calls and a header at its start (`mtarOpen_cases`).  After that
`untar` returns zero only from the end of its loop, where it closes the archive, and anything
else from the middle of it, where it does not (`untarLoop_closed`).  The end of the loop is any
failure to read a header, so a zero means that everything was stored for archives in which
nothing is missing and calls that all succeed (`untar_honest`).
-/
import EleDs.Proofs.Untar

namespace EleDs

open CMem Calls

/-! ### Opening -/

/-- The archive starts with a header. -/
def FirstHeader (file : Bytes) : Prop :=
  rawHeaderSize ≤ file.length ∧ ∃ h, rawToHeader .fresh (recordAt file 0) = .ok (.ok h)

/-- `mtar_open` does not get through: one of its three calls fails, or there is no header. -/
def Refused (file : Bytes) (plan : List CallOutcome) : Prop :=
  (∃ o ∈ plan.take 3, o ≠ .good) ∨ ¬ FirstHeader file

theorem refused_of_bad {file : Bytes} {plan : List CallOutcome}
    (h : plan.headD .good ≠ .good ∨ plan.tail.headD .good ≠ .good ∨
      plan.tail.tail.headD .good ≠ .good) : Refused file plan := by
  left
  rcases plan with _ | ⟨a, _ | ⟨b, _ | ⟨c, rest⟩⟩⟩ <;> simp_all

theorem not_refused {file : Bytes} {plan : List CallOutcome} (h₁ : plan.headD .good = .good)
    (h₂ : plan.tail.headD .good = .good) (h₃ : plan.tail.tail.headD .good = .good)
    (hfirst : FirstHeader file) : ¬ Refused file plan := by
  rintro (⟨o, ho, hbad⟩ | hno)
  · rcases plan with _ | ⟨a, _ | ⟨b, _ | ⟨c, rest⟩⟩⟩ <;> simp_all
  · exact hno hfirst

/-- The header at the start, when any of the calls may fail. -/
theorem mtarReadHeader_first (file : Bytes) {s : TarState} (hpos : s.pos = 0)
    (hoff : s.offset = 0) :
    (∃ e s', (mtarReadHeader file .fresh).on s = .ok (.error e) s') ∧
      (s.plan.headD .good ≠ .good ∨ s.plan.tail.headD .good ≠ .good ∨ ¬ FirstHeader file) ∨
    (∃ f s', (mtarReadHeader file .fresh).on s = .error f s') ∧ ¬ FirstHeader file ∨
    (∃ h, (mtarReadHeader file .fresh).on s = .ok (.ok h)
        { s with plan := s.plan.tail.tail, lastHeader := 0, offset := 0, pos := 0 }) ∧
      s.plan.headD .good = .good ∧ s.plan.tail.headD .good = .good ∧ FirstHeader file := by
  obtain ⟨pos, rem, last, offset, isOpen, fs, trace, plan⟩ := s
  simp only at hpos hoff
  subst pos offset
  rw [mtarReadHeader, Call.on_bind_ok (Call.on_modify _ _)]
  by_cases hread : plan.headD .good = .good ∧ rawHeaderSize ≤ file.length
  · obtain ⟨hgood, hin⟩ := hread
    have hthere : 0 + rawHeaderSize ≤ file.length := by omega
    rw [Call.on_bind_ok (tread_goes (s := ⟨0, rem, 0, 0, isOpen, fs, trace, plan⟩) hgood hthere),
      Call.on_bind_ok (Call.on_get _)]
    by_cases hseek : plan.tail.headD .good = .good
    · have hback := mtarSeek_goes (s := ⟨(0 + rawHeaderSize) % 4294967296, rem, 0,
        0 + rawHeaderSize, isOpen, fs, trace, plan.tail⟩) hseek (show 0 < 2147483648 by decide)
      rw [Call.on_bind_ok hback]
      rcases rawToHeader_cases (recordAt file 0) with ⟨f, hf⟩ | ⟨e, he⟩ | hall
      · have hno : ¬ FirstHeader file := by
          rintro ⟨-, h, hh⟩
          rw [hf] at hh
          cases hh
        have hraw : rawToHeader .fresh ((file.drop 0).take rawHeaderSize) = .error f := hf .fresh
        rw [hraw]
        exact .inr (.inl ⟨⟨f, _, Call.on_bind_fault (Call.on_fault _ _)⟩, hno⟩)
      · have hno : ¬ FirstHeader file := by
          rintro ⟨-, h, hh⟩
          rw [he] at hh
          cases hh
        have hraw : rawToHeader .fresh ((file.drop 0).take rawHeaderSize) = .ok (.error e) :=
          he .fresh
        rw [hraw]
        exact .inl ⟨⟨e, _, rfl⟩, .inr (.inr hno)⟩
      · obtain ⟨h, hh, -⟩ := hall .fresh
        have hraw : rawToHeader .fresh ((file.drop 0).take rawHeaderSize) = .ok (.ok h) := hh
        rw [hraw]
        exact .inr (.inr ⟨⟨h, rfl⟩, hgood, hseek, hin, h, hh⟩)
    · obtain ⟨s', hfail⟩ := mtarSeek_fails (s := ⟨(0 + rawHeaderSize) % 4294967296, rem, 0,
        0 + rawHeaderSize, isOpen, fs, trace, plan.tail⟩) hseek 0
      exact .inl ⟨⟨_, s', Call.on_bind_error hfail⟩, .inr (.inl hseek)⟩
  · have hwhy : plan.headD .good ≠ .good ∨ file.length < 0 + rawHeaderSize := by
      by_cases hgood : plan.headD .good = .good
      · refine .inr ?_
        by_contra hc
        exact hread ⟨hgood, by omega⟩
      · exact .inl hgood
    obtain ⟨s', hfail⟩ := tread_fails (s := ⟨0, rem, 0, 0, isOpen, fs, trace, plan⟩)
      (by decide) hwhy
    refine .inl ⟨⟨_, s', Call.on_bind_error hfail⟩, ?_⟩
    rcases hwhy with hbad | hshort
    · exact .inl hbad
    · refine .inr (.inr fun hfirst => ?_)
      have := hfirst.1
      omega

/-- The archive is open, and the reader at its start. -/
structure Opened (s s' : TarState) : Prop where
  pos : s'.pos = 0
  offset : s'.offset = 0
  idle : s'.remainingData = 0
  plan : s'.plan = s.plan.tail.tail.tail
  fs : s'.fs = s.fs
  trace : s'.trace = s.trace
  isOpen : s'.isOpen = true

theorem Opened.atHeader {fs : FileSystem} {s : TarState} (h : Opened (.before fs []) s) :
    AtHeader s 0 := ⟨h.pos, h.offset, h.idle, h.plan⟩

/-- **`mtar_open` gets through unless it is refused, and is closed again if not.** -/
theorem mtarOpen_cases (file : Bytes) {s : TarState} (hs : s.isOpen = false) :
    (∃ e s', (mtarOpen file).on s = .ok (.error e) s' ∧ s'.isOpen = false) ∧ Refused file s.plan ∨
    (∃ f s', (mtarOpen file).on s = .error f s') ∧ Refused file s.plan ∨
    (∃ s', (mtarOpen file).on s = .ok (.ok ()) s' ∧ Opened s s') ∧ ¬ Refused file s.plan := by
  obtain ⟨pos, rem, last, offset, isOpen, fs, trace, plan⟩ := s
  simp only at hs
  subst isOpen
  have hnext : nextOutcome.on ⟨0, 0, 0, 0, false, fs, trace, plan⟩
      = .ok (.ok (plan.headD .good)) ⟨0, 0, 0, 0, false, fs, trace, plan.tail⟩ := rfl
  rw [mtarOpen, Call.on_bind_ok (Call.on_modify _ _), Call.on_bind_ok hnext]
  cases hfopen : plan.headD .good with
  | bad n =>
      have hbad : Refused file plan := refused_of_bad (.inl (by rw [hfopen]; simp))
      exact .inl ⟨⟨_, _, rfl, rfl⟩, hbad⟩
  | good =>
      simp only
      rw [Call.on_bind_ok (Call.on_modify _ _)]
      rcases mtarReadHeader_first file (s := ⟨0, 0, 0, 0, true, fs, trace, plan.tail⟩) rfl rfl with
        ⟨⟨e, s', hread⟩, hwhy⟩ | ⟨⟨f, s', hread⟩, hwhy⟩ | ⟨⟨h, hread⟩, hgood, hseek, hfirst⟩
      · refine .inl ⟨⟨e, { s' with isOpen := false }, ?_, rfl⟩, ?_⟩
        · rw [Call.on_bind_ok (Call.on_attempt hread)]
          rfl
        · rcases hwhy with hbad | hbad | hno
          · exact refused_of_bad (.inr (.inl hbad))
          · exact refused_of_bad (.inr (.inr hbad))
          · exact .inr hno
      · refine .inr (.inl ⟨⟨f, s', ?_⟩, .inr hwhy⟩)
        rw [Call.on_bind_fault (Call.on_attempt_fault hread)]
      · refine .inr (.inr ⟨⟨⟨0, 0, 0, 0, true, fs, trace, plan.tail.tail.tail⟩, ?_,
          ⟨rfl, rfl, rfl, rfl, rfl, rfl, rfl⟩⟩, not_refused hfopen hgood hseek hfirst⟩)
        rw [Call.on_bind_ok (Call.on_attempt hread)]
        rfl

/-! ### Closing -/

theorem entryBlind_isOpen (b : Bool) : EntryBlind fun s => s.isOpen = b where
  reader := fun _ _ _ _ _ _ h => h
  files := fun _ _ h => h
  mkdir := fun _ _ h => h
  fclose := fun _ _ _ h => h

/-- A call that returns leaves the archive as open as it was. -/
theorem Keeps.isOpen {α : Type} {x : TarCall α} {s s' : TarState} {r : Except MtarError α}
    (hx : Call.Keeps (fun t => t.isOpen = true) x) (hs : s.isOpen = true)
    (h : x.on s = .ok r s') : s'.isOpen = true := by
  have hleft := hx s hs
  rwa [h] at hleft

theorem code_ne_zero (e : MtarError) : e.code ≠ 0 := by
  cases e <;> decide

/-- What `untarEntry` returns early is not zero. -/
theorem untarEntry_ret {file dst name : Bytes} {type : UInt8} {remaining ret : Int}
    {s s' : TarState}
    (h : (untarEntry file dst name type remaining).on s = .ok (.ok (some ret)) s') : ret ≠ 0 := by
  have hearly : ∀ {r : Except MtarError Unit}, earlyReturn r = some ret → ret ≠ 0 := by
    intro r hr
    cases r with
    | ok _ => cases hr
    | error e =>
        cases hr
        exact code_ne_zero e
  unfold untarEntry at h
  split at h
  · obtain ⟨_, s₁, -, h⟩ := Call.bind_returns h
    obtain ⟨opened, s₂, -, h⟩ := Call.bind_returns h
    split at h
    · obtain ⟨r, s₃, -, h⟩ := Call.bind_returns h
      obtain ⟨_, s₄, -, h⟩ := Call.bind_returns h
      rw [Call.on_pure] at h
      injection h with h
      injection h with h
      exact hearly h
    · rw [Call.on_pure] at h
      injection h with h
      injection h with h
      cases h
      decide
  · obtain ⟨r, s₁, -, h⟩ := Call.bind_returns h
    rw [Call.on_pure] at h
    injection h with h
    injection h with h
    exact hearly h

/-- One turn goes on or returns early with the archive open, or ends the loop and closes it. -/
theorem untarTurn_closed {file dst : Bytes} {h₀ : MtarHeader} {s s' : TarState}
    {r : MtarHeader ⊕ Int} (hs : s.isOpen = true)
    (h : (untarTurn file dst h₀).on s = .ok (.ok r) s') :
    match r with
    | .inl _ => s'.isOpen = true
    | .inr ret => ret = 0 ∧ s'.isOpen = false ∨ ret ≠ 0 ∧ s'.isOpen = true := by
  have hkeeps := (entryBlind_isOpen true).keeps
  obtain ⟨read, s₁, hread, h⟩ := Call.bind_returns h
  have hs₁ := Keeps.isOpen (hkeeps.attempt (hkeeps.mtarReadHeader file h₀)) hs hread
  cases read with
  | error e =>
      cases h
      exact .inl ⟨rfl, rfl⟩
  | ok hd =>
      obtain ⟨size, s₂, hsize, h⟩ := Call.bind_returns h
      have hs₂ := Keeps.isOpen (hkeeps.stored hd.size) hs₁ hsize
      obtain ⟨early, s₃, hentry, h⟩ := Call.bind_returns h
      have hopens : hd.type = MTAR_TREG →
          AtOpening (fun _ x => Call.Keeps (fun t => t.isOpen = true) x) dst hd.name.str :=
        fun _ _ _ => Call.Keeps.change fun _ h => h
      have hs₃ := Keeps.isOpen (hkeeps.untarEntry file hopens (wrap32 size)) hs₂ hentry
      cases early with
      | some ret =>
          cases h
          exact .inr ⟨untarEntry_ret hentry, hs₃⟩
      | none =>
          obtain ⟨_, s₄, hnext, h⟩ := Call.bind_returns h
          have hs₄ := Keeps.isOpen (hkeeps.attempt (hkeeps.mtarNext file)) hs₃ hnext
          cases h
          exact hs₄

/-- **The loop returns zero and closes the archive, or neither.** -/
theorem untarLoop_closed {file dst : Bytes} {ret : Int} {s' : TarState} :
    ∀ {turns : Nat} {h₀ : MtarHeader} {s : TarState}, s.isOpen = true →
      (untarLoop file dst turns h₀).on s = .ok (.ok (some ret)) s' →
      ret = 0 ∧ s'.isOpen = false ∨ ret ≠ 0 ∧ s'.isOpen = true := by
  intro turns
  induction turns with
  | zero =>
      intro h₀ s _ h
      cases h
  | succ turns ih =>
      intro h₀ s hs h
      obtain ⟨r, mid, hturn, h⟩ := Call.bind_returns h
      have hclosed := untarTurn_closed hs hturn
      cases r with
      | inl hd => exact ih hclosed h
      | inr v =>
          cases h
          exact hclosed

/-! ### What a result says -/

/-- The files that were closed, with what they held. -/
def storedFiles (trace : List FileCall) : List (Bytes × Bytes) :=
  trace.filterMap fun
    | .fclose path content => some (path, content)
    | _ => none

/-- The files an archive stands for. -/
def regularFiles (dst : Bytes) (entries : List TarEntry) : List (Bytes × Bytes) :=
  (entries.filter (·.type = MTAR_TREG)).map fun e => (fullPath dst e.name, e.data)

/-- A result of zero means that the loop has come to the end of the archive and every regular
entry was stored with all its data, and after any result the archive is closed. -/
structure Honest (fs : FileSystem) (tarPath dst : Bytes) (ret : Int) (s' : TarState) : Prop where
  complete : ret = 0 → ∃ file entries q, fs.get tarPath = some file ∧ Intact file 0 entries q ∧
    s'.lastHeader = q ∧ storedFiles s'.trace = regularFiles dst entries
  closed : s'.isOpen = false

/-- `mtar_open` does not get through. -/
def RefusedAt (fs : FileSystem) (tarPath : Bytes) (plan : List CallOutcome) : Prop :=
  ∀ file, fs.get tarPath = some file → Refused file plan

theorem storedFiles_append (a b : List FileCall) :
    storedFiles (a ++ b) = storedFiles a ++ storedFiles b := List.filterMap_append

theorem storedFiles_mkdirs (dirs : List Bytes) : storedFiles (dirs.map .mkdir) = [] := by
  simp [storedFiles, List.filterMap_map, Function.comp]

theorem storedFiles_entries (dst : Bytes) (entries : List TarEntry) :
    storedFiles (entriesCalls dst entries) = regularFiles dst entries := by
  induction entries with
  | nil => rfl
  | cons e rest ih =>
      rw [entriesCalls, List.flatMap_cons, storedFiles_append, ← entriesCalls, ih, entryCalls]
      by_cases hreg : e.type = MTAR_TREG
      · rw [if_pos hreg, storedFiles_append, storedFiles_mkdirs]
        simp [regularFiles, hreg, storedFiles]
      · rw [if_neg hreg]
        simp [regularFiles, hreg, storedFiles]

theorem untar_none {fs : FileSystem} {tarPath : Bytes} (h : fs.get tarPath = none) (dst : Bytes)
    (plan : List CallOutcome) (turns : Nat) :
    (untar tarPath dst turns).on (.before fs plan)
      = .ok (.ok (some MtarError.openFail.code)) (.before fs plan) := by
  have hfs : (TarState.before fs plan).fs = fs := rfl
  rw [untar, Call.on_bind_ok (Call.on_get _), hfs, h]
  rfl

theorem untar_some {fs : FileSystem} {tarPath file : Bytes} (h : fs.get tarPath = some file)
    (dst : Bytes) (plan : List CallOutcome) (turns : Nat) :
    (untar tarPath dst turns).on (.before fs plan)
      = (untarFile file dst turns).on (.before fs plan) := by
  have hfs : (TarState.before fs plan).fs = fs := rfl
  rw [untar, Call.on_bind_ok (Call.on_get _), hfs, h]

/-- A run that gets past the opening is one of the loop. -/
theorem untar_returns {fs : FileSystem} {tarPath dst : Bytes} {plan : List CallOutcome}
    {turns : Nat} {ret : Int} {s' : TarState}
    (hrun : (untar tarPath dst turns).on (.before fs plan) = .ok (.ok (some ret)) s') :
    ret ≠ 0 ∧ s'.isOpen = false ∧ RefusedAt fs tarPath plan ∨
    ∃ file s, fs.get tarPath = some file ∧ ¬ Refused file plan ∧ Opened (.before fs plan) s ∧
      (untarLoop file dst turns .fresh).on s = .ok (.ok (some ret)) s' := by
  cases hfile : fs.get tarPath with
  | none =>
      rw [untar_none hfile] at hrun
      cases hrun
      refine .inl ⟨by decide, rfl, ?_⟩
      intro file hsome
      rw [hfile] at hsome
      cases hsome
  | some file =>
      rw [untar_some hfile, untarFile] at hrun
      rcases mtarOpen_cases file (s := .before fs plan) rfl with
        ⟨⟨e, s, hopen, hclosed⟩, hrefused⟩ | ⟨⟨f, s, hopen⟩, -⟩ | ⟨⟨s, hopen, hopened⟩, hnot⟩
      · rw [Call.on_bind_ok (Call.on_attempt hopen)] at hrun
        cases hrun
        refine .inl ⟨code_ne_zero e, hclosed, ?_⟩
        intro file' hsome
        rw [hfile] at hsome
        cases hsome
        exact hrefused
      · rw [Call.on_bind_fault (Call.on_attempt_fault hopen)] at hrun
        cases hrun
      · rw [Call.on_bind_ok (Call.on_attempt hopen)] at hrun
        exact .inr ⟨file, s, rfl, hnot, hopened, hrun⟩

section Results

variable {fs : FileSystem} {tarPath dst : Bytes} {plan : List CallOutcome} {turns : Nat} {ret : Int}
  {s' : TarState}
  (hrun : (untar tarPath dst turns).on (.before fs plan) = .ok (.ok (some ret)) s')

include hrun

theorem honest_of_refused (href : RefusedAt fs tarPath plan) : Honest fs tarPath dst ret s' := by
  rcases untar_returns hrun with ⟨hne, hclosed, -⟩ | ⟨file, s, hfile, hnot, -⟩
  · exact ⟨fun h0 => absurd h0 hne, hclosed⟩
  · exact absurd (href file hfile) hnot

/-- No result is honest if there is something missing, whatever the calls come back with. -/
theorem Honest.nothing_missing (hhonest : Honest fs tarPath dst ret s') :
    RefusedAt fs tarPath plan ∨
      ∃ file entries q, fs.get tarPath = some file ∧ Intact file 0 entries q := by
  rcases untar_returns hrun with ⟨-, -, href⟩ | ⟨file, s, hfile, hnot, hopened, hloop⟩
  · exact .inl href
  · rcases untarLoop_closed hopened.isOpen hloop with ⟨hzero, -⟩ | ⟨-, hopen⟩
    · obtain ⟨file', entries, q, hfile', hintact, -⟩ := hhonest.complete hzero
      exact .inr ⟨file', entries, q, hfile', hintact⟩
    · rw [hhonest.closed] at hopen
      cases hopen

theorem honest_of_intact (hplan : plan = []) {file : Bytes} {entries : List TarEntry} {q : Nat}
    (hfile : fs.get tarPath = some file) (hlen : file.length < 2147483648)
    (hintact : Intact file 0 entries q) : Honest fs tarPath dst ret s' := by
  subst hplan
  rcases untar_returns hrun with ⟨hne, hclosed, -⟩ | ⟨file', s, hfile', hnot, hopened, hloop⟩
  · exact ⟨fun h0 => absurd h0 hne, hclosed⟩
  · cases hfile.symm.trans hfile'
    have hhead := hopened.atHeader.heading
    have hmore := untarLoop_more (entries.length + 1) turns .fresh s hloop
    rcases untarLoop_intact dst hlen hintact (turns + entries.length) .fresh s (by omega) hhead with
      ⟨s'', hrun', hclosed, hlast, -, htrace⟩ | ⟨-, s'', hrun'⟩
    · have heq := hmore.symm.trans hrun'
      injection heq with hval hstate
      subst hstate
      refine ⟨fun _ => ⟨file, entries, q, hfile, hintact, hlast, ?_⟩, hclosed⟩
      rw [htrace, hopened.trace]
      exact storedFiles_entries dst entries
    · cases hmore.symm.trans hrun'

end Results

/-! ### Two small archives -/

/-- A header with the texts of its size and its checksum. -/
def sampleHeader (name : Bytes) (type : UInt8) (sizeText sumText : Bytes) : Bytes :=
  name.rightpad 100 0 ++ List.replicate 24 0 ++ sizeText.rightpad 12 0 ++ List.replicate 12 0 ++
    sumText.rightpad 8 0 ++ [type] ++ List.replicate 355 0

/-- An empty file `a`. -/
def headerA : Bytes := sampleHeader (ascii "a") MTAR_TREG (ascii "0") (ascii "701")

/-- The header of an empty file `b` with a checksum that is not its own. -/
def headerBad : Bytes := sampleHeader (ascii "b") MTAR_TREG (ascii "0") (ascii "777")

/-- The first archive is all there, the second one is damaged. -/
def wholeArchive : Bytes := headerA ++ List.replicate 512 0
def damagedArchive : Bytes := headerA ++ headerBad

/-- A file system with nothing but an archive in it. -/
def onlyArchive (file : Bytes) : FileSystem := FileSystem.put (fun _ => none) (ascii "/a.tar") file

theorem onlyArchive_get (file : Bytes) : (onlyArchive file).get (ascii "/a.tar") = some file :=
  FileSystem.get_put _ _ _

/-- The result of a run, and whether the archive is still open. -/
def outcome (file dst : Bytes) (turns : Nat) : Option (Int × Bool) :=
  match (untar (ascii "/a.tar") dst turns).on (.before (onlyArchive file) []) with
  | .ok (.ok (some ret)) s => some (ret, s.isOpen)
  | _ => none

theorem outcome_run {file dst : Bytes} {turns : Nat} {ret : Int} {isOpen : Bool}
    (h : outcome file dst turns = some (ret, isOpen)) :
    ∃ s', (untar (ascii "/a.tar") dst turns).on (.before (onlyArchive file) [])
      = .ok (.ok (some ret)) s' ∧ s'.isOpen = isOpen := by
  unfold outcome at h
  split at h
  · rename_i r s hrun
    cases h
    exact ⟨s, hrun, rfl⟩
  · cases h

theorem wholeArchive_intact :
    Intact wholeArchive 0 [⟨ascii "a", MTAR_TREG, dataAt wholeArchive 0 0⟩] 512 := by
  refine .entry (headerAt_eq_some.mp (by decide +kernel)) (by decide +kernel) (.done ?_)
  decide +kernel

/-- There is no list of entries that the damaged archive holds. -/
theorem damagedArchive_missing {entries : List TarEntry} {q : Nat} :
    ¬ Intact damagedArchive 0 entries q := by
  have hfirst : headerAt damagedArchive 0 = some (ascii "a", MTAR_TREG, 0) := by decide +kernel
  have hsecond : headerAt damagedArchive 512 = none := by decide +kernel
  have hend₀ : ¬ EndAt damagedArchive 0 := by decide +kernel
  have hend₁ : ¬ EndAt damagedArchive 512 := by decide +kernel
  intro hintact
  cases hintact with
  | done hend => exact hend₀ hend
  | entry H _ hrest =>
      obtain ⟨-, -, rfl⟩ := H.unique (headerAt_eq_some.mp hfirst)
      cases hrest with
      | done hend => exact hend₁ hend
      | entry H' _ _ =>
          have hsome := headerAt_eq_some.mpr H'
          rw [show 0 + rawHeaderSize + padded 0 = 512 by decide, hsecond] at hsome
          cases hsome

end EleDs
