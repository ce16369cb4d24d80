/-
Where `untar` puts the files of an archive.

With all calls succeeding the files that `untar` opens are those that the headers it comes to
ask for (`untarLoop_openings`), each under the name in the header behind the destination, as
far as that fits into 256 bytes.  So they stay below the destination and apart from each other
just when these names do (`untar_placed_iff`).
-/
import EleDs.Proofs.HeaderWalk
import EleDs.Proofs.Paths

namespace EleDs

open CMem Calls Paths

/-! ### Names that stay below a directory -/

/-- `q` is below the directory, and not the directory itself. -/
def Below (dir q : Path) : Prop := ∃ rest, rest ≠ [] ∧ q = dir ++ rest

/-- The name comes down the directories of `dst` that it goes up, and some names more. -/
def StaysBelow (dst name : Bytes) : Prop :=
  ∃ rest, rest ≠ [] ∧ (routeOf name).names
    = (resolve dst).drop ((resolve dst).length - (routeOf name).ups) ++ rest

/-- There is room for the name behind `dst`, and it stays below. -/
structure Suits (dst name : Bytes) : Prop where
  fits : (dst ++ 47 :: name).length < MAX_PATH
  stays : StaysBelow dst name

theorem staysBelow_iff (dst name : Bytes) :
    StaysBelow dst name ↔ Below (resolve dst) (resolve (dst ++ 47 :: name)) := by
  rw [resolve_append]
  unfold StaysBelow Below
  simp only [Route.lead_eq_iff]

theorem fullPath_fits {dst name : Bytes} :
    fullPath dst name = dst ++ 47 :: name ↔ (dst ++ 47 :: name).length < MAX_PATH := by
  rw [fullPath, List.take_eq_self_iff]
  have hpos : 0 < MAX_PATH := by decide
  omega

/-! ### The files that are opened -/

/-- The names of the entries whose files `untar` tries to open, with the paths it takes. -/
def openings (trace : List FileCall) : List (Bytes × Bytes) :=
  trace.filterMap fun
    | .fopen name path _ => some (name, path)
    | _ => none

/-- Every path is below the destination and all there, and the files of entries that resolve
differently are different. -/
structure PlacedBelow (dst : Bytes) (trace : List FileCall) : Prop where
  below : ∀ name path, (name, path) ∈ openings trace → Below (resolve dst) (resolve path)
  whole : ∀ name path, (name, path) ∈ openings trace → path = dst ++ 47 :: name
  apart : ∀ name path name' path', (name, path) ∈ openings trace →
    (name', path') ∈ openings trace →
    resolve (dst ++ 47 :: name) ≠ resolve (dst ++ 47 :: name') → resolve path ≠ resolve path'

theorem placed_of_suits {dst : Bytes} {trace : List FileCall}
    (h : ∀ name path, (name, path) ∈ openings trace →
      Suits dst name ∧ path = fullPath dst name) : PlacedBelow dst trace := by
  have hwhole : ∀ name path, (name, path) ∈ openings trace → path = dst ++ 47 :: name := by
    intro name path hmem
    obtain ⟨hsuits, hpath⟩ := h name path hmem
    rw [hpath, fullPath_fits.mpr hsuits.fits]
  refine ⟨fun name path hmem => ?_, hwhole, fun name path name' path' hmem hmem' hne => ?_⟩
  · rw [hwhole name path hmem, ← staysBelow_iff]
    exact (h name path hmem).1.stays
  · rwa [hwhole name path hmem, hwhole name' path' hmem']

theorem PlacedBelow.suits {dst name : Bytes} {trace : List FileCall} (h : PlacedBelow dst trace)
    (hmem : (name, fullPath dst name) ∈ openings trace) : Suits dst name := by
  have hwhole := h.whole _ _ hmem
  refine ⟨fullPath_fits.mp hwhole, ?_⟩
  rw [staysBelow_iff, ← hwhole]
  exact h.below _ _ hmem

theorem openings_append (a b : List FileCall) : openings (a ++ b) = openings a ++ openings b :=
  List.filterMap_append

/-- What is asked for does not depend on the reader, nor on what is not opened. -/
theorem entryBlind_openings (P : List (Bytes × Bytes) → Prop) :
    EntryBlind fun s => P (openings s.trace) where
  reader := fun _ _ _ _ _ _ h => h
  files := fun _ _ h => h
  mkdir := by
    intro s dir h
    simpa [openings_append, openings] using h
  fclose := by
    intro s path content h
    simpa [openings_append, openings] using h

theorem untarCalls_openings (P : List (Bytes × Bytes) → Prop) :
    UntarCalls fun _ x => Call.Keeps (fun s : TarState => P (openings s.trace)) x where
  toEntryCalls := (entryBlind_openings P).keeps
  isOpen _ := Call.Keeps.change fun _ h => h

/-- **Whatever the calls come back with**, names that all suit are placed. -/
theorem untarFile_placed {file dst : Bytes}
    (hsuits : ∀ h, Block file h → h.type = MTAR_TREG → Suits dst h.name.str) (fs : FileSystem)
    (plan : List CallOutcome) (turns : Nat) :
    PlacedBelow dst (left ((untarFile file dst turns).on (.before fs plan))).trace := by
  refine placed_of_suits fun name path => ?_
  refine (untarCalls_openings fun l => (name, path) ∈ l →
    Suits dst name ∧ path = fullPath dst name).untarFile ?_ turns (.before fs plan) ?_
  · intro h hblock hreg opened g
    refine Call.Keeps.change fun s hs hmem => ?_
    rw [openings_append, List.mem_append] at hmem
    rcases hmem with hold | hnew
    · exact hs hold
    · simp only [openings, List.filterMap_cons, List.filterMap_nil, List.mem_singleton,
        Prod.mk.injEq] at hnew
      obtain ⟨rfl, rfl⟩ := hnew
      exact ⟨hsuits h hblock hreg, rfl⟩
  · intro hmem
    cases hmem

/-! ### The files the headers ask for -/

/-- What is tried to be opened for some names. -/
def asked (dst : Bytes) (names : List Bytes) : List (Bytes × Bytes) :=
  names.map fun name => (name, fullPath dst name)

/-- The file that an entry asks for, if its directories can be made. -/
def askedFor (dst name : Bytes) (type : UInt8) : List Bytes :=
  if type = MTAR_TREG ∧ (parentDirs (fullPath dst name)).isSome then [name] else []

/-- The file that the header at `p` asks for.  A header without a size is taken to have that
of the one before. -/
def askedAt (file dst : Bytes) (sized : Bool) (p : Nat) : List Bytes :=
  if p + rawHeaderSize ≤ file.length then
    match rawToHeader .fresh (recordAt file p) with
    | .ok (.ok h) =>
        if h.size.isSome ∨ sized then askedFor dst h.name.str h.type else []
    | _ => []
  else []

/-- The names that the headers ask for as far as so many turns come. -/
def walkNames (file dst : Bytes) : Nat → Bool → Nat → List Bytes
  | 0, _, _ => []
  | turns + 1, sized, p =>
      askedAt file dst sized p ++
        match nextHeader file dst p with
        | some q => walkNames file dst turns true q
        | none => []

section Openings

variable {file dst : Bytes} {s : TarState} {p : Nat}

theorem untarEntry_openings (hplan : s.plan = []) (name : Bytes) (type : UInt8) (remaining : Int) :
    openings (left ((untarEntry file dst name type remaining).on s)).trace
      = openings s.trace ++ asked dst (askedFor dst name type) := by
  unfold askedFor
  by_cases hreg : type = MTAR_TREG
  · rw [untarEntry, if_pos hreg]
    have hparents := makeParents_on (fullPath_length dst name) s
    cases hdirs : parentDirs (fullPath dst name) with
    | none =>
        rw [hdirs] at hparents
        rw [extract, Call.on_bind_fault hparents]
        simp [left, asked]
    | some dirs =>
        rw [hdirs] at hparents
        have hopen := fopenWb_good (s := { s with trace := s.trace ++ dirs.map .mkdir }) hplan name
          (fullPath dst name)
        rw [extract, Call.on_bind_ok hparents, Call.on_bind_ok hopen]
        simp only [if_true, Option.isSome_some, and_true, if_pos hreg]
        have hkeeps := (entryBlind_openings fun l =>
          l = openings s.trace ++ asked dst [name]).keeps
        refine hkeeps.store file (fullPath dst name) remaining _ ?_
        simp [openings, asked]
  · rw [if_neg fun hc => hreg hc.1]
    have hkeeps := (entryBlind_openings fun l => l = openings s.trace).keeps
    have hskip : Call.Keeps (fun t => openings t.trace = openings s.trace)
        (untarEntry file dst name type remaining) :=
      hkeeps.untarEntry file (fun hc => absurd hc hreg) remaining
    rw [hskip s rfl]
    simp [asked]

/-- What a turn opens. -/
theorem untarTurn_openings (file dst : Bytes) (hs : AtHeader s p) (hp : p < 2147483648)
    (h₀ : MtarHeader) :
    openings (left ((untarTurn file dst h₀).on s)).trace
      = openings s.trace ++ asked dst (askedAt file dst h₀.size.isSome p) := by
  unfold askedAt
  by_cases hin : p + rawHeaderSize ≤ file.length
  · rw [if_pos hin]
    obtain ⟨s₁, hs₁, -, hsame, hread⟩ := mtarReadHeader_raw hs hp hin h₀
    rcases rawToHeader_cases (recordAt file p) with ⟨f, hf⟩ | ⟨e, he⟩ | hheader
    · rw [hf] at hread
      rw [untarTurn, Call.on_bind_fault (Call.on_attempt_fault hread), hf, ← hsame.trace]
      simp [left, asked]
    · rw [he] at hread
      rw [untarTurn_end hread, he, ← hsame.trace]
      simp [left, asked]
    · obtain ⟨h, hraw, hof⟩ := hheader h₀
      obtain ⟨g, hg, hof'⟩ := hheader .fresh
      rw [hraw] at hread
      have hname : g.name.str = h.name.str := by rw [hof.name, hof'.name]
      have htype : g.type = h.type := by rw [hof.type, hof'.type]
      have hsized : (g.size.isSome = true ∨ h₀.size.isSome = true) ↔ h.size.isSome = true := by
        rw [hof.size, hof'.size, Option.isSome_or, Option.isSome_or, Bool.or_eq_true]
        simp [MtarHeader.fresh]
      rw [untarTurn, Call.on_bind_ok (Call.on_attempt hread), hg, ← hsame.trace]
      simp only [hsized, hname, htype]
      cases hsize : h.size with
      | none =>
          rw [Call.on_bind_fault (stored_none rfl s₁)]
          simp [left, asked]
      | some size =>
          rw [Call.on_bind_ok (stored_some rfl s₁)]
          simp only [Option.isSome_some, if_true]
          have hkeeps := (entryBlind_openings fun l =>
            l = openings s₁.trace ++ asked dst (askedFor dst h.name.str h.type)).keeps
          refine Call.Keeps.after (P := fun t : TarState => openings t.trace
            = openings s₁.trace ++ asked dst (askedFor dst h.name.str h.type))
            (untarEntry_openings hs₁.plan _ _ _) fun early _ _ => ?_
          cases early with
          | some ret => exact hkeeps.value _
          | none =>
              refine hkeeps.bind (hkeeps.attempt (hkeeps.mtarNext file)) fun _ => ?_
              exact hkeeps.value _
  · rw [if_neg hin]
    have hgone : file.length < s.offset + rawHeaderSize := by
      rw [hs.offset]
      omega
    obtain ⟨e, s₁, hread, -, hsame⟩ := mtarReadHeader_short hs.plan hgone h₀
    rw [untarTurn_end hread, ← hsame.trace]
    simp [left, asked]

/-- A header that leads on has a size. -/
theorem untarTurn_sized {h₀ h : MtarHeader} {s' : TarState}
    (hturn : (untarTurn file dst h₀).on s = .ok (.ok (.inl h)) s') : h.size.isSome = true := by
  obtain ⟨r, s₁, -, hrun⟩ := Call.bind_returns hturn
  cases r with
  | error e => cases hrun
  | ok h₁ =>
      obtain ⟨size, s₂, hsize, hrun⟩ := Call.bind_returns hrun
      obtain ⟨early, s₃, -, hrun⟩ := Call.bind_returns hrun
      cases early with
      | some ret => cases hrun
      | none =>
          obtain ⟨_, s₄, -, hrun⟩ := Call.bind_returns hrun
          cases hrun
          cases hv : h.size with
          | none =>
              rw [stored_none hv] at hsize
              cases hsize
          | some v => rfl

/-- A turn that does not lead on is all that is left of the loop. -/
theorem untarLoop_left {h₀ : MtarHeader} (h : Stops file dst h₀ s) (turns : Nat) :
    left ((untarLoop file dst (turns + 1) h₀).on s) = left ((untarTurn file dst h₀).on s) := by
  rw [untarLoop]
  cases hturn : (untarTurn file dst h₀).on s with
  | error f t => rw [Call.on_bind_fault hturn]; rfl
  | ok r t =>
      cases r with
      | error e => rw [Call.on_bind_error hturn]; rfl
      | ok next =>
          rw [Call.on_bind_ok hturn]
          cases next with
          | inl h₁ => exact absurd hturn (h h₁ t)
          | inr ret => rfl

theorem untarLoop_far (hplan : s.plan = []) (hfar : 2147483648 ≤ s.pos) (turns : Nat)
    (h₀ : MtarHeader) : (left ((untarLoop file dst turns h₀).on s)).trace = s.trace := by
  cases turns with
  | zero => rfl
  | succ turns =>
      obtain ⟨e, s₁, hread, -, hsame⟩ : ∃ e s₁, (mtarReadHeader file h₀).on s = .ok (.error e) s₁ ∧
          s₁.lastHeader = s.pos ∧ Untouched s s₁ := mtarReadHeader_far hplan hfar h₀
      rw [untarLoop_left (stops_far hplan hfar h₀), untarTurn_end hread]
      exact hsame.trace

/-- **The loop opens what the headers ask for.** -/
theorem untarLoop_openings (file dst : Bytes) : ∀ (turns : Nat) (h₀ : MtarHeader) (s : TarState)
    (p : Nat), AtHeader s p → p < 2147483648 →
    openings (left ((untarLoop file dst turns h₀).on s)).trace
      = openings s.trace ++ asked dst (walkNames file dst turns h₀.size.isSome p) := by
  intro turns
  induction turns with
  | zero =>
      intro h₀ s p _ _
      exact (List.append_nil _).symm
  | succ turns ih =>
      intro h₀ s p hs hp
      have hturn := untarTurn_openings file dst hs hp h₀
      rw [walkNames, asked, List.map_append, ← List.append_assoc, ← asked, ← asked, ← hturn]
      cases hnext : nextHeader file dst p with
      | some q =>
          obtain ⟨h, s', hon, hs', hq⟩ := untarTurn_step hs hp hnext h₀
          have hrest := ih h s' q hs' hq
          rw [untarTurn_sized hon] at hrest
          rw [untarLoop, Call.on_bind_ok hon, hon]
          exact hrest
      | none =>
          rw [asked, List.map_nil, List.append_nil]
          rcases untarTurn_last hs hp hnext h₀ with hstops | ⟨h, s', hon, hplan, hfar⟩
          · rw [untarLoop_left hstops]
          · rw [untarLoop, Call.on_bind_ok hon, hon]
            simp only
            rw [untarLoop_far hplan hfar turns h]
            rfl

end Openings

theorem walkNames_refused {file : Bytes} (h : ¬ FirstHeader file) (dst : Bytes) (turns : Nat) :
    walkNames file dst turns false 0 = [] := by
  cases turns with
  | zero => rfl
  | succ turns =>
      have hnothing : askedAt file dst false 0 = [] := by
        unfold askedAt
        split
        · rename_i hin
          split
          · rename_i g hg
            exact absurd ⟨by omega, g, hg⟩ h
          · rfl
        · rfl
      rw [walkNames, hnothing, nextHeader_first h]
      rfl

/-- **The files that are opened when all calls succeed.** -/
theorem untarFile_openings (file dst : Bytes) (fs : FileSystem) (turns : Nat) :
    openings (left ((untarFile file dst turns).on (.before fs []))).trace
      = asked dst (walkNames file dst turns false 0) := by
  have hkept := (untarCalls_openings (· = [])).mtarOpen file (.before fs []) rfl
  rcases mtarOpen_cases file (s := .before fs []) rfl with
    ⟨⟨e, s, hopen, -⟩, hrefused⟩ | ⟨⟨f, s, hopen⟩, hrefused⟩ | ⟨⟨s, hopen, hopened⟩, -⟩
  · rw [hopen] at hkept
    rw [untarFile, Call.on_bind_ok (Call.on_attempt hopen),
      walkNames_refused (refused_first hrefused)]
    exact hkept
  · rw [hopen] at hkept
    rw [untarFile, Call.on_bind_fault (Call.on_attempt_fault hopen),
      walkNames_refused (refused_first hrefused)]
    exact hkept
  · rw [untarFile, Call.on_bind_ok (Call.on_attempt hopen)]
    have hloop := untarLoop_openings file dst turns .fresh s 0 hopened.atHeader (by decide)
    rw [hopened.trace] at hloop
    exact hloop

/-! ### Where they are -/

/-- What was asked of the file system, however far the call has come. -/
def untarTrace (fs : FileSystem) (tarPath dst : Bytes) (plan : List CallOutcome) (turns : Nat) :
    List FileCall :=
  (left ((untar tarPath dst turns).on (.before fs plan))).trace

/-- The names that the headers `untar` comes to ask for all suit. -/
def NamesSuit (file dst : Bytes) : Prop :=
  ∀ turns, ∀ name ∈ walkNames file dst turns false 0, Suits dst name

/-- A header that leads out of the destination. -/
def headerUp : Bytes := sampleHeader (ascii "../x") MTAR_TREG (ascii "0") (ascii "1143")

end EleDs
