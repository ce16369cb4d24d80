/-
For which archives `untar` comes to an end.

When all calls succeed, a turn at a header leads to the place that the size in the header
says, in 32 bits (`nextHeader`).  There are only so many places in a file, so the loop goes on
for ever just when it comes to a place twice (`untar_ends_iff`), and a size near `2^32` can
send it back to where it was.
-/
import EleDs.Lib.Orbit
import EleDs.Proofs.Opening

namespace EleDs

open CMem Calls Orbit

/-! ### From header to header -/

instance (file : Bytes) (p size : Nat) : Decidable (Present file p size) :=
  decidable_of_iff (p + rawHeaderSize < 2147483648 ∧ size < 2147483648 ∧
    p + rawHeaderSize + size ≤ file.length)
    ⟨fun h => ⟨h.1, h.2.1, h.2.2⟩, fun h => ⟨h.near, h.small, h.inside⟩⟩

/-- The place of the next header that `untar` reads.  The data of an entry must be there,
unless its size is negative as an `int`, and `fseek` must get to the next header. -/
def nextHeader (file dst : Bytes) (p : Nat) : Option Nat :=
  match headerAt file p with
  | none => none
  | some (name, type, size) =>
      if DirsOk dst name type ∧ (2147483648 ≤ size ∨ Present file p size) ∧
          nextPos p size < 2147483648
      then some (nextPos p size) else none

theorem nextHeader_eq_some {file dst : Bytes} {p q : Nat} :
    nextHeader file dst p = some q ↔ ∃ name type size, HeaderAt file p name type size ∧
      DirsOk dst name type ∧ (2147483648 ≤ size ∨ Present file p size) ∧
      nextPos p size < 2147483648 ∧ nextPos p size = q := by
  unfold nextHeader
  constructor
  · intro h
    split at h
    · cases h
    · rename_i name type size hat
      split at h
      · rename_i hcond
        exact ⟨name, type, size, headerAt_eq_some.mp hat, hcond.1, hcond.2.1, hcond.2.2,
          Option.some.inj h⟩
      · cases h
  · rintro ⟨name, type, size, H, hdirs, hdata, hnear, hq⟩
    rw [headerAt_eq_some.mpr H, ← hq]
    exact if_pos ⟨hdirs, hdata, hnear⟩

section Turns

variable {file dst : Bytes} {s : TarState} {p q : Nat}

/-- A turn at a header that leads on. -/
theorem untarTurn_step (hs : AtHeader s p) (hp : p < 2147483648)
    (hnext : nextHeader file dst p = some q) (h₀ : MtarHeader) :
    ∃ h s', (untarTurn file dst h₀).on s = .ok (.ok (.inl h)) s' ∧ AtHeader s' q ∧
      q < 2147483648 := by
  obtain ⟨name, type, size, H, hdirs, hdata, hnear, hq⟩ := nextHeader_eq_some.mp hnext
  rw [← hq]
  rcases hdata with hhuge | hpresent
  · have hneg := wrap32_huge hhuge H.size_lt
    obtain ⟨h, -, s', hturn, -, -, hhead⟩ := H.untarTurn_next hs hp h₀ (Q := fun _ => True)
      fun s₁ hs₁ _ => by
        obtain ⟨s₂, hentry, hs₂⟩ := entry_none hs₁ (Int.le_of_lt hneg) hdirs
        exact ⟨s₂, hentry, hs₂, trivial⟩
    exact ⟨h, s', hturn, hhead.near hnear, hnear⟩
  · obtain ⟨h, s', hturn, hhead, -⟩ := H.untarTurn_present hs hpresent hdirs h₀
    exact ⟨h, s', hturn, hhead.near hnear, hnear⟩

/-- The call does not return a value. -/
def Fails {α : Type} (x : TarCall α) (s : TarState) : Prop := ∀ a s', x.on s ≠ .ok (.ok a) s'

theorem Fails.bind {α β : Type} {x : TarCall α} (h : Fails x s) (f : α → TarCall β) :
    Fails (x >>= f) s := by
  intro b s' hrun
  obtain ⟨a, mid, hx, -⟩ := Call.bind_returns hrun
  exact h a mid hx

/-- A header without a size is not read by the calls that need one. -/
theorem unsized_fails (hs : AtHeader s p) (hp : p < 2147483648)
    (hin : p + rawHeaderSize ≤ file.length) {h : MtarHeader}
    (hraw : rawToHeader .fresh (recordAt file p) = .ok (.ok h)) (hsize : h.size = none) :
    Fails (mtarBeginData file) s ∧ ∃ f s', (mtarNext file).on s = .error f s' := by
  obtain ⟨s₁, -, -, -, hread⟩ := mtarReadHeader_raw hs hp hin .fresh
  rw [hraw] at hread
  constructor
  · intro a s' hrun
    rw [mtarBeginData, Call.on_bind_ok hread, Call.on_bind_ok (Call.on_get _)] at hrun
    obtain ⟨_, s₂, -, hrun⟩ := Call.bind_returns hrun
    rw [Call.on_bind_fault (stored_none hsize s₂)] at hrun
    cases hrun
  · refine ⟨.uninitialised, s₁, ?_⟩
    rw [mtarNext, Call.on_bind_ok hread, Call.on_bind_fault (stored_none hsize s₁)]

theorem dataLoop_fails (hs : AtHeader s p) (hbegin : Fails (mtarBeginData file) s)
    (piece : Bytes → TarCall Unit) {fuel : Nat} {remaining : Int} (hpos : 0 < remaining)
    (hfuel : remaining.toNat ≤ fuel) : Fails (dataLoop file piece fuel remaining) s := by
  obtain ⟨more, rfl⟩ : ∃ more, fuel = more + 1 := ⟨fuel - 1, by omega⟩
  have hread : ∀ n, Fails (mtarReadData file n) s := by
    intro n a s' hrun
    rw [mtarReadData, Call.on_bind_ok (Call.on_get _), if_pos hs.idle] at hrun
    exact (hbegin.bind _) a s' hrun
  rw [dataLoop, if_pos hpos]
  exact (hread _).bind _

theorem attempt_fails {α : Type} {x : TarCall α} (h : Fails x s) {a : α} {s' : TarState}
    (hrun : x.attempt.on s = .ok (.ok (.ok a)) s') : False := by
  cases hx : x.on s with
  | error f t =>
      rw [Call.on_attempt_fault hx] at hrun
      cases hrun
  | ok r t =>
      rw [Call.on_attempt hx] at hrun
      cases hrun
      exact h a _ hx

/-- An entry whose first read fails is not done with. -/
theorem entry_fails (hs : AtHeader s p) (hbegin : ∀ t, AtHeader t p → Fails (mtarBeginData file) t)
    {name : Bytes} {type : UInt8} (hdirs : DirsOk dst name type) {remaining : Int}
    (hpos : 0 < remaining) (s' : TarState) :
    (untarEntry file dst name type remaining).on s ≠ .ok (.ok none) s' := by
  intro hrun
  unfold untarEntry at hrun
  split at hrun
  · rename_i hreg
    obtain ⟨dirs, hsome⟩ := Option.isSome_iff_exists.mp (hdirs hreg)
    have hparents := makeParents_on (fullPath_length dst name) s
    rw [hsome] at hparents
    have hopen := fopenWb_good (s := { s with trace := s.trace ++ dirs.map .mkdir }) hs.plan name
      (fullPath dst name)
    have hopened : AtHeader (s.opened name (fullPath dst name) dirs) p := hs.opened _ _ _
    have hloop := dataLoop_fails hopened (hbegin _ hopened) (fwrite (fullPath dst name)) hpos
      (Nat.le_refl _)
    rw [extract, Call.on_bind_ok hparents, Call.on_bind_ok hopen] at hrun
    simp only [if_true] at hrun
    obtain ⟨r, s₁, hr, hrun⟩ := Call.bind_returns hrun
    obtain ⟨_, s₂, -, hrun⟩ := Call.bind_returns hrun
    cases r with
    | error e => cases hrun
    | ok _ => exact attempt_fails hloop hr
  · have hloop := dataLoop_fails hs (hbegin s hs) (fun _ => pure ()) hpos (Nat.le_refl _)
    obtain ⟨r, s₁, hr, hrun⟩ := Call.bind_returns hrun
    cases r with
    | error e => cases hrun
    | ok _ => exact attempt_fails hloop hr

/-- The turn does not lead to another one. -/
def Stops (file dst : Bytes) (h₀ : MtarHeader) (s : TarState) : Prop :=
  ∀ h s', (untarTurn file dst h₀).on s ≠ .ok (.ok (.inl h)) s'

theorem stops_end {h₀ : MtarHeader} {e : MtarError} {s₁ : TarState}
    (hread : (mtarReadHeader file h₀).on s = .ok (.error e) s₁) : Stops file dst h₀ s := by
  intro h s' hrun
  rw [untarTurn_end hread] at hrun
  cases hrun

/-- A header without a size is the last one. -/
theorem stops_unsized (hs : AtHeader s p) (hp : p < 2147483648)
    (hin : p + rawHeaderSize ≤ file.length)
    (hheader : ∀ h₀, ∃ h, rawToHeader h₀ (recordAt file p) = .ok (.ok h) ∧
      HeaderOf h₀ h (recordAt file p))
    (hscan : sscanfOctal ((recordAt file p).drop offSize) = none) (h₀ : MtarHeader) :
    Stops file dst h₀ s := by
  obtain ⟨g, hg, hof⟩ := hheader .fresh
  have hgsize : g.size = none := by
    rw [hof.size, hscan]
    rfl
  obtain ⟨s₁, hs₁, -, -, hread⟩ := mtarReadHeader_raw hs hp hin h₀
  obtain ⟨h₁, hraw, -⟩ := hheader h₀
  rw [hraw] at hread
  intro h s' hrun
  rw [untarTurn, Call.on_bind_ok (Call.on_attempt hread)] at hrun
  simp only at hrun
  obtain ⟨size, s₂, hsize, hrest⟩ := Call.bind_returns hrun
  have hs₂ : s₂ = s₁ := by
    cases hv : h₁.size with
    | none =>
        rw [stored_none hv] at hsize
        cases hsize
    | some v =>
        rw [stored_some hv] at hsize
        cases hsize
        rfl
  subst hs₂
  obtain ⟨early, s₃, hentry, hlast⟩ := Call.bind_returns hrest
  cases early with
  | some ret => cases hlast
  | none =>
      obtain ⟨_, s₄, hnext, -⟩ := Call.bind_returns hlast
      by_cases hdirs : DirsOk dst h₁.name.str h₁.type
      · by_cases hneg : wrap32 (size : Int) ≤ 0
        · -- nothing was read, and `mtar_next` breaks
          obtain ⟨s₅, hdone, hs₅⟩ := entry_none hs₁ hneg hdirs
          cases hdone.symm.trans hentry
          obtain ⟨-, f, s₆, hbreak⟩ := unsized_fails hs₅ hp hin hg hgsize
          rw [Call.on_attempt_fault hbreak] at hnext
          cases hnext
        · have hbegin : ∀ t, AtHeader t p → Fails (mtarBeginData file) t :=
            fun t ht => (unsized_fails ht hp hin hg hgsize).1
          exact entry_fails hs₁ hbegin hdirs (by omega) s₃ hentry
      · rw [entry_fault hdirs] at hentry
        cases hentry

/-- Why a header with a size does not lead on. -/
theorem last_sized {name : Bytes} {type : UInt8} {size : Nat} (hs : AtHeader s p)
    (hp : p < 2147483648) (hnext : nextHeader file dst p = none)
    (H : HeaderAt file p name type size) (h₀ : MtarHeader) :
    Stops file dst h₀ s ∨ ∃ h s', (untarTurn file dst h₀).on s = .ok (.ok (.inl h)) s' ∧
      s'.plan = [] ∧ 2147483648 ≤ s'.pos := by
  by_cases hdirs : DirsOk dst name type
  · by_cases hnone : wrap32 (size : Int) ≤ 0 ∨ Present file p size
    · -- the entry is done with, so it is the next header that is out of reach
      have hentry : ∀ s₁, AtHeader s₁ p → Untouched s s₁ →
          ∃ s₂, (untarEntry file dst name type (wrap32 size)).on s₁ = .ok (.ok none) s₂ ∧
            AtHeader s₂ p ∧ True := by
        intro s₁ hs₁ _
        rcases hnone with hneg | hpresent
        · obtain ⟨s₂, hdone, hs₂⟩ := entry_none hs₁ hneg hdirs
          exact ⟨s₂, hdone, hs₂, trivial⟩
        · obtain ⟨s₂, hdone, hs₂, -⟩ := H.entry_present hs₁ hpresent hdirs
          exact ⟨s₂, hdone, hs₂, trivial⟩
      obtain ⟨h, -, s', hturn, -, -, hhead⟩ := H.untarTurn_next hs hp h₀ hentry
      refine .inr ⟨h, s', hturn, hhead.plan, ?_⟩
      rw [hhead.pos]
      by_contra hnear
      have hdata : 2147483648 ≤ size ∨ Present file p size := by
        rcases hnone with hneg | hpresent
        · by_contra hc
          push Not at hc
          have hsmall := wrap32_small hc.1
          have hzero : size = 0 := by omega
          refine hc.2 ⟨?_, hc.1, ?_⟩
          · have hpos : nextPos p 0 = p + rawHeaderSize := by
              unfold nextPos roundUp rawHeaderSize
              omega
            rw [hzero, hpos] at hnear
            omega
          · rw [hzero]
            exact H.inside
        · exact .inr hpresent
      have hsome := nextHeader_eq_some.mpr ⟨name, type, size, H, hdirs, hdata, by omega, rfl⟩
      rw [hnext] at hsome
      cases hsome
    · push Not at hnone
      have hsmall : size < 2147483648 := by
        by_contra hc
        have := wrap32_huge (Nat.not_lt.mp hc) H.size_lt
        omega
      have hpos : 0 < size := by
        have := wrap32_small hsmall
        omega
      have hentry : ∀ s₁, AtHeader s₁ p → Untouched s s₁ →
          ∃ ret s₂, (untarEntry file dst name type (wrap32 size)).on s₁
            = .ok (.ok (some ret)) s₂ :=
        fun s₁ hs₁ _ => H.entry_absent hs₁ hp hpos hsmall hnone.2 hdirs
      obtain ⟨ret, s', hturn⟩ := H.untarTurn_early hs hp h₀ hentry
      refine .inl fun h t hrun => ?_
      rw [hturn] at hrun
      cases hrun
  · obtain ⟨s', hturn⟩ := H.untarTurn_fault hs hp h₀ hdirs
    refine .inl fun h t hrun => ?_
    rw [hturn] at hrun
    cases hrun

/-- **A turn at a header that does not lead on is the last one, or the last but one.** -/
theorem untarTurn_last (hs : AtHeader s p) (hp : p < 2147483648)
    (hnext : nextHeader file dst p = none) (h₀ : MtarHeader) :
    Stops file dst h₀ s ∨ ∃ h s', (untarTurn file dst h₀).on s = .ok (.ok (.inl h)) s' ∧
      s'.plan = [] ∧ 2147483648 ≤ s'.pos := by
  by_cases hin : p + rawHeaderSize ≤ file.length
  · obtain ⟨s₁, hs₁, -, hsame, hread⟩ := mtarReadHeader_raw hs hp hin h₀
    rcases rawToHeader_cases (recordAt file p) with ⟨f, hf⟩ | ⟨e, he⟩ | hheader
    · rw [hf] at hread
      refine .inl fun h s' hrun => ?_
      rw [untarTurn, Call.on_bind_fault (Call.on_attempt_fault hread)] at hrun
      cases hrun
    · rw [he] at hread
      exact .inl (stops_end hread)
    · cases hscan : sscanfOctal ((recordAt file p).drop offSize) with
      | none => exact .inl (stops_unsized hs hp hin hheader hscan h₀)
      | some size =>
          obtain ⟨g, hg, hof⟩ := hheader .fresh
          have H : HeaderAt file p g.name.str g.type size := by
            refine ⟨hin, g, hg, rfl, rfl, ?_⟩
            rw [hof.size, hscan]
            rfl
          exact last_sized hs hp hnext H h₀
  · refine .inl ?_
    have hgone : file.length < s.offset + rawHeaderSize := by
      rw [hs.offset]
      omega
    obtain ⟨e, s₁, hread, -⟩ := mtarReadHeader_short hs.plan hgone h₀
    exact stops_end hread

/-- A turn that starts out of reach is the last one. -/
theorem stops_far (hplan : s.plan = []) (hfar : 2147483648 ≤ s.pos) (h₀ : MtarHeader) :
    Stops file dst h₀ s := by
  obtain ⟨e, s₁, hread, -⟩ := mtarReadHeader_far hplan hfar h₀
  exact stops_end hread

end Turns

/-! ### The loop -/

theorem strcpy_faults (a : Buf 100) (s : Bytes) : FaultsOnly (· ≠ .diverged) (a.strcpy s) := by
  intro f hf
  have hlen := strcpy_length a s
  split at hlen
  · obtain ⟨b, hb⟩ := hlen
    rw [hb] at hf
    cases hf
  · rw [hlen] at hf
    cases hf
    decide

theorem rawToHeader_faults (h : MtarHeader) (rh : Bytes) :
    FaultsOnly (· ≠ .diverged) (rawToHeader h rh) := by
  unfold rawToHeader
  split
  · exact faultsOnly_ok _
  · split
    · intro f hf
      cases hf
      decide
    · split
      · exact faultsOnly_ok _
      · refine faultsOnly_bind (strcpy_faults _ _) fun name _ => ?_
        exact faultsOnly_bind (strcpy_faults _ _) fun linkname _ => faultsOnly_ok _

/-- No call uses up the iterations of a model, so every loop over the data of an entry comes
to its end. -/
theorem never_diverged : UntarCalls fun _ x => Call.Never .diverged x where
  toCompositional := Call.never_compositional _
  own := by
    intro g _ s s' h
    cases h
  unset := by
    intro α s s' h
    cases h
  raw := by
    intro h rh s s' hrun
    cases hr : rawToHeader h rh with
    | error f =>
        rw [hr] at hrun
        cases hrun
        exact rawToHeader_faults h rh _ hr rfl
    | ok r =>
        rw [hr] at hrun
        cases hrun
  noDirectory := by
    intro α s s' h
    cases h
  files := by
    intro g s s' h
    cases h
  mkdir := by
    intro dir s s' h
    cases h
  fclose := by
    intro path s s' h
    cases h
  isOpen := by
    intro b s s' h
    cases h

theorem never_opening (dst name : Bytes) :
    AtOpening (fun _ x => Call.Never .diverged x) dst name := by
  intro opened g s s' h
  cases h

/-- The run is over: it has returned or broken a rule of C, but not because its model has
used up its iterations. -/
structure Ended (r : EStateM.Result Fault TarState (Except MtarError (Option Int))) : Prop where
  done : ∀ s, r ≠ .ok (.ok none) s
  bounded : ∀ s, r ≠ .error .diverged s

theorem ended_returned {r : EStateM.Result Fault TarState (Except MtarError (Option Int))}
    {ret : Int} {s : TarState} (h : r = .ok (.ok (some ret)) s) : Ended r := by
  subst h
  refine ⟨fun t hc => ?_, fun t hc => ?_⟩ <;> cases hc

section Loop

variable {file dst : Bytes} {s : TarState} {p : Nat}

theorem untarLoop_stops {h₀ : MtarHeader} (h : Stops file dst h₀ s) (turns : Nat) (s' : TarState) :
    (untarLoop file dst (turns + 1) h₀).on s ≠ .ok (.ok none) s' := by
  intro hrun
  obtain ⟨next, mid, hturn, hrest⟩ := Call.bind_returns hrun
  cases next with
  | inl h₁ => exact h h₁ mid hturn
  | inr ret => cases hrest

/-- The loop follows the headers, one a turn. -/
theorem untarLoop_walk (hs : AtHeader s p) (hp : p < 2147483648) (h₀ : MtarHeader) :
    ∀ (n : Nat) {q : Nat}, orbit (nextHeader file dst) p n = some q →
      ∃ h s', AtHeader s' q ∧ q < 2147483648 ∧ ∀ turns,
        (untarLoop file dst (n + turns) h₀).on s = (untarLoop file dst turns h).on s' := by
  intro n
  induction n with
  | zero =>
      intro q hq
      cases hq
      refine ⟨h₀, s, hs, hp, fun turns => ?_⟩
      rw [Nat.zero_add]
  | succ n ih =>
      intro q hq
      obtain ⟨r, hr, hnext⟩ := Option.bind_eq_some_iff.mp hq
      obtain ⟨h, s₁, hs₁, hnear, hfollow⟩ := ih hr
      obtain ⟨h', s₂, hturn, hs₂, hnear'⟩ := untarTurn_step hs₁ hnear hnext h
      refine ⟨h', s₂, hs₂, hnear', fun turns => ?_⟩
      have hsplit : n + 1 + turns = n + (turns + 1) := by omega
      rw [hsplit, hfollow, untarLoop, Call.on_bind_ok hturn]

/-- **The loop ends just when the headers do.** -/
theorem untarLoop_ends (hs : AtHeader s p) (hp : p < 2147483648) (h₀ : MtarHeader) :
    (∃ turns, Ended ((untarLoop file dst turns h₀).on s)) ↔
      ∃ n, orbit (nextHeader file dst) p n = none := by
  have hbounded : ∀ turns s', (untarLoop file dst turns h₀).on s ≠ .error .diverged s' :=
    fun turns => never_diverged.untarLoop (fun h _ _ => never_opening dst h.name.str) turns h₀ s
  constructor
  · rintro ⟨turns, hended⟩
    refine ⟨turns, ?_⟩
    by_contra hc
    obtain ⟨q, hq⟩ := Option.ne_none_iff_exists'.mp hc
    obtain ⟨h, s', -, -, hfollow⟩ := untarLoop_walk hs hp h₀ turns hq
    exact hended.done s' (hfollow 0)
  · rintro ⟨n, hn⟩
    -- the last header the loop comes to
    induction n with
    | zero => cases hn
    | succ n ih =>
        cases hlast : orbit (nextHeader file dst) p n with
        | none => exact ih hlast
        | some q =>
            have hnext : nextHeader file dst q = none := by
              rw [orbit, hlast] at hn
              exact hn
            obtain ⟨h, s', hs', hnear, hfollow⟩ := untarLoop_walk hs hp h₀ n hlast
            rcases untarTurn_last hs' hnear hnext h with hstops | ⟨h', s₁, hturn, hplan, hfar⟩
            · refine ⟨n + 1, fun t => ?_, hbounded _⟩
              rw [hfollow]
              exact untarLoop_stops hstops 0 t
            · refine ⟨n + 2, fun t => ?_, hbounded _⟩
              rw [hfollow, untarLoop, Call.on_bind_ok hturn]
              exact untarLoop_stops (stops_far hplan hfar h') 0 t

end Loop

/-! ### The whole call -/

theorem nextHeader_first {file dst : Bytes} (h : ¬ FirstHeader file) :
    nextHeader file dst 0 = none := by
  by_contra hc
  obtain ⟨q, hq⟩ := Option.ne_none_iff_exists'.mp hc
  obtain ⟨name, type, size, H, -⟩ := nextHeader_eq_some.mp hq
  obtain ⟨hin, g, hg, -⟩ := H
  exact h ⟨by omega, g, hg⟩

theorem nextHeader_finite (file dst : Bytes) :
    {p | (nextHeader file dst p).isSome = true}.Finite := by
  refine (Set.finite_le_nat file.length).subset fun p hp => ?_
  obtain ⟨q, hq⟩ := Option.isSome_iff_exists.mp hp
  obtain ⟨name, type, size, H, -⟩ := nextHeader_eq_some.mp hq
  have hin := H.inside
  exact Nat.le_trans (Nat.le_add_right _ _) hin

/-- The headers of the archive lead `untar` to no place twice. -/
def NoReturn (file dst : Bytes) : Prop :=
  ∀ i j p, i < j → orbit (nextHeader file dst) 0 i = some p →
    orbit (nextHeader file dst) 0 j ≠ some p

theorem refused_first {file : Bytes} (h : Refused file []) : ¬ FirstHeader file := by
  rcases h with ⟨o, ho, -⟩ | hno
  · cases ho
  · exact hno

/-- A size that is not negative as an `int` leads on. -/
theorem nextHeader_forward {file dst : Bytes} {p q : Nat}
    (hsizes : ∀ p name type size, HeaderAt file p name type size → size < 2147483648)
    (h : nextHeader file dst p = some q) : p < q := by
  obtain ⟨name, type, size, H, -, hdata, -, rfl⟩ := nextHeader_eq_some.mp h
  have hsmall := hsizes p name type size H
  rcases hdata with hhuge | hpresent
  · omega
  · have hnear := hpresent.near
    unfold rawHeaderSize at hnear
    unfold nextPos roundUp rawHeaderSize
    omega

/-- So an archive comes to an end if no size in it is negative as an `int`. -/
theorem noReturn_of_sizes {file : Bytes} (dst : Bytes)
    (hsizes : ∀ p name type size, HeaderAt file p name type size → size < 2147483648) :
    NoReturn file dst := by
  intro i j p hij hi hj
  have hback : orbit (nextHeader file dst) p (j - i) = some p := by
    rwa [show j = i + (j - i) by omega, orbit_add, hi, Option.bind_some] at hj
  have hforward : ∀ n q, orbit (nextHeader file dst) p (n + 1) = some q → p < q := by
    intro n
    induction n with
    | zero =>
        intro q hq
        exact nextHeader_forward hsizes hq
    | succ n ih =>
        intro q hq
        obtain ⟨r, hr, hnext⟩ := Option.bind_eq_some_iff.mp hq
        exact Nat.lt_trans (ih r hr) (nextHeader_forward hsizes hnext)
  obtain ⟨n, hn⟩ : ∃ n, j - i = n + 1 := ⟨j - i - 1, by omega⟩
  rw [hn] at hback
  exact Nat.lt_irrefl p (hforward n p hback)

theorem untarFile_ends (file dst : Bytes) (fs : FileSystem) :
    (∃ turns, Ended ((untarFile file dst turns).on (.before fs []))) ↔ NoReturn file dst := by
  rw [NoReturn, ← ends_iff (nextHeader_finite file dst) 0]
  rcases mtarOpen_cases file (s := .before fs []) rfl with
    ⟨⟨e, s, hopen, -⟩, hrefused⟩ | ⟨⟨f, s, hopen⟩, hrefused⟩ | ⟨⟨s, hopen, hopened⟩, -⟩
  · have hrun : (untarFile file dst 0).on (.before fs []) = .ok (.ok (some e.code)) s := by
      rw [untarFile, Call.on_bind_ok (Call.on_attempt hopen)]
      rfl
    exact iff_of_true ⟨0, ended_returned hrun⟩ ⟨1, nextHeader_first (refused_first hrefused)⟩
  · have hrun : (untarFile file dst 0).on (.before fs []) = .error f s := by
      rw [untarFile, Call.on_bind_fault (Call.on_attempt_fault hopen)]
    refine iff_of_true ⟨0, fun t hc => ?_, fun t hc => ?_⟩
      ⟨1, nextHeader_first (refused_first hrefused)⟩
    · rw [hrun] at hc
      cases hc
    · exact never_diverged.untarFile (fun h _ _ => never_opening dst h.name.str) 0 _ t hc
  · have hrun : ∀ turns, (untarFile file dst turns).on (.before fs [])
        = (untarLoop file dst turns .fresh).on s := by
      intro turns
      rw [untarFile, Call.on_bind_ok (Call.on_attempt hopen)]
    simp only [hrun]
    exact untarLoop_ends hopened.atHeader (by decide) .fresh

/-- The header of a file of `2^32 - 512` bytes. -/
def headerWraps : Bytes :=
  sampleHeader (ascii "a") MTAR_TREG (ascii "37777777000") (ascii "1725")

/-- It leads back to itself. -/
theorem headerWraps_next : nextHeader headerWraps (ascii "/d") 0 = some 0 := by decide +kernel

end EleDs
