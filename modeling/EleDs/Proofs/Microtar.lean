/-
What the reader does when every call succeeds.

Between two calls of the reader the stream stands at a header, and the reader knows where
(`AtHeader`).  While an entry is read it stands in the data, and what is left to be read is
what is counted (`Reading`).  A read of the last piece leads back to the header, so the two
states take turns, and `HeaderAt.readData` is the step from one to the next.  What a header
comes to does not depend on the variable it is read into, but for the numbers that are not
in it (`rawToHeader_cases`).
-/
import EleDs.Model.Untar

namespace EleDs

open CMem Calls

/-! ### One call of the C library -/

/-- Only the reader and its stream have changed. -/
structure Untouched (s s' : TarState) : Prop where
  fs : s'.fs = s.fs
  trace : s'.trace = s.trace
  isOpen : s'.isOpen = s.isOpen
  plan : s'.plan = s.plan

theorem Untouched.refl (s : TarState) : Untouched s s := ⟨rfl, rfl, rfl, rfl⟩

theorem Untouched.trans {a b c : TarState} (h₁ : Untouched a b) (h₂ : Untouched b c) :
    Untouched a c :=
  ⟨h₂.fs.trans h₁.fs, h₂.trace.trans h₁.trace, h₂.isOpen.trans h₁.isOpen, h₂.plan.trans h₁.plan⟩

section OneCall

variable {file : Bytes} {s : TarState}

/-- The outcome that was to come is used up. -/
theorem nextOutcome_on (s : TarState) :
    nextOutcome.on s = .ok (.ok (s.plan.headD .good)) { s with plan := s.plan.tail } := rfl

section Goes

variable (hgood : s.plan.headD .good = .good)

include hgood

theorem fread_goes (file : Bytes) (size : Nat) :
    (fread file size).on s = .ok
      (.ok (if ((file.drop s.offset).take size).length = size
        then some ((file.drop s.offset).take size) else none))
      { s with
        plan := s.plan.tail
        offset := s.offset + ((file.drop s.offset).take size).length } := by
  have hnext := nextOutcome_on s
  rw [hgood] at hnext
  rw [fread, Call.on_bind_ok hnext]
  rfl

theorem tread_goes {size : Nat} (h : s.offset + size ≤ file.length) :
    (tread file size).on s = .ok (.ok ((file.drop s.offset).take size))
      { s with
        plan := s.plan.tail
        offset := s.offset + size
        pos := (s.pos + size) % 4294967296 } := by
  have hlen : ((file.drop s.offset).take size).length = size := by
    rw [List.length_take, List.length_drop]
    omega
  rw [tread, Call.on_bind_ok (fread_goes hgood file size), hlen, if_pos rfl]
  rfl

theorem fseek_goes (pos : Nat) :
    (fseek pos).on s = if pos < 2147483648
      then .ok (.ok true) { s with plan := s.plan.tail, offset := pos }
      else .ok (.ok false) { s with plan := s.plan.tail } := by
  have hnext := nextOutcome_on s
  rw [hgood] at hnext
  rw [fseek, Call.on_bind_ok hnext]
  split
  · rename_i h
    rw [if_pos h.2]
    rfl
  · rename_i h
    rw [if_neg fun hc => h ⟨rfl, hc⟩]
    rfl

theorem mtarSeek_goes {pos : Nat} (h : pos < 2147483648) :
    (mtarSeek pos).on s = .ok (.ok ())
      { s with plan := s.plan.tail, offset := pos, pos := pos } := by
  have hseek := fseek_goes hgood pos
  rw [if_pos h] at hseek
  rw [mtarSeek, Call.on_bind_ok hseek]
  rfl

end Goes

theorem tread_fails {size : Nat} (hsize : 0 < size)
    (h : s.plan.headD .good ≠ .good ∨ file.length < s.offset + size) :
    ∃ s', (tread file size).on s = .ok (.error .readFail) s' := by
  have hread : ∃ s₁, (fread file size).on s = .ok (.ok none) s₁ := by
    have hthere : ((file.drop s.offset).take size).length ≤ size := List.length_take_le _ _
    cases ho : s.plan.headD .good with
    | good =>
        have hlen : ((file.drop s.offset).take size).length ≠ size := by
          rw [List.length_take, List.length_drop]
          rcases h with hbad | hshort
          · exact absurd ho hbad
          · omega
        have hgoes := fread_goes ho file size
        rw [if_neg hlen] at hgoes
        exact ⟨_, hgoes⟩
    | bad n =>
        have hlen : (((file.drop s.offset).take size).take (min n (size - 1))).length ≠ size := by
          rw [List.length_take]
          omega
        have hnext := nextOutcome_on s
        rw [ho] at hnext
        rw [fread, Call.on_bind_ok hnext, Call.on_bind_ok (Call.on_get _)]
        simp only [hlen, if_false]
        exact ⟨_, rfl⟩
  obtain ⟨s₁, hread⟩ := hread
  rw [tread, Call.on_bind_ok hread]
  exact ⟨_, rfl⟩

theorem mtarSeek_fails (hbad : s.plan.headD .good ≠ .good) (pos : Nat) :
    ∃ s', (mtarSeek pos).on s = .ok (.error .seekFail) s' := by
  have hseek : (fseek pos).on s = .ok (.ok false) { s with plan := s.plan.tail } := by
    rw [fseek, Call.on_bind_ok (nextOutcome_on s), if_neg fun hc => hbad hc.1]
    rfl
  rw [mtarSeek, Call.on_bind_ok hseek]
  exact ⟨_, rfl⟩

section Good

variable (hplan : s.plan = [])

include hplan

theorem plan_good : s.plan.headD .good = .good := by
  rw [hplan]
  rfl

theorem plan_tail : s.plan.tail = s.plan := by
  rw [hplan]
  rfl

theorem nextOutcome_good : nextOutcome.on s = .ok (.ok .good) s := by
  have hnext := nextOutcome_on s
  rwa [plan_good hplan, plan_tail hplan] at hnext

theorem tread_full {size : Nat} (h : s.offset + size ≤ file.length) :
    (tread file size).on s = .ok (.ok ((file.drop s.offset).take size))
      { s with
        offset := s.offset + size
        pos := (s.pos + size) % 4294967296 } := by
  have hread := tread_goes (plan_good hplan) h
  rwa [plan_tail hplan] at hread

theorem tread_short {size : Nat} (h : file.length < s.offset + size) (hpos : 0 < size) :
    ∃ s', (tread file size).on s = .ok (.error .readFail) s' ∧ s'.lastHeader = s.lastHeader ∧
      Untouched s s' := by
  have hlen : ((file.drop s.offset).take size).length ≠ size := by
    rw [List.length_take, List.length_drop]
    omega
  have hread := fread_goes (plan_good hplan) file size
  rw [if_neg hlen, plan_tail hplan] at hread
  rw [tread, Call.on_bind_ok hread]
  exact ⟨_, rfl, rfl, rfl, rfl, rfl, rfl⟩

theorem mtarSeek_near {pos : Nat} (h : pos < 2147483648) :
    (mtarSeek pos).on s = .ok (.ok ())
      { s with offset := pos, pos := pos } := by
  have hseek := mtarSeek_goes (plan_good hplan) h
  rwa [plan_tail hplan] at hseek

theorem mtarSeek_far {pos : Nat} (h : 2147483648 ≤ pos) :
    (mtarSeek pos).on s = .ok (.error .seekFail) { s with pos := pos } := by
  have hseek := fseek_goes (plan_good hplan) pos
  rw [if_neg (by omega), plan_tail hplan] at hseek
  rw [mtarSeek, Call.on_bind_ok hseek]
  rfl

end Good

end OneCall

theorem stored_some {α : Type} {v : Option α} {a : α} (h : v = some a) (s : TarState) :
    (stored v).on s = .ok (.ok a) s := by
  subst h
  rfl

theorem stored_none {α : Type} {v : Option α} (h : v = none) (s : TarState) :
    (stored v).on s = .error .uninitialised s := by
  subst h
  rfl

/-! ### Headers -/

/-- The block of a header. -/
def recordAt (file : Bytes) (p : Nat) : Bytes := (file.drop p).take rawHeaderSize

/-- A header holds the string and the type of its block, and its size unless there is none. -/
structure HeaderOf (h₀ h : MtarHeader) (rh : Bytes) : Prop where
  name : h.name.str = cstr rh
  type : h.type = rh.getD offType 0
  size : h.size = (sscanfOctal (rh.drop offSize)).or h₀.size

theorem strcpy_str {n : Nat} {a b : Buf n} {s : Bytes} (h : a.strcpy s = .ok b) :
    b.str = cstr s := by
  unfold Buf.strcpy Buf.memcpy at h
  split at h
  · rename_i hfit
    cases h
    have hdata : (a.write 0 (cstr s ++ [0]) hfit).data
        = cstr s ++ 0 :: a.data.drop (0 + (cstr s ++ [0]).length) := by
      simp [Buf.write, overwrite]
    rw [Buf.str, hdata]
    exact cstr_append_zero (zero_not_mem_cstr s) _
  · cases h

/-- A copy succeeds or fails whatever is in the array. -/
theorem strcpy_length {n : Nat} (a : Buf n) (s : Bytes) :
    if (cstr s).length < n then ∃ b, a.strcpy s = .ok b
    else a.strcpy s = .error .writeOverrun := by
  split
  · rename_i h
    have hfit : 0 + (cstr s ++ [0]).length ≤ n := by
      simp only [List.length_append, List.length_singleton]
      omega
    obtain ⟨b, hb, -⟩ := a.memcpy_ok hfit
    exact ⟨b, hb⟩
  · rename_i h
    exact Buf.memcpy_overrun (by simp; omega)

/-- A block with the right checksum and strings that fit is a header. -/
theorem rawToHeader_accepts {rh : Bytes} (hnull : rh.getD offChecksum 0 ≠ 0)
    (hsum : sscanfOctal (rh.drop offChecksum) = some (checksum rh)) (hname : (cstr rh).length < 100)
    (hlink : (cstr (rh.drop offLinkname)).length < 100) (h₀ : MtarHeader) :
    ∃ h, rawToHeader h₀ rh = .ok (.ok h) ∧ HeaderOf h₀ h rh := by
  have hn := strcpy_length h₀.name rh
  have hl := strcpy_length h₀.linkname (rh.drop offLinkname)
  rw [if_pos hname] at hn
  rw [if_pos hlink] at hl
  obtain ⟨name, hn⟩ := hn
  obtain ⟨linkname, hl⟩ := hl
  unfold rawToHeader
  rw [if_neg hnull, hsum]
  simp only [ne_eq, not_true_eq_false, if_false]
  rw [hn, hl]
  exact ⟨_, rfl, strcpy_str hn, rfl, rfl⟩

/-- **What a block comes to does not depend on the variable.** -/
theorem rawToHeader_cases (rh : Bytes) :
    (∃ f, ∀ h₀, rawToHeader h₀ rh = .error f) ∨
    (∃ e, ∀ h₀, rawToHeader h₀ rh = .ok (.error e)) ∨
    ∀ h₀, ∃ h, rawToHeader h₀ rh = .ok (.ok h) ∧ HeaderOf h₀ h rh := by
  by_cases hnull : rh.getD offChecksum 0 = 0
  · exact .inr (.inl ⟨_, fun h₀ => if_pos hnull⟩)
  · cases hsum : sscanfOctal (rh.drop offChecksum) with
    | none =>
        refine .inl ⟨.uninitialised, fun h₀ => ?_⟩
        rw [rawToHeader, if_neg hnull, hsum]
    | some v =>
        by_cases hbad : checksum rh ≠ v
        · refine .inr (.inl ⟨.badChksum, fun h₀ => ?_⟩)
          rw [rawToHeader, if_neg hnull, hsum]
          exact if_pos hbad
        · rw [not_not] at hbad
          subst hbad
          by_cases hname : (cstr rh).length < 100
          · by_cases hlink : (cstr (rh.drop offLinkname)).length < 100
            · exact .inr (.inr fun h₀ => rawToHeader_accepts hnull hsum hname hlink h₀)
            · refine .inl ⟨.writeOverrun, fun h₀ => ?_⟩
              have hn := strcpy_length h₀.name rh
              have hl := strcpy_length h₀.linkname (rh.drop offLinkname)
              rw [if_pos hname] at hn
              rw [if_neg hlink] at hl
              obtain ⟨name, hn⟩ := hn
              rw [rawToHeader, if_neg hnull, hsum]
              simp only [ne_eq, not_true_eq_false, if_false]
              rw [hn, hl]
              rfl
          · refine .inl ⟨.writeOverrun, fun h₀ => ?_⟩
            have hn := strcpy_length h₀.name rh
            rw [if_neg hname] at hn
            rw [rawToHeader, if_neg hnull, hsum]
            simp only [ne_eq, not_true_eq_false, if_false]
            rw [hn]
            rfl

/-- A block that is once read as a header always is. -/
theorem rawToHeader_again {rh : Bytes} {g h : MtarHeader} (hg : rawToHeader g rh = .ok (.ok h))
    (h₀ : MtarHeader) : ∃ h', rawToHeader h₀ rh = .ok (.ok h') ∧ HeaderOf h₀ h' rh := by
  rcases rawToHeader_cases rh with ⟨f, hf⟩ | ⟨e, he⟩ | hall
  · rw [hf] at hg
    cases hg
  · rw [he] at hg
    cases hg
  · exact hall h₀

theorem rawToHeader_of {rh : Bytes} {h₀ h : MtarHeader} (hraw : rawToHeader h₀ rh = .ok (.ok h)) :
    HeaderOf h₀ h rh := by
  obtain ⟨h', hraw', hof⟩ := rawToHeader_again hraw h₀
  cases hraw.symm.trans hraw'
  exact hof

/-- The stream stands at a header, and the reader knows where. -/
structure AtHeader (s : TarState) (p : Nat) : Prop where
  pos : s.pos = p
  offset : s.offset = p
  idle : s.remainingData = 0
  plan : s.plan = []

section ReadHeader

variable {file : Bytes} {s : TarState} {p : Nat}

/-- Reading a header leaves the stream at the header. -/
theorem mtarReadHeader_raw (hs : AtHeader s p) (hp : p < 2147483648)
    (hin : p + rawHeaderSize ≤ file.length) (h₀ : MtarHeader) :
    ∃ s', AtHeader s' p ∧ s'.lastHeader = p ∧ Untouched s s' ∧
      (mtarReadHeader file h₀).on s = match rawToHeader h₀ (recordAt file p) with
        | .error f => .error f s'
        | .ok r => .ok r s' := by
  obtain ⟨pos, rem, last, offset, isOpen, fs, trace, plan⟩ := s
  obtain ⟨hpos, hoff, hidle, hplan⟩ := hs
  simp only at hpos hoff hidle hplan
  subst pos offset rem plan
  have hread := tread_full (s := ⟨p, 0, p, p, isOpen, fs, trace, []⟩) rfl hin
  have hseek := mtarSeek_near (s := ⟨(p + rawHeaderSize) % 4294967296, 0, p,
    p + rawHeaderSize, isOpen, fs, trace, []⟩) rfl hp
  refine ⟨⟨p, 0, p, p, isOpen, fs, trace, []⟩, ⟨rfl, rfl, rfl, rfl⟩, rfl,
    ⟨rfl, rfl, rfl, rfl⟩, ?_⟩
  rw [mtarReadHeader, Call.on_bind_ok (Call.on_modify _ _), Call.on_bind_ok hread,
    Call.on_bind_ok (Call.on_get _), Call.on_bind_ok hseek]
  unfold recordAt
  cases rawToHeader h₀ ((file.drop p).take rawHeaderSize) with
  | error f => exact Call.on_bind_fault (Call.on_fault _ _)
  | ok r => cases r <;> rfl

/-- Behind the end there is no header to read. -/
theorem mtarReadHeader_short (hplan : s.plan = []) (hin : file.length < s.offset + rawHeaderSize)
    (h₀ : MtarHeader) :
    ∃ e s', (mtarReadHeader file h₀).on s = .ok (.error e) s' ∧ s'.lastHeader = s.pos ∧
      Untouched s s' := by
  obtain ⟨s', hread, hlast, hsame⟩ :=
    tread_short (s := { s with lastHeader := s.pos }) hplan hin (by decide)
  refine ⟨.readFail, s', ?_, hlast, hsame.fs, hsame.trace, hsame.isOpen, hsame.plan⟩
  rw [mtarReadHeader, Call.on_bind_ok (Call.on_modify _ _), Call.on_bind_error hread]

/-- A position that no seek can reach is not read either. -/
theorem mtarReadHeader_far (hplan : s.plan = []) (hpos : 2147483648 ≤ s.pos) (h₀ : MtarHeader) :
    ∃ e s', (mtarReadHeader file h₀).on s = .ok (.error e) s' ∧ s'.lastHeader = s.pos ∧
      Untouched s s' := by
  by_cases hin : s.offset + rawHeaderSize ≤ file.length
  · have hread := tread_full (s := { s with lastHeader := s.pos }) hplan hin
    have hseek := mtarSeek_far (s := { s with
      lastHeader := s.pos
      offset := s.offset + rawHeaderSize
      pos := (s.pos + rawHeaderSize) % 4294967296 }) hplan hpos
    refine ⟨.seekFail, { s with lastHeader := s.pos, offset := s.offset + rawHeaderSize },
      ?_, rfl, rfl, rfl, rfl, rfl⟩
    rw [mtarReadHeader, Call.on_bind_ok (Call.on_modify _ _), Call.on_bind_ok hread,
      Call.on_bind_ok (Call.on_get _), Call.on_bind_error hseek]
  · exact mtarReadHeader_short hplan (by omega) h₀

end ReadHeader

/-! ### Entries -/

theorem sscanfOctal_lt {s : Bytes} {v : Nat} (h : sscanfOctal s = some v) : v < 4294967296 := by
  unfold sscanfOctal at h
  extract_lets text signed digits at h
  split_ifs at h <;> cases h
  · decide
  · exact Nat.mod_lt _ (by decide)
  · omega

/-- A header with a size stands at `p`. -/
structure HeaderAt (file : Bytes) (p : Nat) (name : Bytes) (type : UInt8) (size : Nat) : Prop where
  inside : p + rawHeaderSize ≤ file.length
  fresh : ∃ h, rawToHeader .fresh (recordAt file p) = .ok (.ok h) ∧ h.name.str = name ∧
    h.type = type ∧ h.size = some size

/-- The name, the type and the size of the header at `p`. -/
def headerAt (file : Bytes) (p : Nat) : Option (Bytes × UInt8 × Nat) :=
  if p + rawHeaderSize ≤ file.length then
    match rawToHeader .fresh (recordAt file p) with
    | .ok (.ok h) => h.size.map fun size => (h.name.str, h.type, size)
    | _ => none
  else none

theorem headerAt_eq_some {file : Bytes} {p : Nat} {name : Bytes} {type : UInt8} {size : Nat} :
    headerAt file p = some (name, type, size) ↔ HeaderAt file p name type size := by
  unfold headerAt
  constructor
  · intro h
    split at h
    · rename_i hin
      split at h
      · rename_i g hg
        obtain ⟨v, hv, heq⟩ := Option.map_eq_some_iff.mp h
        cases heq
        exact ⟨hin, g, hg, rfl, rfl, hv⟩
      · cases h
    · cases h
  · rintro ⟨hin, g, hg, rfl, rfl, hv⟩
    rw [if_pos hin, hg]
    simp [hv]

namespace HeaderAt

variable {file : Bytes} {p : Nat} {name : Bytes} {type : UInt8} {size : Nat}

/-- Any variable takes the header. -/
theorem any (H : HeaderAt file p name type size) (h₀ : MtarHeader) :
    ∃ h, rawToHeader h₀ (recordAt file p) = .ok (.ok h) ∧ h.name.str = name ∧ h.type = type ∧
      h.size = some size := by
  obtain ⟨g, hg, rfl, rfl, hsize⟩ := H.fresh
  have hof' := rawToHeader_of hg
  obtain ⟨h, hh, hof⟩ := rawToHeader_again hg h₀
  have hscan : sscanfOctal ((recordAt file p).drop offSize) = some size := by
    rw [← hsize, hof'.size]
    exact (Option.or_none ..).symm
  refine ⟨h, hh, hof.name.trans hof'.name.symm, hof.type.trans hof'.type.symm, ?_⟩
  rw [hof.size, hscan, Option.some_or]

theorem size_lt (H : HeaderAt file p name type size) : size < 4294967296 := by
  obtain ⟨g, hg, -, -, hsize⟩ := H.fresh
  rw [(rawToHeader_of hg).size, show MtarHeader.fresh.size = none from rfl, Option.or_none] at hsize
  exact sscanfOctal_lt hsize

/-- There is only one header at a place. -/
theorem unique {name' : Bytes} {type' : UInt8} {size' : Nat} (H : HeaderAt file p name type size)
    (H' : HeaderAt file p name' type' size') : name = name' ∧ type = type' ∧ size = size' := by
  have heq := (headerAt_eq_some.mpr H).symm.trans (headerAt_eq_some.mpr H')
  simpa using heq

variable {s : TarState}

theorem readHeader (H : HeaderAt file p name type size) (hs : AtHeader s p) (hp : p < 2147483648)
    (h₀ : MtarHeader) :
    ∃ h s', (mtarReadHeader file h₀).on s = .ok (.ok h) s' ∧ h.name.str = name ∧ h.type = type ∧
      h.size = some size ∧ AtHeader s' p ∧ s'.lastHeader = p ∧ Untouched s s' := by
  obtain ⟨s', hs', hlast, hsame, hread⟩ := mtarReadHeader_raw hs hp H.inside h₀
  obtain ⟨h, hraw, hname, htype, hsize⟩ := H.any h₀
  rw [hraw] at hread
  exact ⟨h, s', hread, hname, htype, hsize, hs', hlast, hsame⟩

/-- Where the next header is looked for. -/
theorem next (H : HeaderAt file p name type size) (hs : AtHeader s p) (hp : p < 2147483648) :
    ∃ r s', (mtarNext file).on s = .ok r s' ∧ Untouched s s' ∧
      s'.pos = (p + (roundUp size 512 + rawHeaderSize) % 4294967296) % 4294967296 ∧
      (s'.pos < 2147483648 → AtHeader s' s'.pos) := by
  obtain ⟨h, s₁, hread, -, -, hsize, hs₁, -, hsame⟩ := H.readHeader hs hp .fresh
  obtain ⟨q, hq⟩ : ∃ q, q = (p + (roundUp size 512 + rawHeaderSize) % 4294967296) % 4294967296 :=
    ⟨_, rfl⟩
  have hnext : (mtarNext file).on s = (mtarSeek q).on s₁ := by
    rw [mtarNext, Call.on_bind_ok hread, Call.on_bind_ok (stored_some hsize _),
      Call.on_bind_ok (Call.on_get _),
      hs₁.pos, hq]
  rw [hnext, ← hq]
  by_cases hnear : q < 2147483648
  · refine ⟨_, _, mtarSeek_near hs₁.plan hnear, ?_, rfl, fun _ => ⟨rfl, rfl, hs₁.idle, hs₁.plan⟩⟩
    exact hsame.trans ⟨rfl, rfl, rfl, rfl⟩
  · refine ⟨_, _, mtarSeek_far hs₁.plan (by omega), ?_, rfl, fun hc => absurd hc hnear⟩
    exact hsame.trans ⟨rfl, rfl, rfl, rfl⟩

end HeaderAt

/-! ### Data -/

/-- The stream stands behind the first `k` bytes of the data. -/
structure Reading (s : TarState) (p size k : Nat) : Prop where
  last : s.lastHeader = p
  left : s.remainingData = size - k
  offset : s.offset = p + rawHeaderSize + k
  plan : s.plan = []

/-- The first `k` bytes of the data were read: before the first read the stream is still at
the header. -/
def InData (s : TarState) (p size k : Nat) : Prop :=
  k = 0 ∧ AtHeader s p ∨ 0 < k ∧ Reading s p size k

theorem InData.plan {s : TarState} {p size k : Nat} (h : InData s p size k) : s.plan = [] := by
  rcases h with ⟨-, hs⟩ | ⟨-, hr⟩
  · exact hs.plan
  · exact hr.plan

section ReadData

variable {file : Bytes} {s : TarState} {p size k n : Nat} {name : Bytes} {type : UInt8}

theorem mtarReadOn_ok (hr : Reading s p size k) (hsize : size < 4294967296) (hp : p < 2147483648)
    (hn : 0 < n) (hk : k + n ≤ size) (hin : p + rawHeaderSize + k + n ≤ file.length) :
    ∃ s', (mtarReadOn file n).on s
        = .ok (.ok ((file.drop (p + rawHeaderSize + k)).take n)) s' ∧ Untouched s s' ∧
      (k + n < size → Reading s' p size (k + n)) ∧ (k + n = size → AtHeader s' p) := by
  obtain ⟨hlast, hleft, hoff, hplan⟩ := hr
  have hthere : s.offset + n ≤ file.length := by omega
  have hread := tread_full hplan hthere
  have hrest : (s.remainingData + 4294967296 - n) % 4294967296 = size - (k + n) := by omega
  rw [mtarReadOn, Call.on_bind_ok hread, Call.on_bind_ok (Call.on_modify _ _),
    Call.on_bind_ok (Call.on_get _)]
  simp only [hrest, hlast, hoff]
  by_cases hend : k + n = size
  · have hzero : size - (k + n) = 0 := by omega
    have hseek := mtarSeek_near (s := { s with
      remainingData := size - (k + n)
      lastHeader := p
      offset := p + rawHeaderSize + k + n
      pos := (s.pos + n) % 4294967296 }) hplan hp
    rw [if_pos hzero, Call.on_bind_ok hseek]
    refine ⟨_, rfl, ⟨rfl, rfl, rfl, rfl⟩, fun hc => by omega, fun _ => ⟨rfl, rfl, ?_, hplan⟩⟩
    simp only
    omega
  · rw [if_neg (by omega)]
    refine ⟨_, rfl, ⟨rfl, rfl, rfl, rfl⟩, fun _ => ⟨rfl, rfl, ?_, hplan⟩, fun hc => by omega⟩
    simp only
    omega

theorem HeaderAt.beginData (H : HeaderAt file p name type size) (hs : AtHeader s p)
    (hp : p + rawHeaderSize < 2147483648) :
    ∃ s', (mtarBeginData file).on s = .ok (.ok ()) s' ∧ Reading s' p size 0 ∧ Untouched s s' := by
  obtain ⟨h, s₁, hread, -, -, hsize, hs₁, hlast, hsame⟩ := H.readHeader hs (by omega) .fresh
  have hmod : (s₁.pos + rawHeaderSize) % 4294967296 = p + rawHeaderSize := by
    rw [hs₁.pos]
    omega
  have hseek := mtarSeek_near (s := s₁) hs₁.plan hp
  refine ⟨{ s₁ with offset := p + rawHeaderSize, pos := p + rawHeaderSize, remainingData := size },
    ?_, ⟨hlast, rfl, rfl, hs₁.plan⟩, hsame.trans ⟨rfl, rfl, rfl, rfl⟩⟩
  rw [mtarBeginData, Call.on_bind_ok hread, Call.on_bind_ok (Call.on_get _), hmod,
    Call.on_bind_ok hseek, hsize]
  rfl

/-- **A piece of the data is read, and after the last one the stream is back at the header.** -/
theorem HeaderAt.readData (H : HeaderAt file p name type size) (hs : InData s p size k)
    (hp : p + rawHeaderSize < 2147483648) (hn : 0 < n) (hk : k + n ≤ size)
    (hin : p + rawHeaderSize + k + n ≤ file.length) :
    ∃ s', (mtarReadData file n).on s
        = .ok (.ok ((file.drop (p + rawHeaderSize + k)).take n)) s' ∧ Untouched s s' ∧
      (k + n < size → InData s' p size (k + n)) ∧ (k + n = size → AtHeader s' p) := by
  have hsize := H.size_lt
  rw [mtarReadData, Call.on_bind_ok (Call.on_get _)]
  rcases hs with ⟨rfl, hs⟩ | ⟨hpos, hr⟩
  · obtain ⟨s₁, hbegin, hr, hsame⟩ := H.beginData hs hp
    obtain ⟨s', hread, hsame', hmore, hend⟩ := mtarReadOn_ok hr hsize (by omega) hn hk hin
    rw [if_pos hs.idle, Call.on_bind_ok hbegin]
    exact ⟨s', hread, hsame.trans hsame', fun hlt => .inr ⟨by omega, hmore hlt⟩, hend⟩
  · obtain ⟨s', hread, hsame', hmore, hend⟩ := mtarReadOn_ok hr hsize (by omega) hn hk hin
    have hleft := hr.left
    rw [if_neg (by omega)]
    exact ⟨s', hread, hsame', fun hlt => .inr ⟨by omega, hmore hlt⟩, hend⟩

theorem mtarReadOn_short (hr : Reading s p size k) (hn : 0 < n)
    (hin : file.length < p + rawHeaderSize + k + n) :
    ∃ e s', (mtarReadOn file n).on s = .ok (.error e) s' ∧ Untouched s s' := by
  obtain ⟨s', hread, -, hsame⟩ := tread_short (s := s) hr.plan (hr.offset ▸ hin) hn
  exact ⟨_, s', Call.on_bind_error hread, hsame⟩

/-- What is not in the file, or cannot be sought, is an error. -/
theorem HeaderAt.readData_short (H : HeaderAt file p name type size) (hs : InData s p size k)
    (hp : p < 2147483648) (hn : 0 < n)
    (hin : 2147483648 ≤ p + rawHeaderSize ∨ file.length < p + rawHeaderSize + k + n)
    (hk : k < size) (hfar : 0 < k → p + rawHeaderSize < 2147483648) :
    ∃ e s', (mtarReadData file n).on s = .ok (.error e) s' ∧ Untouched s s' := by
  rw [mtarReadData, Call.on_bind_ok (Call.on_get _)]
  rcases hs with ⟨rfl, hs⟩ | ⟨hpos, hr⟩
  · rw [if_pos hs.idle]
    by_cases hnear : p + rawHeaderSize < 2147483648
    · obtain ⟨s₁, hbegin, hr, hsame⟩ := H.beginData hs hnear
      have hgone : file.length < p + rawHeaderSize + 0 + n := by omega
      obtain ⟨e, s', hread, hsame'⟩ := mtarReadOn_short hr hn hgone
      rw [Call.on_bind_ok hbegin]
      exact ⟨e, s', hread, hsame.trans hsame'⟩
    · obtain ⟨h, s₁, hread, -, -, hsize, hs₁, -, hsame⟩ := H.readHeader hs hp .fresh
      have hmod : (s₁.pos + rawHeaderSize) % 4294967296 = p + rawHeaderSize := by
        rw [hs₁.pos]
        unfold rawHeaderSize
        omega
      have hseek := mtarSeek_far (s := s₁) hs₁.plan (Nat.not_lt.mp hnear)
      have hbegin : (mtarBeginData file).on s = .ok (.error .seekFail)
          { s₁ with pos := p + rawHeaderSize } := by
        rw [mtarBeginData, Call.on_bind_ok hread, Call.on_bind_ok (Call.on_get _), hmod,
          Call.on_bind_error hseek]
      exact ⟨_, _, Call.on_bind_error hbegin, hsame.trans ⟨rfl, rfl, rfl, rfl⟩⟩
  · have hleft := hr.left
    have hnear := hfar hpos
    have hgone : file.length < p + rawHeaderSize + k + n := by omega
    obtain ⟨e, s', hread, hsame⟩ := mtarReadOn_short hr hn hgone
    rw [if_neg (by omega)]
    exact ⟨e, s', hread, hsame⟩

end ReadData

/-! ### Whatever the calls come back with -/

/-- A change of the reader's own state and of the calls to come. -/
def OwnChange (g : TarState → TarState) : Prop :=
  ∀ s, ∃ pos rem last offset plan, g s = { s with
    pos := pos, remainingData := rem, lastHeader := last, offset := offset, plan := plan }

/-- A property of all that reading is made of. -/
structure ReaderCalls (C : ∀ α : Type, TarCall α → Prop) : Prop extends Call.Compositional C where
  own : ∀ {g : TarState → TarState}, OwnChange g → C _ (modify g)
  unset : ∀ {α : Type}, C α (Call.fault .uninitialised)
  raw : ∀ h rh, C _ (Call.lift (rawToHeader h rh))

namespace ReaderCalls

variable {C : ∀ α : Type, TarCall α → Prop} (hC : ReaderCalls C) (file : Bytes)

include hC

theorem stored {α : Type} (v : Option α) : C _ (stored v) := by
  cases v with
  | none => exact hC.unset
  | some v => exact hC.value v

theorem nextOutcome : C _ nextOutcome := by
  refine hC.bind hC.read fun s => ?_
  exact hC.bind (hC.own fun s => ⟨_, _, _, _, _, rfl⟩) fun _ => hC.value _

theorem tread (size : Nat) : C _ (tread file size) := by
  have hread : C _ (fread file size) := by
    refine hC.bind hC.nextOutcome fun o => hC.bind hC.read fun s => ?_
    exact hC.bind (hC.own fun s => ⟨_, _, _, _, _, rfl⟩) fun _ => hC.value _
  refine hC.bind hread fun data => hC.bind (hC.own fun s => ⟨_, _, _, _, _, rfl⟩) fun _ => ?_
  cases data with
  | none => exact hC.error _
  | some data => exact hC.value _

theorem mtarSeek (pos : Nat) : C _ (mtarSeek pos) := by
  have hseek : C _ (fseek pos) := by
    refine hC.bind hC.nextOutcome fun o => ?_
    split
    · exact hC.bind (hC.own fun s => ⟨_, _, _, _, _, rfl⟩) fun _ => hC.value _
    · exact hC.value _
  refine hC.bind hseek fun done => hC.bind (hC.own fun s => ⟨_, _, _, _, _, rfl⟩) fun _ => ?_
  cases done
  · exact hC.error _
  · exact hC.value _

theorem mtarReadHeader (h₀ : MtarHeader) : C _ (mtarReadHeader file h₀) := by
  refine hC.bind (hC.own fun s => ⟨_, _, _, _, _, rfl⟩) fun _ => ?_
  refine hC.bind (hC.tread file _) fun rh => hC.bind hC.read fun s => ?_
  refine hC.bind (hC.mtarSeek _) fun _ => hC.bind (hC.raw _ _) fun r => ?_
  cases r with
  | ok h => exact hC.value _
  | error e => exact hC.error _

theorem mtarBeginData : C _ (mtarBeginData file) := by
  refine hC.bind (hC.mtarReadHeader file _) fun h => hC.bind hC.read fun s => ?_
  refine hC.bind (hC.mtarSeek _) fun _ => hC.bind (hC.stored _) fun size => ?_
  exact hC.own fun s => ⟨_, _, _, _, _, rfl⟩

theorem mtarReadData (size : Nat) : C _ (mtarReadData file size) := by
  have hon : C _ (mtarReadOn file size) := by
    refine hC.bind (hC.tread file size) fun data => ?_
    refine hC.bind (hC.own fun s => ⟨_, _, _, _, _, rfl⟩) fun _ => hC.bind hC.read fun s => ?_
    split
    · exact hC.bind (hC.mtarSeek _) fun _ => hC.value _
    · exact hC.value _
  refine hC.bind hC.read fun s => ?_
  split
  · exact hC.bind (hC.mtarBeginData file) fun _ => hon
  · exact hon

theorem mtarNext : C _ (mtarNext file) := by
  refine hC.bind (hC.mtarReadHeader file _) fun h => hC.bind (hC.stored _) fun size => ?_
  exact hC.bind hC.read fun s => hC.mtarSeek _

end ReaderCalls

/-- What was read in full stands in the file, whether the call was to succeed or not. -/
theorem tread_returns {file : Bytes} {size : Nat} {data : Bytes} {s s' : TarState}
    (hpos : 0 < size) (hrun : (tread file size).on s = .ok (.ok data) s') :
    ∃ p, p + size ≤ file.length ∧ data = (file.drop p).take size := by
  obtain ⟨read, s₁, hread, hrun⟩ := Call.bind_returns hrun
  obtain ⟨_, s₂, -, hrun⟩ := Call.bind_returns hrun
  cases read with
  | none => cases hrun
  | some data' =>
      cases hrun
      obtain ⟨o, s₃, -, hread⟩ := Call.bind_returns hread
      obtain ⟨s₄, s₅, -, hread⟩ := Call.bind_returns hread
      obtain ⟨_, s₆, -, hread⟩ := Call.bind_returns hread
      rw [Call.on_pure] at hread
      injection hread with hvalue hstate
      injection hvalue with hvalue
      obtain ⟨hlen, hdata⟩ := Option.ite_none_right_eq_some.mp hvalue
      cases hdata
      refine ⟨s₄.offset, ?_⟩
      cases o with
      | good =>
          rw [List.length_take, List.length_drop] at hlen
          exact ⟨by omega, rfl⟩
      | bad n =>
          rw [List.length_take] at hlen
          omega

/-- A header that was read is one of the file's blocks. -/
theorem mtarReadHeader_returns {file : Bytes} {h₀ h : MtarHeader} {s s' : TarState}
    (hrun : (mtarReadHeader file h₀).on s = .ok (.ok h) s') :
    ∃ p, p + rawHeaderSize ≤ file.length ∧
      rawToHeader h₀ (recordAt file p) = .ok (.ok h) := by
  obtain ⟨_, s₁, -, hrun⟩ := Call.bind_returns hrun
  obtain ⟨rh, s₂, hread, hrun⟩ := Call.bind_returns hrun
  obtain ⟨_, s₃, -, hrun⟩ := Call.bind_returns hrun
  obtain ⟨_, s₄, -, hrun⟩ := Call.bind_returns hrun
  obtain ⟨p, hin, rfl⟩ := tread_returns (by decide) hread
  refine ⟨p, hin, ?_⟩
  obtain ⟨r, s₅, hraw, hrun⟩ := Call.bind_returns hrun
  cases hrh : rawToHeader h₀ (recordAt file p) with
  | error f =>
      rw [recordAt] at hrh
      rw [hrh] at hraw
      cases hraw
  | ok r' =>
      rw [recordAt] at hrh
      rw [hrh] at hraw
      cases hraw
      cases r with
      | error e => cases hrun
      | ok h' =>
          cases hrun
          rfl

end EleDs
