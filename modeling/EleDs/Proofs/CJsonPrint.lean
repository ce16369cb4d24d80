/-
The printer of cJSON writes the text of the tree.

`text` says what a document looks like, as a function of the tree alone.  The printer
builds it up in a block that grows, and is never outside that block and never reads a byte
that nothing was stored in (`print_yields`).  It gives up only where the text comes close
to the largest `int`.

Every piece is a step of the same kind: what stands in front of the offset stays, and the
piece is added to it (`Written`).  A value may leave the offset where it was and only end
in a NUL (`Shown`); the length of the string then moves the offset to the same place.
-/
import EleDs.Model.CJsonPrint
import EleDs.Proofs.CJsonParse

namespace EleDs

open CMem Decimals Numerals Rounding

namespace CJson

/-! ### The text of a tree -/

/-- A string with its quotes. -/
def quoted (s : Bytes) : Bytes := 34 :: s.flatMap escapeText ++ [34]

/-- What only a formatted text has. -/
def blank (format : Bool) (s : Bytes) : Bytes := if format then s else []

mutual

/-- A value, so many levels inside. -/
def text (format : Bool) (n : Nat) : CJson → Bytes
  | .null => ascii "null"
  | .bool false => ascii "false"
  | .bool true => ascii "true"
  | .number d => numberText d
  | .string s => quoted s
  | .array items => [91] ++ itemsText format (n + 1) items ++ [93]
  | .object members => [123] ++ blank format [10] ++ membersText format (n + 1) members
      ++ blank format (List.replicate n 9) ++ [125]

/-- The items of an array. -/
def itemsText (format : Bool) (n : Nat) : List CJson → Bytes
  | [] => []
  | item :: rest => text format n item
      ++ (if rest.isEmpty then [] else [44] ++ blank format [32]) ++ itemsText format n rest

/-- The members of an object. -/
def membersText (format : Bool) (n : Nat) : List (Bytes × CJson) → Bytes
  | [] => []
  | (name, item) :: rest => blank format (List.replicate n 9) ++ quoted name
      ++ ([58] ++ blank format [9]) ++ text format n item
      ++ ((if rest.isEmpty then [] else [44]) ++ blank format [10]) ++ membersText format n rest

end

/-! ### Numbers -/

theorem two_pow_le_ten {a b : ℕ} (h : a ≤ 3 * b) : (2 : ℚ) ^ a ≤ 10 ^ b := by
  calc (2 : ℚ) ^ a ≤ 2 ^ (3 * b) := pow_le_pow_right₀ (by norm_num) h
    _ = (2 ^ 3) ^ b := pow_mul _ _ _
    _ ≤ 10 ^ b := pow_le_pow_left₀ (by norm_num) (by norm_num) b

/-- The exponents of a double have three digits at most. -/
theorem log_double {d : ℚ} (hd : double.Number d) (hpos : 0 < d) :
    -999 ≤ Int.log 10 d ∧ Int.log 10 d < 998 := by
  constructor
  · refine (Int.zpow_le_iff_le_log (by norm_num) hpos).mp ?_
    obtain ⟨m, e, hm, -, hmin, -⟩ := hd
    rw [abs_of_pos hpos] at hm
    have hone : (1 : ℚ) ≤ m := by
      have : m ≠ 0 := by
        intro h0
        rw [h0, Nat.cast_zero, zero_mul] at hm
        linarith
      exact_mod_cast Nat.one_le_iff_ne_zero.mpr this
    have hexp : (2 : ℚ) ^ (-1074 : ℤ) ≤ 2 ^ (e - (double.digits - 1)) := by
      refine zpow_le_zpow_right₀ (by norm_num) ?_
      have : -1022 ≤ e := hmin
      show -1074 ≤ e - ((53 : ℕ) - 1)
      omega
    calc ((10 : ℕ) : ℚ) ^ (-999 : ℤ) ≤ 2 ^ (-1074 : ℤ) := by
          rw [zpow_neg, zpow_neg]
          exact inv_anti₀ (by positivity) (by exact_mod_cast two_pow_le_ten (by norm_num))
      _ ≤ 2 ^ (e - (double.digits - 1)) := hexp
      _ ≤ m * 2 ^ (e - (double.digits - 1)) := le_mul_of_one_le_left (by positivity) hone
      _ = d := hm.symm
  · refine (Int.lt_zpow_iff_log_lt (by norm_num) hpos).mp ?_
    have hlt := hd.lt_emax
    rw [abs_of_pos hpos] at hlt
    calc d < 2 ^ (double.emax + 1) := hlt
      _ ≤ ((10 : ℕ) : ℚ) ^ (998 : ℤ) := by
          show (2 : ℚ) ^ (1024 : ℕ) ≤ ((10 : ℕ) : ℚ) ^ (998 : ℕ)
          exact_mod_cast two_pow_le_ten (by norm_num)

theorem length_positiveG_double (k : ℕ) {d : ℚ} (hd : double.Number d) (hpos : 0 < d) :
    (positiveG k d).length ≤ k + 7 := by
  have hlog := log_double hd hpos
  refine length_positiveG_le k hpos ?_
  unfold scientific
  dsimp only
  split
  · show (Int.log 10 d + 1).natAbs < 1000
    omega
  · show (Int.log 10 d).natAbs < 1000
    omega

theorem length_sprintfG_double (k : ℕ) {d : ℚ} (hd : double.Number d) :
    (sprintfG k d).length ≤ k + 8 := by
  unfold sprintfG
  split
  · simp
  · split
    · rename_i h
      have := length_positiveG_double k hd.neg (neg_pos.mpr h)
      rw [List.length_cons]
      omega
    · rename_i hne h
      have := length_positiveG_double k hd (lt_of_le_of_ne (not_lt.mp h) (Ne.symm hne))
      omega

theorem length_sprintfD (d : ℚ) : (sprintfD (saturate d)).length ≤ 11 := by
  have hrange := saturate_range d
  have hnum := length_numeral_le (b := 10) (n := (saturate d).natAbs) (k := 10) (by norm_num)
    (by norm_num) (by norm_num; omega)
  unfold sprintfD
  split
  · rw [List.length_cons]
    omega
  · omega

/-- **No number is too long for `number_buffer`.** -/
theorem numberTexts_fit {d : ℚ} (hd : IsDouble d) : ∀ s ∈ numberTexts d, s.length ≤ 25 := by
  have hfinite : isinf d = false → double.Number d := by
    intro h
    rcases hd with hd | hd
    · exact hd
    · simp [isinf, hd] at h
  unfold numberTexts
  intro s hs
  split at hs
  · rw [List.mem_singleton.mp hs]
    decide +kernel
  rename_i hinf
  have hnum := hfinite (by simpa using hinf)
  have h14 := length_sprintfG_double 14 hnum
  have h16 := length_sprintfG_double 16 hnum
  split at hs
  · have := length_sprintfD d
    rw [List.mem_singleton.mp hs]
    omega
  split at hs
  · rcases List.mem_cons.mp hs with rfl | hs
    · omega
    · rw [List.mem_singleton.mp hs]
      omega
  · rw [List.mem_singleton.mp hs]
    omega

theorem numberText_mem (d : ℚ) : numberText d ∈ numberTexts d := by
  unfold numberText numberTexts
  split
  · simp
  split
  · simp
  split
  · simp
  · simp

theorem numberText_noNul (d : ℚ) : 0 ∉ numberText d := by
  have hg : ∀ k, 0 ∉ sprintfG k d := fun k h =>
    absurd (inDecimal_sprintfG k d 0 h) (by decide)
  have hn : 0 ∉ numeral 10 (saturate d).natAbs := fun h =>
    absurd (isDigit_of_mem_numeral (by norm_num) (by norm_num) h) (by decide)
  have hmem := numberText_mem d
  unfold numberTexts at hmem
  split at hmem
  · rw [List.mem_singleton.mp hmem]
    decide +kernel
  split at hmem
  · rw [List.mem_singleton.mp hmem]
    unfold sprintfD
    split
    · simp [hn]
    · exact hn
  split at hmem
  · rcases List.mem_cons.mp hmem with h | h
    · rw [h]
      exact hg 14
    · rw [List.mem_singleton.mp h]
      exact hg 16
  · rw [List.mem_singleton.mp hmem]
    exact hg 14

/-! ### Steps of the printer -/

/-- There is room at the offset. -/
def Ready (p : PrintBuffer) : Prop := p.offset < p.buffer.length

/-- The text was added to what stands in front of the offset. -/
structure Written (p : PrintBuffer) (s : Bytes) (q : PrintBuffer) : Prop where
  format : q.format = p.format
  depth : q.depth = p.depth
  offset : q.offset = p.offset + s.length
  taken : q.buffer.take q.offset = p.buffer.take p.offset ++ s.map some
  ready : Ready q

/-- The text stands behind the old one with a NUL at its end, and the offset is somewhere
in it. -/
structure Shown (p : PrintBuffer) (s : Bytes) (q : PrintBuffer) : Prop where
  format : q.format = p.format
  depth : q.depth = p.depth
  low : p.offset ≤ q.offset
  high : q.offset ≤ p.offset + s.length
  taken : q.buffer.take (p.offset + s.length + 1) = p.buffer.take p.offset ++ (s ++ [0]).map some
  room : p.offset + s.length < q.buffer.length

theorem Written.refl {p : PrintBuffer} (h : Ready p) : Written p [] p :=
  ⟨rfl, rfl, rfl, by simp, h⟩

theorem Written.trans {p q r : PrintBuffer} {s t : Bytes} (h : Written p s q)
    (h' : Written q t r) : Written p (s ++ t) r where
  format := h'.format.trans h.format
  depth := h'.depth.trans h.depth
  offset := by rw [h'.offset, h.offset, List.length_append, Nat.add_assoc]
  taken := by rw [h'.taken, h.taken, List.map_append, List.append_assoc]
  ready := h'.ready

/-- Behind a text that was written comes one that is shown. -/
theorem Written.shown {p q r : PrintBuffer} {s t : Bytes} (h : Written p s q)
    (h' : Shown q t r) : Shown p (s ++ t) r where
  format := h'.format.trans h.format
  depth := h'.depth.trans h.depth
  low := by
    have := h'.low
    rw [h.offset] at this
    omega
  high := by
    have := h'.high
    rw [h.offset] at this
    rw [List.length_append]
    omega
  taken := by
    have := h'.taken
    rw [h.taken, h.offset, List.append_assoc, ← List.map_append, ← List.append_assoc] at this
    rw [List.length_append, ← Nat.add_assoc]
    exact this
  room := by
    have := h'.room
    rw [h.offset] at this
    rw [List.length_append]
    omega

/-- Changing the depth changes nothing else. -/
theorem Written.atDepth {p q : PrintBuffer} {s : Bytes} {n : Nat} (h : Written { p with depth := n } s q) :
    Written p s { q with depth := p.depth } :=
  ⟨h.format, rfl, h.offset, h.taken, h.ready⟩

theorem strlenOf_text {s : Bytes} (h0 : 0 ∉ s) (rest : List (Option UInt8)) :
    PrintBuffer.strlenOf ((s ++ [0]).map some ++ rest) = .ok s.length := by
  induction s with
  | nil => rfl
  | cons c s ih =>
      have hc : c ≠ 0 := fun hc => h0 (hc ▸ List.mem_cons_self)
      have hs : (0 : UInt8) ∉ s := fun hc => h0 (List.mem_cons_of_mem _ hc)
      show (if c = 0 then .ok 0 else do
        let n ← PrintBuffer.strlenOf ((s ++ [0]).map some ++ rest)
        .ok (n + 1)) = _
      rw [if_neg hc, ih hs]
      rfl

/-- `update_offset` moves behind the text, wherever the offset was. -/
theorem Shown.updateOffset {p q : PrintBuffer} {s : Bytes} (h : Shown p s q) (h0 : 0 ∉ s)
    (hp : Ready p) : Yields (Written p s) q.updateOffset := by
  obtain ⟨k, hk⟩ := Nat.le.dest h.low
  have hks : k ≤ s.length := by
    have := h.high
    omega
  have hlen : (p.buffer.take p.offset).length = p.offset := by
    rw [List.length_take]
    exact Nat.min_eq_left hp.le
  have hdrop : q.buffer.drop q.offset = ((s.drop k) ++ [0]).map some
      ++ q.buffer.drop (p.offset + s.length + 1) := by
    conv_lhs => rw [← List.take_append_drop (p.offset + s.length + 1) q.buffer, h.taken, ← hk]
    rw [List.append_assoc, ← List.drop_drop, List.drop_left' hlen, List.drop_append_of_le_length
      (by rw [List.length_map, List.length_append]; omega), ← List.map_drop,
      List.drop_append_of_le_length hks]
  have hstr := strlenOf_text (s := s.drop k) (fun hc => h0 (List.mem_of_mem_drop hc))
    (q.buffer.drop (p.offset + s.length + 1))
  rw [← hdrop, List.length_drop] at hstr
  refine ⟨q.advance (s.length - k), ?_, h.format, h.depth, ?_, ?_, ?_⟩
  · rw [PrintBuffer.updateOffset, hstr]
    rfl
  · show q.offset + (s.length - k) = _
    omega
  · have htake : q.buffer.take (p.offset + s.length)
        = (q.buffer.take (p.offset + s.length + 1)).take (p.offset + s.length) := by
      rw [List.take_take, Nat.min_eq_left (Nat.le_succ _)]
    show q.buffer.take (q.offset + (s.length - k)) = _
    rw [show q.offset + (s.length - k) = p.offset + s.length by omega, htake, h.taken,
      List.map_append, ← List.append_assoc, List.take_left']
    rw [List.length_append, hlen, List.length_map]
  · have := h.room
    show q.offset + (s.length - k) < q.buffer.length
    omega

/-- What `ensure` gives: the same text in a block that is large enough. -/
theorem ensure_spec {p : PrintBuffer} (hp : Ready p) (needed : Nat) :
    match p.ensure needed with
    | none => 2147483647 < p.offset + needed + 1
    | some q => q.offset = p.offset ∧ q.depth = p.depth ∧ q.format = p.format ∧
        q.buffer.take p.offset = p.buffer.take p.offset ∧ p.offset + needed < q.buffer.length := by
  have hgrow : ∀ size, p.offset + needed < size →
      (p.grow size).buffer.take p.offset = p.buffer.take p.offset ∧
        p.offset + needed < (p.grow size).buffer.length := by
    intro size hsize
    constructor
    · exact List.take_append_of_le_length hp.le
    · rw [PrintBuffer.grow, List.length_append, List.length_replicate]
      omega
  have hmax : INT_MAX.toNat = 2147483647 := rfl
  have hroom : ¬ (0 < p.buffer.length ∧ p.buffer.length ≤ p.offset) := by
    have : p.offset < p.buffer.length := hp
    omega
  unfold PrintBuffer.ensure
  rw [if_neg hroom, hmax]
  by_cases h1 : 2147483647 < needed
  · rw [if_pos h1]
    show 2147483647 < p.offset + needed + 1
    omega
  rw [if_neg h1]
  by_cases h2 : needed + p.offset + 1 ≤ p.buffer.length
  · rw [if_pos h2]
    exact ⟨rfl, rfl, rfl, rfl, by omega⟩
  rw [if_neg h2]
  by_cases h3 : 2147483647 / 2 < needed + p.offset + 1
  · rw [if_pos h3]
    by_cases h4 : needed + p.offset + 1 ≤ 2147483647
    · rw [if_pos h4]
      exact ⟨rfl, rfl, rfl, hgrow _ (by omega)⟩
    · rw [if_neg h4]
      show 2147483647 < p.offset + needed + 1
      omega
  · rw [if_neg h3]
    exact ⟨rfl, rfl, rfl, hgrow _ (by omega)⟩

/-- How a call of the printer ends: it gives up because the text gets that long, or it did
what it should. -/
def Ends (p : PrintBuffer) (length : Nat) (P : PrintBuffer → Prop) : Option PrintBuffer → Prop
  | none => 2147483647 < p.offset + length
  | some q => P q

/-- A piece at the offset, with as much room as was asked for. -/
structure Placed (p : PrintBuffer) (needed : Nat) (bytes : Bytes) (q : PrintBuffer) : Prop where
  format : q.format = p.format
  depth : q.depth = p.depth
  offset : q.offset = p.offset
  taken : q.buffer.take (p.offset + bytes.length) = p.buffer.take p.offset ++ bytes.map some
  room : p.offset + needed < q.buffer.length

/-- The next bytes of a piece. -/
theorem Placed.put {p q : PrintBuffer} {needed : Nat} {done : Bytes} (h : Placed p needed done q)
    (bytes : Bytes) (hfit : done.length + bytes.length ≤ needed + 1) :
    Yields (Placed p needed (done ++ bytes)) (q.put done.length bytes) := by
  have hoff := h.offset
  have hroom := h.room
  have hput : q.offset + done.length + bytes.length ≤ q.buffer.length := by omega
  rw [PrintBuffer.put, if_pos hput]
  refine yields_ok ⟨h.format, h.depth, hoff, ?_, ?_⟩
  · have hover := take_overwrite q.buffer (q.offset + done.length) (bytes.map some) (by omega)
    rw [List.length_map, hoff, h.taken] at hover
    rw [List.length_append, List.map_append, ← List.append_assoc, ← Nat.add_assoc, hoff]
    exact hover
  · show p.offset + needed < (overwrite q.buffer (q.offset + done.length) (bytes.map some)).length
    rw [length_overwrite (by rw [List.length_map]; exact hput)]
    exact hroom

theorem ensurePut_yields {p : PrintBuffer} (hp : Ready p) {needed : Nat} {bytes : Bytes}
    (hfit : bytes.length ≤ needed + 1) :
    Yields (Ends p (needed + 1) (Placed p needed bytes)) (p.ensurePut needed bytes) := by
  have hspec := ensure_spec hp needed
  unfold PrintBuffer.ensurePut
  cases hens : p.ensure needed with
  | none =>
      rw [hens] at hspec
      exact yields_ok hspec
  | some q =>
      rw [hens] at hspec
      obtain ⟨hoff, hdepth, hformat, htake, hroom⟩ := hspec
      have hplaced : Placed p needed [] q := ⟨hformat, hdepth, hoff, by simpa using htake, hroom⟩
      exact yields_bind (hplaced.put bytes (by simpa using hfit)) fun q' hq' => yields_ok hq'

/-- The offset moved over a piece. -/
theorem Placed.written {p q : PrintBuffer} {needed : Nat} {s : Bytes} (h : Placed p needed s q)
    (hlen : s.length ≤ needed) : Written p s (q.advance s.length) where
  format := h.format
  depth := h.depth
  offset := by rw [PrintBuffer.advance, h.offset]
  taken := by
    show q.buffer.take (q.offset + s.length) = _
    rw [h.offset, h.taken]
  ready := by
    have := h.room
    have hoff := h.offset
    show q.offset + s.length < q.buffer.length
    omega

/-- The first bytes of a piece. -/
theorem Placed.front {p q : PrintBuffer} {needed : Nat} {s t : Bytes}
    (h : Placed p needed (s ++ t) q) (hp : Ready p) : Placed p needed s q where
  format := h.format
  depth := h.depth
  offset := h.offset
  taken := by
    have htake : q.buffer.take (p.offset + s.length)
        = (q.buffer.take (p.offset + (s ++ t).length)).take (p.offset + s.length) := by
      rw [List.take_take, Nat.min_eq_left (by rw [List.length_append]; omega)]
    have hlen : (p.buffer.take p.offset ++ s.map some).length = p.offset + s.length := by
      rw [List.length_append, List.length_take, List.length_map, Nat.min_eq_left hp.le]
    rw [htake, h.taken, List.map_append, ← List.append_assoc, List.take_left' hlen]
  room := h.room

/-- A piece with a NUL at its end. -/
theorem Placed.shown {p q : PrintBuffer} {needed : Nat} {s : Bytes}
    (h : Placed p needed (s ++ [0]) q) (hlen : s.length ≤ needed) : Shown p s q where
  format := h.format
  depth := h.depth
  low := h.offset.ge
  high := by
    rw [h.offset]
    omega
  taken := by
    have := h.taken
    rw [List.length_append] at this
    exact this
  room := by
    have := h.room
    omega

/-! ### Numbers and strings -/

theorem printNumber_yields {p : PrintBuffer} (hp : Ready p) {d : ℚ} (hd : IsDouble d) :
    Yields (Ends p ((numberText d).length + 4) (Shown p (numberText d))) (printNumber p d) := by
  have hfit : ¬ ((numberTexts d).any fun text => 26 < text.length + 1) = true := by
    intro h
    obtain ⟨s, hs, hlong⟩ := List.any_eq_true.mp h
    have := numberTexts_fit hd s hs
    simp only [decide_eq_true_eq] at hlong
    omega
  unfold printNumber
  rw [if_neg hfit]
  refine yields_bind (ensurePut_yields hp (by rw [List.length_append, List.length_singleton]; omega))
    fun r hr => ?_
  match r with
  | none =>
      refine yields_ok ?_
      have : 2147483647 < p.offset + ((numberText d).length + 1 + 1) := hr
      show 2147483647 < p.offset + ((numberText d).length + 4)
      omega
  | some q =>
      have hplaced : Placed p _ _ q := hr
      have hshown := hplaced.shown (by omega)
      refine yields_ok ⟨hshown.format, hshown.depth, ?_, ?_, hshown.taken, hshown.room⟩
      · show p.offset ≤ q.offset + (numberText d).length
        rw [hplaced.offset]
        omega
      · show q.offset + (numberText d).length ≤ p.offset + (numberText d).length
        rw [hplaced.offset]

theorem length_escapeText (c : UInt8) : (escapeText c).length = 1 + escapeLength c := by
  unfold escapeText escapeLength
  by_cases hplain : 31 < c ∧ c ≠ 34 ∧ c ≠ 92
  · have hnone : shortEscape c = none := by
      have h31 : 31 < c.toNat := hplain.1
      have hne : ∀ d : UInt8, d.toNat ≤ 31 → c ≠ d := by
        rintro d hd rfl
        omega
      simp [shortEscape, hplain.2.1, hplain.2.2, hne 8 (by decide), hne 12 (by decide),
        hne 10 (by decide), hne 13 (by decide), hne 9 (by decide)]
    have hge : ¬ c < 32 := by
      intro h
      have h1 : c.toNat < 32 := h
      have h2 : 31 < c.toNat := hplain.1
      omega
    rw [if_pos hplain, hnone, if_neg (by simp), if_neg hge]
    rfl
  · rw [if_neg hplain]
    cases hshort : shortEscape c with
    | some letter => rfl
    | none =>
        have hlt : c < 32 := by
          by_contra hge
          refine hplain ⟨?_, ?_, ?_⟩
          · have : ¬ c.toNat < 32 := hge
            show 31 < c.toNat
            omega
          · rintro rfl
            simp [shortEscape] at hshort
          · rintro rfl
            simp [shortEscape] at hshort
        rw [if_neg (by simp), if_pos hlt]
        rfl

theorem escapeText_plain {c : UInt8} (h : escapeLength c = 0) : escapeText c = [c] := by
  unfold escapeText
  split
  · rfl
  · rename_i hplain
    have hlen := length_escapeText c
    rw [h] at hlen
    unfold escapeText at hlen
    rw [if_neg hplain] at hlen
    split at hlen
    · simp at hlen
    · simp [unicodeText] at hlen

theorem foldl_escapeLength (s : Bytes) (n : Nat) :
    s.foldl (fun n c => n + escapeLength c) n + s.length = n + (s.flatMap escapeText).length := by
  induction s generalizing n with
  | nil => rfl
  | cons c s ih =>
      have := ih (n + escapeLength c)
      have hc := length_escapeText c
      simp only [List.foldl_cons, List.length_cons, List.flatMap_cons, List.length_append] at this ⊢
      omega

theorem flatMap_escapeText_plain {s : Bytes} (h : (s.flatMap escapeText).length = s.length) :
    s.flatMap escapeText = s := by
  induction s with
  | nil => rfl
  | cons c s ih =>
      have hc := length_escapeText c
      have hs : s.length ≤ (s.flatMap escapeText).length := by
        have := foldl_escapeLength s 0
        omega
      rw [List.flatMap_cons, List.length_append, List.length_cons] at h
      rw [List.flatMap_cons, escapeText_plain (by omega), ih (by omega)]
      rfl

theorem escapeStore_eq (c : UInt8) :
    escapeStore c = escapeText c ∨ escapeStore c = escapeText c ++ [0] := by
  unfold escapeStore
  split
  · exact Or.inl rfl
  · split
    · exact Or.inl rfl
    · exact Or.inr rfl

/-- The NUL behind an escape is written over, at the latest by the closing quote. -/
theorem printEscaped_yields {p : PrintBuffer} (hp : Ready p) {n : Nat} (s : Bytes)
    {q : PrintBuffer} {done : Bytes} (h : Placed p n done q)
    (hfit : done.length + (s.flatMap escapeText).length ≤ n) :
    Yields (Placed p n (done ++ s.flatMap escapeText)) (printEscaped q done.length s) := by
  induction s generalizing q done with
  | nil =>
      rw [List.flatMap_nil, List.append_nil]
      exact yields_ok h
  | cons c s ih =>
      rw [List.flatMap_cons, List.length_append] at hfit
      have hnext : Yields (Placed p n (done ++ escapeText c))
          (q.put done.length (escapeStore c)) := by
        rcases escapeStore_eq c with heq | heq
        · rw [heq]
          exact h.put _ (by omega)
        · rw [heq]
          refine (h.put _ (by rw [List.length_append, List.length_singleton]; omega)).mono
            fun q' hq' => ?_
          rw [← List.append_assoc] at hq'
          exact hq'.front hp
      unfold printEscaped
      refine yields_bind hnext fun q' hq' => ?_
      have := ih hq' (by rw [List.length_append]; omega)
      rw [List.length_append, List.append_assoc] at this
      rw [List.flatMap_cons]
      exact this

theorem length_quoted (s : Bytes) : (quoted s).length = (s.flatMap escapeText).length + 2 := by
  simp [quoted]

/-- A string is written the same way with and without characters to escape. -/
theorem printStringPtr_yields {p : PrintBuffer} (hp : Ready p) {s : Bytes} (h0 : 0 ∉ s) :
    Yields (Ends p ((quoted s).length + 4) (Shown p (quoted s))) (printStringPtr p s) := by
  have hsum := foldl_escapeLength s 0
  have hplain := flatMap_escapeText_plain (s := s)
  have hloop : ∀ q, Placed p ((s.flatMap escapeText).length + 3) [34] q → _ := fun q h =>
    printEscaped_yields hp s h (by simp; omega)
  rw [Nat.zero_add] at hsum
  unfold printStringPtr quoted
  dsimp only
  rw [cstr_of_not_mem h0, Nat.add_comm s.length, hsum]
  generalize s.flatMap escapeText = esc at *
  have hspec := ensure_spec hp (esc.length + 3)
  cases hens : p.ensure (esc.length + 3) with
  | none =>
      rw [hens] at hspec
      refine yields_ok ?_
      show 2147483647 < p.offset + ((34 :: esc ++ [34]).length + 4)
      dsimp only at hspec
      simp
      omega
  | some q =>
      rw [hens] at hspec
      obtain ⟨hoff, hdepth, hformat, htake, hroom⟩ := hspec
      have hnil : Placed p (esc.length + 3) [] q :=
        ⟨hformat, hdepth, hoff, by simpa using htake, hroom⟩
      -- The closing quote and the NUL, behind what was copied.
      have hclose : ∀ q', Placed p (esc.length + 3) (34 :: esc) q' →
          Yields (Ends p ((34 :: esc ++ [34]).length + 4) (Shown p (34 :: esc ++ [34]))) (do
            let p ← q'.put (esc.length + 1) [34, 0]
            .ok (some p)) := by
        intro q' hq'
        refine yields_bind (hq'.put [34, 0] (by simp)) fun q'' hq'' => yields_ok ?_
        have hend : 34 :: esc ++ [34, 0] = (34 :: esc ++ [34]) ++ [0] := by simp
        rw [hend] at hq''
        exact hq''.shown (by simp)
      have hquote := hnil.put [34] (by simp)
      dsimp only
      split
      · refine yields_bind hquote fun q₁ h₁ => ?_
        have hcopy : esc = s := hplain (by omega)
        refine yields_bind (h₁.put s (by rw [hcopy]; simp; omega)) fun q₂ h₂ => ?_
        rw [← hcopy] at h₂
        exact hclose q₂ h₂
      · refine yields_bind hquote fun q₁ h₁ => ?_
        exact yields_bind (hloop q₁ h₁) fun q₂ h₂ => hclose q₂ h₂

/-! ### No NUL in a text -/

theorem escapeText_noNul {c : UInt8} (hc : c ≠ 0) : 0 ∉ escapeText c := by
  unfold escapeText
  split
  · simpa using hc.symm
  · split
    · rename_i letter h
      have : letter ≠ 0 := by
        rintro rfl
        unfold shortEscape at h
        repeat' split at h
        all_goals simp at h
      simpa using this.symm
    · have hhex : ∀ d < 16, hexChar d ≠ 0 := by decide
      have h1 := hhex (c.toNat / 16) (by have := c.toNat_lt; omega)
      have h2 := hhex (c.toNat % 16) (by omega)
      simp [unicodeText, h1.symm, h2.symm]

theorem quoted_noNul {s : Bytes} (h0 : 0 ∉ s) : 0 ∉ quoted s := by
  have hesc : 0 ∉ s.flatMap escapeText := by
    intro h
    obtain ⟨c, hc, hmem⟩ := List.mem_flatMap.mp h
    exact escapeText_noNul (fun hc0 => h0 (hc0 ▸ hc)) hmem
  simp [quoted, hesc]

theorem blank_noNul {format : Bool} {s : Bytes} (h0 : 0 ∉ s) : 0 ∉ blank format s := by
  unfold blank
  split
  · exact h0
  · simp

theorem tabs_noNul (format : Bool) (n : Nat) : 0 ∉ blank format (List.replicate n 9) :=
  blank_noNul fun h => absurd (List.mem_replicate.mp h).2 (by decide)

theorem itemsText_noNul {format : Bool} {n : Nat} {items : List CJson}
    (h : ∀ t ∈ items, 0 ∉ text format n t) : 0 ∉ itemsText format n items := by
  induction items with
  | nil => simp [itemsText]
  | cons item rest ih =>
      have hitem := h item List.mem_cons_self
      have hrest := ih fun t ht => h t (List.mem_cons_of_mem _ ht)
      have hblank : 0 ∉ blank format [32] := blank_noNul (by decide)
      rw [itemsText]
      split
      · simp [hitem, hrest]
      · simp [hitem, hrest, hblank]

theorem membersText_noNul {format : Bool} {n : Nat} {members : List (Bytes × CJson)}
    (hnames : ∀ m ∈ members, 0 ∉ m.1) (hvalues : ∀ m ∈ members, 0 ∉ text format n m.2) :
    0 ∉ membersText format n members := by
  induction members with
  | nil => simp [membersText]
  | cons m rest ih =>
      obtain ⟨name, item⟩ := m
      have hname := quoted_noNul (hnames _ List.mem_cons_self)
      have hitem := hvalues _ List.mem_cons_self
      have hrest := ih (fun m hm => hnames m (List.mem_cons_of_mem _ hm))
        fun m hm => hvalues m (List.mem_cons_of_mem _ hm)
      have htabs := tabs_noNul format n
      have htab : 0 ∉ blank format [9] := blank_noNul (by decide)
      have hnewline : 0 ∉ blank format [10] := blank_noNul (by decide)
      rw [membersText]
      dsimp only at hname hitem
      split
      · simp [hname, hitem, hrest, htabs, htab, hnewline]
      · simp [hname, hitem, hrest, htabs, htab, hnewline]

theorem Document.text_noNul {n : Nat} {t : CJson} (h : Document n t) (format : Bool) (k : Nat) :
    0 ∉ text format k t := by
  induction h generalizing k with
  | null n =>
      rw [text]
      decide +kernel
  | bool n b =>
      cases b with
      | false =>
          rw [text]
          decide +kernel
      | true =>
          rw [text]
          decide +kernel
  | number n hd => exact numberText_noNul _
  | string n hs => exact quoted_noNul hs
  | array h ih =>
      have hitems := itemsText_noNul (n := k + 1) fun t ht => ih t ht (k + 1)
      rw [text]
      simp [hitems]
  | object names values ih =>
      have hmembers := membersText_noNul (n := k + 1) names fun m hm => ih m hm (k + 1)
      have htabs := tabs_noNul format k
      have hnewline : 0 ∉ blank format [10] := blank_noNul (by decide)
      rw [text]
      simp [hmembers, htabs, hnewline]

/-! ### Values -/

/-- Printing this value goes as it should, wherever it starts. -/
def Printable (t : CJson) : Prop :=
  ∀ p, Ready p → Yields (Ends p ((text p.format p.depth t).length + 4)
    (Shown p (text p.format p.depth t))) (printValue p t)

/-- Giving up later than allowed is allowed. -/
theorem Ends.longer {p : PrintBuffer} {P Q : PrintBuffer → Prop} {p' : PrintBuffer} {m n : Nat}
    {r : Option PrintBuffer} (h : Ends p m P r) (hr : r = none) (hle : p.offset + m ≤ p'.offset + n) :
    Ends p' n Q none := by
  rw [hr] at h
  exact Nat.lt_of_lt_of_le h hle

theorem printItems_yields {items : List CJson} {p : PrintBuffer} (hp : Ready p)
    (hprint : ∀ t ∈ items, Printable t) (h0 : ∀ t ∈ items, 0 ∉ text p.format p.depth t) :
    Yields (Ends p ((itemsText p.format p.depth items).length + 4)
      (Written p (itemsText p.format p.depth items))) (printItems p items) := by
  induction items generalizing p with
  | nil => exact yields_ok (Written.refl hp)
  | cons item rest ih =>
      unfold printItems
      rw [itemsText]
      refine yields_bind (hprint item List.mem_cons_self p hp) fun r hr => ?_
      match r with
      | none => exact yields_ok (hr.longer rfl (by simp only [List.length_append]; omega))
      | some q =>
          have hshown : Shown p _ q := hr
          refine yields_bind (hshown.updateOffset (h0 item List.mem_cons_self) hp) fun q₁ h₁ => ?_
          cases rest with
          | nil =>
              refine yields_ok ?_
              show Written p _ q₁
              simpa [itemsText] using h₁
          | cons next rest =>
              have hcomma : (if q₁.format then [44, 32] else [44] : Bytes)
                  = [44] ++ blank p.format [32] := by
                rw [h₁.format, blank]
                cases p.format <;> rfl
              simp only [List.isEmpty_cons, Bool.false_eq_true, if_false, hcomma]
              generalize [44] ++ blank p.format [32] = comma
              refine yields_bind (ensurePut_yields h₁.ready (by simp)) fun r hr => ?_
              match r with
              | none =>
                  refine yields_ok (hr.longer rfl ?_)
                  rw [h₁.offset]
                  simp only [List.length_append]
                  omega
              | some q₂ =>
                  have hplaced : Placed q₁ _ (comma ++ [0]) q₂ := hr
                  have h₂ := h₁.trans ((hplaced.front h₁.ready).written (by omega))
                  have hih := ih (p := q₂.advance comma.length) h₂.ready
                    (fun t ht => hprint t (List.mem_cons_of_mem _ ht))
                  rw [h₂.format, h₂.depth] at hih
                  refine (hih fun t ht => h0 t (List.mem_cons_of_mem _ ht)).mono fun r hr => ?_
                  match r with
                  | none =>
                      refine hr.longer rfl ?_
                      rw [h₂.offset]
                      simp only [List.length_append]
                      omega
                  | some q₃ => exact h₂.trans hr

/-- A piece with as much room as it needs. -/
theorem piece_yields {p : PrintBuffer} (hp : Ready p) (s : Bytes) :
    Yields (Ends p (s.length + 1) fun q => Written p s (q.advance s.length))
      (p.ensurePut s.length s) := by
  refine (ensurePut_yields hp (by omega)).mono fun r hr => ?_
  match r with
  | none => exact hr
  | some q =>
      have hplaced : Placed p _ s q := hr
      exact hplaced.written (Nat.le_refl _)

/-- A piece with a NUL that the next one is written over. -/
theorem pieceNul_yields {p : PrintBuffer} (hp : Ready p) (s : Bytes) :
    Yields (Ends p (s.length + 2) fun q => Written p s (q.advance s.length))
      (p.ensurePut (s.length + 1) (s ++ [0])) := by
  refine (ensurePut_yields hp (by simp)).mono fun r hr => ?_
  match r with
  | none => exact hr
  | some q =>
      have hplaced : Placed p _ (s ++ [0]) q := hr
      exact (hplaced.front hp).written (by omega)

theorem putTabs_yields {p : PrintBuffer} (hp : Ready p) :
    Yields (Ends p ((blank p.format (List.replicate p.depth 9)).length + 1)
      (Written p (blank p.format (List.replicate p.depth 9)))) p.putTabs := by
  unfold PrintBuffer.putTabs
  cases hf : p.format with
  | false => exact yields_ok (Written.refl hp)
  | true =>
      have hpiece := piece_yields hp (List.replicate p.depth 9)
      rw [List.length_replicate] at hpiece
      refine yields_bind hpiece fun r hr => ?_
      match r with
      | none => exact yields_ok (hr.longer rfl (by simp [blank]))
      | some q =>
          have hwritten : Written p (List.replicate p.depth 9) (q.advance p.depth) := hr
          have hdepth : q.depth = p.depth := hwritten.depth
          refine yields_ok ?_
          rw [hdepth]
          exact hwritten

theorem printMembers_yields {members : List (Bytes × CJson)} {p : PrintBuffer} (hp : Ready p)
    (hnames : ∀ m ∈ members, 0 ∉ m.1) (hprint : ∀ m ∈ members, Printable m.2)
    (h0 : ∀ m ∈ members, 0 ∉ text p.format p.depth m.2) :
    Yields (Ends p ((membersText p.format p.depth members).length + 4)
      (Written p (membersText p.format p.depth members))) (printMembers p members) := by
  induction members generalizing p with
  | nil => exact yields_ok (Written.refl hp)
  | cons m rest ih =>
      obtain ⟨name, item⟩ := m
      have hname : 0 ∉ name := hnames _ List.mem_cons_self
      unfold printMembers
      rw [membersText]
      refine yields_bind (putTabs_yields hp) fun r hr => ?_
      match r with
      | none => exact yields_ok (hr.longer rfl (by simp only [List.length_append]; omega))
      | some q₁ =>
      have h₁ : Written p _ q₁ := hr
      refine yields_bind (printStringPtr_yields h₁.ready hname) fun r hr => ?_
      match r with
      | none =>
          refine yields_ok (hr.longer rfl ?_)
          rw [h₁.offset]
          simp only [List.length_append]
          omega
      | some q₂ =>
      have hshown : Shown _ _ q₂ := hr
      refine yields_bind (hshown.updateOffset (quoted_noNul hname) h₁.ready) fun q₃ hq₃ => ?_
      have h₃ := h₁.trans hq₃
      have hcolon : (if q₃.format then [58, 9] else [58] : Bytes) = [58] ++ blank p.format [9] := by
        rw [h₃.format, blank]
        cases p.format <;> rfl
      rw [hcolon]
      generalize [58] ++ blank p.format [9] = colon
      refine yields_bind (piece_yields h₃.ready colon) fun r hr => ?_
      match r with
      | none =>
          refine yields_ok (hr.longer rfl ?_)
          rw [h₃.offset]
          simp only [List.length_append]
          omega
      | some q₄ =>
      have h₄ := h₃.trans hr
      have hvalue := hprint _ List.mem_cons_self (q₄.advance colon.length) h₄.ready
      rw [h₄.format, h₄.depth] at hvalue
      refine yields_bind hvalue fun r hr => ?_
      match r with
      | none =>
          refine yields_ok (hr.longer rfl ?_)
          rw [h₄.offset]
          simp only [List.length_append]
          omega
      | some q₅ =>
      have hshown : Shown _ _ q₅ := hr
      refine yields_bind (hshown.updateOffset (h0 _ List.mem_cons_self) h₄.ready) fun q₆ hq₆ => ?_
      have h₆ := h₄.trans hq₆
      have hending : ((if rest.isEmpty then [] else [44]) ++ (if q₆.format then [10] else []) : Bytes)
          = (if rest.isEmpty then [] else [44]) ++ blank p.format [10] := by
        rw [h₆.format, blank]
      rw [hending]
      generalize (if rest.isEmpty then [] else [44]) ++ blank p.format [10] = ending
      refine yields_bind (pieceNul_yields h₆.ready ending) fun r hr => ?_
      match r with
      | none =>
          refine yields_ok (hr.longer rfl ?_)
          rw [h₆.offset]
          simp only [List.length_append]
          omega
      | some q₇ =>
      have h₇ := h₆.trans hr
      have hih := ih (p := q₇.advance ending.length) h₇.ready
        (fun m hm => hnames m (List.mem_cons_of_mem _ hm))
        (fun m hm => hprint m (List.mem_cons_of_mem _ hm))
      rw [h₇.format, h₇.depth] at hih
      refine (hih fun m hm => h0 m (List.mem_cons_of_mem _ hm)).mono fun r hr => ?_
      match r with
      | none =>
          refine hr.longer rfl ?_
          rw [h₇.offset]
          simp only [List.length_append]
          omega
      | some q₈ => exact h₇.trans hr

/-- A word with its NUL. -/
theorem word_yields {p : PrintBuffer} (hp : Ready p) (s : Bytes) :
    Yields (Ends p (s.length + 4) (Shown p s)) (p.ensurePut (s.length + 1) (s ++ [0])) := by
  refine (ensurePut_yields hp (by simp)).mono fun r hr => ?_
  match r with
  | none => exact hr.longer rfl (by omega)
  | some q =>
      have hplaced : Placed p _ (s ++ [0]) q := hr
      exact hplaced.shown (by omega)

/-- The opening character, with one level more. -/
theorem opening_yields {p : PrintBuffer} (hp : Ready p) {needed : Nat} (s : Bytes)
    (hlen : s.length ≤ needed) :
    Yields (Ends p (needed + 1) fun q => Written { p with depth := p.depth + 1 } s
      { q.advance s.length with depth := q.depth + 1 }) (p.ensurePut needed s) := by
  refine (ensurePut_yields hp (by omega)).mono fun r hr => ?_
  match r with
  | none => exact hr
  | some q =>
      have hplaced : Placed p _ s q := hr
      have hwritten := hplaced.written hlen
      have hdepth : q.depth = p.depth := hplaced.depth
      refine ⟨hwritten.format, ?_, hwritten.offset, hwritten.taken, hwritten.ready⟩
      show q.depth + 1 = p.depth + 1
      rw [hdepth]

/-- The closing character, back on the old level. -/
theorem Written.close {p q q' : PrintBuffer} {s t : Bytes}
    (h : Written { p with depth := p.depth + 1 } s q) (h' : Shown q t q') :
    Shown p (s ++ t) { q' with depth := q'.depth - 1 } := by
  have hshown := h.shown h'
  refine ⟨hshown.format, ?_, hshown.low, hshown.high, hshown.taken, hshown.room⟩
  show q'.depth - 1 = p.depth
  rw [hshown.depth]
  rfl

theorem printArray_yields {items : List CJson} {n : Nat} (h : ∀ t ∈ items, Document n t)
    (hprint : ∀ t ∈ items, Printable t) : Printable (.array items) := by
  intro p hp
  rw [text]
  unfold printValue
  refine yields_bind (opening_yields hp [91] (Nat.le_refl _)) fun r hr => ?_
  match r with
  | none => exact yields_ok (hr.longer rfl (by simp))
  | some q₁ =>
  have h₁ : Written { p with depth := p.depth + 1 } [91] _ := hr
  have hitems := printItems_yields h₁.ready hprint fun t ht => (h t ht).text_noNul _ _
  rw [h₁.format, h₁.depth] at hitems
  refine yields_bind hitems fun r hr => ?_
  match r with
  | none =>
      refine yields_ok (hr.longer rfl ?_)
      rw [h₁.offset]
      simp only [List.length_append, List.length_singleton]
      omega
  | some q₂ =>
  have h₂ := h₁.trans hr
  refine yields_bind (word_yields h₂.ready [93]) fun r hr => ?_
  match r with
  | none =>
      refine yields_ok (hr.longer rfl ?_)
      rw [h₂.offset]
      simp only [List.length_append, List.length_singleton]
      omega
  | some q₃ => exact yields_ok (h₂.close hr)

theorem printObject_yields {members : List (Bytes × CJson)} {n : Nat}
    (hnames : ∀ m ∈ members, 0 ∉ m.1) (h : ∀ m ∈ members, Document n m.2)
    (hprint : ∀ m ∈ members, Printable m.2) : Printable (.object members) := by
  intro p hp
  rw [text]
  unfold printValue
  dsimp only
  have hopening : (if p.format then [123, 10] else [123] : Bytes) = [123] ++ blank p.format [10] := by
    rw [blank]
    cases p.format <;> rfl
  rw [hopening]
  generalize hop : [123] ++ blank p.format [10] = opening
  refine yields_bind (opening_yields hp opening (Nat.le_succ _)) fun r hr => ?_
  match r with
  | none =>
      refine yields_ok (hr.longer rfl ?_)
      simp only [List.length_append, List.length_singleton]
      omega
  | some q₁ =>
  have h₁ : Written { p with depth := p.depth + 1 } opening _ := hr
  have hmembers := printMembers_yields h₁.ready hnames hprint fun m hm => (h m hm).text_noNul _ _
  rw [h₁.format, h₁.depth] at hmembers
  refine yields_bind hmembers fun r hr => ?_
  match r with
  | none =>
      refine yields_ok (hr.longer rfl ?_)
      rw [h₁.offset]
      simp only [List.length_append, List.length_singleton]
      omega
  | some q₂ =>
  have h₂ := h₁.trans hr
  have hformat : q₂.format = p.format := h₂.format
  have hdepth : q₂.depth = p.depth + 1 := h₂.depth
  -- As many tabs as there were in front of the object, and its end.
  have hclosing : (if q₂.format then List.replicate (q₂.depth - 1) 9 else [] : Bytes) ++ [125, 0]
      = (blank p.format (List.replicate p.depth 9) ++ [125]) ++ [0] := by
    rw [hformat, hdepth, blank, List.append_assoc]
    rfl
  have hneeded : (if q₂.format then q₂.depth + 1 else 2)
      = (blank p.format (List.replicate p.depth 9) ++ [125]).length + 1 := by
    rw [hformat, hdepth, blank]
    cases p.format <;> simp
  dsimp only
  rw [hclosing, hneeded]
  refine yields_bind (word_yields h₂.ready _) fun r hr => ?_
  match r with
  | none =>
      refine yields_ok (hr.longer rfl ?_)
      rw [h₂.offset]
      simp only [List.length_append, List.length_singleton]
      omega
  | some q₃ =>
      have hclose := h₂.close hr
      rw [← List.append_assoc] at hclose
      exact yields_ok hclose

theorem Document.printable {n : Nat} {t : CJson} (h : Document n t) : Printable t := by
  induction h with
  | null n => exact fun p hp => word_yields hp (ascii "null")
  | bool n b =>
      cases b with
      | false => exact fun p hp => word_yields hp (ascii "false")
      | true => exact fun p hp => word_yields hp (ascii "true")
  | number n hd => exact fun p hp => printNumber_yields hp hd
  | string n hs => exact fun p hp => printStringPtr_yields hp hs
  | array h ih => exact printArray_yields h ih
  | object names values ih => exact printObject_yields names values ih

/-! ### The whole text -/

theorem known_map_some (s : Bytes) : known (s.map some) = .ok s := by
  induction s with
  | nil => rfl
  | cons c s ih =>
      show (do
        let bytes ← known (s.map some)
        .ok (c :: bytes)) = _
      rw [ih]
      rfl

/-- **Printing a document gives its text**, without a step outside the block or a read of
what was never stored; it gives up only close to the largest `int`. -/
theorem print_yields {n : Nat} {t : CJson} (h : Document n t) (format : Bool) :
    Yields (fun r => r = some (text format 0 t) ∨
        r = none ∧ 2147483647 < (text format 0 t).length + 4) (print t format) := by
  have hp : Ready { buffer := List.replicate 256 none, offset := 0, depth := 0, format := format } := by
    show 0 < (List.replicate 256 none).length
    rw [List.length_replicate]
    norm_num
  unfold print
  dsimp only
  refine yields_bind (h.printable _ hp) fun r hr => ?_
  match r with
  | none =>
      refine yields_ok (Or.inr ⟨rfl, ?_⟩)
      have : 2147483647 < 0 + ((text format 0 t).length + 4) := hr
      omega
  | some q =>
      have hshown : Shown _ (text format 0 t) q := hr
      refine yields_bind (hshown.updateOffset (h.text_noNul _ _) hp) fun q' hq' => ?_
      have htaken : q'.buffer.take q'.offset = (text format 0 t).map some := by
        simpa using hq'.taken
      rw [htaken, known_map_some]
      exact yields_ok (Or.inl rfl)

/-! ### How long a text is -/

theorem length_quoted_le (s : Bytes) : (quoted s).length ≤ 6 * s.length + 2 := by
  have hescaped : (s.flatMap escapeText).length ≤ 6 * s.length := by
    induction s with
    | nil => simp
    | cons c s ih =>
        have hc : escapeLength c ≤ 5 := by
          unfold escapeLength
          split
          · omega
          · split <;> omega
        rw [List.flatMap_cons, List.length_append, length_escapeText, List.length_cons]
        omega
  rw [length_quoted]
  omega

theorem length_number_le {d : ℚ} (hd : IsDouble d) : (numberText d).length ≤ 25 :=
  numberTexts_fit hd _ (numberText_mem d)

theorem length_blank_le (format : Bool) (s : Bytes) : (blank format s).length ≤ s.length := by
  unfold blank
  split
  · exact Nat.le_refl _
  · exact Nat.zero_le _

theorem length_itemsText_le {format : Bool} {n bound : Nat} {items : List CJson}
    (h : ∀ t ∈ items, (text format n t).length ≤ bound) :
    (itemsText format n items).length ≤ items.length * (bound + 2) := by
  induction items with
  | nil => simp [itemsText]
  | cons t items ih =>
      have ht := h t List.mem_cons_self
      have hrest := ih fun u hu => h u (List.mem_cons_of_mem _ hu)
      have hcomma : (if items.isEmpty then [] else [44] ++ blank format [32] : Bytes).length ≤ 2 := by
        have := length_blank_le format [32]
        split
        · exact Nat.zero_le _
        · simp only [List.length_append, List.length_singleton] at this ⊢
          omega
      rw [itemsText, List.length_append, List.length_append, List.length_cons, Nat.succ_mul]
      omega

theorem length_membersText_le {format : Bool} {n name bound : Nat}
    {members : List (Bytes × CJson)} (hname : ∀ m ∈ members, m.1.length ≤ name)
    (h : ∀ m ∈ members, (text format n m.2).length ≤ bound) :
    (membersText format n members).length ≤ members.length * (n + 6 * name + bound + 6) := by
  induction members with
  | nil => simp [membersText]
  | cons m members ih =>
      have hm := h m List.mem_cons_self
      have hrest := ih (fun u hu => hname u (List.mem_cons_of_mem _ hu))
        fun u hu => h u (List.mem_cons_of_mem _ hu)
      have hquoted := length_quoted_le m.1
      have hlen := hname m List.mem_cons_self
      have htabs := length_blank_le format (List.replicate n 9)
      have htab := length_blank_le format [9]
      have hline := length_blank_le format [10]
      have hcomma : (if members.isEmpty then [] else [44] : Bytes).length ≤ 1 := by
        split <;> simp
      simp only [List.length_replicate, List.length_singleton] at htabs htab hline
      simp only [membersText, List.length_append, List.length_cons, List.length_nil]
      rw [Nat.succ_mul members.length]
      omega

theorem length_array_le {format : Bool} {n bound : Nat} {items : List CJson}
    (h : ∀ t ∈ items, (text format (n + 1) t).length ≤ bound) :
    (text format n (.array items)).length ≤ items.length * (bound + 2) + 2 := by
  have := length_itemsText_le h
  simp only [text, List.length_append, List.length_singleton]
  omega

theorem length_object_le {format : Bool} {n name bound : Nat}
    {members : List (Bytes × CJson)} (hname : ∀ m ∈ members, m.1.length ≤ name)
    (h : ∀ m ∈ members, (text format (n + 1) m.2).length ≤ bound) :
    (text format n (.object members)).length
      ≤ members.length * (n + 1 + 6 * name + bound + 6) + n + 3 := by
  have := length_membersText_le hname h
  have hline := length_blank_le format [10]
  have htabs := length_blank_le format (List.replicate n 9)
  simp only [List.length_replicate, List.length_singleton] at htabs hline
  simp only [text, List.length_append, List.length_singleton]
  omega

end CJson

end EleDs
