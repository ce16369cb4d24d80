/-
The parser of cJSON stays inside the text.

Of a text that ends in a NUL the parser reads nothing but its characters and the NUL, it
writes no more into the buffer of a string than it allocated, and it comes to an end
(`parse_yields`).  What it accepts is a document: nested no deeper than the limit, with C
strings and doubles in it.

The last character is what keeps the unchecked reads inside.  Whatever the parser steps
over is not a NUL, so the offset stays in front of it (`Within`).

The buffer of a string is allocated from the first of two passes, which counts an escape
as two characters; the second pass takes six or twelve for a literal and may then be out
of step with the first one.  It still writes no more than was counted, because of two
neighbouring characters at most one starts an escape (`escapeAt`).
-/
import EleDs.Model.CJsonParse

namespace EleDs

open CMem Decimals Numerals Rounding

namespace CJson

/-! ### Documents -/

/-- What a `double` holds: a number of the format, or an infinity. -/
def IsDouble (d : ℚ) : Prop := double.Number d ∨ |d| = 2 ^ (1024 : ℤ)

/-- A tree nested at most so deep, of doubles and C strings. -/
inductive Document : Nat → CJson → Prop where
  | null (n : Nat) : Document n .null
  | bool (n : Nat) (b : Bool) : Document n (.bool b)
  | number (n : Nat) {d : ℚ} (h : IsDouble d) : Document n (.number d)
  | string (n : Nat) {s : Bytes} (h : 0 ∉ s) : Document n (.string s)
  | array {n : Nat} {items : List CJson} (h : ∀ t ∈ items, Document n t) :
      Document (n + 1) (.array items)
  | object {n : Nat} {members : List (Bytes × CJson)} (names : ∀ m ∈ members, 0 ∉ m.1)
      (values : ∀ m ∈ members, Document n m.2) : Document (n + 1) (.object members)

theorem Document.mono {m n : Nat} {t : CJson} (h : Document m t) (hmn : m ≤ n) : Document n t := by
  induction h generalizing n with
  | null => exact .null n
  | bool _ b => exact .bool n b
  | number _ hd => exact .number n hd
  | string _ hs => exact .string n hs
  | array _ ih =>
      obtain ⟨n, rfl⟩ : ∃ k, n = k + 1 := ⟨n - 1, by omega⟩
      exact .array fun t ht => ih t ht (Nat.le_of_succ_le_succ hmn)
  | object names _ ih =>
      obtain ⟨n, rfl⟩ : ∃ k, n = k + 1 := ⟨n - 1, by omega⟩
      exact .object names fun p hp => ih p hp (Nat.le_of_succ_le_succ hmn)

/-! ### The buffer -/

/-- The offset is at a character of the text or at its NUL, which is the last byte. -/
structure Within (b : ParseBuffer) : Prop where
  fits : b.length ≤ b.content.length
  nul : b.content[b.length - 1]? = some 0
  inside : b.offset < b.length

/-- The parser went on in the same text. -/
structure Onward (b b' : ParseBuffer) : Prop where
  content : b'.content = b.content
  length : b'.length = b.length
  depth : b'.depth = b.depth
  offset : b.offset ≤ b'.offset
  inside : b'.offset < b.length

theorem Onward.within {b b' : ParseBuffer} (h : Onward b b') (hb : Within b) : Within b' where
  fits := by rw [h.content, h.length]; exact hb.fits
  nul := by rw [h.content, h.length]; exact hb.nul
  inside := by rw [h.length]; exact h.inside

theorem Onward.refl {b : ParseBuffer} (h : b.offset < b.length) : Onward b b :=
  ⟨rfl, rfl, rfl, Nat.le_refl _, h⟩

theorem Onward.trans {a b c : ParseBuffer} (h : Onward a b) (h' : Onward b c) : Onward a c where
  content := h'.content.trans h.content
  length := h'.length.trans h.length
  depth := h'.depth.trans h.depth
  offset := h.offset.trans h'.offset
  inside := h.length ▸ h'.inside

theorem byteAt_yields {content : Bytes} {i : Nat} (h : i < content.length) :
    Yields (fun c => content[i]? = some c) (byteAt content i) := by
  refine ⟨content[i], ?_, List.getElem?_eq_getElem h⟩
  rw [byteAt, List.getElem?_eq_getElem h]

theorem Within.lt {b : ParseBuffer} (hb : Within b) {i : Nat} (h : i < b.length) :
    i < b.content.length := Nat.lt_of_lt_of_le h hb.fits

/-- Behind a character that is not the NUL the text goes on. -/
theorem Within.succ {b : ParseBuffer} (hb : Within b) {i : Nat} {c : UInt8} (hi : i < b.length)
    (hc : b.content[i]? = some c) (h0 : c ≠ 0) : i + 1 < b.length := by
  by_contra hlast
  have : i = b.length - 1 := by omega
  rw [this, hb.nul] at hc
  exact h0 (Option.some.inj hc).symm

theorem head_yields {b : ParseBuffer} (hb : Within b) :
    Yields (fun c => b.content[b.offset]? = some c) b.head := byteAt_yields (hb.lt hb.inside)

theorem nextIs_yields {b : ParseBuffer} (hb : Within b) (c : UInt8) :
    Yields (fun r => r = true → b.content[b.offset]? = some c) (b.nextIs c) := by
  unfold ParseBuffer.nextIs
  split
  · refine yields_bind (head_yields hb) fun d hd => yields_ok fun h => ?_
    rw [hd, beq_iff_eq.mp h]
  · exact yields_ok fun h => Bool.noConfusion h

/-- One character further. -/
theorem onward_skip {b : ParseBuffer} (hb : Within b) {c : UInt8}
    (hc : b.content[b.offset]? = some c) (h0 : c ≠ 0) : Onward b (b.skip 1) where
  content := rfl
  length := rfl
  depth := rfl
  offset := Nat.le_add_right _ _
  inside := hb.succ hb.inside hc h0

/-! ### Blanks and literals -/

theorem skipBlanks_yields {content : Bytes} {length : Nat} (hfits : length ≤ content.length)
    (left offset : Nat) (hleft : offset + left = length) :
    Yields (fun o => offset ≤ o ∧ o ≤ length) (skipBlanks content offset left) := by
  induction left generalizing offset with
  | zero => exact yields_ok ⟨Nat.le_refl _, by omega⟩
  | succ left ih =>
      unfold skipBlanks
      refine yields_bind (byteAt_yields (by omega)) fun c _ => ?_
      split
      · exact (ih (offset + 1) (by omega)).mono fun o ho => ⟨by omega, ho.2⟩
      · exact yields_ok ⟨Nat.le_refl _, by omega⟩

theorem bufferSkipWhitespace_yields {b : ParseBuffer} (hb : Within b) :
    Yields (Onward b) (bufferSkipWhitespace b) := by
  have hin := hb.inside
  unfold bufferSkipWhitespace
  split
  · refine yields_bind (skipBlanks_yields hb.fits (b.length - b.offset) b.offset (by omega))
      fun o ho => yields_ok ⟨rfl, rfl, rfl, ?_, ?_⟩
    · dsimp only
      split <;> omega
    · dsimp only
      split <;> omega
  · exact yields_ok (Onward.refl hin)

/-- A text that was found is there, character by character. -/
theorem strncmpEq_yields {content : Bytes} (text : Bytes) (i : Nat)
    (hfits : i + text.length ≤ content.length) :
    Yields (fun r => r = true → StandsAt content i text) (strncmpEq content i text) := by
  induction text generalizing i with
  | nil => exact yields_ok fun _ => List.nil_prefix
  | cons c text ih =>
      rw [List.length_cons] at hfits
      unfold strncmpEq
      refine yields_bind (byteAt_yields (by omega)) fun d hd => ?_
      split
      · rename_i heq
        refine (ih (i + 1) (by omega)).mono fun r hr h => ?_
        have hd' : content[i]? = some c := by rw [hd, beq_iff_eq.mp heq]
        rw [StandsAt, List.drop_eq_getElem?_toList_append, hd']
        exact List.prefix_append_right_inj [c] |>.mpr (hr h)
      · exact yields_ok fun h => Bool.noConfusion h

theorem literal_yields {b : ParseBuffer} (hb : Within b) (text : Bytes) (h0 : 0 ∉ text)
    (hne : text ≠ []) :
    Yields (fun r => r = true → Onward b (b.skip text.length)) (literal b text) := by
  unfold literal
  split
  · rename_i h
    have hread : b.offset + text.length ≤ b.length := by simpa [ParseBuffer.canRead] using h
    refine (strncmpEq_yields text b.offset (hread.trans hb.fits)).mono fun r hr h => ?_
    have hlen : 0 < text.length := List.length_pos_iff.mpr hne
    -- The last character of the text is not the NUL.
    have hlast := standsAt_iff.mp (hr h) (text.length - 1) (by omega)
    have hin := hb.succ (i := b.offset + (text.length - 1)) (by omega) hlast
      fun hc => h0 (hc ▸ List.getElem_mem _)
    refine ⟨rfl, rfl, rfl, Nat.le_add_right _ _, ?_⟩
    show b.offset + text.length < b.length
    omega
  · exact yields_ok fun h => Bool.noConfusion h

/-! ### Numbers -/

theorem copyNumber_yields {content : Bytes} {length : Nat} (hfits : length ≤ content.length)
    (n i : Nat) (hi : i ≤ length) :
    Yields (fun s => i + s.length ≤ length ∧ StandsAt content i s ∧ ∀ c ∈ s, inDecimal c = true)
      (copyNumber content length i n) := by
  induction n generalizing i with
  | zero => exact yields_ok ⟨hi, List.nil_prefix, by simp⟩
  | succ n ih =>
      unfold copyNumber
      split
      · refine yields_bind (byteAt_yields (by omega)) fun c hc => ?_
        split
        · rename_i hin
          refine yields_bind (ih (i + 1) (by omega)) fun rest hrest => yields_ok ⟨?_, ?_, ?_⟩
          · rw [List.length_cons]
            omega
          · rw [StandsAt, List.drop_eq_getElem?_toList_append, hc]
            exact List.prefix_append_right_inj [c] |>.mpr hrest.2.1
          · intro d hd
            rcases List.mem_cons.mp hd with rfl | hd
            · exact hin
            · exact hrest.2.2 d hd
        · exact yields_ok ⟨hi, List.nil_prefix, by simp⟩
      · exact yields_ok ⟨hi, List.nil_prefix, by simp⟩

/-- A parse that came to something came to a document, further on in the text. -/
def Accepts {α : Type} (P : α → Prop) (b : ParseBuffer) (r : Parsed α) : Prop :=
  ∀ a b', r = some (a, b') → P a ∧ Onward b b'

theorem accepts_none {α : Type} {P : α → Prop} {b : ParseBuffer} : Accepts P b none := by
  intro a b' h
  cases h

theorem accepts_some {α : Type} {P : α → Prop} {b b' : ParseBuffer} {a : α} (ha : P a)
    (h : Onward b b') : Accepts P b (some (a, b')) := by
  intro a₁ b₁ he
  cases he
  exact ⟨ha, h⟩

theorem parseNumber_yields {b : ParseBuffer} (hb : Within b) (n : Nat) :
    Yields (Accepts (Document n) b) (parseNumber b) := by
  unfold parseNumber
  refine yields_bind (copyNumber_yields hb.fits 63 b.offset hb.inside.le) fun s hs => ?_
  obtain ⟨hle, hstands, hchars⟩ := hs
  dsimp only
  split
  · exact yields_ok accepts_none
  · rename_i hsome
    have hpart := strtod_le s
    refine yields_ok (accepts_some (.number n (strtod_number s)) ⟨rfl, rfl, rfl,
      Nat.le_add_right _ _, ?_⟩)
    -- The last character that was copied is not the NUL.
    have hlast := standsAt_iff.mp hstands (s.length - 1) (by omega)
    have hin := hb.succ (i := b.offset + (s.length - 1)) (by omega) hlast fun hc => by
      have := hchars _ (List.getElem_mem (n := s.length - 1) (by omega))
      rw [hc] at this
      exact absurd this (by decide)
    show b.offset + (strtod s).2 < b.length
    omega

/-! ### Literals of four digits -/

theorem hexDigit_lt {c : UInt8} {d : Nat} (h : hexDigit c = some d) : d < 16 := by
  unfold hexDigit at h
  simp only [UInt8.le_iff_toNat_le] at h
  split at h
  · rename_i hc
    have : c.toNat ≤ 57 := hc.2
    cases h
    omega
  split at h
  · rename_i hc
    have : c.toNat ≤ 70 := hc.2
    cases h
    omega
  split at h
  · rename_i hc
    have : c.toNat ≤ 102 := hc.2
    cases h
    omega
  · cases h

theorem parseHex4Loop_yields {content : Bytes} (n i h : Nat) (hfits : i + n ≤ content.length)
    (hn : n ≤ 4) (hh : 0 < n ∧ h + 16 ≤ 16 ^ (5 - n) ∨ n = 0 ∧ h < 65536) :
    Yields (· < 65536) (parseHex4Loop content i n h) := by
  induction n generalizing i h with
  | zero => exact yields_ok (by omega)
  | succ n ih =>
      unfold parseHex4Loop
      refine yields_bind (byteAt_yields (by omega)) fun c _ => ?_
      cases hd : hexDigit c with
      | none => exact yields_ok (by omega)
      | some d =>
          have hlt := hexDigit_lt hd
          have hpow : h + 16 ≤ 16 ^ (5 - (n + 1)) := (hh.resolve_right (by omega)).2
          refine ih (i + 1) _ (by omega) (by omega) ?_
          by_cases hlast : 0 < n
          · rw [if_pos hlast]
            refine Or.inl ⟨hlast, ?_⟩
            have hnext : 16 ^ (5 - n) = 16 ^ (5 - (n + 1)) * 16 := by
              rw [← Nat.pow_succ]
              congr 1
              omega
            omega
          · rw [if_neg hlast]
            right
            have h0 : n = 0 := by omega
            subst h0
            have h4 : 16 ^ (5 - (0 + 1)) = 65536 := by norm_num
            omega

theorem parseHex4_yields {content : Bytes} {i : Nat} (hfits : i + 4 ≤ content.length) :
    Yields (· < 65536) (parseHex4 content i) :=
  parseHex4Loop_yields 4 i 0 hfits (Nat.le_refl _) (Or.inl ⟨by norm_num, by norm_num⟩)

theorem length_utf8Loop (mark position codepoint : Nat) (tail : Bytes) :
    (utf8Loop mark position codepoint tail).length = position + 1 + tail.length := by
  induction position generalizing codepoint tail with
  | zero =>
      simp [utf8Loop]
      omega
  | succ position ih =>
      rw [utf8Loop, ih, List.length_cons]
      omega

theorem length_encodeUtf8 {codepoint : Nat} {bytes : Bytes} (h : encodeUtf8 codepoint = some bytes) :
    bytes.length ≤ 4 ∧ (codepoint < 65536 → bytes.length ≤ 3) := by
  unfold encodeUtf8 at h
  split at h
  · cases h
    simp
  split at h
  · cases h
    simp [length_utf8Loop]
  split at h
  · cases h
    simp [length_utf8Loop]
  split at h
  · cases h
    simp [length_utf8Loop]
    omega
  · cases h

/-- A literal takes six or twelve characters in front of the closing quote, and writes at
most half as many bytes. -/
theorem utf16LiteralToUtf8_yields {content : Bytes} {p e : Nat} (he : e ≤ content.length) :
    Yields (fun r => ∀ bytes n, r = some (bytes, n) → p + n ≤ e ∧
        (n = 6 ∧ bytes.length ≤ 3 ∨ n = 12 ∧ bytes.length ≤ 6))
      (utf16LiteralToUtf8 content p e) := by
  have hnone : ∀ bytes n, (none : Option (Bytes × Nat)) = some (bytes, n) → p + n ≤ e ∧
      (n = 6 ∧ bytes.length ≤ 3 ∨ n = 12 ∧ bytes.length ≤ 6) := by
    intro bytes n h
    cases h
  unfold utf16LiteralToUtf8
  split
  · exact yields_ok hnone
  rename_i hsix
  refine yields_bind (parseHex4_yields (by omega)) fun firstCode hfirst => ?_
  split
  · exact yields_ok hnone
  split
  · dsimp only
    split
    · exact yields_ok hnone
    rename_i htwelve
    refine yields_bind (byteAt_yields (by omega)) fun c _ => ?_
    split
    · exact yields_ok hnone
    refine yields_bind (byteAt_yields (by omega)) fun u _ => ?_
    split
    · exact yields_ok hnone
    refine yields_bind (parseHex4_yields (by omega)) fun secondCode _ => ?_
    split
    · exact yields_ok hnone
    refine yields_ok fun bytes n h => ?_
    obtain ⟨bytes', hbytes, hpair⟩ := Option.map_eq_some_iff.mp h
    cases hpair
    have := (length_encodeUtf8 hbytes).1
    omega
  · refine yields_ok fun bytes n h => ?_
    obtain ⟨bytes', hbytes, hpair⟩ := Option.map_eq_some_iff.mp h
    cases hpair
    have := (length_encodeUtf8 hbytes).2 hfirst
    omega

/-! ### Strings -/

section Escapes

variable (content : Bytes) (start : Nat)

/-- The first pass finds an escape at this character: it is a backslash, and not the
second character of an escape. -/
def escapeAt : Nat → Bool
  | 0 => content[start]? == some 92
  | n + 1 => content[start + (n + 1)]? == some 92 && !escapeAt n

/-- What the first pass counts for the first `n` characters. -/
def room : Nat → Nat
  | 0 => 0
  | n + 1 => room n + if escapeAt content start n then 0 else 1

variable {content start}

theorem escapeAt_backslash {n : Nat} (h : escapeAt content start n = true) :
    content[start + n]? = some 92 := by
  cases n with
  | zero => simpa [escapeAt] using h
  | succ n =>
      simp only [escapeAt, Bool.and_eq_true, beq_iff_eq] at h
      exact h.1

theorem escapeAt_of_backslash {n : Nat} (hc : content[start + n]? = some 92)
    (hprev : ∀ m, n = m + 1 → escapeAt content start m = false) :
    escapeAt content start n = true := by
  cases n with
  | zero => simpa [escapeAt] using hc
  | succ n => simp [escapeAt, hc, hprev n rfl]

variable (content start) in
theorem room_le_succ (n : Nat) : room content start n ≤ room content start (n + 1) := by
  rw [room]
  omega

variable (content start) in
theorem room_succ_le (n : Nat) : room content start (n + 1) ≤ room content start n + 1 := by
  rw [room]
  split <;> omega

variable (content start) in
theorem room_mono {m n : Nat} (h : m ≤ n) : room content start m ≤ room content start n := by
  induction n with
  | zero =>
      have : m = 0 := by omega
      rw [this]
  | succ n ih =>
      rcases Nat.lt_or_eq_of_le h with hlt | heq
      · exact (ih (by omega)).trans (room_le_succ content start n)
      · rw [heq]

/-- A character that is no backslash gets its byte. -/
theorem room_plain {n : Nat} {c : UInt8} (hc : content[start + n]? = some c) (hne : c ≠ 92) :
    room content start (n + 1) = room content start n + 1 := by
  rw [room, if_neg]
  intro h
  rw [escapeAt_backslash h] at hc
  exact hne (Option.some.inj hc).symm

variable (content start) in
/-- **Of two neighbouring characters at most one starts an escape.** -/
theorem room_pair (n : Nat) : room content start n + 1 ≤ room content start (n + 2) := by
  rw [room, room, escapeAt]
  cases escapeAt content start n <;> simp

variable (content start) in
theorem room_half (n k : Nat) : room content start n + k ≤ room content start (n + 2 * k) := by
  induction k with
  | zero => exact Nat.le_refl _
  | succ k ih =>
      have := room_pair content start (n + 2 * k)
      show _ ≤ room content start (n + 2 * k + 2)
      omega

end Escapes

/-- The first pass: the closing quote, and what was counted on the way to it. -/
theorem findQuote_yields {content : Bytes} {length start : Nat} (hfits : length ≤ content.length)
    (fuel n skipped : Nat) (hfuel : length < start + n + fuel) (hn : start + n ≤ length)
    (hprev : ∀ m, n = m + 1 → escapeAt content start m = false)
    (hcount : room content start n + skipped = n) :
    Yields (fun r => ∀ e k, r = some (e, k) → ∃ m, e = start + m ∧ e < length ∧
        content[e]? = some 34 ∧ room content start m + k = m)
      (findQuote content length fuel (start + n) skipped) := by
  induction fuel generalizing n skipped with
  | zero => omega
  | succ fuel ih =>
      unfold findQuote
      split
      · refine yields_bind (byteAt_yields (by omega)) fun c hc => ?_
        split
        · rename_i hquote
          refine yields_ok fun e k h => ?_
          cases h
          exact ⟨n, rfl, by assumption, by rw [hc, hquote], hcount⟩
        split
        · rename_i hslash
          rw [hslash] at hc
          have hesc := escapeAt_of_backslash hc hprev
          split
          · exact yields_ok fun e k h => by cases h
          · refine ih (n + 2) (skipped + 1) (by omega) (by omega) ?_ ?_
            · intro m hm
              have : m = n + 1 := by omega
              rw [this, escapeAt, hesc, Bool.not_true, Bool.and_false]
            · rw [room, room, escapeAt, hesc]
              simp
              omega
        · rename_i hslash
          refine ih (n + 1) skipped (by omega) (by omega) ?_ ?_
          · intro m hm
            have : m = n := by omega
            rw [this]
            by_contra hesc
            rw [escapeAt_backslash (by simpa using hesc)] at hc
            exact hslash (Option.some.inj hc).symm
          · rw [room_plain hc hslash]
            omega
      · exact yields_ok fun e k h => by cases h

/-- The second pass writes no more than the first one counted. -/
theorem copyString_yields {content : Bytes} {m size : Nat} (start : Nat)
    (hfits : start + m < content.length) (hsize : room content start m + 2 ≤ size)
    (fuel q : Nat) (output : Bytes) (hfuel : m + 2 ≤ q + fuel) (hq : q ≤ m + 1)
    (hout : output.length ≤ room content start q) :
    Yields (fun _ => True) (copyString content (start + m) size fuel (start + q) output) := by
  induction fuel generalizing q output with
  | zero => omega
  | succ fuel ih =>
      have hlast : room content start (m + 1) ≤ room content start m + 1 := room_succ_le content start m
      have hemit : ∀ (bytes : Bytes) (n : Nat), 0 < n → q + n ≤ m + 1 →
          output.length + bytes.length ≤ room content start (q + n) →
          Yields (fun _ => True) (do
            let output ← emit size output bytes
            copyString content (start + m) size fuel (start + q + n) output) := by
        intro bytes n hpos hn hbytes
        have hroom := room_mono content start hn
        have hlen : (output ++ bytes).length ≤ room content start (q + n) := by
          rw [List.length_append]
          exact hbytes
        have := ih (q + n) (output ++ bytes) (by omega) hn hlen
        rw [← Nat.add_assoc] at this
        rw [emit, if_pos (by omega)]
        exact this
      unfold copyString
      split
      · rename_i hlt
        refine yields_bind (byteAt_yields (by omega)) fun c hc => ?_
        split
        · rename_i hplain
          refine hemit [c] 1 (by omega) (by omega) ?_
          rw [room_plain hc hplain, List.length_singleton]
          omega
        refine yields_bind (byteAt_yields (by omega)) fun e _ => ?_
        split
        · refine yields_bind (utf16LiteralToUtf8_yields (by omega)) fun r hr => ?_
          match r with
          | none => exact yields_ok trivial
          | some (bytes, n) =>
              obtain ⟨hin, hwrites⟩ := hr bytes n rfl
              refine hemit bytes n (by omega) (by omega) ?_
              rcases hwrites with ⟨rfl, hb⟩ | ⟨rfl, hb⟩
              · have : _ ≤ room content start (q + 6) := room_half content start q 3
                omega
              · have : _ ≤ room content start (q + 12) := room_half content start q 6
                omega
        · cases escaped e with
          | none => exact yields_ok trivial
          | some d =>
              refine hemit [d] 2 (by omega) (by omega) ?_
              have := room_pair content start q
              rw [List.length_singleton]
              omega
      · have hroom := room_mono content start hq
        rw [emit, if_pos (by rw [List.length_singleton]; omega)]
        exact yields_ok trivial

theorem parseString_yields {b : ParseBuffer} (hb : Within b) :
    Yields (Accepts (0 ∉ ·) b) (parseString b) := by
  have hin := hb.inside
  have hfits := hb.fits
  unfold parseString
  refine yields_bind (head_yields hb) fun c _ => ?_
  split
  · exact yields_ok accepts_none
  refine yields_bind (findQuote_yields hfits (b.length + 1) 0 0 (by omega) (by omega) (by simp) rfl)
    fun r hr => ?_
  match r with
  | none => exact yields_ok accepts_none
  | some (e, k) =>
      obtain ⟨m, rfl, he, hquote, hcount⟩ := hr e k rfl
      refine yields_bind (copyString_yields (m := m) (q := 0) (b.offset + 1) (by omega)
        (by omega) (b.length + 1) [] (by omega) (by omega) (Nat.le_refl _)) fun r _ => ?_
      match r with
      | none => exact yields_ok accepts_none
      | some output =>
          refine yields_ok (accepts_some (zero_not_mem_cstr output) ⟨rfl, rfl, rfl, ?_, ?_⟩)
          · show b.offset ≤ b.offset + 1 + m + 1
            omega
          · exact hb.succ he hquote (by decide)

/-! ### Values -/

/-- The parser takes documents of that depth, from buffers of a depth of their own. -/
def ParsesAt (parseValue : ValueParser) (n depth : Nat) : Prop :=
  ∀ b, Within b → b.depth = depth → Yields (Accepts (Document n) b) (parseValue b)

/-- Going back one character and forward again. -/
theorem skip_back {b : ParseBuffer} (h : 0 < b.offset) :
    ({ b with offset := b.offset - 1 } : ParseBuffer).skip 1 = b := by
  cases b
  simp only [ParseBuffer.skip, ParseBuffer.mk.injEq, true_and, and_true]
  exact Nat.sub_add_cancel h

theorem arrayItems_yields {parseValue : ValueParser} {n depth : Nat}
    (hparse : ParsesAt parseValue n depth) (fuel : Nat) (b : ParseBuffer) (items : List CJson)
    (hb : Within (b.skip 1)) (hdepth : b.depth = depth) (hfuel : b.length ≤ b.offset + 1 + fuel)
    (hitems : ∀ t ∈ items, Document n t) :
    Yields (Accepts (fun items => ∀ t ∈ items, Document n t) (b.skip 1))
      (arrayItems parseValue fuel b items) := by
  induction fuel generalizing b items with
  | zero =>
      have : b.offset + 1 < b.length := hb.inside
      omega
  | succ fuel ih =>
      unfold arrayItems
      refine yields_bind (bufferSkipWhitespace_yields hb) fun b₁ h₁ => ?_
      have hb₁ := h₁.within hb
      refine yields_bind (hparse b₁ hb₁ (h₁.depth.trans hdepth)) fun r hr => ?_
      match r with
      | none => exact yields_ok accepts_none
      | some (item, b₂) =>
          obtain ⟨hitem, h₂⟩ := hr item b₂ rfl
          have hb₂ := h₂.within hb₁
          refine yields_bind (bufferSkipWhitespace_yields hb₂) fun b₃ h₃ => ?_
          have hb₃ := h₃.within hb₂
          have hon := (h₁.trans h₂).trans h₃
          have hitems' : ∀ t ∈ items ++ [item], Document n t := by
            intro t ht
            rcases List.mem_append.mp ht with ht | ht
            · exact hitems t ht
            · rw [List.mem_singleton.mp ht]
              exact hitem
          refine yields_bind (nextIs_yields hb₃ 44) fun more hmore => ?_
          split
          · rename_i h
            have hskip := onward_skip hb₃ (hmore h) (by decide)
            have hoff : b.offset + 1 ≤ b₃.offset := hon.offset
            have hlen : b₃.length = b.length := hon.length
            have := ih b₃ (items ++ [item]) (hskip.within hb₃) (hon.depth.trans hdepth)
              (by omega) hitems'
            refine this.mono fun r hr a b' he => ?_
            obtain ⟨ha, hb'⟩ := hr a b' he
            exact ⟨ha, (hon.trans hskip).trans hb'⟩
          · exact yields_ok (accepts_some hitems' hon)

theorem objectMembers_yields {parseValue : ValueParser} {n depth : Nat}
    (hparse : ParsesAt parseValue n depth) (fuel : Nat) (b : ParseBuffer)
    (members : List (Bytes × CJson)) (hb : Within (b.skip 1)) (hdepth : b.depth = depth)
    (hfuel : b.length ≤ b.offset + 1 + fuel)
    (hmembers : ∀ m ∈ members, 0 ∉ m.1 ∧ Document n m.2) :
    Yields (Accepts (fun members => ∀ m ∈ members, 0 ∉ m.1 ∧ Document n m.2) (b.skip 1))
      (objectMembers parseValue fuel b members) := by
  induction fuel generalizing b members with
  | zero =>
      have : b.offset + 1 < b.length := hb.inside
      omega
  | succ fuel ih =>
      unfold objectMembers
      refine yields_bind (bufferSkipWhitespace_yields hb) fun b₁ h₁ => ?_
      have hb₁ := h₁.within hb
      refine yields_bind (parseString_yields hb₁) fun r hr => ?_
      match r with
      | none => exact yields_ok accepts_none
      | some (name, b₂) =>
          obtain ⟨hname, h₂⟩ := hr name b₂ rfl
          have hb₂ := h₂.within hb₁
          refine yields_bind (bufferSkipWhitespace_yields hb₂) fun b₃ h₃ => ?_
          have hb₃ := h₃.within hb₂
          refine yields_bind (nextIs_yields hb₃ 58) fun colon hcolon => ?_
          split
          · rename_i h
            have h₄ := onward_skip hb₃ (hcolon h) (by decide)
            have hb₄ := h₄.within hb₃
            refine yields_bind (bufferSkipWhitespace_yields hb₄) fun b₅ h₅ => ?_
            have hb₅ := h₅.within hb₄
            have hkey := (((h₁.trans h₂).trans h₃).trans h₄).trans h₅
            refine yields_bind (hparse b₅ hb₅ (hkey.depth.trans hdepth)) fun r hr => ?_
            match r with
            | none => exact yields_ok accepts_none
            | some (item, b₆) =>
                obtain ⟨hitem, h₆⟩ := hr item b₆ rfl
                have hb₆ := h₆.within hb₅
                refine yields_bind (bufferSkipWhitespace_yields hb₆) fun b₇ h₇ => ?_
                have hb₇ := h₇.within hb₆
                have hon := (hkey.trans h₆).trans h₇
                have hmembers' : ∀ m ∈ members ++ [(name, item)], 0 ∉ m.1 ∧ Document n m.2 := by
                  intro m hm
                  rcases List.mem_append.mp hm with hm | hm
                  · exact hmembers m hm
                  · rw [List.mem_singleton.mp hm]
                    exact ⟨hname, hitem⟩
                refine yields_bind (nextIs_yields hb₇ 44) fun more hmore => ?_
                split
                · rename_i h
                  have hskip := onward_skip hb₇ (hmore h) (by decide)
                  have hoff : b.offset + 1 ≤ b₇.offset := hon.offset
                  have hlen : b₇.length = b.length := hon.length
                  have := ih b₇ (members ++ [(name, item)]) (hskip.within hb₇)
                    (hon.depth.trans hdepth) (by omega) hmembers'
                  refine this.mono fun r hr a b' he => ?_
                  obtain ⟨ha, hb'⟩ := hr a b' he
                  exact ⟨ha, (hon.trans hskip).trans hb'⟩
                · exact yields_ok (accepts_some hmembers' hon)
          · exact yields_ok accepts_none

/-- The way out of an array or an object: over its last character, one level up. -/
theorem onward_close {b b' : ParseBuffer} (hb : Within b)
    (h : Onward { b with depth := b.depth + 1 } b') {c : UInt8}
    (hc : b'.content[b'.offset]? = some c) (h0 : c ≠ 0) :
    Onward b { b'.skip 1 with depth := b'.depth - 1 } := by
  have hb' : Within b' := h.within ⟨hb.fits, hb.nul, hb.inside⟩
  have hskip := onward_skip hb' hc h0
  refine ⟨h.content, h.length, ?_, h.offset.trans (Nat.le_add_right _ _), ?_⟩
  · show b'.depth - 1 = b.depth
    rw [h.depth, Nat.add_sub_cancel]
  · show b'.offset + 1 < b.length
    rw [← show b'.length = b.length from h.length]
    exact hskip.inside

theorem parseArray_yields {parseValue : ValueParser} {n : Nat} {b : ParseBuffer} (hb : Within b)
    (hparse : ParsesAt parseValue n (b.depth + 1)) :
    Yields (Accepts (Document (n + 1)) b) (parseArray parseValue b) := by
  unfold parseArray
  split
  · exact yields_ok accepts_none
  dsimp only
  have hdown : Within { b with depth := b.depth + 1 } := ⟨hb.fits, hb.nul, hb.inside⟩
  refine yields_bind (head_yields hdown) fun c hc => ?_
  split
  · exact yields_ok accepts_none
  rename_i hopen
  have hskip := onward_skip hdown hc (by rw [not_not.mp hopen]; decide)
  refine yields_bind (bufferSkipWhitespace_yields (hskip.within hdown)) fun b₁ h₁ => ?_
  have hon := hskip.trans h₁
  have hb₁ := hon.within hdown
  refine yields_bind (nextIs_yields hb₁ 93) fun empty hempty => ?_
  split
  · rename_i h
    exact yields_ok (accepts_some (.array (by simp)) (onward_close hb hon (hempty h) (by decide)))
  split
  · have hpos : 0 < b₁.offset := Nat.lt_of_lt_of_le (Nat.succ_pos _) h₁.offset
    have hback := skip_back hpos
    have hitems := arrayItems_yields hparse b₁.length { b₁ with offset := b₁.offset - 1 } []
      (hback.symm ▸ hb₁) hon.depth (Nat.le_add_left _ _) (by simp)
    rw [hback] at hitems
    refine yields_bind hitems fun r hr => ?_
    match r with
    | none => exact yields_ok accepts_none
    | some (items, b₂) =>
        obtain ⟨hdocs, h₂⟩ := hr items b₂ rfl
        refine yields_bind (nextIs_yields (h₂.within hb₁) 93) fun close hclose => ?_
        split
        · rename_i h
          exact yields_ok (accepts_some (.array hdocs)
            (onward_close hb (hon.trans h₂) (hclose h) (by decide)))
        · exact yields_ok accepts_none
  · exact yields_ok accepts_none

theorem parseObject_yields {parseValue : ValueParser} {n : Nat} {b : ParseBuffer} (hb : Within b)
    (hparse : ParsesAt parseValue n (b.depth + 1)) :
    Yields (Accepts (Document (n + 1)) b) (parseObject parseValue b) := by
  unfold parseObject
  split
  · exact yields_ok accepts_none
  dsimp only
  have hdown : Within { b with depth := b.depth + 1 } := ⟨hb.fits, hb.nul, hb.inside⟩
  refine yields_bind (nextIs_yields hdown 123) fun opens hopens => ?_
  split
  · rename_i hopen
    have hskip := onward_skip hdown (hopens hopen) (by decide)
    refine yields_bind (bufferSkipWhitespace_yields (hskip.within hdown)) fun b₁ h₁ => ?_
    have hon := hskip.trans h₁
    have hb₁ := hon.within hdown
    refine yields_bind (nextIs_yields hb₁ 125) fun empty hempty => ?_
    split
    · rename_i h
      exact yields_ok (accepts_some (.object (by simp) (by simp))
        (onward_close hb hon (hempty h) (by decide)))
    split
    · have hpos : 0 < b₁.offset := Nat.lt_of_lt_of_le (Nat.succ_pos _) h₁.offset
      have hback := skip_back hpos
      have hmembers := objectMembers_yields hparse b₁.length
        { b₁ with offset := b₁.offset - 1 } [] (hback.symm ▸ hb₁) hon.depth
        (Nat.le_add_left _ _) (by simp)
      rw [hback] at hmembers
      refine yields_bind hmembers fun r hr => ?_
      match r with
      | none => exact yields_ok accepts_none
      | some (members, b₂) =>
          obtain ⟨hdocs, h₂⟩ := hr members b₂ rfl
          refine yields_bind (nextIs_yields (h₂.within hb₁) 125) fun close hclose => ?_
          split
          · rename_i h
            exact yields_ok (accepts_some
              (.object (fun m hm => (hdocs m hm).1) fun m hm => (hdocs m hm).2)
              (onward_close hb (hon.trans h₂) (hclose h) (by decide)))
          · exact yields_ok accepts_none
    · exact yields_ok accepts_none
  · exact yields_ok accepts_none

theorem startsNumber_yields {b : ParseBuffer} (hb : Within b) :
    Yields (fun _ => True) (startsNumber b) := by
  unfold startsNumber
  split
  · exact yields_bind (head_yields hb) fun c _ => yields_ok trivial
  · exact yields_ok trivial

/-- The limit allows as many levels as there are calls. -/
theorem parseValue_yields (nesting : Nat) {b : ParseBuffer} (hb : Within b)
    (hcalls : CJSON_NESTING_LIMIT < b.depth + nesting) (hdepth : b.depth ≤ CJSON_NESTING_LIMIT) :
    Yields (Accepts (Document (CJSON_NESTING_LIMIT - b.depth)) b) (parseValue nesting b) := by
  induction nesting generalizing b with
  | zero => omega
  | succ nesting ih =>
      have hinner : b.depth < CJSON_NESTING_LIMIT →
          ParsesAt (parseValue nesting) (CJSON_NESTING_LIMIT - (b.depth + 1)) (b.depth + 1) := by
        intro h b' hb' hd
        rw [← hd]
        exact ih hb' (by omega) (by omega)
      have houter : b.depth < CJSON_NESTING_LIMIT →
          CJSON_NESTING_LIMIT - (b.depth + 1) + 1 = CJSON_NESTING_LIMIT - b.depth := by omega
      unfold parseValue
      refine yields_bind (literal_yields hb (ascii "null") (by decide +kernel)
        (by decide +kernel)) fun isNull hnull => ?_
      split
      · rename_i h
        exact yields_ok (accepts_some (.null _) (hnull h))
      refine yields_bind (literal_yields hb (ascii "false") (by decide +kernel)
        (by decide +kernel)) fun isFalse hfalse => ?_
      split
      · rename_i h
        exact yields_ok (accepts_some (.bool _ _) (hfalse h))
      refine yields_bind (literal_yields hb (ascii "true") (by decide +kernel)
        (by decide +kernel)) fun isTrue htrue => ?_
      split
      · rename_i h
        exact yields_ok (accepts_some (.bool _ _) (htrue h))
      refine yields_bind (nextIs_yields hb 34) fun isString _ => ?_
      split
      · refine yields_bind (parseString_yields hb) fun r hr => ?_
        match r with
        | none => exact yields_ok accepts_none
        | some (s, b') =>
            obtain ⟨hs, hon⟩ := hr s b' rfl
            exact yields_ok (accepts_some (.string _ hs) hon)
      refine yields_bind (startsNumber_yields hb) fun isNumber _ => ?_
      split
      · exact parseNumber_yields hb _
      refine yields_bind (nextIs_yields hb 91) fun isArray _ => ?_
      split
      · by_cases h : b.depth < CJSON_NESTING_LIMIT
        · rw [← houter h]
          exact parseArray_yields hb (hinner h)
        · rw [parseArray, if_pos (Nat.not_lt.mp h)]
          exact yields_ok accepts_none
      refine yields_bind (nextIs_yields hb 123) fun isObject _ => ?_
      split
      · by_cases h : b.depth < CJSON_NESTING_LIMIT
        · rw [← houter h]
          exact parseObject_yields hb (hinner h)
        · rw [parseObject, if_pos (Nat.not_lt.mp h)]
          exact yields_ok accepts_none
      · exact yields_ok accepts_none

/-! ### Texts -/

theorem skipUtf8Bom_yields {b : ParseBuffer} (hb : Within b) :
    Yields (Onward b) (skipUtf8Bom b) := by
  unfold skipUtf8Bom
  split
  · rename_i h
    have hread : b.offset + 4 < b.length := by simpa [ParseBuffer.canAccessAtIndex] using h
    have hfits := hb.fits
    refine yields_bind (strncmpEq_yields _ b.offset (by simp; omega)) fun bom _ => yields_ok ?_
    split
    · refine ⟨rfl, rfl, rfl, Nat.le_add_right _ _, ?_⟩
      show b.offset + 3 < b.length
      omega
    · exact Onward.refl hb.inside
  · exact yields_ok (Onward.refl hb.inside)

/-- The last byte `cJSON_Parse` looks at is the NUL of its string. -/
theorem getElem?_length_cstr {value : Bytes} (h : 0 ∈ value) :
    value[(cstr value).length]? = some 0 := by
  induction value with
  | nil => simp at h
  | cons c value ih =>
      by_cases hc : c = 0
      · simp [cstr, hc]
      · have hmem : (0 : UInt8) ∈ value := by
          rcases List.mem_cons.mp h with h | h
          · exact absurd h.symm hc
          · exact h
        have := ih hmem
        simp only [cstr] at this ⊢
        simpa [hc] using this

theorem parseWithOpts_yields {value : Bytes} (h : 0 ∈ value) (strict : Bool) :
    Yields (fun r => ∀ t, r = some t → Document CJSON_NESTING_LIMIT t)
      (parseWithOpts value strict) := by
  have hnul := getElem?_length_cstr h
  have hnone : ∀ t : CJson, none = some t → Document CJSON_NESTING_LIMIT t := by
    intro t ht
    cases ht
  unfold parseWithOpts
  rw [strlen_of_mem h]
  show Yields _ (parseWithLengthOpts value ((cstr value).length + 1) strict)
  unfold parseWithLengthOpts
  rw [if_neg (Nat.succ_ne_zero _)]
  dsimp only
  have hb : Within { content := value, length := (cstr value).length + 1, offset := 0, depth := 0 } := by
    refine ⟨?_, hnul, Nat.succ_pos _⟩
    exact (List.getElem?_eq_some_iff.mp hnul).1
  refine yields_bind (skipUtf8Bom_yields hb) fun b₁ h₁ => ?_
  refine yields_bind (bufferSkipWhitespace_yields (h₁.within hb)) fun b₂ h₂ => ?_
  have hon := h₁.trans h₂
  have hdepth : b₂.depth = 0 := hon.depth
  refine yields_bind (parseValue_yields (CJSON_NESTING_LIMIT + 1) (hon.within hb) (by omega)
    (by omega)) fun r hr => ?_
  rw [hdepth] at hr
  match r with
  | none => exact yields_ok hnone
  | some (item, b₃) =>
      obtain ⟨hdoc, h₃⟩ := hr item b₃ rfl
      have hsome : ∀ t, some item = some t → Document CJSON_NESTING_LIMIT t := by
        intro t ht
        cases ht
        exact hdoc
      have hb₃ := h₃.within (hon.within hb)
      cases strict with
      | false => exact yields_ok hsome
      | true =>
          refine yields_bind (bufferSkipWhitespace_yields hb₃) fun b₄ h₄ => ?_
          refine yields_bind (nextIs_yields (h₄.within hb₃) 0) fun isEnd _ => ?_
          cases isEnd with
          | false => exact yields_ok hnone
          | true => exact yields_ok hsome

/-- **Parsing faults only where the string has no end**, and what is accepted is a
document within the nesting limit. -/
theorem parse_safe (value : Bytes) (strict : Bool) :
    (∃ r, parseWithOpts value strict = .ok r ∧
        ∀ t, r = some t → Document CJSON_NESTING_LIMIT t) ↔ 0 ∈ value := by
  constructor
  · rintro ⟨r, hr, -⟩
    by_contra h
    rw [parseWithOpts, strlen_of_not_mem h] at hr
    cases hr
  · intro h
    exact parseWithOpts_yields h strict

end CJson

end EleDs
