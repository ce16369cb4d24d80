/-
What cJSON prints it can read.

The text of a document, formatted or not, is parsed back to the document
(`parse_text`), as long as it is not nested deeper than the limit.  Only the numbers need
a second look: an infinity is printed as `null`, and a number is printed with fifteen
digits where these are good enough for `compare_double`, and then what comes back need not
be the same double.  An integer that fits into an `int` does come back (`reread_int`).

The parser is followed character by character.  `Reads b s` says that the text goes on
with `s`, and each function of the parser gets one lemma about what it makes of such a
text.
-/
import EleDs.Proofs.CJsonPrint

namespace EleDs

open CMem Decimals Numerals Rounding

namespace CJson

/-! ### What is read back -/

/-- The number a printed number stands for. -/
def rereadNumber (d : ℚ) : CJson := if isinf d then .null else .number (strtod (numberText d)).1

mutual

/-- The tree with its numbers as they are read back. -/
def reread : CJson → CJson
  | .null => .null
  | .bool b => .bool b
  | .number d => rereadNumber d
  | .string s => .string s
  | .array items => .array (rereadItems items)
  | .object members => .object (rereadMembers members)

def rereadItems : List CJson → List CJson
  | [] => []
  | item :: rest => reread item :: rereadItems rest

def rereadMembers : List (Bytes × CJson) → List (Bytes × CJson)
  | [] => []
  | (name, item) :: rest => (name, reread item) :: rereadMembers rest

end

/-! ### Following a text -/

/-- The text goes on with `s`. -/
structure Reads (b : ParseBuffer) (s : Bytes) : Prop where
  stands : StandsAt b.content b.offset s
  inside : b.offset + s.length ≤ b.length

theorem Reads.front {b : ParseBuffer} {s t : Bytes} (h : Reads b (s ++ t)) : Reads b s where
  stands := (List.prefix_append s t).trans h.stands
  inside := by
    have := h.inside
    rw [List.length_append] at this
    omega

theorem Reads.skip {b : ParseBuffer} {s t : Bytes} (h : Reads b (s ++ t)) :
    Reads (b.skip s.length) t where
  stands := by
    obtain ⟨rest, hrest⟩ := h.stands
    refine ⟨rest, ?_⟩
    show t ++ rest = b.content.drop (b.offset + s.length)
    rw [← List.drop_drop, ← hrest, List.append_assoc, List.drop_left]
  inside := by
    have := h.inside
    rw [List.length_append] at this
    show b.offset + s.length + t.length ≤ b.length
    omega

theorem Reads.tail {b : ParseBuffer} {c : UInt8} {s : Bytes} (h : Reads b (c :: s)) :
    Reads (b.skip 1) s := Reads.skip (s := [c]) h

theorem Reads.atDepth {b : ParseBuffer} {s : Bytes} (h : Reads b s) (n : Nat) :
    Reads { b with depth := n } s := ⟨h.stands, h.inside⟩

theorem Reads.getElem? {b : ParseBuffer} {s : Bytes} (h : Reads b s) {i : Nat} (hi : i < s.length) :
    b.content[b.offset + i]? = some s[i] := standsAt_iff.mp h.stands i hi

theorem byteAt_of {content : Bytes} {i : Nat} {c : UInt8} (h : content[i]? = some c) :
    byteAt content i = .ok c := by
  rw [byteAt, h]

theorem Reads.head {b : ParseBuffer} {c : UInt8} {s : Bytes} (h : Reads b (c :: s)) :
    b.head = .ok c := by
  have := h.getElem? (i := 0) (Nat.succ_pos _)
  exact byteAt_of this

theorem Reads.canAccess {b : ParseBuffer} {c : UInt8} {s : Bytes} (h : Reads b (c :: s)) :
    b.canAccessAtIndex 0 = true := by
  have := h.inside
  rw [List.length_cons] at this
  simp only [ParseBuffer.canAccessAtIndex, decide_eq_true_eq]
  omega

theorem Reads.nextIs {b : ParseBuffer} {c : UInt8} {s : Bytes} (h : Reads b (c :: s)) (d : UInt8) :
    b.nextIs d = .ok (c == d) := by
  rw [ParseBuffer.nextIs, if_pos h.canAccess, h.head]
  rfl

theorem Reads.startsNumber {b : ParseBuffer} {c : UInt8} {s : Bytes} (h : Reads b (c :: s)) :
    CJson.startsNumber b = .ok (c == 45 || isDigit c) := by
  rw [CJson.startsNumber, if_pos h.canAccess, h.head]
  rfl

theorem skip_skip (b : ParseBuffer) (m n : Nat) : (b.skip m).skip n = b.skip (m + n) := by
  simp only [ParseBuffer.skip, Nat.add_assoc]

/-! ### Blanks and literals -/

theorem skipBlanks_of {content w : Bytes} {c : UInt8} {offset left : Nat}
    (h : StandsAt content offset (w ++ [c])) (hw : ∀ x ∈ w, x ≤ 32) (hc : 32 < c)
    (hleft : w.length < left) : skipBlanks content offset left = .ok (offset + w.length) := by
  induction w generalizing offset left with
  | nil =>
      obtain ⟨left, rfl⟩ : ∃ k, left = k + 1 := ⟨left - 1, by simp at hleft; omega⟩
      rw [skipBlanks, byteAt_of h.head]
      show (if c ≤ 32 then _ else _) = _
      rw [if_neg (by simpa using hc)]
      rfl
  | cons x w ih =>
      obtain ⟨left, rfl⟩ : ∃ k, left = k + 1 := ⟨left - 1, by simp at hleft; omega⟩
      rw [skipBlanks, byteAt_of h.head]
      show (if x ≤ 32 then _ else _) = _
      rw [if_pos (hw x List.mem_cons_self), ih h.tail (fun y hy => hw y (List.mem_cons_of_mem _ hy))
        (by simp at hleft; omega), List.length_cons]
      congr 1
      omega

/-- Blanks are skipped up to the next character. -/
theorem Reads.skipWhitespace {b : ParseBuffer} {w : Bytes} {c : UInt8} {s : Bytes}
    (h : Reads b (w ++ c :: s)) (hw : ∀ x ∈ w, x ≤ 32) (hc : 32 < c) :
    bufferSkipWhitespace b = .ok (b.skip w.length) := by
  have hin := h.inside
  rw [List.length_append, List.length_cons] at hin
  have hstands : StandsAt b.content b.offset (w ++ [c]) := by
    refine List.IsPrefix.trans ?_ h.stands
    rw [show w ++ c :: s = (w ++ [c]) ++ s by simp]
    exact List.prefix_append _ _
  have hcan : b.canAccessAtIndex 0 = true := by
    simp only [ParseBuffer.canAccessAtIndex, decide_eq_true_eq]
    omega
  rw [bufferSkipWhitespace, if_pos hcan, skipBlanks_of hstands hw hc (by omega)]
  show Except.ok _ = _
  rw [if_neg (by omega)]
  rfl

/-- Where a character stands nothing is skipped. -/
theorem Reads.skipNothing {b : ParseBuffer} {c : UInt8} {s : Bytes} (h : Reads b (c :: s))
    (hc : 32 < c) : bufferSkipWhitespace b = .ok b :=
  Reads.skipWhitespace (w := []) h (by simp) hc

theorem strncmpEq_of {content : Bytes} (s : Bytes) {i : Nat} (h : StandsAt content i s) :
    strncmpEq content i s = .ok true := by
  induction s generalizing i with
  | nil => rfl
  | cons c s ih =>
      rw [strncmpEq, byteAt_of h.head]
      show (if c == c then _ else _) = _
      rw [if_pos (beq_self_eq_true c), ih h.tail]

theorem Reads.literal {b : ParseBuffer} {s t : Bytes} (h : Reads b (s ++ t)) :
    CJson.literal b s = .ok true := by
  have hin := h.front.inside
  rw [CJson.literal, if_pos (by simpa [ParseBuffer.canRead] using hin), strncmpEq_of s h.front.stands]

/-- A text that starts with another character. -/
theorem Reads.noLiteral {b : ParseBuffer} {c d : UInt8} {s t : Bytes} (h : Reads b (c :: s))
    (hne : c ≠ d) : CJson.literal b (d :: t) = .ok false := by
  rw [CJson.literal]
  split
  · have hbyte : byteAt b.content b.offset = .ok c := h.head
    rw [strncmpEq, hbyte]
    show (if c == d then _ else _) = _
    rw [if_neg (by simpa using hne)]
  · rfl

/-! ### Numbers -/

theorem copyNumber_of {content s : Bytes} {c : UInt8} {i length n : Nat}
    (h : StandsAt content i (s ++ [c])) (hin : i + s.length < length)
    (hs : ∀ x ∈ s, inDecimal x = true) (hc : inDecimal c = false) (hn : s.length ≤ n) :
    copyNumber content length i n = .ok s := by
  induction s generalizing i n with
  | nil =>
      cases n with
      | zero => rfl
      | succ n =>
          rw [copyNumber, if_pos (by simpa using hin), byteAt_of h.head]
          show (if inDecimal c then _ else _) = _
          rw [if_neg (by simp [hc])]
  | cons x s ih =>
      obtain ⟨n, rfl⟩ : ∃ k, n = k + 1 := ⟨n - 1, by simp at hn; omega⟩
      rw [List.length_cons] at hin hn
      rw [copyNumber, if_pos (by omega), byteAt_of h.head]
      show (if inDecimal x then _ else _) = _
      rw [if_pos (hs x List.mem_cons_self), ih h.tail (by omega)
        (fun y hy => hs y (List.mem_cons_of_mem _ hy)) (by omega)]
      rfl

theorem Reads.parseNumber {b : ParseBuffer} {s t : Bytes} {c : UInt8} {q : ℚ}
    (h : Reads b (s ++ c :: t)) (hs : ∀ x ∈ s, inDecimal x = true) (hc : inDecimal c = false)
    (hlen : s.length ≤ 63) (hne : s ≠ []) (hq : strtod s = (q, s.length)) :
    CJson.parseNumber b = .ok (some (.number q, b.skip s.length)) := by
  have hin := h.inside
  rw [List.length_append, List.length_cons] at hin
  have hstands : StandsAt b.content b.offset (s ++ [c]) := by
    refine List.IsPrefix.trans ?_ h.stands
    rw [show s ++ c :: t = (s ++ [c]) ++ t by simp]
    exact List.prefix_append _ _
  have hpos := List.length_pos_iff.mpr hne
  rw [CJson.parseNumber, copyNumber_of hstands (by omega) hs hc hlen]
  show (if (strtod s).2 = 0 then _ else _) = _
  rw [hq, if_neg (by show ¬ s.length = 0; omega)]

/-! ### Strings -/

/-- The three ways a character is written. -/
theorem escapeText_cases (c : UInt8) :
    (escapeText c = [c] ∧ c ≠ 34 ∧ c ≠ 92) ∨
    (∃ l, escapeText c = [92, l] ∧ l ≠ 117 ∧ escaped l = some c) ∨
    (c.toNat < 32 ∧
      escapeText c = [92, 117, 48, 48, hexChar (c.toNat / 16), hexChar (c.toNat % 16)]) := by
  by_cases hplain : 31 < c ∧ c ≠ 34 ∧ c ≠ 92
  · left
    rw [escapeText, if_pos hplain]
    exact ⟨rfl, hplain.2⟩
  right
  cases hshort : shortEscape c with
  | some l =>
      left
      refine ⟨l, by rw [escapeText, if_neg hplain, hshort], ?_⟩
      unfold shortEscape at hshort
      repeat' split at hshort
      all_goals first
        | (rename_i hc
           cases hshort
           rw [hc]
           decide)
        | cases hshort
  | none =>
      right
      constructor
      · by_contra hge
        refine hplain ⟨?_, ?_, ?_⟩
        · show 31 < c.toNat
          omega
        · rintro rfl
          simp [shortEscape] at hshort
        · rintro rfl
          simp [shortEscape] at hshort
      · rw [escapeText, if_neg hplain, hshort, unicodeText]

/-- The first pass at a backslash. -/
theorem findQuote_escape {content : Bytes} {length i : Nat} (k fuel : Nat)
    (h : content[i]? = some 92) (hin : i + 1 < length) :
    findQuote content length (fuel + 1) i k = findQuote content length fuel (i + 2) (k + 1) := by
  rw [findQuote, if_pos (by omega), byteAt_of h]
  simp only [bind, Except.bind]
  rw [if_neg (by decide), if_pos trivial, if_neg (by omega)]

/-- Characters that are neither a quote nor a backslash. -/
theorem findQuote_plain {content rest : Bytes} {i : Nat} (length k fuel : Nat) (xs : Bytes)
    (h : StandsAt content i (xs ++ rest)) (hin : i + xs.length ≤ length)
    (hxs : ∀ x ∈ xs, x ≠ 34 ∧ x ≠ 92) :
    findQuote content length (xs.length + fuel) i k
      = findQuote content length fuel (i + xs.length) k := by
  induction xs generalizing i with
  | nil => simp
  | cons x xs ih =>
      obtain ⟨h34, h92⟩ := hxs x List.mem_cons_self
      rw [List.length_cons] at hin
      rw [List.length_cons, Nat.add_right_comm, findQuote, if_pos (by omega), byteAt_of h.head]
      show (if x = 34 then _ else _) = _
      rw [if_neg h34, if_neg h92, ih h.tail (by omega) fun y hy => hxs y (List.mem_cons_of_mem _ hy)]
      congr 1
      omega

theorem hexChar_plain (d : Nat) (h : d < 16) : hexChar d ≠ 34 ∧ hexChar d ≠ 92 := by
  have : ∀ d < 16, hexChar d ≠ 34 ∧ hexChar d ≠ 92 := by decide
  exact this d h

theorem hexDigit_hexChar {d : Nat} (h : d < 16) : hexDigit (hexChar d) = some d := by
  have : ∀ d < 16, hexDigit (hexChar d) = some d := by decide
  exact this d h

/-- The first pass over what was printed: it finds the quote at the end. -/
theorem findQuote_of {content : Bytes} {i : Nat} (length : Nat) (s : Bytes) (k extra : Nat)
    (h : StandsAt content i (s.flatMap escapeText ++ [34]))
    (hin : i + (s.flatMap escapeText).length < length) :
    ∃ k', findQuote content length ((s.flatMap escapeText).length + 1 + extra) i k
        = .ok (some (i + (s.flatMap escapeText).length, k')) ∧
      k' + s.length ≤ k + (s.flatMap escapeText).length := by
  induction s generalizing i k extra with
  | nil =>
      refine ⟨k, ?_, Nat.le_refl _⟩
      rw [List.flatMap_nil, List.length_nil, Nat.zero_add, Nat.add_comm, findQuote,
        if_pos (by simpa using hin), byteAt_of h.head]
      rfl
  | cons c s ih =>
      rw [List.flatMap_cons] at h hin ⊢
      rcases escapeText_cases c with ⟨hc, h34, h92⟩ | ⟨l, hc, -, -⟩ | ⟨hlt, hc⟩
      · rw [hc] at h hin ⊢
        simp only [List.nil_append, List.length_cons, List.cons_append] at h hin ⊢
        obtain ⟨k', hrun, hk'⟩ := ih k extra h.tail (by omega)
        refine ⟨k', ?_, by omega⟩
        have hstep := findQuote_plain length k ((s.flatMap escapeText).length + 1 + extra) [c] h
          (by simp; omega) (by simp [h34, h92])
        rw [List.length_singleton] at hstep
        rw [show (s.flatMap escapeText).length + 1 + 1 + extra
          = 1 + ((s.flatMap escapeText).length + 1 + extra) by omega, hstep, hrun]
        congr 3
        omega
      · rw [hc] at h hin ⊢
        simp only [List.length_cons, List.cons_append, List.nil_append] at h hin ⊢
        obtain ⟨k', hrun, hk'⟩ := ih (k + 1) (extra + 1) h.tail.tail (by omega)
        refine ⟨k', ?_, by omega⟩
        rw [show (s.flatMap escapeText).length + 1 + 1 + 1 + extra
          = ((s.flatMap escapeText).length + 1 + (extra + 1)) + 1 by omega,
          findQuote_escape _ _ h.head (by omega)]
        refine hrun.trans ?_
        congr 3
        omega
      · rw [hc] at h hin ⊢
        simp only [List.length_cons, List.cons_append, List.nil_append] at h hin ⊢
        have h₂ := h.tail.tail
        obtain ⟨k', hrun, hk'⟩ := ih (k + 1) (extra + 1)
          h₂.tail.tail.tail.tail (by omega)
        refine ⟨k', ?_, by omega⟩
        have hplain := findQuote_plain length (k + 1) ((s.flatMap escapeText).length + 1 + (extra + 1))
          [48, 48, hexChar (c.toNat / 16), hexChar (c.toNat % 16)] h₂ (by simp; omega) (by
            have h1 := hexChar_plain (c.toNat / 16) (by omega)
            have h2 := hexChar_plain (c.toNat % 16) (by omega)
            simp [h1, h2])
        rw [show (s.flatMap escapeText).length + 1 + 1 + 1 + 1 + 1 + 1 + 1 + extra
          = (4 + ((s.flatMap escapeText).length + 1 + (extra + 1))) + 1 by omega,
          findQuote_escape _ _ h.head (by omega)]
        refine (hplain.trans hrun).trans ?_
        congr 3
        omega

theorem parseHex4_of {content : Bytes} {i : Nat} {c : UInt8} {rest : Bytes} (hc : c.toNat < 32)
    (h : StandsAt content i ([48, 48, hexChar (c.toNat / 16), hexChar (c.toNat % 16)] ++ rest)) :
    parseHex4 content i = .ok c.toNat := by
  have h0 : hexDigit 48 = some 0 := by decide
  have h1 := hexDigit_hexChar (d := c.toNat / 16) (by omega)
  have h2 := hexDigit_hexChar (d := c.toNat % 16) (by omega)
  have hb0 := byteAt_of h.head
  have hb1 := byteAt_of h.tail.head
  have hb2 := byteAt_of h.tail.tail.head
  have hb3 := byteAt_of h.tail.tail.tail.head
  simp only [parseHex4, parseHex4Loop, hb0, hb1, hb2, hb3, h0, h1, h2, bind, Except.bind]
  congr 1
  simp
  omega

/-- A control character comes back from its literal. -/
theorem utf16LiteralToUtf8_of {content : Bytes} {i e : Nat} {c : UInt8} {rest : Bytes}
    (hc : c.toNat < 32)
    (h : StandsAt content i
      ([92, 117, 48, 48, hexChar (c.toNat / 16), hexChar (c.toNat % 16)] ++ rest))
    (hin : i + 6 ≤ e) : utf16LiteralToUtf8 content i e = .ok (some ([c], 6)) := by
  have hhex : parseHex4 content (i + 2) = .ok c.toNat := parseHex4_of hc h.tail.tail
  have henc : encodeUtf8 c.toNat = some [c] := by
    rw [encodeUtf8, if_pos (by omega)]
    have : c.toNat &&& 0x7F = c.toNat := by
      rw [show 0x7F = 2 ^ 7 - 1 by norm_num, Nat.and_two_pow_sub_one_eq_mod]
      omega
    rw [this, UInt8.ofNat_toNat]
  rw [utf16LiteralToUtf8, if_neg (by omega), hhex]
  show (if 0xDC00 ≤ c.toNat ∧ c.toNat ≤ 0xDFFF then _ else
    if 0xD800 ≤ c.toNat ∧ c.toNat ≤ 0xDBFF then _ else _) = _
  rw [if_neg (by omega), if_neg (by omega), henc]
  rfl

section Copying

variable {content : Bytes} {e size i : Nat} {output : Bytes} {c : UInt8} (fuel : Nat)
  (hin : i < e) (hfit : output.length + 1 ≤ size)

include hin hfit

/-- The second pass at a character that stands for itself. -/
theorem copyString_plain (h : content[i]? = some c) (hc : c ≠ 92) :
    copyString content e size (fuel + 1) i output
      = copyString content e size fuel (i + 1) (output ++ [c]) := by
  rw [copyString, if_pos hin, byteAt_of h]
  simp only [bind, Except.bind]
  rw [if_pos hc, emit, if_pos (by simpa using hfit)]

/-- The second pass at an escape of two characters. -/
theorem copyString_escape {l : UInt8} (h : content[i]? = some 92) (h' : content[i + 1]? = some l)
    (hl : l ≠ 117) (hc : escaped l = some c) :
    copyString content e size (fuel + 1) i output
      = copyString content e size fuel (i + 2) (output ++ [c]) := by
  rw [copyString, if_pos hin, byteAt_of h, byteAt_of h']
  simp only [bind, Except.bind]
  rw [if_neg (by simp), if_neg hl, hc]
  simp only [emit]
  rw [if_pos (by simpa using hfit)]

/-- The second pass at a literal. -/
theorem copyString_literal (h : content[i]? = some 92) (h' : content[i + 1]? = some 117)
    (hc : utf16LiteralToUtf8 content i e = .ok (some ([c], 6))) :
    copyString content e size (fuel + 1) i output
      = copyString content e size fuel (i + 6) (output ++ [c]) := by
  rw [copyString, if_pos hin, byteAt_of h, byteAt_of h']
  simp only [bind, Except.bind]
  rw [if_neg (by simp), if_pos trivial, hc]
  simp only [emit]
  rw [if_pos (by simpa using hfit)]

end Copying

/-- The second pass over what was printed: it gives back the string. -/
theorem copyString_of {content : Bytes} {i : Nat} (size : Nat) (s output : Bytes) (extra : Nat)
    (h : StandsAt content i (s.flatMap escapeText ++ [34]))
    (hsize : output.length + s.length + 1 ≤ size) :
    copyString content (i + (s.flatMap escapeText).length) size (s.length + 1 + extra) i output
      = .ok (some (output ++ s ++ [0])) := by
  induction s generalizing i output with
  | nil =>
      rw [List.flatMap_nil, List.length_nil, Nat.add_zero, Nat.zero_add, Nat.add_comm, copyString,
        if_neg (by omega), emit, if_pos (by simpa using hsize), List.append_nil]
      rfl
  | cons c s ih =>
      rw [List.flatMap_cons] at h ⊢
      rw [List.length_cons] at hsize
      rw [List.length_cons, show s.length + 1 + 1 + extra = (s.length + 1 + extra) + 1 by omega,
        show output ++ c :: s ++ [0] = output ++ [c] ++ s ++ [0] by simp]
      have hout : (output ++ [c]).length + s.length + 1 ≤ size := by
        rw [List.length_append, List.length_singleton]
        omega
      rcases escapeText_cases c with ⟨hc, -, h92⟩ | ⟨l, hc, hl, hesc⟩ | ⟨hlt, hc⟩
      · rw [hc] at h ⊢
        have hrun := ih (output ++ [c]) h.tail hout
        rw [List.length_append, List.length_singleton, ← Nat.add_assoc,
          copyString_plain _ (by omega) (by omega) h.head h92]
        exact hrun
      · rw [hc] at h ⊢
        have hrun := ih (output ++ [c]) h.tail.tail hout
        rw [List.length_append, show [92, l].length = 2 from rfl, ← Nat.add_assoc,
          copyString_escape _ (by omega) (by omega) h.head h.tail.head hl hesc]
        exact hrun
      · rw [hc] at h ⊢
        have hrun := ih (output ++ [c]) h.tail.tail.tail.tail.tail.tail hout
        rw [List.length_append, show [92, 117, 48, 48, hexChar (c.toNat / 16),
          hexChar (c.toNat % 16)].length = 6 from rfl, ← Nat.add_assoc,
          copyString_literal _ (by omega) (by omega) h.head h.tail.head
            (utf16LiteralToUtf8_of hlt (by rw [← List.append_assoc]; exact h) (by omega))]
        exact hrun

/-- A string that was printed. -/
theorem Reads.parseString {b : ParseBuffer} {s t : Bytes} (h : Reads b (quoted s ++ t))
    (h0 : 0 ∉ s) : CJson.parseString b = .ok (some (s, b.skip (quoted s).length)) := by
  have hin := h.inside
  rw [List.length_append, length_quoted] at hin
  have hstands : StandsAt b.content b.offset (34 :: (s.flatMap escapeText ++ [34])) := by
    refine List.IsPrefix.trans ?_ h.stands
    exact List.prefix_append _ _
  have hlen : s.length ≤ (s.flatMap escapeText).length := by
    have := foldl_escapeLength s 0
    omega
  obtain ⟨k, hfind, hk⟩ := findQuote_of b.length s 0 (b.length - (s.flatMap escapeText).length)
    hstands.tail (by omega)
  have hcopy := copyString_of (b.offset + 1 + (s.flatMap escapeText).length - b.offset - k + 1)
    s [] (b.length - s.length) hstands.tail (by rw [List.length_nil]; omega)
  rw [show (s.flatMap escapeText).length + 1 + (b.length - (s.flatMap escapeText).length)
    = b.length + 1 by omega] at hfind
  rw [show s.length + 1 + (b.length - s.length) = b.length + 1 by omega] at hcopy
  have hhead : b.head = .ok 34 := byteAt_of hstands.head
  rw [CJson.parseString, hhead]
  simp only [bind, Except.bind]
  rw [if_neg (by simp), hfind]
  dsimp only
  rw [hcopy]
  show Except.ok (some (cstr (s ++ [0]), _)) = _
  rw [cstr_append_zero h0, length_quoted]
  congr 4
  show b.offset + 1 + (s.flatMap escapeText).length + 1 = b.offset + _
  omega

/-! ### Printed numbers -/

/-- The text is a decimal with or without a sign. -/
def IsNumeral (s : Bytes) : Prop :=
  ∃ (decimal : Bytes) (q : ℚ), IsDecimal decimal q ∧ (s = decimal ∨ s = 45 :: decimal)

theorem IsNumeral.strtod_length {s : Bytes} (h : IsNumeral s) : (strtod s).2 = s.length := by
  obtain ⟨decimal, q, hq, rfl | rfl⟩ := h
  · rw [strtod_of_isDecimal hq]
  · rw [strtod_neg_of_isDecimal hq]
    rfl

theorem IsNumeral.head {s : Bytes} (h : IsNumeral s) :
    ∃ c rest, s = c :: rest ∧ (c = 45 ∨ isDigit c = true) := by
  obtain ⟨decimal, q, hq, rfl | rfl⟩ := h
  · obtain ⟨whole, fraction, exponent, x, rfl, hne, hwhole, -⟩ := hq
    cases whole with
    | nil => exact absurd rfl hne
    | cons c whole => exact ⟨c, _, rfl, Or.inr (hwhole c List.mem_cons_self)⟩
  · exact ⟨45, decimal, rfl, Or.inl rfl⟩

theorem isNumeral_sprintfD (n : Int) : IsNumeral (sprintfD n) := by
  unfold sprintfD
  split
  · exact ⟨_, _, isDecimal_numeral _, Or.inr rfl⟩
  · exact ⟨_, _, isDecimal_numeral _, Or.inl rfl⟩

theorem isNumeral_sprintfG (k : ℕ) {d : ℚ} (hd : d ≠ 0) : IsNumeral (sprintfG k d) := by
  unfold sprintfG
  rw [if_neg hd]
  split
  · rename_i h
    exact ⟨_, _, isDecimal_positiveG k (neg_pos.mpr h), Or.inr rfl⟩
  · rename_i h
    exact ⟨_, _, isDecimal_positiveG k (lt_of_le_of_ne (not_lt.mp h) (Ne.symm hd)), Or.inl rfl⟩

theorem saturate_zero : saturate 0 = 0 := by
  decide +kernel

/-- What stands for a finite number is an integer, or one of the two decimals. -/
theorem numberText_cases {d : ℚ} (hfin : isinf d = false) :
    (d = saturate d ∧ numberText d = sprintfD (saturate d)) ∨
    (d ≠ 0 ∧ numberText d = sprintfG 16 d) ∨
    (d ≠ 0 ∧ numberText d = sprintfG 14 d ∧ compareDouble (strtod (sprintfG 14 d)).1 d = true) := by
  unfold numberText numberTexts
  rw [if_neg (by simp [hfin])]
  by_cases hint : d = saturate d
  · left
    rw [if_pos hint]
    exact ⟨hint, rfl⟩
  right
  have hne : d ≠ 0 := by
    rintro rfl
    rw [saturate_zero] at hint
    exact hint rfl
  rw [if_neg hint]
  split
  · exact Or.inl ⟨hne, rfl⟩
  · rename_i hgood
    refine Or.inr ⟨hne, rfl, ?_⟩
    by_contra hbad
    exact hgood (Or.inr hbad)

theorem isNumeral_numberText {d : ℚ} (hfin : isinf d = false) : IsNumeral (numberText d) := by
  rcases numberText_cases hfin with ⟨-, h⟩ | ⟨hne, h⟩ | ⟨hne, h, -⟩
  · rw [h]
    exact isNumeral_sprintfD _
  · rw [h]
    exact isNumeral_sprintfG 16 hne
  · rw [h]
    exact isNumeral_sprintfG 14 hne

theorem inDecimal_numberText {d : ℚ} (hfin : isinf d = false) :
    ∀ c ∈ numberText d, inDecimal c = true := by
  have hnum : ∀ c ∈ numeral 10 (saturate d).natAbs, inDecimal c = true := fun c hc =>
    inDecimal_of_isDigit (isDigit_of_mem_numeral (by norm_num) (by norm_num) hc)
  rcases numberText_cases hfin with ⟨-, h⟩ | ⟨-, h⟩ | ⟨-, h, -⟩
  · rw [h]
    unfold sprintfD
    split
    · intro c hc
      rcases List.mem_cons.mp hc with rfl | hc
      · rfl
      · exact hnum c hc
    · exact hnum
  · rw [h]
    exact inDecimal_sprintfG 16 d
  · rw [h]
    exact inDecimal_sprintfG 14 d

/-! ### Which value a text starts -/

/-- The text of a value starts with a character that is no blank, no end of an array and
no byte order mark. -/
def Starts (format : Bool) (k : Nat) (t : CJson) : Prop :=
  ∃ c rest, text format k t = c :: rest ∧ 32 < c ∧ c ≠ 93 ∧ c ≠ 0xEF

theorem Document.starts {n : Nat} {t : CJson} (h : Document n t) (format : Bool) (k : Nat) :
    Starts format k t := by
  cases h with
  | null => exact ⟨110, [117, 108, 108], by rw [text]; decide +kernel, by decide⟩
  | bool _ b =>
      cases b with
      | false => exact ⟨102, [97, 108, 115, 101], by rw [text]; decide +kernel, by decide⟩
      | true => exact ⟨116, [114, 117, 101], by rw [text]; decide +kernel, by decide⟩
  | @number _ d hd =>
      rw [Starts, text]
      by_cases hinf : isinf d = true
      · refine ⟨110, [117, 108, 108], ?_, by decide⟩
        rw [numberText, numberTexts, if_pos hinf]
        decide +kernel
      · obtain ⟨c, rest, hc, hstart⟩ := (isNumeral_numberText (by simpa using hinf)).head
        refine ⟨c, rest, hc, ?_⟩
        rcases hstart with rfl | hdigit
        · decide
        · have hrange := isDigit_range hdigit
          refine ⟨?_, ne_of_isDigit hdigit (by decide), ne_of_isDigit hdigit (by decide)⟩
          show 32 < c.toNat
          omega
  | string _ hs => exact ⟨34, _, rfl, by decide⟩
  | array h => exact ⟨91, _, by rw [text]; rfl, by decide⟩
  | object names values => exact ⟨123, _, by rw [text]; rfl, by decide⟩

/-- None of the three words. -/
theorem Reads.noWord {b : ParseBuffer} {c : UInt8} {s : Bytes} (h : Reads b (c :: s))
    (hn : c ≠ 110) (hf : c ≠ 102) (ht : c ≠ 116) :
    CJson.literal b (ascii "null") = .ok false ∧ CJson.literal b (ascii "false") = .ok false ∧
      CJson.literal b (ascii "true") = .ok false := by
  have hnull : ascii "null" = 110 :: [117, 108, 108] := by decide +kernel
  have hfalse : ascii "false" = 102 :: [97, 108, 115, 101] := by decide +kernel
  have htrue : ascii "true" = 116 :: [114, 117, 101] := by decide +kernel
  rw [hnull, hfalse, htrue]
  exact ⟨h.noLiteral hn, h.noLiteral hf, h.noLiteral ht⟩

theorem Reads.parseValue_null {b : ParseBuffer} {tail : Bytes} (nesting : Nat)
    (h : Reads b (ascii "null" ++ tail)) :
    parseValue (nesting + 1) b = .ok (some (.null, b.skip 4)) := by
  rw [parseValue, h.literal]
  rfl

theorem Reads.parseValue_false {b : ParseBuffer} {tail : Bytes} (nesting : Nat)
    (h : Reads b (ascii "false" ++ tail)) :
    parseValue (nesting + 1) b = .ok (some (.bool false, b.skip 5)) := by
  have hfalse : ascii "false" = 102 :: [97, 108, 115, 101] := by decide +kernel
  have hnull : ascii "null" = 110 :: [117, 108, 108] := by decide +kernel
  have hno : CJson.literal b (ascii "null") = .ok false := by
    have h' := h
    rw [hfalse] at h'
    rw [hnull]
    exact h'.noLiteral (by decide)
  rw [parseValue, hno, h.literal]
  rfl

theorem Reads.parseValue_true {b : ParseBuffer} {tail : Bytes} (nesting : Nat)
    (h : Reads b (ascii "true" ++ tail)) :
    parseValue (nesting + 1) b = .ok (some (.bool true, b.skip 4)) := by
  have htrue : ascii "true" = 116 :: [114, 117, 101] := by decide +kernel
  have hfalse : ascii "false" = 102 :: [97, 108, 115, 101] := by decide +kernel
  have hnull : ascii "null" = 110 :: [117, 108, 108] := by decide +kernel
  have hno : CJson.literal b (ascii "null") = .ok false ∧ CJson.literal b (ascii "false") = .ok false := by
    have h' := h
    rw [htrue] at h'
    rw [hnull, hfalse]
    exact ⟨h'.noLiteral (by decide), h'.noLiteral (by decide)⟩
  rw [parseValue, hno.1, hno.2, h.literal]
  rfl

theorem Reads.parseValue_string {b : ParseBuffer} {s tail : Bytes} (nesting : Nat)
    (h : Reads b (quoted s ++ tail)) (h0 : 0 ∉ s) :
    parseValue (nesting + 1) b = .ok (some (.string s, b.skip (quoted s).length)) := by
  have hcons : Reads b (34 :: (s.flatMap escapeText ++ [34] ++ tail)) := h
  obtain ⟨hn, hf, ht⟩ := hcons.noWord (by decide) (by decide) (by decide)
  rw [parseValue, hn, hf, ht, hcons.nextIs, h.parseString h0]
  rfl

theorem Reads.parseValue_number {b : ParseBuffer} {tail : Bytes} {c : UInt8} (nesting : Nat) {d : ℚ}
    (h : Reads b (numberText d ++ c :: tail)) (hc : inDecimal c = false) (hd : IsDouble d)
    (hfin : isinf d = false) : parseValue (nesting + 1) b
      = .ok (some (.number (strtod (numberText d)).1, b.skip (numberText d).length)) := by
  have hnum := isNumeral_numberText hfin
  obtain ⟨x, rest, hx, hstart⟩ := hnum.head
  have hcons : Reads b (x :: (rest ++ c :: tail)) := by
    rw [← List.cons_append, ← hx]
    exact h
  have hlen : (numberText d).length ≤ 63 :=
    (numberTexts_fit hd _ (numberText_mem d)).trans (by norm_num)
  have hparse := h.parseNumber (inDecimal_numberText hfin) hc hlen (by rw [hx]; simp)
    (Prod.ext rfl hnum.strtod_length)
  have hne : x ≠ 110 ∧ x ≠ 102 ∧ x ≠ 116 ∧ x ≠ 34 := by
    rcases hstart with rfl | hdigit
    · decide
    · refine ⟨?_, ?_, ?_, ?_⟩ <;> rintro rfl <;> exact absurd hdigit (by decide)
  have hstarts : (x == 45 || isDigit x) = true := by
    rcases hstart with rfl | hdigit
    · rfl
    · simp [hdigit]
  obtain ⟨hn, hf, ht⟩ := hcons.noWord hne.1 hne.2.1 hne.2.2.1
  have hquote : b.nextIs 34 = .ok false := by
    rw [hcons.nextIs]
    simp [hne.2.2.2]
  rw [parseValue, hn, hf, ht, hquote, hcons.startsNumber, hstarts]
  exact hparse

/-! ### Arrays and objects -/

/-- The parser reads back this value, at that level and from buffers of that depth. -/
def ReadsBack (parser : ValueParser) (format : Bool) (k depth : Nat) (t : CJson) : Prop :=
  ∀ (b : ParseBuffer) (c : UInt8) (tail : Bytes), Reads b (text format k t ++ c :: tail) →
    inDecimal c = false → b.depth = depth →
    parser b = .ok (some (reread t, b.skip (text format k t).length))

theorem blank_blank {format : Bool} {s : Bytes} (h : ∀ x ∈ s, x ≤ 32) :
    ∀ x ∈ blank format s, x ≤ 32 := by
  unfold blank
  split
  · exact h
  · simp

theorem blank_char {format : Bool} {c : UInt8} (h : c ≤ 32) : ∀ x ∈ blank format [c], x ≤ 32 :=
  blank_blank (List.forall_mem_singleton.mpr h)

theorem tabs_blank (format : Bool) (n : Nat) :
    ∀ x ∈ blank format (List.replicate n 9), x ≤ 32 :=
  blank_blank fun x hx => by
    rw [(List.mem_replicate.mp hx).2]
    decide

/-- A blank does not belong to a number. -/
theorem inDecimal_blank {x : UInt8} (h : x ≤ 32) : inDecimal x = false := by
  have hx : x.toNat ≤ 32 := h
  by_contra hc
  have hin : inDecimal x = true := by simpa using hc
  simp only [inDecimal, Bool.or_eq_true, beq_iff_eq] at hin
  rcases hin with ((((hin | rfl) | rfl) | rfl) | rfl) | rfl
  · have := isDigit_range hin
    omega
  all_goals exact absurd hx (by decide)

theorem Reads.skipTo {b : ParseBuffer} {format : Bool} {k : Nat} {t : CJson} {w s : Bytes}
    (h : Reads b (w ++ (text format k t ++ s))) (hw : ∀ x ∈ w, x ≤ 32) (ht : Starts format k t) :
    bufferSkipWhitespace b = .ok (b.skip w.length) := by
  obtain ⟨c, rest, hc, hgt, -⟩ := ht
  rw [hc] at h
  exact h.skipWhitespace hw hgt

theorem arrayItems_of {parser : ValueParser} {format : Bool} {k : Nat} (items : List CJson)
    {item : CJson} {w tail : Bytes} (fuel : Nat) {b : ParseBuffer} (acc : List CJson)
    (h : Reads (b.skip 1) (w ++ (itemsText format k (item :: items) ++ 93 :: tail)))
    (hw : ∀ x ∈ w, x ≤ 32)
    (hread : ∀ t ∈ item :: items, ReadsBack parser format k b.depth t)
    (hhead : ∀ t ∈ item :: items, Starts format k t) (hfuel : items.length < fuel) :
    arrayItems parser fuel b acc = .ok (some (acc ++ rereadItems (item :: items),
      b.skip (1 + w.length + (itemsText format k (item :: items)).length))) := by
  induction items generalizing item w fuel b acc with
  | nil =>
      obtain ⟨fuel, rfl⟩ : ∃ m, fuel = m + 1 := ⟨fuel - 1, by omega⟩
      have hitems : itemsText format k [item] = text format k item := by simp [itemsText]
      rw [hitems] at h ⊢
      have hblank := h.skipTo hw (hhead item List.mem_cons_self)
      have h₁ := h.skip
      have hvalue := hread item List.mem_cons_self _ 93 tail h₁ (by decide) rfl
      have h₂ := h₁.skip
      rw [arrayItems, hblank]
      simp only [bind, Except.bind]
      rw [hvalue]
      dsimp only
      rw [h₂.skipNothing (by decide)]
      dsimp only
      rw [h₂.nextIs]
      simp only [skip_skip]
      rfl
  | cons next items ih =>
      obtain ⟨fuel, rfl⟩ : ∃ m, fuel = m + 1 := ⟨fuel - 1, by omega⟩
      have hitems : itemsText format k (item :: next :: items) = text format k item
          ++ (44 :: (blank format [32] ++ itemsText format k (next :: items))) := by
        rw [itemsText]
        simp
      rw [hitems] at h ⊢
      rw [List.append_assoc, List.cons_append, List.append_assoc] at h
      have hblank := h.skipTo hw (hhead item List.mem_cons_self)
      have h₁ := h.skip
      have hvalue := hread item List.mem_cons_self _ 44 _ h₁ (by decide) rfl
      have h₂ := h₁.skip
      have hrest := ih fuel (acc ++ [reread item]) h₂.tail (blank_char (by decide))
        (fun t ht => hread t (List.mem_cons_of_mem _ ht))
        (fun t ht => hhead t (List.mem_cons_of_mem _ ht)) (by simp at hfuel; omega)
      rw [arrayItems, hblank]
      simp only [bind, Except.bind]
      rw [hvalue]
      dsimp only
      rw [h₂.skipNothing (by decide)]
      dsimp only
      rw [h₂.nextIs]
      refine hrest.trans ?_
      simp only [skip_skip, rereadItems, List.append_assoc, List.singleton_append,
        List.length_append, List.length_cons]
      congr 4
      omega

theorem length_skip (b : ParseBuffer) (n : Nat) : (b.skip n).length = b.length := rfl

theorem step_back (b : ParseBuffer) :
    ({ b.skip 1 with offset := (b.skip 1).offset - 1 } : ParseBuffer) = b := rfl

theorem step_back_skip (b : ParseBuffer) (n : Nat) :
    ({ (b.skip 1).skip n with offset := ((b.skip 1).skip n).offset - 1 } : ParseBuffer)
      = b.skip n := by
  show ParseBuffer.mk _ _ (b.offset + 1 + n - 1) _ = ParseBuffer.mk _ _ (b.offset + n) _
  congr 1
  omega

theorem length_items_le (format : Bool) (k : Nat) (items : List CJson)
    (hhead : ∀ t ∈ items, Starts format k t) :
    items.length ≤ (itemsText format k items).length := by
  induction items with
  | nil => simp
  | cons item items ih =>
      obtain ⟨c, rest, hc, -⟩ := hhead item List.mem_cons_self
      have := ih fun t ht => hhead t (List.mem_cons_of_mem _ ht)
      rw [itemsText, hc]
      simp
      omega

theorem parseArray_of {parser : ValueParser} {format : Bool} {k : Nat} {items : List CJson}
    {b : ParseBuffer} {tail : Bytes} (h : Reads b (text format k (.array items) ++ tail))
    (hdepth : b.depth < CJSON_NESTING_LIMIT)
    (hread : ∀ t ∈ items, ReadsBack parser format (k + 1) (b.depth + 1) t)
    (hhead : ∀ t ∈ items, Starts format (k + 1) t) : parseArray parser b
      = .ok (some (reread (.array items), b.skip (text format k (.array items)).length)) := by
  have hlen := length_items_le format (k + 1) items hhead
  have hin := h.inside
  rw [text] at h hin ⊢
  have hcons : Reads { b with depth := b.depth + 1 }
      (91 :: (itemsText format (k + 1) items ++ 93 :: tail)) := by
    have := h.atDepth (b.depth + 1)
    simpa using this
  have h₁ := hcons.tail
  rw [parseArray, if_neg (Nat.not_le.mpr hdepth)]
  dsimp only
  rw [hcons.head]
  simp only [bind, Except.bind]
  rw [if_neg (by simp)]
  cases items with
  | nil =>
      have h₁' : Reads (ParseBuffer.skip { b with depth := b.depth + 1 } 1) (93 :: tail) := by
        simpa [itemsText] using h₁
      rw [h₁'.skipNothing (by decide)]
      dsimp only
      rw [h₁'.nextIs]
      rfl
  | cons item items =>
      obtain ⟨c, rest, hc, hgt, hne, -⟩ := hhead item List.mem_cons_self
      obtain ⟨more, hmore⟩ :
          ∃ more, Reads (ParseBuffer.skip { b with depth := b.depth + 1 } 1) (c :: more) := by
        rw [itemsText, hc] at h₁
        exact ⟨_, h₁⟩
      have hloop := arrayItems_of items ({ b with depth := b.depth + 1 } : ParseBuffer).length []
        (w := []) h₁ (by simp) hread hhead (by
          simp only [List.length_append, List.length_cons] at hin hlen ⊢
          omega)
      have h₂ := h₁.skip
      rw [hmore.skipNothing hgt]
      dsimp only
      rw [hmore.nextIs, beq_eq_false_iff_ne.mpr hne]
      dsimp only
      rw [if_neg (by simp), if_pos hmore.canAccess]
      rw [step_back, length_skip, hloop]
      dsimp only
      rw [List.length_nil, Nat.add_zero, ← skip_skip, h₂.nextIs]
      simp only [ParseBuffer.skip, reread, List.nil_append, List.length_append,
        List.length_singleton, Nat.add_sub_cancel]
      show Except.ok (some (_, ParseBuffer.mk _ _ _ _)) = _
      congr 4
      omega

/-- Whatever blanks stand in front of a bracket, the number before them has ended. -/
theorem blanks_cons {v : Bytes} (hv : ∀ x ∈ v, x ≤ 32) (tail : Bytes) :
    ∃ c rest, v ++ 125 :: tail = c :: rest ∧ inDecimal c = false := by
  cases v with
  | nil => exact ⟨125, tail, rfl, by decide⟩
  | cons x v => exact ⟨x, v ++ 125 :: tail, rfl, inDecimal_blank (hv x List.mem_cons_self)⟩

/-- A member, up to the comma or the bracket behind it. -/
theorem member_of {parser : ValueParser} {format : Bool} {k : Nat} {name : Bytes} {item : CJson}
    {w v s : Bytes} {b : ParseBuffer} (fuel : Nat) (acc : List (Bytes × CJson))
    (h : Reads (b.skip 1) (w ++ (quoted name ++ (58 :: (v ++ (text format k item ++ s))))))
    (hw : ∀ x ∈ w, x ≤ 32) (hv : ∀ x ∈ v, x ≤ 32) (hname : 0 ∉ name)
    (hread : ReadsBack parser format k b.depth item) (hhead : Starts format k item)
    (hs : ∃ c rest, s = c :: rest ∧ inDecimal c = false) :
    let n := 1 + w.length + (quoted name).length + 1 + v.length + (text format k item).length
    Reads (b.skip n) s ∧
    objectMembers parser (fuel + 1) b acc = (do
      let b' ← bufferSkipWhitespace (b.skip n)
      if ← b'.nextIs 44 then objectMembers parser fuel b' (acc ++ [(name, reread item)])
      else .ok (some (acc ++ [(name, reread item)], b'))) := by
  have hquote : bufferSkipWhitespace (b.skip 1) = .ok ((b.skip 1).skip w.length) := by
    have h' : Reads (b.skip 1) (w ++ 34 :: (name.flatMap escapeText ++ [34]
      ++ (58 :: (v ++ (text format k item ++ s))))) := h
    exact h'.skipWhitespace hw (by decide)
  have h₁ := h.skip
  have h₂ := h₁.skip
  have h₃ := h₂.tail
  have h₄ := h₃.skip
  obtain ⟨c, rest, rfl, hc⟩ := hs
  have hvalue := hread _ c rest h₄ hc rfl
  have h₅ := h₄.skip
  have hn : ((((((b.skip 1).skip w.length).skip (quoted name).length).skip 1).skip v.length).skip
      (text format k item).length) = b.skip (1 + w.length + (quoted name).length + 1 + v.length
        + (text format k item).length) := by
    simp only [skip_skip, Nat.add_assoc]
  refine ⟨hn ▸ h₅, ?_⟩
  rw [← hn, objectMembers, hquote]
  simp only [bind, Except.bind]
  rw [h₁.parseString hname]
  dsimp only
  rw [h₂.skipNothing (by decide)]
  dsimp only
  rw [h₂.nextIs]
  dsimp only
  rw [if_pos (by decide), h₃.skipTo hv hhead]
  dsimp only
  rw [hvalue]

/-- The members, from the name of the first one. -/
def membersBody (format : Bool) (k : Nat) (name : Bytes) (item : CJson)
    (rest : List (Bytes × CJson)) : Bytes :=
  quoted name ++ (58 :: (blank format [9] ++ (text format k item
    ++ ((if rest.isEmpty then [] else [44]) ++ (blank format [10] ++ membersText format k rest)))))

theorem membersText_cons (format : Bool) (k : Nat) (name : Bytes) (item : CJson)
    (rest : List (Bytes × CJson)) : membersText format k ((name, item) :: rest)
      = blank format (List.replicate k 9) ++ membersBody format k name item rest := by
  simp [membersText, membersBody]

theorem objectMembers_of {parser : ValueParser} {format : Bool} {k : Nat}
    (members : List (Bytes × CJson)) {name : Bytes} {item : CJson} {w u tail : Bytes} (fuel : Nat)
    {b : ParseBuffer} (acc : List (Bytes × CJson))
    (h : Reads (b.skip 1) (w ++ (membersBody format k name item members ++ (u ++ 125 :: tail))))
    (hw : ∀ x ∈ w, x ≤ 32) (hu : ∀ x ∈ u, x ≤ 32)
    (hname : ∀ m ∈ (name, item) :: members, 0 ∉ m.1)
    (hread : ∀ m ∈ (name, item) :: members, ReadsBack parser format k b.depth m.2)
    (hhead : ∀ m ∈ (name, item) :: members, Starts format k m.2) (hfuel : members.length < fuel) :
    objectMembers parser fuel b acc = .ok (some (acc ++ rereadMembers ((name, item) :: members),
      b.skip (1 + w.length + (membersBody format k name item members).length + u.length))) := by
  have hnl : ∀ x ∈ blank format [10], x ≤ 32 := blank_char (by decide)
  induction members generalizing name item w fuel b acc with
  | nil =>
      obtain ⟨fuel, rfl⟩ : ∃ m, fuel = m + 1 := ⟨fuel - 1, by omega⟩
      have hbody : membersBody format k name item [] = quoted name ++ (58 :: (blank format [9]
          ++ (text format k item ++ blank format [10]))) := by
        simp [membersBody, membersText]
      have hall : ∀ x ∈ blank format [10] ++ u, x ≤ 32 := fun x hx =>
        (List.mem_append.mp hx).elim (hnl x) (hu x)
      have hreads : Reads (b.skip 1) (w ++ (quoted name ++ (58 :: (blank format [9]
          ++ (text format k item ++ ((blank format [10] ++ u) ++ 125 :: tail)))))) := by
        rw [hbody] at h
        simpa using h
      obtain ⟨h₁, hstep⟩ := member_of fuel acc hreads hw (blank_char (by decide))
        (hname _ List.mem_cons_self) (hread _ List.mem_cons_self) (hhead _ List.mem_cons_self)
        (blanks_cons hall tail)
      have h₂ := h₁.skip
      rw [hstep, h₁.skipWhitespace hall (by decide)]
      simp only [bind, Except.bind]
      rw [h₂.nextIs]
      show Except.ok (some (_, ParseBuffer.skip _ _)) = _
      rw [skip_skip, rereadMembers, rereadMembers, hbody]
      simp only [List.length_append, List.length_cons]
      congr 4
      omega
  | cons next members ih =>
      obtain ⟨fuel, rfl⟩ : ∃ m, fuel = m + 1 := ⟨fuel - 1, by omega⟩
      obtain ⟨name', item'⟩ := next
      have hbody : membersBody format k name item ((name', item') :: members)
          = quoted name ++ (58 :: (blank format [9] ++ (text format k item ++ (44 ::
            ((blank format [10] ++ blank format (List.replicate k 9))
              ++ membersBody format k name' item' members))))) := by
        rw [membersBody, membersText_cons]
        simp
      have hreads : Reads (b.skip 1) (w ++ (quoted name ++ (58 :: (blank format [9]
          ++ (text format k item ++ (44 :: ((blank format [10] ++ blank format (List.replicate k 9))
            ++ (membersBody format k name' item' members ++ (u ++ 125 :: tail))))))))) := by
        rw [hbody] at h
        simpa using h
      obtain ⟨h₁, hstep⟩ := member_of fuel acc hreads hw (blank_char (by decide))
        (hname _ List.mem_cons_self) (hread _ List.mem_cons_self) (hhead _ List.mem_cons_self)
        ⟨44, _, rfl, by decide⟩
      have hrest := ih fuel (acc ++ [(name, reread item)]) h₁.tail
        (fun x hx => (List.mem_append.mp hx).elim (hnl x) (tabs_blank format k x))
        (fun m hm => hname m (List.mem_cons_of_mem _ hm))
        (fun m hm => hread m (List.mem_cons_of_mem _ hm))
        (fun m hm => hhead m (List.mem_cons_of_mem _ hm)) (by simp at hfuel; omega)
      rw [hstep, h₁.skipNothing (by decide)]
      simp only [bind, Except.bind]
      rw [h₁.nextIs]
      refine hrest.trans ?_
      rw [hbody, rereadMembers]
      simp only [skip_skip, List.append_assoc, List.singleton_append, List.length_append,
        List.length_cons]
      congr 4
      omega

theorem length_members_le (format : Bool) (k : Nat) (members : List (Bytes × CJson)) :
    members.length ≤ (membersText format k members).length := by
  induction members with
  | nil => simp
  | cons m members ih =>
      obtain ⟨name, item⟩ := m
      rw [membersText]
      simp
      omega

theorem parseObject_of {parser : ValueParser} {format : Bool} {k : Nat}
    {members : List (Bytes × CJson)} {b : ParseBuffer} {tail : Bytes}
    (h : Reads b (text format k (.object members) ++ tail))
    (hdepth : b.depth < CJSON_NESTING_LIMIT) (hname : ∀ m ∈ members, 0 ∉ m.1)
    (hread : ∀ m ∈ members, ReadsBack parser format (k + 1) (b.depth + 1) m.2)
    (hhead : ∀ m ∈ members, Starts format (k + 1) m.2) : parseObject parser b
      = .ok (some (reread (.object members), b.skip (text format k (.object members)).length)) := by
  have hnl : ∀ x ∈ blank format [10], x ≤ 32 := blank_char (by decide)
  have htabs := tabs_blank format
  have hlen := length_members_le format (k + 1) members
  have hin := h.inside
  rw [text] at h hin ⊢
  have hcons : Reads { b with depth := b.depth + 1 } (123 :: (blank format [10]
      ++ (membersText format (k + 1) members ++ (blank format (List.replicate k 9)
        ++ 125 :: tail)))) := by
    have := h.atDepth (b.depth + 1)
    simpa using this
  have h₁ := hcons.tail
  rw [parseObject, if_neg (Nat.not_le.mpr hdepth)]
  dsimp only
  rw [hcons.nextIs]
  simp only [bind, Except.bind]
  rw [if_pos (by decide)]
  cases members with
  | nil =>
      have hall : ∀ x ∈ blank format [10] ++ blank format (List.replicate k 9), x ≤ 32 :=
        fun x hx => (List.mem_append.mp hx).elim (hnl x) (htabs k x)
      have h₁' : Reads (ParseBuffer.skip { b with depth := b.depth + 1 } 1)
          ((blank format [10] ++ blank format (List.replicate k 9)) ++ 125 :: tail) := by
        simpa [membersText] using h₁
      rw [h₁'.skipWhitespace hall (by decide)]
      dsimp only
      rw [h₁'.skip.nextIs]
      simp only [ParseBuffer.skip, reread, rereadMembers, membersText, List.length_append,
        List.length_singleton, List.length_nil, Nat.add_sub_cancel]
      show Except.ok (some (_, ParseBuffer.mk _ _ _ _)) = _
      congr 4
      omega
  | cons m members =>
      obtain ⟨name, item⟩ := m
      have hall : ∀ x ∈ blank format [10] ++ blank format (List.replicate (k + 1) 9), x ≤ 32 :=
        fun x hx => (List.mem_append.mp hx).elim (hnl x) (htabs (k + 1) x)
      have h₁' : Reads (ParseBuffer.skip { b with depth := b.depth + 1 } 1)
          ((blank format [10] ++ blank format (List.replicate (k + 1) 9))
            ++ (membersBody format (k + 1) name item members
              ++ (blank format (List.replicate k 9) ++ 125 :: tail))) := by
        rw [membersText_cons] at h₁
        simpa using h₁
      generalize hv : blank format [10] ++ blank format (List.replicate (k + 1) 9) = v at h₁' hall
      have hvlen := congrArg List.length hv
      have h₂ := h₁'.skip
      obtain ⟨more, hmore⟩ : ∃ more, membersBody format (k + 1) name item members
          ++ (blank format (List.replicate k 9) ++ 125 :: tail) = 34 :: more := ⟨_, rfl⟩
      have hblank : bufferSkipWhitespace (ParseBuffer.skip { b with depth := b.depth + 1 } 1)
          = .ok ((ParseBuffer.skip { b with depth := b.depth + 1 } 1).skip v.length) := by
        rw [hmore] at h₁'
        exact h₁'.skipWhitespace hall (by decide)
      have hquote : Reads ((ParseBuffer.skip { b with depth := b.depth + 1 } 1).skip v.length)
          (34 :: more) := hmore ▸ h₂
      have hswap : (ParseBuffer.skip { b with depth := b.depth + 1 } v.length).skip 1
          = (ParseBuffer.skip { b with depth := b.depth + 1 } 1).skip v.length := by
        simp only [skip_skip, Nat.add_comm]
      have hfuel : members.length < b.length := by
        simp only [List.length_append, List.length_cons] at hin hlen
        omega
      have hloop := objectMembers_of members b.length [] (w := []) (hswap ▸ h₂) (by simp)
        (htabs k) hname hread hhead hfuel
      have hend := h₂.skip.skip
      rw [hblank]
      dsimp only
      rw [hquote.nextIs]
      dsimp only
      rw [if_neg (by decide), if_pos hquote.canAccess, step_back_skip, length_skip, length_skip, hloop]
      dsimp only
      rw [skip_skip, show v.length + (1 + ([] : Bytes).length
        + (membersBody format (k + 1) name item members).length
        + (blank format (List.replicate k 9)).length) = 1 + v.length
        + (membersBody format (k + 1) name item members).length
        + (blank format (List.replicate k 9)).length by simp; omega, ← skip_skip, ← skip_skip,
        ← skip_skip, hend.nextIs, membersText_cons]
      simp only [ParseBuffer.skip, reread, List.nil_append, List.length_append,
        List.length_singleton, Nat.add_sub_cancel]
      show Except.ok (some (_, ParseBuffer.mk _ _ _ _)) = _
      rw [List.length_append] at hvlen
      congr 4
      omega

theorem Reads.parseValue_array {b : ParseBuffer} {format : Bool} {k : Nat} {items : List CJson}
    {tail : Bytes} (nesting : Nat) (h : Reads b (text format k (.array items) ++ tail)) :
    parseValue (nesting + 1) b = parseArray (parseValue nesting) b := by
  rw [text] at h
  have hcons : Reads b (91 :: (itemsText format (k + 1) items ++ [93] ++ tail)) := h
  obtain ⟨hn, hf, ht⟩ := hcons.noWord (by decide) (by decide) (by decide)
  rw [parseValue, hn, hf, ht, hcons.nextIs, hcons.startsNumber, hcons.nextIs]
  rfl

theorem Reads.parseValue_object {b : ParseBuffer} {format : Bool} {k : Nat}
    {members : List (Bytes × CJson)} {tail : Bytes} (nesting : Nat)
    (h : Reads b (text format k (.object members) ++ tail)) :
    parseValue (nesting + 1) b = parseObject (parseValue nesting) b := by
  rw [text] at h
  have hcons : Reads b (123 :: (blank format [10] ++ membersText format (k + 1) members
      ++ blank format (List.replicate k 9) ++ [125] ++ tail)) := h
  obtain ⟨hn, hf, ht⟩ := hcons.noWord (by decide) (by decide) (by decide)
  rw [parseValue, hn, hf, ht, hcons.nextIs, hcons.startsNumber, hcons.nextIs, hcons.nextIs]
  rfl

/-- Every document is read back, where the levels allow it. -/
theorem Document.readsBack {n : Nat} {t : CJson} (h : Document n t) (format : Bool)
    (k depth nesting : Nat) (hnesting : n < nesting) (hlimit : depth + n ≤ CJSON_NESTING_LIMIT) :
    ReadsBack (parseValue nesting) format k depth t := by
  induction h generalizing k depth nesting with
  | null =>
      obtain ⟨m, rfl⟩ : ∃ m, nesting = m + 1 := ⟨nesting - 1, by omega⟩
      intro b c tail hb _ _
      rw [text] at hb ⊢
      rw [hb.parseValue_null]
      rfl
  | bool _ value =>
      obtain ⟨m, rfl⟩ : ∃ m, nesting = m + 1 := ⟨nesting - 1, by omega⟩
      intro b c tail hb _ _
      cases value with
      | false =>
          rw [text] at hb ⊢
          rw [hb.parseValue_false]
          rfl
      | true =>
          rw [text] at hb ⊢
          rw [hb.parseValue_true]
          rfl
  | @number _ d hd =>
      obtain ⟨m, rfl⟩ : ∃ m, nesting = m + 1 := ⟨nesting - 1, by omega⟩
      intro b c tail hb hc _
      rw [text] at hb ⊢
      rw [reread, rereadNumber]
      by_cases hinf : isinf d = true
      · have hnull : numberText d = ascii "null" := by
          rw [numberText, numberTexts, if_pos hinf]
          rfl
        rw [hnull] at hb ⊢
        rw [if_pos hinf, hb.parseValue_null]
        rfl
      · rw [if_neg hinf]
        exact hb.parseValue_number m hc hd (by simpa using hinf)
  | string _ hs =>
      obtain ⟨m, rfl⟩ : ∃ m, nesting = m + 1 := ⟨nesting - 1, by omega⟩
      intro b c tail hb _ _
      rw [text] at hb ⊢
      rw [hb.parseValue_string _ hs]
      rfl
  | array hitems ih =>
      obtain ⟨m, rfl⟩ : ∃ m, nesting = m + 1 := ⟨nesting - 1, by omega⟩
      intro b c tail hb _ hdepth
      rw [hb.parseValue_array]
      refine parseArray_of hb (by omega) (fun t ht => ?_) fun t ht => (hitems t ht).starts _ _
      exact ih t ht (k + 1) (b.depth + 1) m (by omega) (by omega)
  | object hnames hvalues ih =>
      obtain ⟨m, rfl⟩ : ∃ m, nesting = m + 1 := ⟨nesting - 1, by omega⟩
      intro b c tail hb _ hdepth
      rw [hb.parseValue_object]
      refine parseObject_of hb (by omega) hnames (fun p hp => ?_)
        fun p hp => (hvalues p hp).starts _ _
      exact ih p hp (k + 1) (b.depth + 1) m (by omega) (by omega)

/-! ### A whole text -/

theorem Reads.skipUtf8Bom {b : ParseBuffer} {c : UInt8} {s : Bytes} (h : Reads b (c :: s))
    (hc : c ≠ 0xEF) : CJson.skipUtf8Bom b = .ok b := by
  rw [CJson.skipUtf8Bom]
  split
  · rw [strncmpEq, byteAt_of h.stands.head]
    show Except.bind (if c == 0xEF then _ else _) _ = _
    rw [if_neg (by simpa using hc)]
    rfl
  · rfl

/-- The NUL at the end counts as a blank, and the parser goes back to it. -/
theorem Reads.skipNul {b : ParseBuffer} (h : Reads b [0]) (hend : b.offset + 1 = b.length) :
    bufferSkipWhitespace b = .ok b := by
  rw [bufferSkipWhitespace, if_pos h.canAccess, show b.length - b.offset = 1 by omega, skipBlanks,
    byteAt_of h.stands.head]
  simp only [bind, Except.bind]
  rw [if_pos (by decide), skipBlanks]
  dsimp only
  rw [if_pos hend]
  rfl

/-- **The text of a document is parsed back to it.** -/
theorem parse_text {t : CJson} (h : Document CJSON_NESTING_LIMIT t) (format strict : Bool)
    (rest : Bytes) :
    parseWithOpts (text format 0 t ++ 0 :: rest) strict = .ok (some (reread t)) := by
  have hnul := h.text_noNul format 0
  have hreads : Reads ⟨text format 0 t ++ 0 :: rest, (text format 0 t).length + 1, 0, 0⟩
      (text format 0 t ++ [0]) := by
    refine ⟨⟨rest, ?_⟩, ?_⟩
    · simp
    · simp
  obtain ⟨c, more, hc, hgt, -, hbom⟩ := h.starts format 0
  have hcons : Reads ⟨text format 0 t ++ 0 :: rest, (text format 0 t).length + 1, 0, 0⟩
      (c :: (more ++ [0])) := by
    rw [← List.cons_append, ← hc]
    exact hreads
  have hvalue := h.readsBack format 0 0 (CJSON_NESTING_LIMIT + 1) (by omega) (by omega) _ 0 []
    hreads (by decide) rfl
  rw [parseWithOpts, strlen_of_mem (by simp), cstr_append_zero hnul]
  simp only [bind, Except.bind]
  rw [parseWithLengthOpts, if_neg (Nat.succ_ne_zero _)]
  dsimp only
  rw [hcons.skipUtf8Bom hbom]
  simp only [bind, Except.bind]
  rw [hcons.skipNothing hgt]
  dsimp only
  rw [hvalue]
  dsimp only
  cases strict with
  | false => rfl
  | true =>
      rw [if_pos rfl, hreads.skip.skipNul (by simp [ParseBuffer.skip])]
      dsimp only
      rw [hreads.skip.nextIs]
      rfl

/-! ### What comes back -/

theorem number_int {i : Int} (hlo : -2147483648 ≤ i) (hhi : i < 2147483648) :
    double.Number i := by
  refine Format.number_intCast ?_ (by decide) (by decide)
  show i.natAbs < 2 ^ 53
  omega

/-- An `int` is read back from its digits. -/
theorem strtod_sprintfD {i : Int} (hlo : -2147483648 ≤ i) (hhi : i < 2147483648) :
    (strtod (sprintfD i)).1 = i := by
  have hnumber := number_int hlo hhi
  unfold sprintfD
  split
  · rename_i h
    have hcast : -((i.natAbs : ℕ) : ℚ) = i := by
      have : -((i.natAbs : ℕ) : Int) = i := by omega
      exact_mod_cast this
    rw [strtod_neg_of_isDecimal (isDecimal_numeral _), hcast]
    exact Format.round_number hnumber
  · rename_i h
    have hcast : ((i.natAbs : ℕ) : ℚ) = i := by
      have : ((i.natAbs : ℕ) : Int) = i := by omega
      rw [← Int.cast_natCast, this]
    rw [strtod_of_isDecimal (isDecimal_numeral _), hcast]
    exact Format.round_number hnumber

theorem compareDouble_self (d : ℚ) : compareDouble d d = true := by
  unfold compareDouble
  rw [sub_self, Format.round_zero, abs_zero, decide_eq_true_eq]
  exact Format.round_nonneg (by positivity)

/-- A number that is printed as an integer comes back as it was. -/
theorem rereadNumber_int {d : ℚ} (h : d = saturate d) : rereadNumber d = .number d := by
  have hrange := saturate_range d
  have hfin : isinf d = false := by
    have hlt := (number_int hrange.1 hrange.2).lt_emax
    rw [← h] at hlt
    simp only [isinf, decide_eq_false_iff_not]
    exact hlt.ne
  rw [rereadNumber, if_neg (by simp [hfin]), numberText, numberTexts, if_neg (by simp [hfin]),
    if_pos h]
  show CJson.number (strtod (sprintfD (saturate d))).1 = _
  rw [strtod_sprintfD hrange.1 hrange.2, ← h]

/-- A number is read back as one that `compare_double` takes for the same. -/
theorem compareDouble_reread {d : ℚ} (hd : double.Number d) (hfin : isinf d = false) :
    compareDouble (strtod (numberText d)).1 d = true := by
  rcases numberText_cases hfin with ⟨hint, htext⟩ | ⟨hne, htext⟩ | ⟨-, htext, hgood⟩
  · have hrange := saturate_range d
    rw [htext, strtod_sprintfD hrange.1 hrange.2, ← hint]
    exact compareDouble_self d
  · rw [htext, strtod_sprintfG_17 hne hd]
    exact compareDouble_self d
  · rw [htext]
    exact hgood

/-- The same tree, but for the numbers: an infinity has become `null`, an `int` is the same,
and any other number is the same to `compare_double`. -/
inductive Agree : CJson → CJson → Prop where
  | null : Agree .null .null
  | bool (b : Bool) : Agree (.bool b) (.bool b)
  | infinity {d : ℚ} (h : isinf d = true) : Agree (.number d) .null
  | number {d d' : ℚ} (hint : d = saturate d → d' = d) (h : compareDouble d' d = true) :
      Agree (.number d) (.number d')
  | string (s : Bytes) : Agree (.string s) (.string s)
  | array {items items' : List CJson} (h : List.Forall₂ Agree items items') :
      Agree (.array items) (.array items')
  | object {members members' : List (Bytes × CJson)} (names : members.map Prod.fst = members'.map Prod.fst)
      (values : List.Forall₂ Agree (members.map Prod.snd) (members'.map Prod.snd)) :
      Agree (.object members) (.object members')

theorem forall₂_rereadItems {items : List CJson} (h : ∀ t ∈ items, Agree t (reread t)) :
    List.Forall₂ Agree items (rereadItems items) := by
  induction items with
  | nil => exact List.Forall₂.nil
  | cons item items ih =>
      exact List.Forall₂.cons (h item List.mem_cons_self)
        (ih fun t ht => h t (List.mem_cons_of_mem _ ht))

theorem names_rereadMembers (members : List (Bytes × CJson)) :
    members.map Prod.fst = (rereadMembers members).map Prod.fst := by
  induction members with
  | nil => rfl
  | cons m members ih =>
      rw [rereadMembers, List.map_cons, List.map_cons, ih]

theorem forall₂_rereadMembers {members : List (Bytes × CJson)}
    (h : ∀ m ∈ members, Agree m.2 (reread m.2)) :
    List.Forall₂ Agree (members.map Prod.snd) ((rereadMembers members).map Prod.snd) := by
  induction members with
  | nil => exact List.Forall₂.nil
  | cons m members ih =>
      exact List.Forall₂.cons (h m List.mem_cons_self)
        (ih fun p hp => h p (List.mem_cons_of_mem _ hp))

theorem Document.agree_reread {n : Nat} {t : CJson} (h : Document n t) : Agree t (reread t) := by
  induction h with
  | null => exact .null
  | bool _ b => exact .bool b
  | @number _ d hd =>
      rw [reread]
      by_cases hinf : isinf d = true
      · rw [rereadNumber, if_pos hinf]
        exact .infinity hinf
      · have hfin : isinf d = false := by simpa using hinf
        have hnumber : double.Number d := by
          rcases hd with hd | hd
          · exact hd
          · exact absurd (by simpa [isinf] using hd) hinf
        have hclose := compareDouble_reread hnumber hfin
        have hint : d = saturate d → (strtod (numberText d)).1 = d := fun h => by
          have := rereadNumber_int h
          rw [rereadNumber, if_neg hinf] at this
          exact CJson.number.inj this
        rw [rereadNumber, if_neg hinf]
        exact .number hint hclose
  | string _ hs => exact .string _
  | array _ ih =>
      rw [reread]
      exact .array (forall₂_rereadItems ih)
  | object _ _ ih =>
      rw [reread]
      exact .object (names_rereadMembers _) (forall₂_rereadMembers ih)

/-- An object that holds an array, the number `1` and `true`. -/
def smallTree : CJson := .object [(ascii "a", .array [.number 1, .bool true])]

theorem smallTree_document : Document 2 smallTree := by
  have hone : IsDouble 1 := .inl (by exact_mod_cast number_int (i := 1) (by norm_num) (by norm_num))
  refine .object (by decide) fun m hm => ?_
  rw [List.mem_singleton.mp hm]
  refine .array fun t ht => ?_
  rcases List.mem_cons.mp ht with rfl | ht
  · exact .number 0 hone
  · rw [List.mem_singleton.mp ht]
    exact .bool 0 true

end CJson

end EleDs
