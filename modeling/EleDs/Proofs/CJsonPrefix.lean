/-
A text that is cut off is not accepted.

What the parser accepts in a text it also accepts where the text goes on (`Longer`): it
has seen the end of everything it took, a closing bracket or quote, and never looked
behind it.  Only a number has no end of its own, and there the next character decides
(`Stops`).  So if part of the text of a document were accepted, the whole text would be
accepted too, with the same end; but the whole text is read to its last character.
-/
import EleDs.Proofs.CJsonText

namespace EleDs

open CMem Decimals Numerals Rounding

namespace CJson

/-! ### A text that goes on -/

/-- The two are at the same place, the first in a text of `n` characters and the second in
one that starts with them. -/
structure Longer (n : Nat) (b b' : ParseBuffer) : Prop where
  within : Within b
  length : b.length = n + 1
  same : ∀ i < n, b'.content[i]? = b.content[i]?
  longer : n < b'.length
  offset : b'.offset = b.offset
  depth : b'.depth = b.depth

section Longer

variable {n : Nat} {b b' c : ParseBuffer}

theorem Longer.nul (h : Longer n b b') : b.content[n]? = some 0 := by
  have := h.within.nul
  rwa [h.length, Nat.add_sub_cancel] at this

theorem Longer.le (h : Longer n b b') : b.offset ≤ n := by
  have := h.within.inside
  rw [h.length] at this
  exact Nat.le_of_lt_succ this

theorem byteAt_same {content content' : Bytes} (hsame : ∀ i < n, content'[i]? = content[i]?)
    {i : Nat} (hi : i < n) : byteAt content' i = byteAt content i := by
  rw [byteAt, byteAt, hsame i hi]

theorem getElem?_of_byteAt {content : Bytes} {i : Nat} {x : UInt8} (h : byteAt content i = .ok x) :
    content[i]? = some x := by
  rw [byteAt] at h
  split at h
  · cases h
  · cases h
    assumption

/-- Both go on by the same number of characters. -/
theorem Longer.onward (h : Longer n b b') (hon : Onward b c) :
    Longer n c { b' with offset := c.offset } where
  within := hon.within h.within
  length := hon.length.trans h.length
  same := by rw [hon.content]; exact h.same
  longer := h.longer
  offset := rfl
  depth := h.depth.trans hon.depth.symm

theorem Longer.atDepth (h : Longer n b b') (k : Nat) :
    Longer n { b with depth := k } { b' with depth := k } :=
  ⟨⟨h.within.fits, h.within.nul, h.within.inside⟩, h.length, h.same, h.longer, h.offset, rfl⟩

/-- A character that was seen is not behind the end. -/
theorem Longer.lt_of_char (h : Longer n b b') {i : Nat} {x : UInt8} (hi : i ≤ n)
    (hx : b.content[i]? = some x) (h0 : x ≠ 0) : i < n := by
  refine Nat.lt_of_le_of_ne hi fun he => h0 ?_
  rw [he, h.nul] at hx
  exact (Option.some.inj hx).symm

theorem Longer.canAccess (h : Longer n b b') : b'.canAccessAtIndex 0 = true := by
  have := h.le
  have := h.longer
  simp only [ParseBuffer.canAccessAtIndex, decide_eq_true_eq, h.offset]
  omega

theorem Longer.head (h : Longer n b b') (hlt : b.offset < n) : b'.head = b.head := by
  rw [ParseBuffer.head, ParseBuffer.head, h.offset]
  exact byteAt_same h.same hlt

theorem Within.canAccess (h : Within b) : b.canAccessAtIndex 0 = true := by
  simpa [ParseBuffer.canAccessAtIndex] using h.inside

theorem Longer.nextIs (h : Longer n b b') (hlt : b.offset < n) (x : UInt8) :
    b'.nextIs x = b.nextIs x := by
  rw [ParseBuffer.nextIs, ParseBuffer.nextIs, if_pos h.canAccess, if_pos h.within.canAccess,
    h.head hlt]

theorem nextIs_char (hb : Within b) {x : UInt8} (h : b.nextIs x = .ok true) :
    b.content[b.offset]? = some x := by
  obtain ⟨r, hr, hx⟩ := nextIs_yields hb x
  rw [h] at hr
  cases hr
  exact hx rfl

/-! ### Blanks -/

theorem skipBlanks_longer {content content' : Bytes}
    (hsame : ∀ i < n, content'[i]? = content[i]?) {left left' offset o : Nat}
    (hleft : left ≤ left') (hend : n < offset + left) (ho : o < n)
    (h : skipBlanks content offset left = .ok o) :
    offset ≤ o ∧ skipBlanks content' offset left' = .ok o := by
  induction left generalizing left' offset with
  | zero =>
      cases h
      omega
  | succ left ih =>
      obtain ⟨left', rfl⟩ : ∃ k, left' = k + 1 := ⟨left' - 1, by omega⟩
      rw [skipBlanks] at h ⊢
      obtain ⟨x, hx, h⟩ := except_bind_ok h
      split at h
      · rename_i hblank
        obtain ⟨hle, hrest⟩ := ih (Nat.le_of_succ_le_succ hleft) (by omega) h
        rw [byteAt_same hsame (by omega), hx]
        exact ⟨by omega, (if_pos hblank).trans hrest⟩
      · rename_i hblank
        cases h
        rw [byteAt_same hsame ho, hx]
        exact ⟨Nat.le_refl _, if_neg hblank⟩

/-- Blanks that end in front of a character of the shorter text. -/
theorem Longer.skipWhitespace (h : Longer n b b') (hc : bufferSkipWhitespace b = .ok c)
    (hlt : c.offset < n) : bufferSkipWhitespace b' = .ok { b' with offset := c.offset } := by
  rw [bufferSkipWhitespace, if_pos h.within.canAccess] at hc
  obtain ⟨o, ho, hc⟩ := except_bind_ok hc
  cases hc
  dsimp only at hlt ⊢
  have hlen := h.length
  have hle := h.le
  have hlonger := h.longer
  have hne : o ≠ b.length := by
    intro he
    rw [if_pos he] at hlt
    omega
  rw [if_neg hne] at hlt ⊢
  have hleft : b.length - b.offset ≤ b'.length - b.offset := by omega
  obtain ⟨-, hskip⟩ := skipBlanks_longer h.same hleft (by omega) hlt ho
  rw [bufferSkipWhitespace, if_pos h.canAccess, h.offset, hskip]
  show Except.ok _ = _
  rw [if_neg (by omega)]

/-- The shorter text goes on, with a character that does not belong to a number. -/
def Stops (n : Nat) (b : ParseBuffer) : Prop :=
  b.offset < n ∧ ∀ x, b.content[b.offset]? = some x → inDecimal x = false

theorem Longer.stops (h : Longer n b b') {x : UInt8} (hx : b.nextIs x = .ok true)
    (h0 : x ≠ 0) (hin : inDecimal x = false) : Stops n b := by
  have hchar := nextIs_char h.within hx
  refine ⟨h.lt_of_char h.le hchar h0, fun y hy => ?_⟩
  rw [hchar] at hy
  cases hy
  exact hin

theorem skipBlanks_first {content : Bytes} {left offset o : Nat}
    (h : skipBlanks content offset left = .ok o) :
    o = offset ∨ ∃ x, content[offset]? = some x ∧ x ≤ 32 := by
  cases left with
  | zero =>
      cases h
      exact .inl rfl
  | succ left =>
      rw [skipBlanks] at h
      obtain ⟨x, hx, h⟩ := except_bind_ok h
      split at h
      · rename_i hblank
        exact .inr ⟨x, getElem?_of_byteAt hx, hblank⟩
      · cases h
        exact .inl rfl

/-- A number also stops in front of blanks. -/
theorem Longer.stops_before (h : Longer n b b') (hc : bufferSkipWhitespace b = .ok c)
    (hstops : Stops n c) : Stops n b := by
  obtain ⟨c', hc', hon⟩ := bufferSkipWhitespace_yields h.within
  rw [hc] at hc'
  cases hc'
  refine ⟨Nat.lt_of_le_of_lt hon.offset hstops.1, fun x hx => ?_⟩
  rw [bufferSkipWhitespace, if_pos h.within.canAccess] at hc
  obtain ⟨o, ho, hc⟩ := except_bind_ok hc
  cases hc
  rcases skipBlanks_first ho with rfl | ⟨y, hy, hblank⟩
  · have hne : b.offset ≠ b.length := h.within.inside.ne
    have := hstops.2 x
    rw [if_neg hne] at this
    exact this hx
  · rw [hy] at hx
    cases hx
    exact inDecimal_blank hblank

/-! ### Words -/

/-- A word that was found is there in both. -/
theorem Longer.word (h : Longer n b b') {s : Bytes} (h0 : 0 ∉ s) (hne : s ≠ [])
    (hs : CJson.literal b s = .ok true) : Onward b (b.skip s.length) ∧ Reads b' (s ++ []) := by
  obtain ⟨r, hr, hon⟩ := literal_yields h.within s h0 hne
  rw [hs] at hr
  cases hr
  have hle : b.offset + s.length < b.length := (hon rfl).inside
  have hlonger := h.longer
  have hfits := h.within.fits
  rw [h.length] at hle hfits
  rw [CJson.literal] at hs
  split at hs
  · have hread : b.offset + s.length ≤ b.content.length := by omega
    obtain ⟨r, hr, hstands⟩ := strncmpEq_yields s b.offset hread
    rw [hs] at hr
    cases hr
    rw [List.append_nil]
    refine ⟨hon rfl, standsAt_iff.mpr fun j hj => ?_, by rw [h.offset]; omega⟩
    rw [h.offset, h.same _ (by omega)]
    exact standsAt_iff.mp (hstands rfl) j hj
  · cases hs

/-! ### Numbers -/

theorem copyNumber_longer {content content' : Bytes}
    (hsame : ∀ i < n, content'[i]? = content[i]?) {length' : Nat} (hlonger : n < length')
    {k i : Nat} {s : Bytes} (hend : i + s.length < n)
    (h : copyNumber content (n + 1) i k = .ok s) : copyNumber content' length' i k = .ok s := by
  induction k generalizing i s with
  | zero => exact h
  | succ k ih =>
      rw [copyNumber] at h ⊢
      rw [if_pos (by omega)] at h
      rw [if_pos (by omega), byteAt_same hsame (by omega)]
      obtain ⟨x, hx, h⟩ := except_bind_ok h
      rw [hx]
      split at h
      · rename_i hin
        obtain ⟨rest, hrest, h⟩ := except_bind_ok h
        cases h
        rw [List.length_cons] at hend
        show (if inDecimal x = true then _ else _) = _
        rw [if_pos hin, ih (by omega) hrest]
        rfl
      · rename_i hin
        cases h
        exact if_neg hin

/-- A number with a character behind it that does not belong to it. -/
theorem Longer.parseNumber (h : Longer n b b') {t : CJson}
    (hc : CJson.parseNumber b = .ok (some (t, c))) (hstops : Stops n c) :
    CJson.parseNumber b' = .ok (some (t, { b' with offset := c.offset })) := by
  rw [CJson.parseNumber] at hc
  obtain ⟨s, hs, hc⟩ := except_bind_ok hc
  dsimp only at hc
  split at hc
  · cases hc
  · rename_i hsome
    cases hc
    obtain ⟨s', hs', hle, hstands, hchars⟩ :=
      copyNumber_yields h.within.fits 63 b.offset h.within.inside.le
    rw [hs] at hs'
    cases hs'
    have hend : b.offset + (strtod s).2 < n := hstops.1
    have hall : (strtod s).2 = s.length := by
      refine Nat.le_antisymm (strtod_le s) (Nat.le_of_not_lt fun hlt => ?_)
      have hchar := standsAt_iff.mp hstands (strtod s).2 hlt
      have hin := hchars _ (List.getElem_mem hlt)
      exact absurd hin (by rw [hstops.2 _ hchar]; decide)
    rw [h.length] at hs
    have hcopy := copyNumber_longer h.same h.longer (by omega) hs
    rw [CJson.parseNumber, h.offset, hcopy]
    show (if (strtod s).2 = 0 then _ else _) = _
    rw [if_neg hsome]
    simp only [ParseBuffer.skip, h.offset]

/-! ### Strings -/

/-- The closing quote is found in the shorter text, or not at all. -/
theorem findQuote_longer {content content' : Bytes}
    (hsame : ∀ i < n, content'[i]? = content[i]?) (hnul : content[n]? = some 0) {length' : Nat}
    (hlonger : n < length') {fuel fuel' i k e j : Nat} (hfuel : fuel ≤ fuel')
    (h : findQuote content (n + 1) fuel i k = .ok (some (e, j))) :
    i ≤ e ∧ e < n ∧ findQuote content' length' fuel' i k = .ok (some (e, j)) := by
  induction fuel generalizing fuel' i k with
  | zero => cases h
  | succ fuel ih =>
      obtain ⟨fuel', rfl⟩ : ∃ m, fuel' = m + 1 := ⟨fuel' - 1, by omega⟩
      have hfuel' := Nat.le_of_succ_le_succ hfuel
      rw [findQuote] at h
      split at h
      · rename_i hi
        obtain ⟨x, hx, h⟩ := except_bind_ok h
        have hchar := getElem?_of_byteAt hx
        -- The character is one of the shorter text as soon as the quote is not in front of it.
        have hfind : i < n → findQuote content' length' (fuel' + 1) i k
            = if x = 34 then .ok (some (i, k))
              else if x = 92 then
                if length' ≤ i + 1 then .ok none else findQuote content' length' fuel' (i + 2) (k + 1)
              else findQuote content' length' fuel' (i + 1) k := by
          intro hlt
          rw [findQuote, if_pos (by omega), byteAt_same hsame hlt, hx]
          rfl
        split at h
        · rename_i hquote
          cases h
          have hlt : e < n := by
            refine Nat.lt_of_le_of_ne (by omega) fun he => ?_
            rw [he, hnul, hquote] at hchar
            cases hchar
          exact ⟨Nat.le_refl _, hlt, (hfind hlt).trans (if_pos hquote)⟩
        · rename_i hquote
          split at h
          · rename_i hslash
            split at h
            · cases h
            · obtain ⟨hle, hlt, hrest⟩ := ih hfuel' h
              refine ⟨by omega, hlt, ?_⟩
              rw [hfind (by omega), if_neg hquote, if_pos hslash, if_neg (by omega), hrest]
          · rename_i hslash
            obtain ⟨hle, hlt, hrest⟩ := ih hfuel' h
            refine ⟨by omega, hlt, ?_⟩
            rw [hfind (by omega), if_neg hquote, if_neg hslash, hrest]
      · cases h

theorem parseHex4Loop_same {content content' : Bytes}
    (hsame : ∀ i < n, content'[i]? = content[i]?) {k i : Nat} (h : Nat) (hi : i + k ≤ n) :
    parseHex4Loop content' i k h = parseHex4Loop content i k h := by
  induction k generalizing i h with
  | zero => rfl
  | succ k ih =>
      rw [parseHex4Loop, parseHex4Loop, byteAt_same hsame (by omega)]
      refine congrArg (byteAt content i >>= ·) (funext fun x => ?_)
      cases hexDigit x with
      | none => rfl
      | some d => exact ih _ (by omega)

theorem utf16LiteralToUtf8_same {content content' : Bytes}
    (hsame : ∀ i < n, content'[i]? = content[i]?) {i e : Nat} (he : e ≤ n) :
    utf16LiteralToUtf8 content' i e = utf16LiteralToUtf8 content i e := by
  rw [utf16LiteralToUtf8, utf16LiteralToUtf8]
  split
  · rfl
  rename_i hfirst
  rw [parseHex4, parseHex4Loop_same hsame 0 (by omega)]
  refine congrArg (parseHex4Loop content (i + 2) 4 0 >>= ·) (funext fun firstCode => ?_)
  split
  · rfl
  split
  · dsimp only
    split
    · rfl
    rename_i hsecond
    rw [byteAt_same hsame (by omega), byteAt_same hsame (by omega), parseHex4,
      parseHex4Loop_same hsame 0 (by omega)]
    rfl
  · rfl

/-- What stands before the closing quote is copied alike. -/
theorem copyString_longer {content content' : Bytes}
    (hsame : ∀ i < n, content'[i]? = content[i]?) {e size fuel fuel' i : Nat}
    {output out : Bytes} (he : e < n) (hfuel : fuel ≤ fuel')
    (h : copyString content e size fuel i output = .ok (some out)) :
    copyString content' e size fuel' i output = .ok (some out) := by
  induction fuel generalizing fuel' i output with
  | zero => cases h
  | succ fuel ih =>
      obtain ⟨fuel', rfl⟩ : ∃ m, fuel' = m + 1 := ⟨fuel' - 1, by omega⟩
      have hfuel' := Nat.le_of_succ_le_succ hfuel
      rw [copyString] at h ⊢
      split
      · rename_i hi
        rw [if_pos hi] at h
        obtain ⟨x, hx, h⟩ := except_bind_ok h
        rw [byteAt_same hsame (by omega), byteAt_same hsame (by omega),
          utf16LiteralToUtf8_same hsame he.le, hx]
        show (if x ≠ 92 then _ else _) = _
        split at h
        · rename_i hplain
          obtain ⟨o, ho, h⟩ := except_bind_ok h
          rw [if_pos hplain, ho]
          exact ih hfuel' h
        · rename_i hplain
          obtain ⟨y, hy, h⟩ := except_bind_ok h
          rw [if_neg hplain, hy]
          show (if y = 117 then _ else _) = _
          split at h
          · rename_i hu
            obtain ⟨r, hr, h⟩ := except_bind_ok h
            rw [if_pos hu, hr]
            cases r with
            | none => cases h
            | some pair =>
                obtain ⟨o, ho, h⟩ := except_bind_ok h
                show (emit size output pair.1 >>= _) = _
                rw [ho]
                exact ih hfuel' h
          · rename_i hu
            rw [if_neg hu]
            split at h
            · cases h
            · obtain ⟨o, ho, h⟩ := except_bind_ok h
              rw [ho]
              exact ih hfuel' h
      · rename_i hi
        rw [if_neg hi] at h
        exact h

/-- A string is taken with its quotes. -/
theorem Longer.parseString (h : Longer n b b') {s : Bytes}
    (hc : CJson.parseString b = .ok (some (s, c))) :
    CJson.parseString b' = .ok (some (s, { b' with offset := c.offset })) := by
  rw [CJson.parseString] at hc
  obtain ⟨x, hx, hc⟩ := except_bind_ok hc
  split at hc
  · cases hc
  rename_i hquote
  have hlt : b.offset < n := h.lt_of_char h.le (getElem?_of_byteAt hx) (by
    rw [not_not.mp hquote]
    decide)
  obtain ⟨r, hr, hc⟩ := except_bind_ok hc
  cases r with
  | none => cases hc
  | some pair =>
      obtain ⟨e, k⟩ := pair
      dsimp only at hc
      obtain ⟨o, ho, hc⟩ := except_bind_ok hc
      rw [h.length] at hr ho
      have hlonger := h.longer
      obtain ⟨-, he, hfind⟩ := findQuote_longer h.same h.nul h.longer
        (Nat.succ_le_succ (Nat.succ_le_of_lt hlonger)) hr
      cases o with
      | none => cases hc
      | some out =>
          cases hc
          have hcopy := copyString_longer h.same he
            (Nat.succ_le_succ (Nat.succ_le_of_lt hlonger)) ho
          rw [CJson.parseString, h.head hlt, hx]
          show (if x ≠ 34 then _ else _) = _
          rw [if_neg hquote, h.offset, hfind]
          show (copyString _ e _ _ _ _ >>= _) = _
          rw [hcopy]
          rfl

/-! ### Values -/

/-- What the parser accepts, from buffers of that depth, it accepts in the longer text too. -/
def Carries (n : Nat) (parser : ValueParser) (depth : Nat) : Prop :=
  ∀ (b b' c : ParseBuffer) (t : CJson), Longer n b b' → b.depth = depth →
    parser b = .ok (some (t, c)) → Onward b c ∧
      ((∀ x, b.content[b.offset]? = some x → x = 45 ∨ isDigit x → Stops n c) →
        parser b' = .ok (some (t, { b' with offset := c.offset })))

theorem skipWhitespace_onward (hb : Within b) (h : bufferSkipWhitespace b = .ok c) :
    Onward b c := by
  obtain ⟨c', hc', hon⟩ := bufferSkipWhitespace_yields hb
  rw [h] at hc'
  cases hc'
  exact hon

theorem parseString_onward {s : Bytes} (hb : Within b)
    (h : CJson.parseString b = .ok (some (s, c))) : Onward b c := by
  obtain ⟨r, hr, haccepts⟩ := parseString_yields hb
  rw [h] at hr
  cases hr
  exact (haccepts s c rfl).2

theorem arrayItems_longer {parser : ValueParser} {depth : Nat} (hparser : Carries n parser depth)
    {fuel fuel' : Nat} (hfuel : fuel ≤ fuel') {items result : List CJson}
    (hb : Longer n (b.skip 1) (b'.skip 1)) (hdepth : b.depth = depth)
    (h : arrayItems parser fuel b items = .ok (some (result, c))) :
    Onward (b.skip 1) c ∧ (Stops n c → arrayItems parser fuel' b' items
      = .ok (some (result, { b' with offset := c.offset }))) := by
  induction fuel generalizing fuel' b b' items with
  | zero => cases h
  | succ fuel ih =>
      obtain ⟨fuel', rfl⟩ : ∃ m, fuel' = m + 1 := ⟨fuel' - 1, by omega⟩
      rw [arrayItems] at h
      obtain ⟨b₁, h₁, h⟩ := except_bind_ok h
      have hon₁ := skipWhitespace_onward hb.within h₁
      have hb₁ := hb.onward hon₁
      obtain ⟨r, hr, h⟩ := except_bind_ok h
      cases r with
      | none => cases h
      | some pair =>
          obtain ⟨t, b₂⟩ := pair
          obtain ⟨hon₂, hvalue⟩ := hparser b₁ _ b₂ t hb₁ (hon₁.depth.trans hdepth) hr
          have hb₂ := hb₁.onward hon₂
          dsimp only at h
          obtain ⟨b₃, h₃, h⟩ := except_bind_ok h
          have hon₃ := skipWhitespace_onward hb₂.within h₃
          have hb₃ := hb₂.onward hon₃
          have hon := (hon₁.trans hon₂).trans hon₃
          obtain ⟨more, hmore, h⟩ := except_bind_ok h
          -- Where the items stop, the value that was read last has stopped.
          have hstep : Stops n b₃ → arrayItems parser (fuel' + 1) b' items
              = if more = true then arrayItems parser fuel' { b' with offset := b₃.offset }
                  (items ++ [t])
                else .ok (some (items ++ [t], { b' with offset := b₃.offset })) := by
            intro hs
            have hs₂ := hb₂.stops_before h₃ hs
            have hlt₁ : b₁.offset < n := Nat.lt_of_le_of_lt hon₂.offset hs₂.1
            rw [arrayItems, hb.skipWhitespace h₁ hlt₁]
            show (parser { b'.skip 1 with offset := b₁.offset } >>= _) = _
            rw [hvalue fun _ _ _ => hs₂]
            show (bufferSkipWhitespace _ >>= _) = _
            rw [hb₂.skipWhitespace h₃ hs.1]
            show (ParseBuffer.nextIs _ 44 >>= _) = _
            rw [hb₃.nextIs hs.1, hmore]
            rfl
          split at h
          · rename_i htrue
            have hs₃ : Stops n b₃ := hb₃.stops (hmore.trans (by rw [htrue])) (by decide)
              (by decide)
            have hskip := onward_skip hb₃.within (nextIs_char hb₃.within
              (hmore.trans (by rw [htrue]))) (by decide)
            have hb₄ : Longer n (b₃.skip 1)
                (({ b' with offset := b₃.offset } : ParseBuffer).skip 1) := hb₃.onward hskip
            obtain ⟨hrest, hitems⟩ := ih (Nat.le_of_succ_le_succ hfuel) hb₄
              (hon.depth.trans hdepth) h
            refine ⟨(hon.trans hskip).trans hrest, fun hstops => ?_⟩
            rw [hstep hs₃, if_pos htrue, hitems hstops]
          · rename_i hfalse
            cases h
            refine ⟨hon, fun hstops => ?_⟩
            rw [hstep hstops, if_neg hfalse]

theorem objectMembers_longer {parser : ValueParser} {depth : Nat}
    (hparser : Carries n parser depth) {fuel fuel' : Nat} (hfuel : fuel ≤ fuel')
    {members result : List (Bytes × CJson)} (hb : Longer n (b.skip 1) (b'.skip 1))
    (hdepth : b.depth = depth)
    (h : objectMembers parser fuel b members = .ok (some (result, c))) :
    Onward (b.skip 1) c ∧ (Stops n c → objectMembers parser fuel' b' members
      = .ok (some (result, { b' with offset := c.offset }))) := by
  induction fuel generalizing fuel' b b' members with
  | zero => cases h
  | succ fuel ih =>
      obtain ⟨fuel', rfl⟩ : ∃ m, fuel' = m + 1 := ⟨fuel' - 1, by omega⟩
      rw [objectMembers] at h
      obtain ⟨b₁, h₁, h⟩ := except_bind_ok h
      have hon₁ := skipWhitespace_onward hb.within h₁
      have hb₁ := hb.onward hon₁
      obtain ⟨r, hr, h⟩ := except_bind_ok h
      cases r with
      | none => cases h
      | some pair =>
          obtain ⟨name, b₂⟩ := pair
          have hname := hb₁.parseString hr
          have hon₂ := parseString_onward hb₁.within hr
          have hb₂ := hb₁.onward hon₂
          dsimp only at h
          obtain ⟨b₃, h₃, h⟩ := except_bind_ok h
          have hon₃ := skipWhitespace_onward hb₂.within h₃
          have hb₃ := hb₂.onward hon₃
          obtain ⟨colon, hcolon, h⟩ := except_bind_ok h
          split at h
          swap
          · cases h
          rename_i hiscolon
          rw [hiscolon] at hcolon
          have hskip₃ := onward_skip hb₃.within (nextIs_char hb₃.within hcolon) (by decide)
          obtain ⟨b₄, h₄, h⟩ := except_bind_ok h
          have hb₃' := hb₃.onward hskip₃
          have hon₄ := skipWhitespace_onward hb₃'.within h₄
          have hb₄ := hb₃'.onward hon₄
          have hto₄ := (((hon₁.trans hon₂).trans hon₃).trans hskip₃).trans hon₄
          obtain ⟨r, hr', h⟩ := except_bind_ok h
          cases r with
          | none => cases h
          | some pair =>
              obtain ⟨t, b₅⟩ := pair
              obtain ⟨hon₅, hvalue⟩ := hparser b₄ _ b₅ t hb₄ (hto₄.depth.trans hdepth) hr'
              have hb₅ := hb₄.onward hon₅
              dsimp only at h
              obtain ⟨b₆, h₆, h⟩ := except_bind_ok h
              have hon₆ := skipWhitespace_onward hb₅.within h₆
              have hb₆ := hb₅.onward hon₆
              have hon := (hto₄.trans hon₅).trans hon₆
              obtain ⟨more, hmore, h⟩ := except_bind_ok h
              have hstep : Stops n b₆ → objectMembers parser (fuel' + 1) b' members
                  = if more = true then objectMembers parser fuel' { b' with offset := b₆.offset }
                      (members ++ [(name, t)])
                    else .ok (some (members ++ [(name, t)], { b' with offset := b₆.offset })) := by
                intro hs
                have hs₅ := hb₅.stops_before h₆ hs
                have hlt₃ : b₃.offset < n := (hb₃.stops hcolon (by decide) (by decide)).1
                have hlt₁ : b₁.offset < n :=
                  Nat.lt_of_le_of_lt (hon₂.trans hon₃).offset hlt₃
                have hlt₄ : b₄.offset < n := Nat.lt_of_le_of_lt hon₅.offset hs₅.1
                rw [objectMembers, hb.skipWhitespace h₁ hlt₁]
                show (CJson.parseString { b'.skip 1 with offset := b₁.offset } >>= _) = _
                rw [hname]
                show (bufferSkipWhitespace { b'.skip 1 with offset := b₂.offset } >>= _) = _
                rw [hb₂.skipWhitespace h₃ hlt₃]
                show (ParseBuffer.nextIs { b'.skip 1 with offset := b₃.offset } 58 >>= _) = _
                rw [hb₃.nextIs hlt₃, hcolon]
                show (bufferSkipWhitespace _ >>= _) = _
                rw [show ParseBuffer.skip { b'.skip 1 with offset := b₃.offset } 1
                  = { b'.skip 1 with offset := (b₃.skip 1).offset } from rfl,
                  hb₃'.skipWhitespace h₄ hlt₄]
                show (parser { b'.skip 1 with offset := b₄.offset } >>= _) = _
                rw [hvalue fun _ _ _ => hs₅]
                show (bufferSkipWhitespace { b'.skip 1 with offset := b₅.offset } >>= _) = _
                rw [hb₅.skipWhitespace h₆ hs.1]
                show (ParseBuffer.nextIs { b'.skip 1 with offset := b₆.offset } 44 >>= _) = _
                rw [hb₆.nextIs hs.1, hmore]
                rfl
              split at h
              · rename_i htrue
                rw [htrue] at hmore
                have hs₆ : Stops n b₆ := hb₆.stops hmore (by decide) (by decide)
                have hskip := onward_skip hb₆.within (nextIs_char hb₆.within hmore) (by decide)
                have hb₇ : Longer n (b₆.skip 1)
                    (({ b' with offset := b₆.offset } : ParseBuffer).skip 1) := hb₆.onward hskip
                obtain ⟨hrest, hmembers⟩ := ih (Nat.le_of_succ_le_succ hfuel) hb₇
                  (hon.depth.trans hdepth) h
                refine ⟨(hon.trans hskip).trans hrest, fun hstops => ?_⟩
                rw [hstep hs₆, if_pos htrue, hmembers hstops]
              · rename_i hfalse
                cases h
                refine ⟨hon, fun hstops => ?_⟩
                rw [hstep hstops, if_neg hfalse]

/-- The bracket that closes an array or an object, and one level up. -/
theorem Longer.close (h : Longer n b b') (hon : Onward { b with depth := b.depth + 1 } c)
    {x : UInt8} (hx : c.nextIs x = .ok true) (h0 : x ≠ 0) :
    Onward b { c.skip 1 with depth := c.depth - 1 } :=
  onward_close h.within hon (nextIs_char (hon.within (h.atDepth _).within) hx) h0

/-- One character further in both. -/
theorem Longer.skip (h : Longer n b b') (hon : Onward b (b.skip 1)) :
    Longer n (b.skip 1) (b'.skip 1) := by
  have hskip := h.onward hon
  have hoffset : (b.skip 1).offset = b'.offset + 1 := congrArg (· + 1) h.offset.symm
  rw [hoffset] at hskip
  exact hskip

theorem parseArray_longer {parser : ValueParser} (h : Longer n b b')
    (hparser : Carries n parser (b.depth + 1)) {t : CJson}
    (hc : parseArray parser b = .ok (some (t, c))) :
    Onward b c ∧ parseArray parser b' = .ok (some (t, { b' with offset := c.offset })) := by
  obtain ⟨content', length', offset', depth'⟩ := b'
  obtain rfl : offset' = b.offset := h.offset
  obtain rfl : depth' = b.depth := h.depth
  rw [parseArray] at hc ⊢
  split at hc
  · cases hc
  rename_i hdepth
  rw [if_neg hdepth]
  have hdown := h.atDepth (b.depth + 1)
  dsimp only at hc ⊢
  obtain ⟨x, hx, hc⟩ := except_bind_ok hc
  split at hc
  · cases hc
  rename_i hopen
  have hchar : b.content[b.offset]? = some x := getElem?_of_byteAt hx
  have h0 : x ≠ 0 := by
    rw [not_not.mp hopen]
    decide
  have hskip := onward_skip hdown.within hchar h0
  have hb₀ := hdown.skip hskip
  obtain ⟨b₁, h₁, hc⟩ := except_bind_ok hc
  have hon₁ := skipWhitespace_onward hb₀.within h₁
  have hb₁ := hb₀.onward hon₁
  have hon := hskip.trans hon₁
  obtain ⟨empty, hempty, hc⟩ := except_bind_ok hc
  have hlt : b.offset < n := h.lt_of_char h.le hchar h0
  rw [hdown.head hlt, hx]
  show _ ∧ (if x ≠ 91 then _ else _) = _
  rw [if_neg hopen]
  split at hc
  · rename_i htrue
    rw [htrue] at hempty
    cases hc
    have hlt₁ := (hb₁.stops hempty (by decide) (by decide)).1
    refine ⟨h.close hon hempty (by decide), ?_⟩
    rw [hb₀.skipWhitespace h₁ hlt₁]
    show (ParseBuffer.nextIs _ 93 >>= _) = _
    rw [hb₁.nextIs hlt₁, hempty]
    rfl
  · rename_i hfalse
    rw [if_pos hb₁.within.canAccess] at hc
    have hpos : 0 < b₁.offset := Nat.lt_of_lt_of_le (Nat.succ_pos _) hon₁.offset
    have hback : Longer n (({ b₁ with offset := b₁.offset - 1 } : ParseBuffer).skip 1)
        (ParseBuffer.skip ⟨content', length', b₁.offset - 1, b.depth + 1⟩ 1) := by
      rw [skip_back hpos, ParseBuffer.skip, Nat.sub_add_cancel hpos]
      exact hb₁
    obtain ⟨r, hr, hc⟩ := except_bind_ok hc
    cases r with
    | none => cases hc
    | some pair =>
        obtain ⟨items, b₂⟩ := pair
        dsimp only at hc
        obtain ⟨closing, hclosing, hc⟩ := except_bind_ok hc
        split at hc
        swap
        · cases hc
        rename_i htrue
        rw [htrue] at hclosing
        cases hc
        have hfuel : b₁.length ≤ length' := by
          rw [hb₁.length]
          exact h.longer
        obtain ⟨hon₂, hitems⟩ := arrayItems_longer hparser hfuel hback hon.depth hr
        rw [skip_back hpos] at hon₂
        have hb₂ := hb₁.onward hon₂
        have hstops := hb₂.stops hclosing (by decide) (by decide)
        have hlt₁ : b₁.offset < n := Nat.lt_of_le_of_lt hon₂.offset hstops.1
        refine ⟨h.close (hon.trans hon₂) hclosing (by decide), ?_⟩
        rw [hb₀.skipWhitespace h₁ hlt₁]
        show (ParseBuffer.nextIs _ 93 >>= _) = _
        rw [hb₁.nextIs hlt₁, hempty]
        show (if empty = true then _ else _) = _
        rw [if_neg hfalse, if_pos hb₁.canAccess]
        show (arrayItems parser length' ⟨content', length', b₁.offset - 1, b.depth + 1⟩ [] >>= _) = _
        rw [hitems hstops]
        have hnext : ParseBuffer.nextIs ⟨content', length', b₂.offset, b.depth + 1⟩ 93 = .ok true :=
          (hb₂.nextIs hstops.1 93).trans hclosing
        show (ParseBuffer.nextIs ⟨content', length', b₂.offset, b.depth + 1⟩ 93 >>= _) = _
        rw [hnext]
        rfl

theorem parseObject_longer {parser : ValueParser} (h : Longer n b b')
    (hparser : Carries n parser (b.depth + 1)) {t : CJson}
    (hc : parseObject parser b = .ok (some (t, c))) :
    Onward b c ∧ parseObject parser b' = .ok (some (t, { b' with offset := c.offset })) := by
  obtain ⟨content', length', offset', depth'⟩ := b'
  obtain rfl : offset' = b.offset := h.offset
  obtain rfl : depth' = b.depth := h.depth
  rw [parseObject] at hc ⊢
  split at hc
  · cases hc
  rename_i hdepth
  rw [if_neg hdepth]
  have hdown := h.atDepth (b.depth + 1)
  dsimp only at hc ⊢
  obtain ⟨opening, hopening, hc⟩ := except_bind_ok hc
  split at hc
  swap
  · cases hc
  rename_i hopen
  rw [hopen] at hopening
  have hchar := nextIs_char hdown.within hopening
  have hskip := onward_skip hdown.within hchar (by decide)
  have hb₀ := hdown.skip hskip
  obtain ⟨b₁, h₁, hc⟩ := except_bind_ok hc
  have hon₁ := skipWhitespace_onward hb₀.within h₁
  have hb₁ := hb₀.onward hon₁
  have hon := hskip.trans hon₁
  obtain ⟨empty, hempty, hc⟩ := except_bind_ok hc
  have hlt : b.offset < n := h.lt_of_char h.le hchar (by decide)
  rw [hdown.nextIs hlt, hopening]
  show _ ∧ (bufferSkipWhitespace _ >>= _) = _
  split at hc
  · rename_i htrue
    rw [htrue] at hempty
    cases hc
    have hlt₁ := (hb₁.stops hempty (by decide) (by decide)).1
    refine ⟨h.close hon hempty (by decide), ?_⟩
    rw [hb₀.skipWhitespace h₁ hlt₁]
    show (ParseBuffer.nextIs _ 125 >>= _) = _
    rw [hb₁.nextIs hlt₁, hempty]
    rfl
  · rename_i hfalse
    rw [if_pos hb₁.within.canAccess] at hc
    have hpos : 0 < b₁.offset := Nat.lt_of_lt_of_le (Nat.succ_pos _) hon₁.offset
    have hback : Longer n (({ b₁ with offset := b₁.offset - 1 } : ParseBuffer).skip 1)
        (ParseBuffer.skip ⟨content', length', b₁.offset - 1, b.depth + 1⟩ 1) := by
      rw [skip_back hpos, ParseBuffer.skip, Nat.sub_add_cancel hpos]
      exact hb₁
    obtain ⟨r, hr, hc⟩ := except_bind_ok hc
    cases r with
    | none => cases hc
    | some pair =>
        obtain ⟨members, b₂⟩ := pair
        dsimp only at hc
        obtain ⟨closing, hclosing, hc⟩ := except_bind_ok hc
        split at hc
        swap
        · cases hc
        rename_i htrue
        rw [htrue] at hclosing
        cases hc
        have hfuel : b₁.length ≤ length' := by
          rw [hb₁.length]
          exact h.longer
        obtain ⟨hon₂, hmembers⟩ := objectMembers_longer hparser hfuel hback hon.depth hr
        rw [skip_back hpos] at hon₂
        have hb₂ := hb₁.onward hon₂
        have hstops := hb₂.stops hclosing (by decide) (by decide)
        have hlt₁ : b₁.offset < n := Nat.lt_of_le_of_lt hon₂.offset hstops.1
        have hnext : ParseBuffer.nextIs ⟨content', length', b₂.offset, b.depth + 1⟩ 125
            = .ok true := (hb₂.nextIs hstops.1 125).trans hclosing
        refine ⟨h.close (hon.trans hon₂) hclosing (by decide), ?_⟩
        rw [hb₀.skipWhitespace h₁ hlt₁]
        show (ParseBuffer.nextIs _ 125 >>= _) = _
        rw [hb₁.nextIs hlt₁, hempty]
        show (if empty = true then _ else _) = _
        rw [if_neg hfalse, if_pos hb₁.canAccess]
        show (objectMembers parser length' ⟨content', length', b₁.offset - 1, b.depth + 1⟩ []
          >>= _) = _
        rw [hmembers hstops]
        show (ParseBuffer.nextIs ⟨content', length', b₂.offset, b.depth + 1⟩ 125 >>= _) = _
        rw [hnext]
        rfl

/-- A buffer with a character in front. -/
theorem Within.reads (hb : Within b) : ∃ x, b.content[b.offset]? = some x ∧ Reads b [x] := by
  obtain ⟨x, -, hx⟩ := head_yields hb
  refine ⟨x, hx, ?_, hb.inside⟩
  rw [standsAt_iff]
  intro j hj
  obtain rfl : j = 0 := by simpa using hj
  exact hx

theorem Longer.reads (h : Longer n b b') {x : UInt8} (hx : b.content[b.offset]? = some x)
    (hlt : b.offset < n) : Reads b' [x] := by
  refine ⟨?_, ?_⟩
  · rw [standsAt_iff]
    intro j hj
    obtain rfl : j = 0 := by simpa using hj
    rw [h.offset, Nat.add_zero, h.same _ hlt]
    exact hx
  · have hlonger := h.longer
    rw [h.offset, List.length_singleton]
    omega

/-- Which alternative of `parse_value` is taken, once it is none of the words. -/
theorem Reads.parseValue_eq {x : UInt8} {s : Bytes} (nesting : Nat) (h : Reads b (x :: s))
    (hn : x ≠ 110) (hf : x ≠ 102) (ht : x ≠ 116) :
    parseValue (nesting + 1) b
      = if x = 34 then (do
          match ← CJson.parseString b with
          | none => .ok none
          | some (s, b) => .ok (some (.string s, b)))
        else if x = 45 ∨ isDigit x then CJson.parseNumber b
        else if x = 91 then parseArray (parseValue nesting) b
        else if x = 123 then parseObject (parseValue nesting) b
        else .ok none := by
  obtain ⟨hnull, hfalse, htrue⟩ := h.noWord hn hf ht
  rw [parseValue, hnull, hfalse, htrue, h.nextIs, h.startsNumber, h.nextIs, h.nextIs]
  -- The text of a string is looked at, since two copies of one `match` are compared here.
  rcases CJson.parseString b with e | _ | ⟨t, b'⟩ <;> simp [bind, Except.bind]

/-- **What is accepted is accepted where the text goes on.** -/
theorem parseValue_carries (nesting : Nat) {depth : Nat}
    (hcalls : CJSON_NESTING_LIMIT < depth + nesting) (hdepth : depth ≤ CJSON_NESTING_LIMIT) :
    Carries n (parseValue nesting) depth := by
  induction nesting generalizing depth with
  | zero => omega
  | succ nesting ih =>
      intro b b' c t h hb hc
      have hinner : b.depth < CJSON_NESTING_LIMIT →
          Carries n (parseValue nesting) (b.depth + 1) := fun hlt => ih (by omega) (by omega)
      have hvalue := hc
      rw [parseValue] at hc
      obtain ⟨isNull, hnull, hc⟩ := except_bind_ok hc
      split at hc
      · rename_i htrue
        rw [htrue] at hnull
        cases hc
        obtain ⟨hon, hreads⟩ := h.word (by decide +kernel) (by decide +kernel) hnull
        refine ⟨hon, fun _ => ?_⟩
        rw [hreads.parseValue_null nesting, ParseBuffer.skip, h.offset]
        rfl
      obtain ⟨isFalse, hfalse, hc⟩ := except_bind_ok hc
      split at hc
      · rename_i htrue
        rw [htrue] at hfalse
        cases hc
        obtain ⟨hon, hreads⟩ := h.word (by decide +kernel) (by decide +kernel) hfalse
        refine ⟨hon, fun _ => ?_⟩
        rw [hreads.parseValue_false nesting, ParseBuffer.skip, h.offset]
        rfl
      obtain ⟨isTrue, htrue, hc⟩ := except_bind_ok hc
      split at hc
      · rename_i his
        rw [his] at htrue
        cases hc
        obtain ⟨hon, hreads⟩ := h.word (by decide +kernel) (by decide +kernel) htrue
        refine ⟨hon, fun _ => ?_⟩
        rw [hreads.parseValue_true nesting, ParseBuffer.skip, h.offset]
        rfl
      -- None of the words: the next character decides, and it is the same in both.
      obtain ⟨x, hx, hreads⟩ := h.within.reads
      rw [hreads.nextIs, hreads.startsNumber, hreads.nextIs, hreads.nextIs] at hc
      have hne : x ≠ 0 ∧ x ≠ 110 ∧ x ≠ 102 ∧ x ≠ 116 := by
        refine ⟨?_, ?_, ?_, ?_⟩ <;> rintro rfl <;> cases hc
      obtain ⟨h0, hn, hf, ht⟩ := hne
      have hlt := h.lt_of_char h.le hx h0
      have hreads' := h.reads hx hlt
      rw [hreads.parseValue_eq nesting hn hf ht] at hvalue
      rw [hreads'.parseValue_eq nesting hn hf ht]
      clear hc
      split at hvalue
      · rename_i hquote
        obtain ⟨r, hr, hvalue⟩ := except_bind_ok hvalue
        cases r with
        | none => cases hvalue
        | some pair =>
            obtain ⟨s, b₁⟩ := pair
            cases hvalue
            refine ⟨parseString_onward h.within hr, fun _ => ?_⟩
            rw [if_pos hquote, h.parseString hr]
            rfl
      rename_i hquote
      rw [if_neg hquote]
      split at hvalue
      · rename_i hnumber
        obtain ⟨r, hr, haccepts⟩ := parseNumber_yields h.within 0
        rw [hvalue] at hr
        cases hr
        obtain ⟨hdoc, hon⟩ := haccepts t c rfl
        refine ⟨hon, fun hstops => ?_⟩
        rw [if_pos hnumber]
        exact h.parseNumber hvalue (hstops x hx hnumber)
      rename_i hnumber
      rw [if_neg hnumber]
      split at hvalue
      · rename_i harray
        have hlimit : b.depth < CJSON_NESTING_LIMIT := by
          by_contra hlimit
          rw [parseArray, if_pos (Nat.not_lt.mp hlimit)] at hvalue
          cases hvalue
        obtain ⟨hon, hvalue'⟩ := parseArray_longer h (hinner hlimit) hvalue
        exact ⟨hon, fun _ => (if_pos harray).trans hvalue'⟩
      rename_i harray
      rw [if_neg harray]
      split at hvalue
      · rename_i hobject
        have hlimit : b.depth < CJSON_NESTING_LIMIT := by
          by_contra hlimit
          rw [parseObject, if_pos (Nat.not_lt.mp hlimit)] at hvalue
          cases hvalue
        obtain ⟨hon, hvalue'⟩ := parseObject_longer h (hinner hlimit) hvalue
        exact ⟨hon, fun _ => (if_pos hobject).trans hvalue'⟩
      · cases hvalue

end Longer

/-! ### Texts that are cut off -/

theorem text_starts_no_number {t : CJson} (h : ∀ d, t ≠ .number d) {format : Bool} {k : Nat}
    {x : UInt8} {rest : Bytes} (htext : text format k t = x :: rest) :
    ¬ (x = 45 ∨ isDigit x = true) := by
  have hstart : ∀ (y : UInt8) (ys : Bytes), text format k t = y :: ys →
      ¬ (y = 45 ∨ isDigit y = true) → ¬ (x = 45 ∨ isDigit x = true) := by
    intro y ys hy hno
    rw [htext] at hy
    cases hy
    exact hno
  cases t with
  | null => exact hstart 110 [117, 108, 108] (by rw [text]; decide +kernel) (by decide)
  | bool value =>
      cases value with
      | false => exact hstart 102 [97, 108, 115, 101] (by rw [text]; decide +kernel) (by decide)
      | true => exact hstart 116 [114, 117, 101] (by rw [text]; decide +kernel) (by decide)
  | number d => exact absurd rfl (h d)
  | string s => exact hstart 34 _ (by rw [text]; rfl) (by decide)
  | array items => exact hstart 91 _ (by rw [text]; rfl) (by decide)
  | object members => exact hstart 123 _ (by rw [text]; rfl) (by decide)

/-- No value, no document. -/
theorem parseWithOpts_none {value : Bytes} {length : Nat} {b : ParseBuffer}
    (hlen : strlen value = .ok length)
    (hstart : (skipUtf8Bom ⟨value, length + 1, 0, 0⟩ >>= bufferSkipWhitespace) = .ok b)
    (hnone : parseValue (CJSON_NESTING_LIMIT + 1) b = .ok none) (strict : Bool) :
    parseWithOpts value strict = .ok none := by
  obtain ⟨b₁, hbom, hblanks⟩ := except_bind_ok hstart
  rw [parseWithOpts, hlen]
  simp only [bind, Except.bind]
  rw [parseWithLengthOpts, if_neg (Nat.succ_ne_zero _)]
  dsimp only
  rw [hbom]
  simp only [bind, Except.bind]
  rw [hblanks]
  dsimp only
  rw [hnone]

theorem parse_nothing (rest : Bytes) (strict : Bool) :
    parseWithOpts (0 :: rest) strict = .ok none := by
  have hreads : Reads ⟨0 :: rest, 1, 0, 0⟩ [0] := ⟨⟨rest, rfl⟩, Nat.le_refl 1⟩
  have hlen : strlen (0 :: rest) = .ok 0 := by
    rw [strlen_of_mem List.mem_cons_self]
    rfl
  refine parseWithOpts_none hlen (hreads.skipNul rfl) ?_ strict
  rw [hreads.parseValue_eq _ (by decide) (by decide) (by decide)]
  rfl

/-- **Part of the text of a document is no document**, unless it is a number. -/
theorem parse_cut {t : CJson} (h : Document CJSON_NESTING_LIMIT t) (hnumber : ∀ d, t ≠ .number d)
    (format strict : Bool) (rest : Bytes) {m : Nat} (hm : m < (text format 0 t).length) :
    parseWithOpts ((text format 0 t).take m ++ 0 :: rest) strict = .ok none := by
  obtain ⟨x, more, hx, hgt, -, hbom⟩ := h.starts format 0
  have hstart := text_starts_no_number hnumber hx
  have hnul := h.text_noNul format 0
  have hvalue := h.readsBack format 0 0 (CJSON_NESTING_LIMIT + 1) (by omega) (by omega)
    ⟨text format 0 t ++ [0], (text format 0 t).length + 1, 0, 0⟩ 0 []
    ⟨List.prefix_refl _, by simp⟩ (by decide) rfl
  generalize text format 0 t = s at *
  subst hx
  cases m with
  | zero => exact parse_nothing rest strict
  | succ m =>
      have hlen : ((x :: more).take (m + 1)).length = m + 1 := by
        rw [List.length_take]
        omega
      have hcut : 0 ∉ (x :: more).take (m + 1) := fun hc => hnul (List.mem_of_mem_take hc)
      have hb : Longer (m + 1) ⟨(x :: more).take (m + 1) ++ 0 :: rest, m + 2, 0, 0⟩
          ⟨x :: more ++ [0], (x :: more).length + 1, 0, 0⟩ := by
        refine ⟨⟨?_, ?_, Nat.succ_pos _⟩, rfl, fun i hi => ?_, Nat.succ_lt_succ hm.le, rfl, rfl⟩
        · show m + 2 ≤ _
          rw [List.length_append, hlen, List.length_cons]
          omega
        · rw [List.getElem?_append_right (by rw [hlen]; rfl), hlen]
          show (0 :: rest)[m + 1 - (m + 1)]? = _
          rw [Nat.sub_self]
          rfl
        · rw [List.getElem?_append_left (by omega), List.getElem?_append_left (by omega),
            List.getElem?_take_of_lt hi]
      have hreads : Reads ⟨(x :: more).take (m + 1) ++ 0 :: rest, m + 2, 0, 0⟩
          (x :: more.take m) := by
        refine ⟨List.prefix_append _ _, ?_⟩
        show 0 + _ ≤ m + 2
        rw [← List.take_succ_cons, hlen]
        omega
      have hcarries : Carries (m + 1) (parseValue (CJSON_NESTING_LIMIT + 1)) 0 :=
        parseValue_carries _ (by omega) (Nat.zero_le _)
      refine parseWithOpts_none ?_ ((congrArg (· >>= bufferSkipWhitespace)
        (hreads.skipUtf8Bom hbom)).trans (hreads.skipNothing hgt)) ?_ strict
      · rw [strlen_of_mem (by simp), cstr_append_zero hcut, hlen]
      · obtain ⟨r, hr, -⟩ := parseValue_yields (CJSON_NESTING_LIMIT + 1) hb.within
          (Nat.lt_of_lt_of_le (Nat.lt_succ_self _) (Nat.le_add_left _ _)) (Nat.zero_le _)
        rw [hr]
        cases r with
        | none => rfl
        | some pair =>
            obtain ⟨t', c⟩ := pair
            obtain ⟨hon, hcarried⟩ := hcarries _ _ c t' hb rfl hr
            have hwhole := hcarried fun y hy hno => by
              rw [hreads.getElem? (i := 0) (Nat.succ_pos _)] at hy
              cases hy
              exact absurd hno hstart
            rw [hvalue] at hwhole
            have hend : c.offset = 0 + (x :: more).length := by
              have := congrArg ParseBuffer.offset (Prod.mk.inj (Option.some.inj
                (Except.ok.inj hwhole))).2
              exact this.symm
            have hinside : c.offset < m + 2 := hon.inside
            omega

/-- **Of what cJSON prints only the whole is accepted**, in either mode, unless it is a number. -/
theorem accepted_iff_whole {n : Nat} {t : CJson} (h : Document n t) (hn : n ≤ CJSON_NESTING_LIMIT)
    (hnumber : ∀ d, t ≠ .number d) {format : Bool} {s : Bytes}
    (hs : print t format = .ok (some s)) (strict : Bool) {m : Nat} (hm : m ≤ s.length) :
    (∃ t', parseWithOpts (s.take m ++ [0]) strict = .ok (some t')) ↔ m = s.length := by
  have htext : s = text format 0 t := by
    obtain ⟨r, hr, hres⟩ := print_yields h format
    rw [hs] at hr
    cases hr
    rcases hres with hres | ⟨hnone, -⟩
    · exact Option.some.inj hres
    · cases hnone
  subst htext
  constructor
  · rintro ⟨t', ht'⟩
    by_contra hne
    have hcut := parse_cut (h.mono hn) hnumber format strict [] (Nat.lt_of_le_of_ne hm hne)
    rw [ht'] at hcut
    cases hcut
  · rintro rfl
    rw [List.take_length]
    exact ⟨reread t, parse_text (h.mono hn) format strict []⟩

theorem accepted_iff_whole_smallTree :
    ∃ s, print smallTree true = .ok (some s) ∧ ∀ strict, ∀ m ≤ s.length,
      (∃ t', parseWithOpts (s.take m ++ [0]) strict = .ok (some t')) ↔ m = s.length := by
  have hleaf : ∀ t ∈ [CJson.number 1, CJson.bool true], (text true 2 t).length ≤ 25 := by
    have hone : IsDouble 1 := .inl (by exact_mod_cast number_int (i := 1) (by norm_num) (by norm_num))
    refine List.forall_mem_cons.mpr ⟨length_number_le hone, List.forall_mem_singleton.mpr ?_⟩
    rw [text]
    decide
  have hname : ∀ m ∈ [(ascii "a", CJson.array [.number 1, .bool true])], m.1.length ≤ 1 :=
    List.forall_mem_singleton.mpr (by decide)
  have hitem : ∀ m ∈ [(ascii "a", CJson.array [.number 1, .bool true])],
      (text true 1 m.2).length ≤ 56 := List.forall_mem_singleton.mpr (length_array_le hleaf)
  have hshort : (text true 0 smallTree).length ≤ 1 * (0 + 1 + 6 * 1 + 56 + 6) + 0 + 3 :=
    length_object_le hname hitem
  obtain ⟨r, hr, hres⟩ := print_yields smallTree_document true
  rcases hres with rfl | ⟨-, hlong⟩
  · exact ⟨_, hr, fun strict m hm => accepted_iff_whole smallTree_document (by decide)
      (fun d => by simp [smallTree]) hr strict hm⟩
  · omega

end CJson

end EleDs
