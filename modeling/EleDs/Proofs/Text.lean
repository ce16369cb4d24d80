/-
What the functions for text draw.

A font is a table of bits, and the pointer into it goes on by a byte where eight columns are
full; that is where the bit of each pixel is (`Upright.drawGlyph`).  A string is written in
rows, and on the first row again where the last is full (`stringPlace_next`).
-/
import EleDs.Lib.Numerals
import EleDs.Proofs.Strokes

namespace EleDs

open Bits Canvas CMem Numerals

theorem forUp_succ {σ : Type} (n : Nat) (body : Nat → σ → σ) (s : σ) :
    forUp 0 (n + 1) body s = body n (forUp 0 n body s) := by
  unfold forUp
  rw [Nat.sub_zero, Nat.sub_zero, List.range'_1_concat, List.foldl_append, Nat.zero_add]
  rfl

theorem flatMap_range_succ {α : Type} (n : Nat) (f : Nat → List α) :
    (List.range (n + 1)).flatMap f = (List.range n).flatMap f ++ f n := by
  rw [List.range_succ, List.flatMap_append, List.flatMap_singleton]

section Text

variable {w h : Nat} {p : Paint}

/-! ### Characters -/

/-- A pixel of a character; a white background is not drawn. -/
def charStroke (bit : Bool) (x y foreground background : Nat) : List Stroke :=
  if bit then [⟨x, y, isWhite foreground⟩]
  else if FONT_BACKGROUND = background then []
  else [⟨x, y, isWhite background⟩]

/-- The pixels of a character whose bits start at `ptr`. -/
def glyphStrokes (table : Memory) (ptr width height x y foreground background : Nat) :
    List Stroke :=
  (List.range height).flatMap fun page => (List.range width).flatMap fun column =>
    charStroke (fontBit table (ptr + page * ((width + 7) / 8) + column / 8) column) (x + column)
      (y + page) foreground background

theorem Upright.charPixel (hp : Upright w h p) {x y : Nat} (hx : x < w) (hy : y < h) (bit : Bool)
    (foreground background : Nat) :
    Drawn (charStroke bit x y foreground background) p
      (EleDs.charPixel p bit x y foreground background) := by
  unfold charStroke EleDs.charPixel
  split
  · exact hp.setPixel hx hy foreground
  · split
    · exact Drawn.refl p
    · exact hp.setPixel hx hy background

variable (table : Memory) (ptr width height x y foreground background : Nat)

/-- The body of the loop over the columns of a row. -/
def columnStep (page column : Nat) (s : Paint × Nat) : Paint × Nat :=
  (charPixel s.1 (fontBit table s.2 column) (uword ((x : Int) + column)) (uword ((y : Int) + page))
    foreground background, if column % 8 = 7 then s.2 + 1 else s.2)

theorem Upright.columns (hp : Upright w h p) {page : Nat} (hy : y + page < h) {n : Nat}
    (hx : x + n ≤ w) :
    Drawn ((List.range n).flatMap fun column => charStroke (fontBit table (ptr + column / 8) column)
        (x + column) (y + page) foreground background) p
      (EleDs.forUp 0 n (columnStep table x y foreground background page) (p, ptr)).1 ∧
    (EleDs.forUp 0 n (columnStep table x y foreground background page) (p, ptr)).2
      = ptr + n / 8 := by
  induction n with
  | zero => exact ⟨Drawn.refl p, rfl⟩
  | succ n ih =>
      obtain ⟨hdrawn, hptr⟩ := ih (by omega)
      have := hp.smallWidth
      have := hp.smallHeight
      have hcolumn : uword ((x : Int) + n) = x + n := uword_of_lt (n := x + n) (by omega)
      have hrow : uword ((y : Int) + page) = y + page := uword_of_lt (n := y + page) (by omega)
      rw [forUp_succ, flatMap_range_succ, columnStep, hptr, hcolumn, hrow]
      refine ⟨hdrawn.trans ((hdrawn.upright hp).charPixel (by omega) hy _ _ _), ?_⟩
      dsimp only
      split <;> omega

/-- One row of a character. -/
theorem Upright.charRow (hp : Upright w h p) {page : Nat} (hx : x + width ≤ w) (hy : y + page < h) :
    Drawn ((List.range width).flatMap fun column =>
        charStroke (fontBit table (ptr + column / 8) column) (x + column) (y + page) foreground
          background) p
      (EleDs.charRow table width x y foreground background page (p, ptr)).1 ∧
    (EleDs.charRow table width x y foreground background page (p, ptr)).2
      = ptr + (width + 7) / 8 := by
  obtain ⟨hdrawn, hptr⟩ := Upright.columns table ptr x y foreground background hp hy hx
  have hrow : EleDs.charRow table width x y foreground background page (p, ptr)
      = if width % 8 ≠ 0
        then ((EleDs.forUp 0 width (columnStep table x y foreground background page) (p, ptr)).1,
          (EleDs.forUp 0 width (columnStep table x y foreground background page) (p, ptr)).2 + 1)
        else EleDs.forUp 0 width (columnStep table x y foreground background page) (p, ptr) := rfl
  rw [hrow]
  split
  · refine ⟨hdrawn, ?_⟩
    dsimp only
    omega
  · refine ⟨hdrawn, ?_⟩
    omega

theorem Upright.rows (hp : Upright w h p) (hx : x + width ≤ w) {n : Nat} (hy : y + n ≤ h) :
    Drawn (glyphStrokes table ptr width n x y foreground background) p
      (EleDs.forUp 0 n (EleDs.charRow table width x y foreground background) (p, ptr)).1 ∧
    (EleDs.forUp 0 n (EleDs.charRow table width x y foreground background) (p, ptr)).2
      = ptr + n * ((width + 7) / 8) := by
  unfold glyphStrokes
  induction n with
  | zero => exact ⟨Drawn.refl p, by rw [Nat.zero_mul]; rfl⟩
  | succ n ih =>
      obtain ⟨hdrawn, hptr⟩ := ih (by omega)
      obtain ⟨hrow, hend⟩ := Upright.charRow table (ptr + n * ((width + 7) / 8)) width x y foreground
        background (hdrawn.upright hp) hx (show y + n < h by omega)
      rw [← hptr, Prod.eta] at hrow hend
      rw [forUp_succ, flatMap_range_succ, Nat.succ_mul, ← Nat.add_assoc, ← hptr]
      exact ⟨hdrawn.trans hrow, hend⟩

theorem Upright.drawGlyph (hp : Upright w h p) (hx : x + width ≤ w) (hy : y + height ≤ h) :
    Drawn (glyphStrokes table ptr width height x y foreground background) p
      (EleDs.drawGlyph table ptr width height x y foreground background p) :=
  (Upright.rows table ptr width x y foreground background hp hx hy).1

end Text

section Strings

variable {w h : Nat} {p : Paint}

variable (w h) in
/-- `Paint_DrawChar` as strokes. -/
def charStrokes (xpoint ypoint : Nat) (asciiChar : UInt8) (font : SFont)
    (colorForeground colorBackground : Nat) : List Stroke :=
  if w < xpoint ∨ h < ypoint then []
  else glyphStrokes font.table (charOffset asciiChar font) font.width font.height xpoint ypoint
    colorForeground colorBackground

variable (w h) in
/-- There is room for a character. -/
def CharFits (xpoint ypoint : Nat) (font : SFont) : Prop :=
  xpoint + font.width ≤ w ∧ ypoint + font.height ≤ h

theorem Upright.drawChar (hp : Upright w h p) {xpoint ypoint : Nat} {font : SFont}
    (hfits : CharFits w h xpoint ypoint font) (asciiChar : UInt8)
    (colorForeground colorBackground : Nat) :
    Drawn (charStrokes w h xpoint ypoint asciiChar font colorForeground colorBackground) p
      (paintDrawChar p xpoint ypoint asciiChar font colorForeground colorBackground) := by
  obtain ⟨hx, hy⟩ := hfits
  unfold charStrokes paintDrawChar
  rw [hp.width, hp.height, if_neg (by omega), if_neg (by omega)]
  exact Upright.drawGlyph _ _ _ _ _ _ _ _ hp hx hy

/-! ### Strings -/

variable (w h) in
/-- Where character `k` of a string goes. -/
def charPlace (xstart ystart : Nat) (font : SFont) (k : Nat) : Nat × Nat :=
  (xstart + k % ((w - xstart) / font.width) * font.width,
    ystart + k / ((w - xstart) / font.width) % ((h - ystart) / font.height) * font.height)

variable (w h) in
/-- There is room for a character where the string starts. -/
structure StringFits (xstart ystart : Nat) (font : SFont) : Prop where
  wide : 0 < font.width
  high : 0 < font.height
  start : CharFits w h xstart ystart font

/-- The next cell of a row, or the first of the next. -/
theorem succ_mod_div {k n : Nat} (hn : 0 < n) :
    (k % n + 1 < n ∧ (k + 1) % n = k % n + 1 ∧ (k + 1) / n = k / n) ∨
    (k % n + 1 = n ∧ (k + 1) % n = 0 ∧ (k + 1) / n = k / n + 1) := by
  have hlt := Nat.mod_lt k hn
  have hk := Nat.div_add_mod k n
  by_cases hlast : k % n + 1 < n
  · obtain ⟨hdiv, hmod⟩ := (Nat.div_mod_unique (a := k + 1) (c := k % n + 1) (d := k / n) hn).mpr
      ⟨by omega, hlast⟩
    exact .inl ⟨hlast, hmod, hdiv⟩
  · obtain ⟨hdiv, hmod⟩ := (Nat.div_mod_unique (a := k + 1) (c := 0) (d := k / n + 1) hn).mpr
      ⟨by rw [Nat.mul_succ]; omega, hn⟩
    exact .inr ⟨by omega, hmod, hdiv⟩

section Place

variable {xstart ystart : Nat} {font : SFont} (hfits : StringFits w h xstart ystart font)

include hfits in
theorem cells_pos : 0 < (w - xstart) / font.width ∧ 0 < (h - ystart) / font.height := by
  obtain ⟨hx, hy⟩ := hfits.start
  exact ⟨Nat.div_pos (by omega) hfits.wide, Nat.div_pos (by omega) hfits.high⟩

/-- A number of cells fits where it is not too large. -/
theorem cells_le_iff {start bound size n : Nat} (hsize : 0 < size) (hstart : start ≤ bound) :
    start + n * size ≤ bound ↔ n ≤ (bound - start) / size := by
  rw [Nat.le_div_iff_mul_le hsize]
  omega

include hfits in
theorem charPlace_fits (k : Nat) : CharFits w h (charPlace w h xstart ystart font k).1
    (charPlace w h xstart ystart font k).2 font := by
  obtain ⟨hcols, hrows⟩ := cells_pos hfits
  obtain ⟨hx, hy⟩ := hfits.start
  have hcol := (cells_le_iff hfits.wide (show xstart ≤ w by omega)).mpr
    (Nat.succ_le_of_lt (Nat.mod_lt k hcols))
  have hrow := (cells_le_iff hfits.high (show ystart ≤ h by omega)).mpr
    (Nat.succ_le_of_lt (Nat.mod_lt (k / ((w - xstart) / font.width)) hrows))
  rw [Nat.succ_mul] at hcol hrow
  unfold charPlace CharFits
  dsimp only
  omega

include hfits in
/-- The place of the next character, from behind this one. -/
theorem stringPlace_next (hp : Upright w h p) (k : Nat) :
    stringPlace p xstart ystart font ((charPlace w h xstart ystart font k).1 + font.width,
        (charPlace w h xstart ystart font k).2)
      = charPlace w h xstart ystart font (k + 1) := by
  obtain ⟨hcols, hrows⟩ := cells_pos hfits
  obtain ⟨hx, hy⟩ := hfits.start
  have hsmall := hp.smallHeight
  have hfit := charPlace_fits hfits k
  unfold stringPlace
  rw [hp.width, hp.height]
  unfold charPlace CharFits at *
  dsimp only at *
  have hcol := cells_le_iff (n := k % ((w - xstart) / font.width) + 2) hfits.wide
    (show xstart ≤ w by omega)
  have hrow := cells_le_iff (n := k / ((w - xstart) / font.width) % ((h - ystart) / font.height) + 2)
    hfits.high (show ystart ≤ h by omega)
  rw [Nat.add_mul] at hcol hrow
  have hnext := succ_mod_div (k := k) hcols
  have hnext' := succ_mod_div (k := k / ((w - xstart) / font.width)) hrows
  generalize (w - xstart) / font.width = cols at *
  generalize (h - ystart) / font.height = rows at *
  obtain ⟨hin, hmod, hdiv⟩ | ⟨hlast, hmod, hdiv⟩ := hnext
  · rw [hmod, hdiv, if_neg (show ¬ xstart + k % cols * font.width + font.width + font.width > w by omega)]
    dsimp only
    rw [if_neg (by omega), Nat.succ_mul, Nat.add_assoc]
  · have huword : uword (((ystart + k / cols % rows * font.height : Nat) : Int) + font.height)
        = ystart + k / cols % rows * font.height + font.height :=
      uword_of_lt (n := ystart + k / cols % rows * font.height + font.height) (by omega)
    rw [hmod, hdiv, Nat.zero_mul, Nat.add_zero,
      if_pos (show xstart + k % cols * font.width + font.width + font.width > w by omega), huword]
    dsimp only
    obtain ⟨hin, hmod', -⟩ | ⟨hfull, hmod', -⟩ := hnext'
    · rw [if_neg (by omega), hmod', Nat.succ_mul, Nat.add_assoc]
    · rw [if_pos (by omega), hmod', Nat.zero_mul, Nat.add_zero]

include hfits in
theorem stringPlace_first (hp : Upright w h p) :
    stringPlace p xstart ystart font (xstart, ystart) = charPlace w h xstart ystart font 0 := by
  obtain ⟨hx, hy⟩ := hfits.start
  unfold stringPlace charPlace
  rw [hp.width, hp.height]
  dsimp only
  rw [if_neg (show ¬ xstart + font.width > w by omega)]
  dsimp only
  rw [if_neg (by omega), Nat.zero_mod, Nat.zero_div, Nat.zero_mod, Nat.zero_mul, Nat.zero_mul]
  rfl

variable (w h xstart ystart font) in
/-- The characters of a string as strokes, from character `k` on.  The colours change places. -/
def textStrokes (colorForeground colorBackground : Nat) (s : Bytes) (k : Nat) : List Stroke :=
  (s.zipIdx k).flatMap fun c =>
    charStrokes w h (charPlace w h xstart ystart font c.2).1 (charPlace w h xstart ystart font c.2).2
      c.1 font colorBackground colorForeground

include hfits in
theorem Upright.stringLoop (hp : Upright w h p) (colorForeground colorBackground : Nat) {s : Bytes}
    {k : Nat} {place : Nat × Nat}
    (hplace : ∀ q, Upright w h q →
      stringPlace q xstart ystart font place = charPlace w h xstart ystart font k) :
    Drawn (textStrokes w h xstart ystart font colorForeground colorBackground s k) p
      (EleDs.stringLoop xstart ystart font colorForeground colorBackground s place p) := by
  induction s generalizing k place p with
  | nil => exact Drawn.refl p
  | cons c s ih =>
      have hfit := charPlace_fits hfits k
      have hsmall := hp.smallWidth
      have hchar := hp.drawChar hfit c colorBackground colorForeground
      have huword : uword (((charPlace w h xstart ystart font k).1 : Int) + font.width)
          = (charPlace w h xstart ystart font k).1 + font.width :=
        uword_of_lt (n := (charPlace w h xstart ystart font k).1 + font.width)
          (by unfold CharFits at hfit; omega)
      unfold textStrokes
      rw [List.zipIdx_cons, List.flatMap_cons, EleDs.stringLoop]
      dsimp only
      rw [hplace p hp, huword]
      exact hchar.trans (ih (hchar.upright hp) fun q hq => stringPlace_next hfits hq k)

include hfits in
/-- **A string is written row by row.** -/
theorem Upright.drawString (hp : Upright w h p) (pString : Bytes)
    (colorForeground colorBackground : Nat) :
    Drawn (textStrokes w h xstart ystart font colorForeground colorBackground (cstr pString) 0) p
      (paintDrawStringEN p xstart ystart pString font colorForeground colorBackground) := by
  obtain ⟨hx, hy⟩ := hfits.start
  rw [paintDrawStringEN, hp.width, hp.height, if_neg (by omega)]
  exact hp.stringLoop hfits colorForeground colorBackground fun q hq => stringPlace_first hfits hq

end Place

/-! ### Numbers -/

theorem numeral_small {n : Nat} (hn : n < 10) : numeral 10 n = [digitByte n] := by
  unfold numeral
  split
  · rename_i hzero
    rw [hzero]
    rfl
  · rename_i hpos
    rw [Nat.digits_of_lt 10 n hpos hn]
    rfl

theorem numeral_snoc {n : Nat} (hn : 10 ≤ n) :
    numeral 10 n = numeral 10 (n / 10) ++ [digitByte (n % 10)] := by
  have hrest : n / 10 ≠ 0 := by omega
  unfold numeral
  rw [if_neg (by omega), if_neg hrest, Nat.digits_def' (by decide) (by omega), List.reverse_cons,
    List.map_append]
  rfl

/-- The loop takes a number apart from its end. -/
theorem numDigits_eq {left n : Nat} (hn : n < 10 ^ left) (hleft : 0 < left) :
    numDigits left n = .ok (numeral 10 n).reverse := by
  induction left generalizing n with
  | zero => omega
  | succ left ih =>
      have hmod : ((n : Int).tmod 10) = ((n % 10 : Nat) : Int) := by
        rw [Int.tmod_eq_emod_of_nonneg (by omega)]
        rfl
      have hdiv : ((n : Int).tdiv 10) = ((n / 10 : Nat) : Int) := by
        rw [Int.tdiv_eq_ediv_of_nonneg (by omega)]
        rfl
      have hdigit : UInt8.ofInt (((n % 10 : Nat) : Int) + 48) = digitByte (n % 10) := by
        have hsmall : ((((n % 10 : Nat) : Int) + 48) % 2 ^ 8).toNat = 48 + n % 10 := by omega
        rw [digitByte, UInt8.ofInt, hsmall]
      rw [numDigits, hmod, hdiv, hdigit]
      by_cases hsmall : n < 10
      · rw [if_pos (by omega), numeral_small hsmall, Nat.mod_eq_of_lt hsmall]
        rfl
      · have hrest : n / 10 < 10 ^ left := by
          rw [Nat.pow_succ] at hn
          omega
        have hmore : 0 < left := by
          by_contra hc
          obtain rfl : left = 0 := by omega
          omega
        rw [if_neg (by omega), ih hrest hmore, numeral_snoc (n := n) (by omega), List.reverse_append]
        rfl

theorem cstr_numeral (n : Nat) : cstr (numeral 10 n) = numeral 10 n := by
  refine cstr_of_not_mem fun hc => ?_
  have := isDigit_of_mem_numeral (b := 10) (by decide) (by decide) hc
  exact absurd this (by decide)

variable {xstart ystart : Nat} {font : SFont}

/-- **A number is written in decimals.** -/
theorem Upright.drawNum (hp : Upright w h p) (hfits : StringFits w h xstart ystart font)
    {nummber : Nat} (hn : nummber < 2 ^ 31) (colorForeground colorBackground : Nat) :
    Draws (textStrokes w h xstart ystart font colorBackground colorForeground
        (numeral 10 nummber) 0) p
      (paintDrawNum p xstart ystart nummber font colorForeground colorBackground) := by
  obtain ⟨hx, hy⟩ := hfits.start
  have hlong : nummber < 10 ^ ARRAY_LEN := hn.trans (by decide +kernel)
  have hdrawn := hp.drawString hfits (numeral 10 nummber) colorBackground colorForeground
  rw [cstr_numeral] at hdrawn
  unfold paintDrawNum
  rw [hp.width, hp.height, if_neg (by omega), numDigits_eq hlong (by decide)]
  refine ⟨_, rfl, ?_⟩
  rw [List.reverse_reverse]
  exact hdrawn

/-! ### The time -/

/-- The characters of a time, with their columns. -/
def timeText (pTime : PaintTime) (xstart dx : Nat) : List (Nat × UInt8) :=
  [(xstart, digitByte (pTime.hour.toNat / 10)), (xstart + dx, digitByte (pTime.hour.toNat % 10)),
    (xstart + dx + dx / 4 + dx / 2, 58),
    (xstart + dx * 2 + dx / 2, digitByte (pTime.min.toNat / 10)),
    (xstart + dx * 3 + dx / 2, digitByte (pTime.min.toNat % 10)),
    (xstart + dx * 4 + dx / 2 - dx / 4, 58),
    (xstart + dx * 5, digitByte (pTime.sec.toNat / 10)),
    (xstart + dx * 6, digitByte (pTime.sec.toNat % 10))]

variable (w h) in
/-- `Paint_DrawTime` as strokes. -/
def timeStrokes (xstart ystart : Nat) (pTime : PaintTime) (font : SFont)
    (colorForeground colorBackground : Nat) : List Stroke :=
  (timeText pTime xstart font.width).flatMap fun c =>
    charStrokes w h c.1 ystart c.2 font colorBackground colorForeground

variable (w h) in
/-- The numbers have two digits, and there is room for the seven characters from the first to
the last. -/
structure TimeFits (xstart ystart : Nat) (pTime : PaintTime) (font : SFont) : Prop where
  hour : pTime.hour < 100
  min : pTime.min < 100
  sec : pTime.sec < 100
  wide : xstart + 7 * font.width ≤ w
  high : ystart + font.height ≤ h

theorem digitValue_eq {n : Nat} (hn : n < 10) : digitValue n = .ok (digitByte n) := if_pos hn

theorem Upright.drawTime (hp : Upright w h p) {pTime : PaintTime}
    (hfits : TimeFits w h xstart ystart pTime font) (colorForeground colorBackground : Nat) :
    Draws (timeStrokes w h xstart ystart pTime font colorForeground colorBackground) p
      (paintDrawTime p xstart ystart pTime font colorForeground colorBackground) := by
  have hhour : pTime.hour.toNat < 100 := hfits.hour
  have hmin : pTime.min.toNat < 100 := hfits.min
  have hsec : pTime.sec.toNat < 100 := hfits.sec
  have hwide := hfits.wide
  have hsmall := hp.smallWidth
  have hplaces : ∀ c ∈ timeText pTime xstart font.width, c.1 + font.width ≤ w := by
    intro c hc
    unfold timeText at hc
    simp only [List.mem_cons, List.not_mem_nil, or_false] at hc
    rcases hc with rfl | rfl | rfl | rfl | rfl | rfl | rfl | rfl <;> dsimp only <;> omega
  have hchars : Drawn (timeStrokes w h xstart ystart pTime font colorForeground colorBackground) p
      ((timeText pTime xstart font.width).foldl (fun q c => paintDrawChar q (uword c.1) ystart c.2 font
        colorBackground colorForeground) p) := by
    refine hp.foldl fun c hc q hq => ?_
    have hx := hplaces c hc
    rw [uword_of_lt (by omega)]
    exact hq.drawChar ⟨hx, hfits.high⟩ c.2 colorBackground colorForeground
  unfold paintDrawTime
  rw [digitValue_eq (n := pTime.hour.toNat / 10) (by omega),
    digitValue_eq (n := pTime.hour.toNat % 10) (by omega),
    digitValue_eq (n := pTime.min.toNat / 10) (by omega),
    digitValue_eq (n := pTime.min.toNat % 10) (by omega),
    digitValue_eq (n := pTime.sec.toNat / 10) (by omega),
    digitValue_eq (n := pTime.sec.toNat % 10) (by omega)]
  exact ⟨_, rfl, hchars⟩

/-! ### Two bytes for a character -/

/-- A character of one byte or of two. -/
inductive CnChar where
  | ascii (c : UInt8)
  | wide (c d : UInt8)

/-- Whether an entry of the table is this character.  The second byte of an entry does not
matter for one of one byte. -/
def CnChar.wanted : CnChar → ChCn → Bool
  | ascii c, e => c == e.index0
  | wide c d, e => c == e.index0 && d == e.index1

/-- How far it goes. -/
def CnChar.advance (font : CFont) : CnChar → Nat
  | ascii _ => font.asciiWidth
  | wide _ _ => font.width

/-- The characters of a text, if it ends. -/
def cnText : Bytes → Option (List CnChar)
  | [] => none
  | c :: rest =>
      if c = 0 then some []
      else if c ≤ 0x7F then (cnText rest).map (.ascii c :: ·)
      else
        match rest with
        | [] => none
        | d :: rest => (cnText rest).map (.wide c d :: ·)

/-- The characters with their columns. -/
def cnPlaces (font : CFont) : List CnChar → Nat → List (Nat × CnChar)
  | [], _ => []
  | c :: text, x => (x, c) :: cnPlaces font text (x + c.advance font)

/-- A character that is in the table. -/
def cnStrokes (font : CFont) (ystart colorForeground colorBackground : Nat) (c : Nat × CnChar) :
    List Stroke :=
  match font.table.find? c.2.wanted with
  | none => []
  | some e => glyphStrokes e.matrix 0 font.width font.height c.1 ystart colorForeground
      colorBackground

theorem Upright.drawFirst (hp : Upright w h p) {font : CFont} {c : Nat × CnChar}
    (hx : c.1 + font.width ≤ w) (hy : ystart + font.height ≤ h)
    (colorForeground colorBackground : Nat) :
    Drawn (cnStrokes font ystart colorForeground colorBackground c) p
      (EleDs.drawFirst font c.2.wanted c.1 ystart colorForeground colorBackground p) := by
  unfold cnStrokes EleDs.drawFirst
  cases font.table.find? c.2.wanted with
  | none => exact Drawn.refl p
  | some e => exact Upright.drawGlyph _ _ _ _ _ _ _ _ hp hx hy

/-- **A text in Chinese is written in one row.** -/
theorem Upright.drawStringCN (hp : Upright w h p) {font : CFont} {pString : Bytes}
    {text : List CnChar} (htext : cnText pString = some text)
    (hplaces : ∀ c ∈ cnPlaces font text xstart, c.1 + font.width ≤ w)
    (hy : ystart + font.height ≤ h) (colorForeground colorBackground : Nat) :
    Draws ((cnPlaces font text xstart).flatMap
        (cnStrokes font ystart colorForeground colorBackground)) p
      (paintDrawStringCN p xstart ystart pString font colorForeground colorBackground) := by
  unfold paintDrawStringCN
  fun_induction cnText pString generalizing text xstart p with
  | case1 => cases htext
  | case2 =>
      obtain rfl : text = [] := by simpa using htext.symm
      rw [stringCNLoop.eq_def]
      dsimp only
      rw [if_pos rfl]
      exact ⟨p, rfl, Drawn.refl p⟩
  | case3 c rest hzero hascii ih =>
      obtain ⟨text', hrest, rfl⟩ := Option.map_eq_some_iff.mp htext
      have hchar := hp.drawFirst (hplaces (xstart, .ascii c) List.mem_cons_self) hy colorForeground
        colorBackground
      obtain ⟨p', hrun, hdrawn⟩ := ih (hchar.upright hp) hrest fun e he =>
        hplaces e (List.mem_cons_of_mem _ he)
      rw [stringCNLoop.eq_def]
      dsimp only
      rw [if_neg hzero, if_pos hascii]
      exact ⟨p', hrun, hchar.trans hdrawn⟩
  | case4 => cases htext
  | case5 c hzero hascii d rest ih =>
      obtain ⟨text', hrest, rfl⟩ := Option.map_eq_some_iff.mp htext
      have hchar := hp.drawFirst (hplaces (xstart, .wide c d) List.mem_cons_self) hy colorForeground
        colorBackground
      obtain ⟨p', hrun, hdrawn⟩ := ih (hchar.upright hp) hrest fun e he =>
        hplaces e (List.mem_cons_of_mem _ he)
      rw [stringCNLoop, if_neg hzero, if_neg hascii]
      exact ⟨p', hrun, hchar.trans hdrawn⟩

end Strings

end EleDs
