/-
What a letter's bits depend on.

The drawing takes the bits of a letter one after the other from the buffer
(`drawLetterNormal_flatten`).  The last read of a lookup fills the buffer with
`box_w * box_h / 8` bytes of the bitmap, and when the bits do not fill their last byte that
byte is not among them.  What stands there instead is a byte of the descriptor, which the
lookup has read before, or, behind the descriptor, whatever an earlier bitmap has left
(`userFontGetBitmap_byte`, `lookups_left`).  A letter is drawn as the file has it when these
bytes happen to start with the same bits (`glyphKept_iff`).
-/
import Mathlib.Data.List.Range
import Mathlib.Data.Nat.Bitwise
import EleDs.Lib.Bits
import EleDs.Model.Fangsong8

namespace EleDs

open CMem Bits

/-! ### The bits a drawing takes -/

theorem px_of_byte (b : UInt8) {k : Nat} (hk : k < 8) :
    (b.toNat &&& 0x80 >>> k) >>> (7 - k) = (ofByte b k).toNat := by
  have hmask : 0x80 >>> k = 2 ^ (7 - k) := by
    have hall : ∀ k : Fin 8, 0x80 >>> k.val = 2 ^ (7 - k.val) := by decide
    exact hall ⟨k, hk⟩
  rw [hmask, Nat.and_two_pow, Nat.shiftRight_eq_div_pow, Nat.mul_div_cancel _ (Nat.two_pow_pos _),
    ofByte_eq_testBit]

/-- The cursor stands at bit `i` of the bitmap. -/
structure LetterCursor.At (c : LetterCursor) (i : Nat) : Prop where
  inByte : c.colBit < 8
  mask : c.bitmask = 0x80 >>> c.colBit
  place : 8 * c.mapP + c.colBit = i

namespace LetterCursor.At

variable {c : LetterCursor} {i : Nat}

theorem letterPx (h : c.At i) (map : Memory) : letterPx map 1 c = (bit map i).toNat := by
  have hbit : bit map i = ofByte (map c.mapP) c.colBit := by
    rw [← h.place, bit_at map c.mapP h.inByte]
  rw [EleDs.letterPx, h.mask, hbit]
  exact px_of_byte (map c.mapP) h.inByte

theorem nextColumn (h : c.At i) : (nextColumn 1 0x80 c).At (i + 1) := by
  have hplace := h.place
  have hin := h.inByte
  unfold EleDs.nextColumn
  split
  · rename_i hlt
    refine ⟨by simp only; omega, ?_, by simp only; omega⟩
    rw [h.mask, Nat.shiftRight_add]
  · rename_i hlt
    refine ⟨by simp, rfl, ?_⟩
    simp only
    omega

theorem drawColumns (h : c.At i) (map : Memory) (n : Nat) :
    (drawColumns map 1 0x80 n c).1 = (List.range' i n).map (fun j => (bit map j).toNat) ∧
      (drawColumns map 1 0x80 n c).2.At (i + n) := by
  induction n generalizing c i with
  | zero => exact ⟨rfl, h⟩
  | succ n ih =>
      obtain ⟨hpx, hlast⟩ := ih h.nextColumn
      rw [EleDs.drawColumns, List.range'_succ, List.map_cons]
      refine ⟨?_, ?_⟩
      · simp only
        rw [hpx, h.letterPx]
      · have hend : i + 1 + n = i + (n + 1) := by omega
        rwa [hend] at hlast

end LetterCursor.At

/-- The rows of a letter follow each other, whatever part of each is drawn. -/
theorem drawRows_eq (map : Memory) {boxW : Nat} (clip : LetterClip)
    (hcols : clip.colStart ≤ clip.colEnd) (hbox : clip.colEnd ≤ boxW) (n i : Nat) :
    drawRows map 1 0x80 boxW clip n (i / 8) (i % 8) =
      (List.range n).map fun r =>
        (List.range' (i + r * boxW) (clip.colEnd - clip.colStart)).map
          fun j => (bit map j).toNat := by
  induction n generalizing i with
  | zero => rfl
  | succ n ih =>
      have hstart : LetterCursor.At ⟨i / 8, i % 8, 0x80 >>> (i % 8)⟩ i :=
        ⟨by simp only; omega, rfl, by simp only; omega⟩
      obtain ⟨hpx, hlast⟩ := hstart.drawColumns map (clip.colEnd - clip.colStart)
      have hplace := hlast.place
      rw [drawRows]
      simp only
      rw [hpx, Nat.mul_one]
      generalize (EleDs.drawColumns map 1 0x80 (clip.colEnd - clip.colStart)
        ⟨i / 8, i % 8, 0x80 >>> (i % 8)⟩).2 = last at hplace ⊢
      have hbyte : last.mapP + (last.colBit + (boxW + clip.colStart - clip.colEnd)) >>> 3
          = (i + boxW) / 8 := by
        rw [Nat.shiftRight_eq_div_pow]
        omega
      have hrest : (last.colBit + (boxW + clip.colStart - clip.colEnd)) &&& 0x7
          = (i + boxW) % 8 := by
        rw [Nat.and_two_pow_sub_one_eq_mod _ 3]
        omega
      rw [hbyte, hrest, ih, List.range_succ_eq_map, List.map_cons, List.map_map, Nat.zero_mul,
        Nat.add_zero]
      congr 1
      refine List.map_congr_left fun r _ => ?_
      have hrow : i + boxW + r * boxW = i + (r + 1) * boxW := by
        rw [Nat.add_mul]
        omega
      simp only [Function.comp, Nat.succ_eq_add_one, hrow]

theorem flatten_rows {α : Type} (f : Nat → α) (w h : Nat) :
    ((List.range h).map fun r => (List.range' (r * w) w).map f).flatten
      = (List.range (h * w)).map f := by
  induction h with
  | zero => simp
  | succ h ih =>
      rw [List.range_succ, List.map_append, List.flatten_append, ih, Nat.add_mul, Nat.one_mul,
        List.range_add, List.map_append]
      simp [List.range'_eq_map_range]

/-- **The drawing of a whole letter takes `box_w * box_h` bits, one after the other.** -/
theorem drawLetterNormal_flatten {g : LvFontGlyphDsc} (hg : g.bpp = 1) (map : Memory) :
    (drawLetterNormal g map ⟨0, g.boxH, 0, g.boxW⟩).flatten
      = (List.range (g.boxH * g.boxW)).map fun j => (bit map j).toNat := by
  have hdraw := drawRows_eq map ⟨0, g.boxH, 0, g.boxW⟩ (Nat.zero_le _) (Nat.le_refl g.boxW) g.boxH 0
  rw [← flatten_rows]
  simp only [drawLetterNormal, hg, bitmaskInit]
  simp only [Nat.zero_add, Nat.sub_zero] at hdraw
  simpa using congrArg List.flatten hdraw

/-! ### What a lookup leaves in the buffer -/

/-- Byte `i` of the font. -/
def fontByte (file : Bytes) (i : Nat) : UInt8 := file.getD i 0

/-- The table entry of a letter. -/
def tablePos (file : Bytes) (letter : Nat) : Nat :=
  let off := unicodeOffset letter
  littleEndian [fontByte file off, fontByte file (off + 1), fontByte file (off + 2),
    fontByte file (off + 3)]

/-- The descriptor of a letter. -/
def fileDsc (file : Bytes) (letter : Nat) : LvFontGlyphDsc :=
  let pos := tablePos file letter
  { advW := (fontByte file pos).toNat
    boxW := (fontByte file (pos + 1)).toNat
    boxH := (fontByte file (pos + 2)).toNat
    ofsX := (fontByte file (pos + 3)).toInt8.toInt
    ofsY := (fontByte file (pos + 4)).toInt8.toInt
    bpp := xbfBpp }

/-- The bits of a letter's bitmap. -/
def glyphBits (file : Bytes) (letter : Nat) : Nat :=
  (fileDsc file letter).boxH * (fileDsc file letter).boxW

theorem glyphBits_eq (file : Bytes) (letter : Nat) :
    glyphBits file letter = (fontByte file (tablePos file letter + 2)).toNat *
      (fontByte file (tablePos file letter + 1)).toNat := rfl

/-- Byte `i` of a letter's bitmap. -/
def glyphByte (file : Bytes) (letter i : Nat) : UInt8 :=
  fontByte file (tablePos file letter + glyphDscSize + i)

/-- The font has a glyph for the letter. -/
structure HasGlyph (file : Bytes) (letter : Nat) : Prop where
  min : xbfMin ≤ letter
  max : letter ≤ xbfMax
  entry : tablePos file letter ≠ 0

/-- A file in the layout of the font: the table is there, and so is every glyph it names,
with a bitmap that fits the buffer and at a place that `lseek` can reach. -/
structure XbfFont (file : Bytes) : Prop where
  table : unicodeOffset xbfMax + 4 ≤ file.length
  glyph : ∀ {letter}, HasGlyph file letter →
    tablePos file letter + glyphDscSize + (glyphBits file letter + 7) / 8 ≤ file.length
  fits : ∀ {letter}, HasGlyph file letter → (glyphBits file letter + 7) / 8 ≤ 30
  reach : ∀ {letter}, HasGlyph file letter → tablePos file letter + glyphDscSize < 2147483648

/-- A read that succeeds in full fills the start of the buffer. -/
theorem userFontGetdata_byte (file : Bytes) (s : FontState) {offset size : Nat}
    (hseek : offset < 2147483648) (hread : offset + size ≤ file.length) (hsize : size ≤ 30) :
    ∃ s', userFontGetdata (some file) s offset size = .ok s' ∧
      ∀ i, s'.byte i = if i < size then fontByte file (offset + i) else s.byte i := by
  have hlen : ((file.drop offset).take size).length = size := by
    rw [List.length_take, List.length_drop]
    omega
  have hin : 0 + ((file.drop offset).take size).length ≤ 30 := by omega
  obtain ⟨buf, hcopy, hdata⟩ := s.buf.memcpy_ok hin
  refine ⟨⟨offset + size, buf⟩, ?_, ?_⟩
  · simp only [userFontGetdata, hseek, if_true, hcopy, hlen]
    rfl
  · intro i
    rw [FontState.byte, hdata, List.getD_eq_getElem?_getD,
      getElem?_overwrite (by rw [s.buf.size]; exact hin), hlen]
    by_cases hi : i < size
    · rw [if_pos (by omega), if_pos hi, Nat.sub_zero, List.getElem?_take, if_pos hi,
        List.getElem?_drop, fontByte, List.getD_eq_getElem?_getD]
    · rw [if_neg (by omega), if_neg hi, FontState.byte, List.getD_eq_getElem?_getD]

section Font

variable {file : Bytes} (font : XbfFont file) (s : FontState) {letter : Nat}

include font

/-- Both lookups start with the table entry. -/
theorem tableEntry_read (hmin : xbfMin ≤ letter) (hmax : letter ≤ xbfMax) :
    ∃ s', userFontGetdata (some file) s (unicodeOffset letter) 4 = .ok s' ∧
      s'.pos = tablePos file letter ∧ ∀ i, 4 ≤ i → s'.byte i = s.byte i := by
  have htable := font.table
  have hoff : unicodeOffset letter ≤ unicodeOffset xbfMax := by
    unfold unicodeOffset
    omega
  have hlast : unicodeOffset xbfMax < 2147483648 := by decide
  have hread : unicodeOffset letter + 4 ≤ file.length := by omega
  obtain ⟨s', hget, hbyte⟩ := userFontGetdata_byte file s (by omega) hread (by decide)
  refine ⟨s', hget, ?_, ?_⟩
  · simp [FontState.pos, tablePos, hbyte]
  · intro i hi
    rw [hbyte, if_neg (by omega)]

/-- Then comes the descriptor, if there is one. -/
theorem descriptor_read (h : HasGlyph file letter) :
    ∃ s', userFontGetdata (some file) s (tablePos file letter) glyphDscSize = .ok s' ∧
      ∀ i, s'.byte i = if i < 6 then fontByte file (tablePos file letter + i) else s.byte i := by
  have hglyph := font.glyph h
  have hreach := font.reach h
  unfold glyphDscSize at *
  exact userFontGetdata_byte file s (by omega) (by omega) (by omega)

/-- **After the lookup of a bitmap the buffer holds its whole bytes, then what is left of the
descriptor, then what was there before.** -/
theorem userFontGetBitmap_byte (h : HasGlyph file letter) :
    ∃ s', userFontGetBitmap (some file) s letter = .ok (true, s') ∧
      ∀ i, s'.byte i =
        if i < glyphBits file letter / 8 then glyphByte file letter i
        else if i < 6 then fontByte file (tablePos file letter + i) else s.byte i := by
  have hglyph := font.glyph h
  have hfits := font.fits h
  have hreach := font.reach h
  obtain ⟨s₁, hget₁, hpos, hrest₁⟩ := tableEntry_read font s h.min h.max
  obtain ⟨s₂, hget₂, hbyte₂⟩ := descriptor_read font s₁ h
  have hsize : (s₂.byte 1).toNat * (s₂.byte 2).toNat * xbfBpp / 8 = glyphBits file letter / 8 := by
    simp [hbyte₂, glyphBits_eq, xbfBpp, Nat.mul_comm]
  have hoff : (tablePos file letter + glyphDscSize) % 4294967296
      = tablePos file letter + glyphDscSize := Nat.mod_eq_of_lt (by omega)
  have hread : tablePos file letter + glyphDscSize + glyphBits file letter / 8 ≤ file.length := by
    omega
  obtain ⟨s₃, hget₃, hbyte₃⟩ := userFontGetdata_byte file s₂ hreach hread (by omega)
  refine ⟨s₃, ?_, ?_⟩
  · have hrange : ¬ (letter > xbfMax ∨ letter < xbfMin) := by
      have := h.min
      have := h.max
      omega
    rw [userFontGetBitmap, if_neg hrange]
    simp only [bind, Except.bind, hget₁, hpos, ne_eq, h.entry, not_false_eq_true, if_true, hget₂,
      hsize, hoff, hget₃]
  · intro i
    rw [hbyte₃, hbyte₂]
    split_ifs
    · rfl
    · rfl
    · exact hrest₁ i (by omega)

/-- The descriptor is the one in the file, and only its place in the buffer changes. -/
theorem userFontGetGlyphDsc_byte (h : HasGlyph file letter) :
    ∃ s', userFontGetGlyphDsc (some file) s letter = .ok (some (fileDsc file letter), s') ∧
      ∀ i, 6 ≤ i → s'.byte i = s.byte i := by
  obtain ⟨s₁, hget₁, hpos, hrest₁⟩ := tableEntry_read font s h.min h.max
  obtain ⟨s₂, hget₂, hbyte₂⟩ := descriptor_read font s₁ h
  have hrange : ¬ (letter > xbfMax ∨ letter < xbfMin) := by
    have := h.min
    have := h.max
    omega
  refine ⟨s₂, ?_, ?_⟩
  · rw [userFontGetGlyphDsc, if_neg hrange]
    simp only [bind, Except.bind, hget₁, hpos, ne_eq, h.entry, not_false_eq_true, if_true, hget₂]
    simp [hbyte₂, fileDsc]
  · intro i hi
    rw [hbyte₂, if_neg (by omega), hrest₁ i (by omega)]

/-- A lookup of a letter without a glyph reads the table at most. -/
theorem lookup_absent (h : ¬ HasGlyph file letter) :
    ∃ s', userFontGetBitmap (some file) s letter = .ok (false, s') ∧
      userFontGetGlyphDsc (some file) s letter = .ok (none, s') ∧
      ∀ i, 6 ≤ i → s'.byte i = s.byte i := by
  by_cases hrange : letter > xbfMax ∨ letter < xbfMin
  · refine ⟨s, ?_, ?_, fun i _ => rfl⟩
    · rw [userFontGetBitmap, if_pos hrange]
    · rw [userFontGetGlyphDsc, if_pos hrange]
  · have hmin : xbfMin ≤ letter := by omega
    have hmax : letter ≤ xbfMax := by omega
    obtain ⟨s', hget, hpos, hrest⟩ := tableEntry_read font s hmin hmax
    have hzero : tablePos file letter = 0 := by
      by_contra hne
      exact h ⟨hmin, hmax, hne⟩
    refine ⟨s', ?_, ?_, fun i hi => hrest i (by omega)⟩
    · rw [userFontGetBitmap, if_neg hrange]
      simp [bind, Except.bind, hget, hpos, hzero]
    · rw [userFontGetGlyphDsc, if_neg hrange]
      simp [bind, Except.bind, hget, hpos, hzero]

end Font

/-! ### What earlier lookups leave -/

/-- `b` can stand in byte `i` of the buffer, behind the descriptor. -/
def Left (file : Bytes) (i : Nat) (b : UInt8) : Prop :=
  b = 0 ∨ ∃ letter, HasGlyph file letter ∧ i < glyphBits file letter / 8 ∧
    b = glyphByte file letter i

/-- One lookup: it succeeds, and a byte behind the descriptor stays or comes from a bitmap. -/
theorem Lookup.run_left {file : Bytes} (font : XbfFont file) {s : FontState}
    (hs : ∀ i, 6 ≤ i → Left file i (s.byte i)) (call : Lookup) :
    ∃ s', call.run (some file) s = .ok s' ∧ ∀ i, 6 ≤ i → Left file i (s'.byte i) := by
  have hkeep : ∀ {s' : FontState}, (∀ i, 6 ≤ i → s'.byte i = s.byte i) →
      ∀ i, 6 ≤ i → Left file i (s'.byte i) := by
    intro s' hsame i hi
    rw [hsame i hi]
    exact hs i hi
  cases call with
  | bitmap letter =>
      by_cases h : HasGlyph file letter
      · obtain ⟨s', hget, hbyte⟩ := userFontGetBitmap_byte font s h
        refine ⟨s', by rw [Lookup.run, hget]; rfl, ?_⟩
        intro i hi
        rw [hbyte]
        split_ifs with hin
        · exact .inr ⟨letter, h, hin, rfl⟩
        · omega
        · exact hs i hi
      · obtain ⟨s', hget, -, hsame⟩ := lookup_absent font s h
        exact ⟨s', by rw [Lookup.run, hget]; rfl, hkeep hsame⟩
  | glyphDsc letter =>
      by_cases h : HasGlyph file letter
      · obtain ⟨s', hget, hsame⟩ := userFontGetGlyphDsc_byte font s h
        exact ⟨s', by rw [Lookup.run, hget]; rfl, hkeep hsame⟩
      · obtain ⟨s', -, hget, hsame⟩ := lookup_absent font s h
        exact ⟨s', by rw [Lookup.run, hget]; rfl, hkeep hsame⟩

theorem initial_byte (i : Nat) : FontState.initial.byte i = 0 := by
  unfold FontState.byte FontState.initial
  rw [List.getD_eq_getElem?_getD, Buf.zero_data, List.getElem?_replicate]
  split <;> rfl

/-- **All lookups: behind the descriptor stand bytes of bitmaps, or zeros.** -/
theorem lookups_left {file : Bytes} (font : XbfFont file) (history : List Lookup) :
    ∃ s, lookups (some file) history = .ok s ∧ ∀ i, 6 ≤ i → Left file i (s.byte i) := by
  have hrun : ∀ s : FontState, (∀ i, 6 ≤ i → Left file i (s.byte i)) →
      ∃ s', history.foldlM (Lookup.run (some file)) s = .ok s' ∧
        ∀ i, 6 ≤ i → Left file i (s'.byte i) := by
    induction history with
    | nil => exact fun s hs => ⟨s, rfl, hs⟩
    | cons call rest ih =>
        intro s hs
        obtain ⟨mid, hcall, hmid⟩ := call.run_left font hs
        obtain ⟨s', hrest, hs'⟩ := ih mid hmid
        refine ⟨s', ?_, hs'⟩
        rw [List.foldlM_cons, hcall]
        exact hrest
  exact hrun .initial fun i _ => .inl (initial_byte i)

/-- Every byte that can stand there does, after some lookups. -/
theorem left_reached {file : Bytes} (font : XbfFont file) {i : Nat} {b : UInt8}
    (hb : Left file i b) : ∃ history s, lookups (some file) history = .ok s ∧ s.byte i = b := by
  rcases hb with rfl | ⟨letter, h, hin, rfl⟩
  · exact ⟨[], .initial, rfl, initial_byte i⟩
  · obtain ⟨s', hget, hbyte⟩ := userFontGetBitmap_byte font .initial h
    refine ⟨[.bitmap letter], s', ?_, ?_⟩
    · rw [lookups, List.foldlM_cons, Lookup.run, hget]
      rfl
    · rw [hbyte, if_pos hin]

/-! ### A letter as the file has it -/

/-- The bits stored after the descriptor. -/
def storedBits (file : Bytes) (letter : Nat) : List Nat :=
  (List.range (glyphBits file letter)).map fun j => (bit (glyphByte file letter) j).toNat

/-- A letter drawn after some lookups. -/
def drawnAfter (file : Bytes) (history : List Lookup) (letter : Nat) :
    Except Fault (Option (List (List Nat))) := do
  let s ← lookups (some file) history
  lvDrawSwLetter (some file) s letter

/-- The letter is drawn alike after any two histories, and as the file has it. -/
def GlyphKept (file : Bytes) (letter : Nat) : Prop :=
  ∀ history₁ history₂, ∃ px₁ px₂,
    drawnAfter file history₁ letter = .ok (some px₁) ∧
    drawnAfter file history₂ letter = .ok (some px₂) ∧
    px₁.flatten = px₂.flatten ∧ px₂.flatten = storedBits file letter

/-- The two bytes start with the same `r` bits. -/
def SameStart (r : Nat) (a b : UInt8) : Prop := ∀ k < r, ofByte a k = ofByte b k

instance (r : Nat) (a b : UInt8) : Decidable (SameStart r a b) :=
  inferInstanceAs (Decidable (∀ k < r, _))

/-- What stands for the last byte of the bitmap starts with the bits of that byte. -/
def LastByteKept (file : Bytes) (letter : Nat) : Prop :=
  let n := glyphBits file letter / 8
  let r := glyphBits file letter % 8
  if n < 6 then SameStart r (fontByte file (tablePos file letter + n)) (glyphByte file letter n)
  else SameStart r 0 (glyphByte file letter n) ∧
    ∀ other, HasGlyph file other → n < glyphBits file other / 8 →
      SameStart r (glyphByte file other n) (glyphByte file letter n)

/-- What stands for the last byte of the bitmap. -/
def lastByte (file : Bytes) (s : FontState) (letter : Nat) : UInt8 :=
  let n := glyphBits file letter / 8
  if n < 6 then fontByte file (tablePos file letter + n) else s.byte n

/-- The bits of the whole bytes are those of the file. -/
theorem bits_eq_iff {m m' : Nat → UInt8} {bits : Nat} (hwhole : ∀ i < bits / 8, m i = m' i) :
    ((List.range bits).map (fun j => (bit m j).toNat)
        = (List.range bits).map fun j => (bit m' j).toNat)
      ↔ SameStart (bits % 8) (m (bits / 8)) (m' (bits / 8)) := by
  have htoNat : ∀ a b : Bool, a.toNat = b.toNat → a = b := by decide
  rw [List.map_inj_left]
  constructor
  · intro h k hk
    have hmem : 8 * (bits / 8) + k ∈ List.range bits := List.mem_range.mpr (by omega)
    have hbit := htoNat _ _ (h _ hmem)
    rwa [bit_at m _ (by omega), bit_at m' _ (by omega)] at hbit
  · intro h j hj
    have hlt := List.mem_range.mp hj
    unfold bit
    by_cases hin : j / 8 < bits / 8
    · rw [hwhole _ hin]
    · have hlast : j / 8 = bits / 8 := by omega
      rw [hlast, h (j % 8) (by omega)]

/-- **A drawing shows the bits of the file, and in place of the last ones those of
`lastByte`.** -/
theorem lvDrawSwLetter_flatten {file : Bytes} (font : XbfFont file) (s : FontState) {letter : Nat}
    (h : HasGlyph file letter) :
    ∃ px, lvDrawSwLetter (some file) s letter = .ok (some px) ∧
      (px.flatten = storedBits file letter ↔
        SameStart (glyphBits file letter % 8) (lastByte file s letter)
          (glyphByte file letter (glyphBits file letter / 8))) := by
  obtain ⟨s₁, hdsc, hsame⟩ := userFontGetGlyphDsc_byte font s h
  obtain ⟨s₂, hmap, hbyte⟩ := userFontGetBitmap_byte font s₁ h
  by_cases hempty : (fileDsc file letter).boxH = 0 ∨ (fileDsc file letter).boxW = 0
  · have hbits : glyphBits file letter = 0 := by
      unfold glyphBits
      rcases hempty with h0 | h0 <;> simp [h0]
    refine ⟨[], by simp [lvDrawSwLetter, bind, Except.bind, hdsc, hempty], ?_⟩
    simp [storedBits, hbits, SameStart]
  · refine ⟨_, by simp [lvDrawSwLetter, bind, Except.bind, hdsc, hempty, hmap]; rfl, ?_⟩
    have hlast : s₂.byte (glyphBits file letter / 8) = lastByte file s letter := by
      rw [hbyte, if_neg (Nat.lt_irrefl _), lastByte]
      split_ifs
      · rfl
      · exact hsame _ (by omega)
    have hwhole : ∀ i < glyphBits file letter / 8, s₂.byte i = glyphByte file letter i := by
      intro i hi
      rw [hbyte, if_pos hi]
    rw [drawLetterNormal_flatten rfl, storedBits, ← hlast]
    exact bits_eq_iff hwhole

theorem drawnAfter_eq {file : Bytes} {history : List Lookup} {s : FontState}
    (h : lookups (some file) history = .ok s) (letter : Nat) :
    drawnAfter file history letter = lvDrawSwLetter (some file) s letter := by
  simp only [drawnAfter, bind, Except.bind, h]

/-- It is the last byte that decides, after every history. -/
theorem glyphKept_iff_lastByte {file : Bytes} (font : XbfFont file) {letter : Nat}
    (h : HasGlyph file letter) :
    GlyphKept file letter ↔ ∀ history s, lookups (some file) history = .ok s →
      SameStart (glyphBits file letter % 8) (lastByte file s letter)
        (glyphByte file letter (glyphBits file letter / 8)) := by
  constructor
  · intro hkept history s hs
    obtain ⟨px, hdraw, hiff⟩ := lvDrawSwLetter_flatten font s h
    obtain ⟨px₁, px₂, hdraw₁, -, heq, hstored⟩ := hkept history history
    rw [drawnAfter_eq hs, hdraw] at hdraw₁
    cases hdraw₁
    exact hiff.mp (heq.trans hstored)
  · intro hlast history₁ history₂
    obtain ⟨s₁, hs₁, -⟩ := lookups_left font history₁
    obtain ⟨s₂, hs₂, -⟩ := lookups_left font history₂
    obtain ⟨px₁, hdraw₁, hiff₁⟩ := lvDrawSwLetter_flatten font s₁ h
    obtain ⟨px₂, hdraw₂, hiff₂⟩ := lvDrawSwLetter_flatten font s₂ h
    have hpx₁ := hiff₁.mpr (hlast history₁ s₁ hs₁)
    have hpx₂ := hiff₂.mpr (hlast history₂ s₂ hs₂)
    refine ⟨px₁, px₂, ?_, ?_, hpx₁.trans hpx₂.symm, hpx₂⟩
    · rw [drawnAfter_eq hs₁, hdraw₁]
    · rw [drawnAfter_eq hs₂, hdraw₂]

/-- **A letter is drawn as the file has it, after any lookups, just when its last byte is kept
by chance.** -/
theorem glyphKept_iff {file : Bytes} (font : XbfFont file) {letter : Nat}
    (h : HasGlyph file letter) : GlyphKept file letter ↔ LastByteKept file letter := by
  rw [glyphKept_iff_lastByte font h, LastByteKept]
  by_cases hn : glyphBits file letter / 8 < 6
  · simp only [lastByte, hn, if_true]
    constructor
    · intro hlast
      exact hlast [] .initial rfl
    · intro hsame _ _ _
      exact hsame
  · simp only [lastByte, hn, if_false]
    have hreach : ∀ {b : UInt8}, Left file (glyphBits file letter / 8) b →
        ∃ history s, lookups (some file) history = .ok s ∧ s.byte (glyphBits file letter / 8) = b :=
      left_reached font
    constructor
    · intro hlast
      have hleft : ∀ b, Left file (glyphBits file letter / 8) b →
          SameStart (glyphBits file letter % 8) b
            (glyphByte file letter (glyphBits file letter / 8)) := by
        intro b hb
        obtain ⟨history, s, hs, rfl⟩ := hreach hb
        exact hlast history s hs
      exact ⟨hleft 0 (.inl rfl), fun other hother hin => hleft _ (.inr ⟨other, hother, hin, rfl⟩)⟩
    · rintro ⟨hzero, hothers⟩ history s hs
      obtain ⟨s', hs', hleft⟩ := lookups_left font history
      cases hs.symm.trans hs'
      rcases hleft (glyphBits file letter / 8) (by omega) with hb | ⟨other, hother, hin, hb⟩
      · rw [hb]
        exact hzero
      · rw [hb]
        exact hothers other hother hin

/-! ### Two glyphs

The first one is blank and has 7 by 7 pixels, the second one is full and has 8 by 7. -/

/-- A file with a gap of zeros in it. -/
def gapped (front : Bytes) (gap : Nat) (back : Bytes) : Bytes :=
  front ++ (List.replicate gap 0 ++ back)

theorem gapped_length (front : Bytes) (gap : Nat) (back : Bytes) :
    (gapped front gap back).length = front.length + gap + back.length := by
  simp only [gapped, List.length_append, List.length_replicate]
  omega

theorem gapped_front (front : Bytes) {i : Nat} (h : i < front.length) (gap : Nat) (back : Bytes) :
    fontByte (gapped front gap back) i = front.getD i 0 := by
  rw [fontByte, gapped, List.getD_eq_getElem?_getD, List.getElem?_append_left h,
    List.getD_eq_getElem?_getD]

theorem gapped_gap (front : Bytes) {gap i : Nat} (hlo : front.length ≤ i)
    (hhi : i < front.length + gap) (back : Bytes) : fontByte (gapped front gap back) i = 0 := by
  rw [fontByte, gapped, List.getD_eq_getElem?_getD, List.getElem?_append_right hlo,
    List.getElem?_append_left (by rw [List.length_replicate]; omega), List.getElem?_replicate]
  split <;> rfl

theorem gapped_back (front : Bytes) (gap : Nat) (back : Bytes) (i : Nat) :
    fontByte (gapped front gap back) (front.length + gap + i) = back.getD i 0 := by
  rw [fontByte, gapped, List.getD_eq_getElem?_getD, List.getElem?_append_right (by omega),
    List.getElem?_append_right (by rw [List.length_replicate]; omega), List.length_replicate,
    List.getD_eq_getElem?_getD]
  congr 2
  omega

def twoGlyphsFront : Bytes :=
  [0x0a, 0x00, 0xa0, 0x9f, 1, 0, 0, 0, 0x64, 0x7e, 2, 0, 0x71, 0x7e, 2, 0]

def twoGlyphsBack : Bytes :=
  [8, 7, 7, 0, 0, 0, 0, 0, 0, 0, 0, 0, 0,
   8, 8, 7, 0, 0, 0, 0xff, 0xff, 0xff, 0xff, 0xff, 0xff, 0xff]

def twoGlyphs : Bytes := gapped twoGlyphsFront 163412 twoGlyphsBack

theorem twoGlyphsFront_length : twoGlyphsFront.length = 16 := rfl

theorem twoGlyphs_length : twoGlyphs.length = 163454 := by
  have hback : twoGlyphsBack.length = 26 := rfl
  rw [twoGlyphs, gapped_length, twoGlyphsFront_length, hback]

theorem twoGlyphs_front {i : Nat} (h : i < 16) : fontByte twoGlyphs i = twoGlyphsFront.getD i 0 :=
  gapped_front twoGlyphsFront h 163412 twoGlyphsBack

/-- The table is empty but for the first two letters. -/
theorem twoGlyphs_table {i : Nat} (hlo : 16 ≤ i) (hhi : i < 163428) : fontByte twoGlyphs i = 0 := by
  refine gapped_gap twoGlyphsFront hlo ?_ twoGlyphsBack
  rw [twoGlyphsFront_length]
  omega

theorem twoGlyphs_glyphs {i : Nat} (h : 163428 ≤ i) :
    fontByte twoGlyphs i = twoGlyphsBack.getD (i - 163428) 0 := by
  have hback := gapped_back twoGlyphsFront 163412 twoGlyphsBack (i - 163428)
  have hplace : twoGlyphsFront.length + 163412 + (i - 163428) = i := by
    rw [twoGlyphsFront_length]
    omega
  rw [hplace] at hback
  rw [twoGlyphs]
  exact hback

theorem twoGlyphs_pos_first : tablePos twoGlyphs 10 = 163428 := by
  have hoff : unicodeOffset 10 = 8 := by decide
  simp only [tablePos, hoff, twoGlyphs_front (i := 8) (by decide),
    twoGlyphs_front (i := 9) (by decide), twoGlyphs_front (i := 10) (by decide),
    twoGlyphs_front (i := 11) (by decide)]
  simp [twoGlyphsFront, littleEndian]

theorem twoGlyphs_pos_second : tablePos twoGlyphs 11 = 163441 := by
  have hoff : unicodeOffset 11 = 12 := by decide
  simp only [tablePos, hoff, twoGlyphs_front (i := 12) (by decide),
    twoGlyphs_front (i := 13) (by decide), twoGlyphs_front (i := 14) (by decide),
    twoGlyphs_front (i := 15) (by decide)]
  simp [twoGlyphsFront, littleEndian]

theorem twoGlyphs_letters {letter : Nat} (h : HasGlyph twoGlyphs letter) :
    letter = 10 ∨ letter = 11 := by
  have hmin := h.min
  have hmax := h.max
  unfold xbfMin at hmin
  unfold xbfMax at hmax
  by_contra hne
  refine h.entry ?_
  have hoff : unicodeOffset letter = 8 + (letter - 10) * 4 := rfl
  simp only [tablePos, hoff]
  rw [twoGlyphs_table (by omega) (by omega), twoGlyphs_table (by omega) (by omega),
    twoGlyphs_table (by omega) (by omega), twoGlyphs_table (by omega) (by omega)]
  decide

theorem twoGlyphs_bits_first : glyphBits twoGlyphs 10 = 49 := by
  rw [glyphBits_eq, twoGlyphs_pos_first, twoGlyphs_glyphs (by decide),
    twoGlyphs_glyphs (by decide)]
  decide

theorem twoGlyphs_bits_second : glyphBits twoGlyphs 11 = 56 := by
  rw [glyphBits_eq, twoGlyphs_pos_second, twoGlyphs_glyphs (by decide),
    twoGlyphs_glyphs (by decide)]
  decide

theorem twoGlyphs_has_first : HasGlyph twoGlyphs 10 :=
  ⟨by decide, by decide, by rw [twoGlyphs_pos_first]; decide⟩

theorem twoGlyphs_has_second : HasGlyph twoGlyphs 11 :=
  ⟨by decide, by decide, by rw [twoGlyphs_pos_second]; decide⟩

theorem twoGlyphs_xbf : XbfFont twoGlyphs where
  table := by
    rw [twoGlyphs_length]
    decide
  glyph h := by
    rw [twoGlyphs_length]
    rcases twoGlyphs_letters h with rfl | rfl
    · rw [twoGlyphs_pos_first, twoGlyphs_bits_first]
      decide
    · rw [twoGlyphs_pos_second, twoGlyphs_bits_second]
      decide
  fits h := by
    rcases twoGlyphs_letters h with rfl | rfl
    · rw [twoGlyphs_bits_first]
      decide
    · rw [twoGlyphs_bits_second]
      decide
  reach h := by
    rcases twoGlyphs_letters h with rfl | rfl
    · rw [twoGlyphs_pos_first]
      decide
    · rw [twoGlyphs_pos_second]
      decide

/-- The second glyph fills its bytes. -/
theorem glyphKept_second : GlyphKept twoGlyphs 11 := by
  refine (glyphKept_iff twoGlyphs_xbf twoGlyphs_has_second).mpr ?_
  simp [LastByteKept, twoGlyphs_bits_second, SameStart]

/-- The last pixel of the first glyph is drawn black after the second one. -/
theorem glyphKept_refuted :
    ¬ ∀ file letter, XbfFont file → HasGlyph file letter → GlyphKept file letter := by
  intro hclaim
  have hkept := hclaim twoGlyphs 10 twoGlyphs_xbf twoGlyphs_has_first
  have hleft : Left twoGlyphs 6 (glyphByte twoGlyphs 11 6) :=
    .inr ⟨11, twoGlyphs_has_second, by rw [twoGlyphs_bits_second]; decide, rfl⟩
  obtain ⟨history, s, hs, hbyte⟩ := left_reached twoGlyphs_xbf hleft
  have hsame := (glyphKept_iff_lastByte twoGlyphs_xbf twoGlyphs_has_first).mp hkept history s hs
  have hfull : glyphByte twoGlyphs 11 6 = 0xff := by
    rw [glyphByte, twoGlyphs_pos_second, twoGlyphs_glyphs (by decide)]
    decide
  have hblank : glyphByte twoGlyphs 10 6 = 0 := by
    rw [glyphByte, twoGlyphs_pos_first, twoGlyphs_glyphs (by decide)]
    decide
  simp only [lastByte, twoGlyphs_bits_first] at hsame
  have hlt : ¬ (49 / 8 < 6) := by decide
  rw [if_neg hlt, show 49 / 8 = 6 from rfl, hbyte, hfull, hblank] at hsame
  have hdiff : ¬ SameStart (49 % 8) 0xff 0 := by decide
  exact hdiff hsame

end EleDs
