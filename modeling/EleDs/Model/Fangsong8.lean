/-
The font `fangsong_8` (`applications/lvgl/fangsong_8.c`) and the drawing of its letters
(`packages/LVGL-v8.3.11/src/draw/sw/lv_draw_sw_letter.c`).

The glyphs stay in a file: a header, a table of positions, and at each position a
descriptor with the bitmap after it.  Every read of the file goes into one static buffer
of 30 bytes, and what a lookup returns is a pointer to that buffer.  So the buffer of one
lookup is where the next one starts, and a drawing takes its bits from what the last read
has left in it.
-/
import EleDs.Lib.Words
import EleDs.Model.Paint

namespace EleDs

open CMem

/-! ### The font -/

/-- `__g_xbf_hd`. -/
def xbfMin : Nat := 0x000a
def xbfMax : Nat := 0x9fa0
def xbfBpp : Nat := 1

/-- `sizeof(x_header_t)`. -/
def xHeaderSize : Nat := 8

/-- `sizeof(glyph_dsc_t)`. -/
def glyphDscSize : Nat := 6

/-- The statics of the file: where the descriptor `fd` stands, and `__g_font_buf`. -/
structure FontState where
  offset : Nat
  buf : Buf 30

namespace FontState

/-- The statics before the first lookup. -/
def initial : FontState := { offset := 0, buf := Buf.zero 30 }

/-- `__g_font_buf[i]`. -/
def byte (s : FontState) (i : Nat) : UInt8 := s.buf.data.getD i 0

/-- `p_pos[0]`. -/
def pos (s : FontState) : Nat := littleEndian [s.byte 0, s.byte 1, s.byte 2, s.byte 3]

end FontState

/-- `__user_font_getdata`.  Both callers read through the pointer it returns, null or not.
An offset from `2^31` on is negative, and `lseek` then leaves the file where it is. -/
def userFontGetdata (font : Option Bytes) (s : FontState) (offset size : Nat) :
    Except Fault FontState :=
  match font with
  | none => .error .nullDeref
  | some file => do
      let start := if offset < 2147483648 then offset else s.offset
      let data := (file.drop start).take size
      let buf ← s.buf.memcpy 0 data
      .ok { offset := start + data.length, buf := buf }

/-- `unicode_offset`. -/
def unicodeOffset (letter : Nat) : Nat := xHeaderSize + (letter - xbfMin) * 4

/-- `__user_font_get_bitmap`, and whether it returns the buffer. -/
def userFontGetBitmap (font : Option Bytes) (s : FontState) (letter : Nat) :
    Except Fault (Bool × FontState) :=
  if letter > xbfMax ∨ letter < xbfMin then .ok (false, s)
  else do
    let s ← userFontGetdata font s (unicodeOffset letter) 4
    if s.pos ≠ 0 then
      let pos := s.pos
      let s ← userFontGetdata font s pos glyphDscSize
      let boxW := (s.byte 1).toNat
      let boxH := (s.byte 2).toNat
      let s ← userFontGetdata font s ((pos + glyphDscSize) % 4294967296) (boxW * boxH * xbfBpp / 8)
      .ok (true, s)
    else .ok (false, s)

/-- `lv_font_glyph_dsc_t`. -/
structure LvFontGlyphDsc where
  advW : Nat
  boxW : Nat
  boxH : Nat
  ofsX : Int
  ofsY : Int
  bpp : Nat
deriving DecidableEq

/-- `__user_font_get_glyph_dsc`. -/
def userFontGetGlyphDsc (font : Option Bytes) (s : FontState) (letter : Nat) :
    Except Fault (Option LvFontGlyphDsc × FontState) :=
  if letter > xbfMax ∨ letter < xbfMin then .ok (none, s)
  else do
    let s ← userFontGetdata font s (unicodeOffset letter) 4
    if s.pos ≠ 0 then
      let s ← userFontGetdata font s s.pos glyphDscSize
      let dsc : LvFontGlyphDsc :=
        { advW := (s.byte 0).toNat
          boxW := (s.byte 1).toNat
          boxH := (s.byte 2).toNat
          ofsX := (s.byte 3).toInt8.toInt
          ofsY := (s.byte 4).toInt8.toInt
          bpp := xbfBpp }
      .ok (some dsc, s)
    else .ok (none, s)

/-! ### Earlier lookups -/

/-- A call of one of the two functions of the font. -/
inductive Lookup where
  | bitmap (letter : Nat)
  | glyphDsc (letter : Nat)
deriving DecidableEq, Repr

def Lookup.run (font : Option Bytes) (s : FontState) : Lookup → Except Fault FontState
  | .bitmap letter => Prod.snd <$> userFontGetBitmap font s letter
  | .glyphDsc letter => Prod.snd <$> userFontGetGlyphDsc font s letter

/-- The statics after some lookups. -/
def lookups (font : Option Bytes) (history : List Lookup) : Except Fault FontState :=
  history.foldlM (Lookup.run font) .initial

/-! ### Drawing -/

/-- Where the drawing is in the bitmap. -/
structure LetterCursor where
  mapP : Nat
  colBit : Nat
  bitmask : Nat

/-- The part of a letter's box that is drawn. -/
structure LetterClip where
  rowStart : Nat
  rowEnd : Nat
  colStart : Nat
  colEnd : Nat

section Draw

variable (map : Memory) (bpp bitmaskInit : Nat)

/-- `letter_px`. -/
def letterPx (c : LetterCursor) : Nat :=
  ((map c.mapP).toNat &&& c.bitmask) >>> (8 - bpp - c.colBit)

/-- "Go to the next column." -/
def nextColumn (c : LetterCursor) : LetterCursor :=
  if c.colBit < 8 - bpp then
    { c with colBit := c.colBit + bpp, bitmask := c.bitmask >>> bpp }
  else { mapP := c.mapP + 1, colBit := 0, bitmask := bitmaskInit }

/-- The pixels of `n` columns, and the cursor after them. -/
def drawColumns : Nat → LetterCursor → List Nat × LetterCursor
  | 0, c => ([], c)
  | n + 1, c =>
      let (px, last) := drawColumns n (nextColumn bpp bitmaskInit c)
      (letterPx map bpp c :: px, last)

/-- The pixels of `n` rows, from the bit `colBit` of the byte `mapP` on. -/
def drawRows (boxW : Nat) (clip : LetterClip) : Nat → Nat → Nat → List (List Nat)
  | 0, _, _ => []
  | n + 1, mapP, colBit =>
      let c := { mapP := mapP, colBit := colBit, bitmask := bitmaskInit >>> colBit }
      let (px, c) := drawColumns map bpp bitmaskInit (clip.colEnd - clip.colStart) c
      let colBit := c.colBit + (boxW + clip.colStart - clip.colEnd) * bpp
      px :: drawRows boxW clip n (c.mapP + colBit >>> 3) (colBit &&& 0x7)

end Draw

/-- `bitmask_init`. -/
def bitmaskInit : Nat → Option Nat
  | 1 => some 0x80
  | 2 => some 0xC0
  | 4 => some 0xF0
  | 8 => some 0xFF
  | _ => none

/-- `draw_letter_normal`, up to the opacities: the pixels of each row that is drawn. -/
def drawLetterNormal (g : LvFontGlyphDsc) (map : Memory) (clip : LetterClip) : List (List Nat) :=
  let bpp := if g.bpp = 3 then 4 else g.bpp
  match bitmaskInit bpp with
  | none => []
  | some init =>
      let bitOfs := clip.rowStart * (g.boxW * bpp) + clip.colStart * bpp
      drawRows map bpp init g.boxW clip (clip.rowEnd - clip.rowStart) (bitOfs >>> 3) (bitOfs &&& 0x7)

/-- `lv_draw_sw_letter`, of a letter that lies in the clip area as a whole. -/
def lvDrawSwLetter (font : Option Bytes) (s : FontState) (letter : Nat) :
    Except Fault (Option (List (List Nat))) := do
  let (g, s) ← userFontGetGlyphDsc font s letter
  match g with
  | none => .ok none
  | some g =>
      if g.boxH = 0 ∨ g.boxW = 0 then .ok (some [])
      else
        let (found, s) ← userFontGetBitmap font s letter
        if found then
          let clip := { rowStart := 0, rowEnd := g.boxH, colStart := 0, colEnd := g.boxW }
          .ok (some (drawLetterNormal g s.byte clip))
        else .ok none

end EleDs
