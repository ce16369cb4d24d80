/-
Points, lines, circles and text (`components/epaper/gui/GUI_Paint.c`).

Everything is drawn with `Paint_SetPixel`.  Loops that count up are folds over a range;
the others take the number of turns they may take, and a loop that would go on is
`Fault.diverged`.  Coordinates are `UWORD`s, and the sums of them that are passed on are
cut to sixteen bits there.  The compiler's enumerations are bytes and its `char` is
unsigned, so differences of coordinates are computed as `int`s.
-/
import EleDs.Lib.Bytes
import EleDs.Model.Paint

namespace EleDs

open CMem

/-- `for (i = start; i < stop; i++)`. -/
def forUp {σ : Type} (start stop : Nat) (body : Nat → σ → σ) (s : σ) : σ :=
  (List.range' start (stop - start)).foldl (fun s i => body i s) s

/-! ### The attributes of the picture -/

/-- `Paint_SetRotate`. -/
def paintSetRotate (p : Paint) (rotate : Nat) : Paint :=
  if rotate = 0 ∨ rotate = 90 ∨ rotate = 180 ∨ rotate = 270 then { p with rotate := rotate } else p

/-- `Paint_SetScale`. -/
def paintSetScale (p : Paint) (scale : Nat) : Paint :=
  let bytes (perByte : Nat) : Nat :=
    if p.widthMemory % perByte = 0 then p.widthMemory / perByte else p.widthMemory / perByte + 1
  if scale = 2 then { p with scale := scale, widthByte := bytes 8 }
  else if scale = 4 then { p with scale := scale, widthByte := bytes 4 }
  else if scale = 7 then { p with scale := scale, widthByte := bytes 2 }
  else p

/-- `Paint_SetMirroring`. -/
def paintSetMirroring (p : Paint) (mirror : MirrorImage) : Paint := { p with mirror := mirror }

/-- `Paint_ClearWindows`. -/
def paintClearWindows (p : Paint) (xstart ystart xend yend color : Nat) : Paint :=
  forUp ystart yend (fun y => forUp xstart xend fun x p => paintSetPixel p x y color) p

/-! ### Points -/

def IMAGE_BACKGROUND : Nat := WHITE
def FONT_BACKGROUND : Nat := WHITE

/-- `DOT_PIXEL`. -/
inductive DotPixel where
  | px1
  | px2
  | px3
  | px4
  | px5
  | px6
  | px7
  | px8
deriving DecidableEq

/-- The number behind it. -/
def DotPixel.size : DotPixel → Nat
  | px1 => 1
  | px2 => 2
  | px3 => 3
  | px4 => 4
  | px5 => 5
  | px6 => 6
  | px7 => 7
  | px8 => 8

/-- `DOT_STYLE`. -/
inductive DotStyle where
  | fillAround
  | fillRightup
deriving DecidableEq

/-- `LINE_STYLE`. -/
inductive LineStyle where
  | solid
  | dotted
deriving DecidableEq

/-- `DRAW_FILL`. -/
inductive DrawFill where
  | empty
  | full
deriving DecidableEq

/-- The inner loop of `Paint_DrawPoint`, with `left` turns to go: one column of a point that
is filled around.  It is left at the first negative coordinate. -/
def fillColumn (xpoint ypoint color dot xDir : Nat) : Nat → Nat → Paint → Paint
  | _, 0, p => p
  | yDir, left + 1, p =>
      if (xpoint : Int) + xDir - dot < 0 ∨ (ypoint : Int) + yDir - dot < 0 then p
      else fillColumn xpoint ypoint color dot xDir (yDir + 1) left
        (paintSetPixel p (uword ((xpoint : Int) + xDir - dot)) (uword ((ypoint : Int) + yDir - dot))
          color)

/-- `Paint_DrawPoint`. -/
def paintDrawPoint (p : Paint) (xpoint ypoint color : Nat) (dotPixel : DotPixel)
    (dotStyle : DotStyle) : Paint :=
  if xpoint > p.width ∨ ypoint > p.height then p
  else
    let dot := dotPixel.size
    match dotStyle with
    | .fillAround => forUp 0 (2 * dot - 1)
        (fun xDir => fillColumn xpoint ypoint color dot xDir 0 (2 * dot - 1)) p
    | .fillRightup => forUp 0 dot (fun xDir => forUp 0 dot fun yDir p =>
        paintSetPixel p (uword ((xpoint : Int) + xDir - 1)) (uword ((ypoint : Int) + yDir - 1)) color) p

/-! ### Lines -/

/-- What `Paint_DrawLine` works out before its loop. -/
structure LineSetup where
  xend : Nat
  yend : Nat
  dx : Int
  dy : Int
  xAddway : Int
  yAddway : Int

/-- The variables of the loop. -/
@[ext]
structure LineState where
  xpoint : Nat
  ypoint : Nat
  esp : Int

def lineSetup (xstart ystart xend yend : Nat) : LineSetup where
  xend := xend
  yend := yend
  dx := if (xend : Int) - xstart ≥ 0 then (xend : Int) - xstart else (xstart : Int) - xend
  dy := if (yend : Int) - ystart ≤ 0 then (yend : Int) - ystart else (ystart : Int) - yend
  xAddway := if xstart < xend then 1 else -1
  yAddway := if ystart < yend then 1 else -1

/-- `if (2 * Esp >= dy)`; `none` is the `break`. -/
def lineStepX (l : LineSetup) (s : LineState) : Option LineState :=
  if 2 * s.esp ≥ l.dy then
    if s.xpoint = l.xend then none
    else some { s with esp := s.esp + l.dy, xpoint := uword (s.xpoint + l.xAddway) }
  else some s

/-- `if (2 * Esp <= dx)`. -/
def lineStepY (l : LineSetup) (s : LineState) : Option LineState :=
  if 2 * s.esp ≤ l.dx then
    if s.ypoint = l.yend then none
    else some { s with esp := s.esp + l.dx, ypoint := uword (s.ypoint + l.yAddway) }
  else some s

/-- The two of them. -/
def lineStep (l : LineSetup) (s : LineState) : Option LineState :=
  (lineStepX l s).bind (lineStepY l)

/-- The loop of `Paint_DrawLine`. -/
def lineLoop (l : LineSetup) (color : Nat) (lineWidth : DotPixel) (lineStyle : LineStyle) :
    Nat → LineState → Nat → Paint → Except Fault Paint
  | 0, _, _, _ => .error .diverged
  | turns + 1, s, dottedLen, p =>
      let dottedLen := (dottedLen + 1) % 256
      let gap := lineStyle = .dotted ∧ dottedLen % 3 = 0
      let p := paintDrawPoint p s.xpoint s.ypoint (if gap then IMAGE_BACKGROUND else color)
        lineWidth .fillAround
      match lineStep l s with
      | none => .ok p
      | some s => lineLoop l color lineWidth lineStyle turns s (if gap then 0 else dottedLen) p

/-- `Paint_DrawLine`.  The loop has no bound of its own; each turn goes on in one direction
at least. -/
def paintDrawLine (p : Paint) (xstart ystart xend yend color : Nat) (lineWidth : DotPixel)
    (lineStyle : LineStyle) : Except Fault Paint :=
  if xstart > p.width ∨ ystart > p.height ∨ xend > p.width ∨ yend > p.height then .ok p
  else
    let l := lineSetup xstart ystart xend yend
    lineLoop l color lineWidth lineStyle (l.dx.natAbs + l.dy.natAbs + 1)
      ⟨xstart, ystart, l.dx + l.dy⟩ 0 p

/-- The loop of a filled rectangle, with `left` rows to go. -/
def rectangleRows (xstart xend color : Nat) (lineWidth : DotPixel) :
    Nat → Nat → Paint → Except Fault Paint
  | _, 0, p => .ok p
  | ypoint, left + 1, p => do
      let p ← paintDrawLine p xstart ypoint xend ypoint color lineWidth .solid
      rectangleRows xstart xend color lineWidth (ypoint + 1) left p

/-- `Paint_DrawRectangle`. -/
def paintDrawRectangle (p : Paint) (xstart ystart xend yend color : Nat) (lineWidth : DotPixel)
    (drawFill : DrawFill) : Except Fault Paint :=
  if xstart > p.width ∨ ystart > p.height ∨ xend > p.width ∨ yend > p.height then .ok p
  else
    match drawFill with
    | .full => rectangleRows xstart xend color lineWidth ystart (yend - ystart) p
    | .empty => do
        let p ← paintDrawLine p xstart ystart xend ystart color lineWidth .solid
        let p ← paintDrawLine p xstart ystart xstart yend color lineWidth .solid
        let p ← paintDrawLine p xend yend xend ystart color lineWidth .solid
        paintDrawLine p xend yend xstart yend color lineWidth .solid

/-! ### Circles -/

/-- What is left of an `int` in an `int16_t`. -/
def int16 (z : Int) : Int := (z + 32768) % 65536 - 32768

/-- The variables of the loops of `Paint_DrawCircle`. -/
structure CircleState where
  xCurrent : Int
  yCurrent : Int
  esp : Int

def circleStart (radius : Nat) : CircleState := ⟨0, int16 radius, int16 (3 - 2 * radius)⟩

/-- The end of a turn. -/
def circleStep (s : CircleState) : CircleState :=
  if s.esp < 0 then
    { s with esp := int16 (s.esp + (4 * s.xCurrent + 6)), xCurrent := int16 (s.xCurrent + 1) }
  else
    { xCurrent := int16 (s.xCurrent + 1), yCurrent := int16 (s.yCurrent - 1)
      esp := int16 (s.esp + (10 + 4 * (s.xCurrent - s.yCurrent))) }

/-- The eight points for a pair of distances, in the order of the source. -/
def eightPoints (xCenter yCenter color : Nat) (dot : DotPixel) (a b : Int) (p : Paint) : Paint :=
  let point (x y : Int) (p : Paint) : Paint :=
    paintDrawPoint p (uword x) (uword y) color dot .fillAround
  let x : Int := xCenter
  let y : Int := yCenter
  point (x + b) (y + a) (point (x + b) (y - a) (point (x + a) (y - b) (point (x - a) (y - b)
    (point (x - b) (y - a) (point (x - b) (y + a) (point (x - a) (y + b) (point (x + a) (y + b) p)))))))

/-- The loop over `sCountY`.  It does not end at the largest `int16_t`. -/
def circleColumn (xCenter yCenter color : Nat) (s : CircleState) (p : Paint) : Except Fault Paint :=
  if s.yCurrent = 32767 then .error .diverged
  else .ok (forUp 0 (s.yCurrent - s.xCurrent + 1).toNat
    (fun k => eightPoints xCenter yCenter color .px1 s.xCurrent (s.xCurrent + k)) p)

/-- The two loops of `Paint_DrawCircle`. -/
def circleLoop (xCenter yCenter color : Nat) (lineWidth : DotPixel) (drawFill : DrawFill) :
    Nat → CircleState → Paint → Except Fault Paint
  | 0, _, _ => .error .diverged
  | turns + 1, s, p =>
      if s.xCurrent ≤ s.yCurrent then do
        let p ← match drawFill with
          | .full => circleColumn xCenter yCenter color s p
          | .empty => .ok (eightPoints xCenter yCenter color lineWidth s.xCurrent s.yCurrent p)
        circleLoop xCenter yCenter color lineWidth drawFill turns (circleStep s) p
      else .ok p

/-- `Paint_DrawCircle`. -/
def paintDrawCircle (p : Paint) (xCenter yCenter radius color : Nat) (lineWidth : DotPixel)
    (drawFill : DrawFill) : Except Fault Paint :=
  if xCenter > p.width ∨ yCenter ≥ p.height then .ok p
  else circleLoop xCenter yCenter color lineWidth drawFill (radius + 2) (circleStart radius) p

/-! ### Text -/

/-- `sFONT`.  The table is the memory from the pointer on. -/
structure SFont where
  table : Memory
  width : Nat
  height : Nat

/-- `*ptr & (0x80 >> (column % 8))`.  Pointers have 32 bits. -/
def fontBit (table : Memory) (ptr column : Nat) : Bool :=
  table (ptr % 4294967296) &&& (0x80 : UInt8) >>> UInt8.ofNat (column % 8) ≠ 0

/-- One pixel of a character: the background is drawn unless it is white. -/
def charPixel (p : Paint) (bit : Bool) (x y foreground background : Nat) : Paint :=
  if bit then paintSetPixel p x y foreground
  else if FONT_BACKGROUND = background then p
  else paintSetPixel p x y background

/-- The loop over the columns of a row, with the pointer. -/
def charRow (table : Memory) (width : Nat) (x y : Int) (foreground background page : Nat)
    (s : Paint × Nat) : Paint × Nat :=
  let s := forUp 0 width (fun column s =>
    (charPixel s.1 (fontBit table s.2 column) (uword (x + column)) (uword (y + page)) foreground
      background,
     if column % 8 = 7 then s.2 + 1 else s.2)) s
  if width % 8 ≠ 0 then (s.1, s.2 + 1) else s

/-- The loops over the pixels of a character, from the byte at `ptr` on. -/
def drawGlyph (table : Memory) (ptr width height : Nat) (x y : Int) (foreground background : Nat)
    (p : Paint) : Paint :=
  (forUp 0 height (charRow table width x y foreground background) (p, ptr)).1

/-- `Char_Offset`, a `uint32_t`. -/
def charOffset (asciiChar : UInt8) (font : SFont) : Nat :=
  (((asciiChar.toNat : Int) - 32) * font.height *
    (font.width / 8 + (if font.width % 8 ≠ 0 then 1 else 0) : Nat) % 4294967296).toNat

/-- `Paint_DrawChar`. -/
def paintDrawChar (p : Paint) (xpoint ypoint : Nat) (asciiChar : UInt8) (font : SFont)
    (colorForeground colorBackground : Nat) : Paint :=
  if xpoint > p.width ∨ ypoint > p.height then p
  else drawGlyph font.table (charOffset asciiChar font) font.width font.height xpoint ypoint
    colorForeground colorBackground p

/-- Where the next character goes: a new line where the row is full, and the first line
again where there is no other. -/
def stringPlace (p : Paint) (xstart ystart : Nat) (font : SFont) (at_ : Nat × Nat) : Nat × Nat :=
  let at_ := if at_.1 + font.width > p.width then (xstart, uword (at_.2 + font.height)) else at_
  if at_.2 + font.height > p.height then (xstart, ystart) else at_

/-- The loop of `Paint_DrawString_EN` over the characters.  The colours change places. -/
def stringLoop (xstart ystart : Nat) (font : SFont) (colorForeground colorBackground : Nat) :
    Bytes → Nat × Nat → Paint → Paint
  | [], _, p => p
  | c :: rest, at_, p =>
      let at_ := stringPlace p xstart ystart font at_
      stringLoop xstart ystart font colorForeground colorBackground rest
        (uword (at_.1 + font.width), at_.2)
        (paintDrawChar p at_.1 at_.2 c font colorBackground colorForeground)

/-- `Paint_DrawString_EN`. -/
def paintDrawStringEN (p : Paint) (xstart ystart : Nat) (pString : Bytes) (font : SFont)
    (colorForeground colorBackground : Nat) : Paint :=
  if xstart > p.width ∨ ystart > p.height then p
  else stringLoop xstart ystart font colorForeground colorBackground (cstr pString)
    (xstart, ystart) p

def ARRAY_LEN : Nat := 255

/-- The loop that takes a number apart, with so many bytes of `Num_Array` left. -/
def numDigits : Nat → Int → Except Fault Bytes
  | 0, _ => .error .writeOverrun
  | left + 1, n => do
      let digit := UInt8.ofInt (n.tmod 10 + 48)
      if n.tdiv 10 = 0 then .ok [digit]
      else do
        let rest ← numDigits left (n.tdiv 10)
        .ok (digit :: rest)

/-- `Paint_DrawNum`.  The colours change places here too. -/
def paintDrawNum (p : Paint) (xpoint ypoint : Nat) (nummber : Int) (font : SFont)
    (colorForeground colorBackground : Nat) : Except Fault Paint :=
  if xpoint > p.width ∨ ypoint > p.height then .ok p
  else do
    let digits ← numDigits ARRAY_LEN nummber
    .ok (paintDrawStringEN p xpoint ypoint digits.reverse font colorBackground colorForeground)

/-- `PAINT_TIME`, without the date. -/
structure PaintTime where
  hour : UInt8
  min : UInt8
  sec : UInt8

/-- `value[i]`. -/
def digitValue (i : Nat) : Except Fault UInt8 :=
  if i < 10 then .ok (UInt8.ofNat (48 + i)) else .error .readOverrun

/-- `Paint_DrawTime`. -/
def paintDrawTime (p : Paint) (xstart ystart : Nat) (pTime : PaintTime) (font : SFont)
    (colorForeground colorBackground : Nat) : Except Fault Paint := do
  let dx := font.width
  let char (p : Paint) (x : Nat) (c : UInt8) : Paint :=
    paintDrawChar p (uword x) ystart c font colorBackground colorForeground
  let p := char p xstart (← digitValue (pTime.hour.toNat / 10))
  let p := char p (xstart + dx) (← digitValue (pTime.hour.toNat % 10))
  let p := char p (xstart + dx + dx / 4 + dx / 2) 58
  let p := char p (xstart + dx * 2 + dx / 2) (← digitValue (pTime.min.toNat / 10))
  let p := char p (xstart + dx * 3 + dx / 2) (← digitValue (pTime.min.toNat % 10))
  let p := char p (xstart + dx * 4 + dx / 2 - dx / 4) 58
  let p := char p (xstart + dx * 5) (← digitValue (pTime.sec.toNat / 10))
  .ok (char p (xstart + dx * 6) (← digitValue (pTime.sec.toNat % 10)))

/-- `CH_CN`. -/
structure ChCn where
  index0 : UInt8
  index1 : UInt8
  matrix : Memory

/-- `cFONT`.  `size` is the length of the table. -/
structure CFont where
  table : List ChCn
  asciiWidth : Nat
  width : Nat
  height : Nat

/-- The first character of the table that is looked for, if there is one. -/
def drawFirst (font : CFont) (wanted : ChCn → Bool) (x y : Int)
    (colorForeground colorBackground : Nat) (p : Paint) : Paint :=
  match font.table.find? wanted with
  | none => p
  | some c => drawGlyph c.matrix 0 font.width font.height x y colorForeground colorBackground p

/-- The loop of `Paint_DrawString_CN`.  Two bytes are taken together without a look at the
second, which may be the NUL. -/
def stringCNLoop (font : CFont) (y : Int) (colorForeground colorBackground : Nat) :
    Bytes → Int → Paint → Except Fault Paint
  | [], _, _ => .error .readOverrun
  | c :: rest, x, p =>
      if c = 0 then .ok p
      else if c ≤ 0x7F then
        stringCNLoop font y colorForeground colorBackground rest (x + font.asciiWidth)
          (drawFirst font (fun e => c == e.index0) x y colorForeground colorBackground p)
      else
        match rest with
        | [] => .error .readOverrun
        | d :: rest =>
            stringCNLoop font y colorForeground colorBackground rest (x + font.width)
              (drawFirst font (fun e => c == e.index0 && d == e.index1) x y colorForeground
                colorBackground p)

/-- `Paint_DrawString_CN`. -/
def paintDrawStringCN (p : Paint) (xstart ystart : Nat) (pString : Bytes) (font : CFont)
    (colorForeground colorBackground : Nat) : Except Fault Paint :=
  stringCNLoop font ystart colorForeground colorBackground pString xstart p

/-! ### Bitmaps -/

/-- The loops that fill the picture byte by byte. -/
def copyBytes (p : Paint) (source : Nat → UInt8) : Paint :=
  forUp 0 p.heightByte (fun y => forUp 0 p.widthByte fun x q =>
    { q with image := q.image.store (x + y * p.widthByte) (source (x + y * p.widthByte)) }) p

/-- `Paint_DrawBitMap`. -/
def paintDrawBitMap (p : Paint) (imageBuffer : Memory) : Paint := copyBytes p imageBuffer

/-- `Paint_DrawBitMap_Block`. -/
def paintDrawBitMapBlock (p : Paint) (imageBuffer : Memory) (region : Nat) : Paint :=
  copyBytes p fun addr =>
    imageBuffer ((addr + p.heightByte * p.widthByte * ((region : Int) - 1)) % 4294967296).toNat

/-- The colour of a pixel of a bitmap that is pasted. -/
def pasteColor (imageBuffer : Memory) (width x y : Nat) (flipColor : Bool) : Nat :=
  let srcImage := imageBuffer (y * width + x / 8)
  let clear := srcImage <<< UInt8.ofNat (x % 8) &&& 0x80 = 0
  if flipColor then (if clear then 1 else 0) else (if clear then 0 else 1)

/-- `Paint_DrawBitMap_Paste`. -/
def paintDrawBitMapPaste (p : Paint) (imageBuffer : Memory)
    (xStart yStart imageWidth imageHeight : Nat) (flipColor : Bool) : Paint :=
  let width := if imageWidth % 8 = 0 then imageWidth / 8 else imageWidth / 8 + 1
  forUp 0 imageHeight (fun y => forUp 0 imageWidth fun x p =>
    paintSetPixel p (uword (x + xStart)) (uword (y + yStart))
      (pasteColor imageBuffer width x y flipColor)) p

end EleDs
