/-
Drawing into a picture buffer (`components/epaper/gui/GUI_Paint.c`).

`Paint` is the library's global.  Its picture is a pointer into the heap, so the model's
picture is all the memory from that pointer on: a pixel that is drawn past the end of
the buffer goes to the memory behind it, as it does in C.  Coordinates are `UWORD`s.
-/
import EleDs.Model.Epd

namespace EleDs

/-- Memory from a pointer on. -/
abbrev Memory := Nat → UInt8

/-- `*(p + addr) = data`. -/
def Memory.store (m : Memory) (addr : Nat) (data : UInt8) : Memory :=
  fun i => if i = addr then data else m i

/-- `memset`. -/
def Memory.memset (m : Memory) (data : UInt8) (n : Nat) : Memory :=
  fun i => if i < n then data else m i

/-- `MIRROR_IMAGE`. -/
inductive MirrorImage where
  | none
  | horizontal
  | vertical
  | origin
deriving DecidableEq

def WHITE : Nat := 0xFF
def BLACK : Nat := 0x00

/-- `PAINT`. -/
structure Paint where
  image : Memory
  width : Nat
  height : Nat
  widthMemory : Nat
  heightMemory : Nat
  color : Nat
  rotate : Nat
  mirror : MirrorImage
  widthByte : Nat
  heightByte : Nat
  scale : Nat

/-- `Paint_NewImage`. -/
def paintNewImage (image : Memory) (width height rotate color : Nat) : Paint where
  image := image
  width := if rotate = 0 ∨ rotate = 180 then width else height
  height := if rotate = 0 ∨ rotate = 180 then height else width
  widthMemory := width
  heightMemory := height
  color := color
  rotate := rotate
  mirror := .none
  widthByte := if width % 8 = 0 then width / 8 else width / 8 + 1
  heightByte := height
  scale := 2

/-- `Paint_SelectImage`. -/
def paintSelectImage (p : Paint) (image : Memory) : Paint := { p with image := image }

/-- Where the rotation takes a point of the drawing. -/
def rotatePoint (p : Paint) (xpoint ypoint : Nat) : Option (Nat × Nat) :=
  if p.rotate = 0 then some (xpoint, ypoint)
  else if p.rotate = 90 then some (uword ((p.widthMemory : Int) - ypoint - 1), xpoint)
  else if p.rotate = 180 then
    some (uword ((p.widthMemory : Int) - xpoint - 1), uword ((p.heightMemory : Int) - ypoint - 1))
  else if p.rotate = 270 then some (ypoint, uword ((p.heightMemory : Int) - xpoint - 1))
  else none

/-- And the mirror. -/
def mirrorPoint (p : Paint) (x y : Nat) : Nat × Nat :=
  match p.mirror with
  | .none => (x, y)
  | .horizontal => (uword ((p.widthMemory : Int) - x - 1), y)
  | .vertical => (x, uword ((p.heightMemory : Int) - y - 1))
  | .origin =>
      (uword ((p.widthMemory : Int) - x - 1), uword ((p.heightMemory : Int) - y - 1))

/-- The point of the memory `Paint_SetPixel` draws at, if it draws at all. -/
def memoryPoint (p : Paint) (xpoint ypoint : Nat) : Option (Nat × Nat) :=
  if xpoint > p.width ∨ ypoint > p.height then none
  else
    match rotatePoint p xpoint ypoint with
    | none => none
    | some (x, y) =>
        let xy := mirrorPoint p x y
        if xy.1 > p.widthMemory ∨ xy.2 > p.heightMemory then none else some xy

/-- One pixel of a byte: `BLACK` clears its bit and any other colour sets it. -/
def drawBit (rdata : UInt8) (x color : Nat) : UInt8 :=
  let mask := (0x80 : UInt8) >>> UInt8.ofNat (x % 8)
  if color = BLACK then rdata &&& ~~~mask else rdata ||| mask

/-- `Paint_SetPixel`. -/
def paintSetPixel (p : Paint) (xpoint ypoint color : Nat) : Paint :=
  match memoryPoint p xpoint ypoint with
  | none => p
  | some (x, y) =>
      if p.scale = 2 then
        let addr := x / 8 + y * p.widthByte
        { p with image := p.image.store addr (drawBit (p.image addr) x color) }
      else if p.scale = 4 then
        let addr := x / 4 + y * p.widthByte
        let k := UInt8.ofNat (x % 4 * 2)
        let rdata := p.image addr &&& ~~~((0xC0 : UInt8) >>> k)
        let ink := UInt8.ofNat (((color % 4) <<< 6) >>> (x % 4 * 2))
        { p with image := p.image.store addr (rdata ||| ink) }
      else if p.scale = 7 then
        let addr := x / 2 + y * p.widthByte
        let k := UInt8.ofNat (x % 2 * 4)
        let rdata := p.image addr &&& ~~~((0xF0 : UInt8) >>> k)
        let ink := UInt8.ofNat ((color <<< 4) >>> (x % 2 * 4))
        { p with image := p.image.store addr (rdata ||| ink) }
      else p

/-- The byte `Paint_Clear` fills the picture with. -/
def clearByte (scale color : Nat) : Option UInt8 :=
  if scale = 2 then some (UInt8.ofNat color)
  else if scale = 4 then
    some (UInt8.ofNat (color <<< 6 ||| color <<< 4 ||| color <<< 2 ||| color))
  else if scale = 7 then some (UInt8.ofNat (color <<< 4 ||| color))
  else none

/-- The inner loop of `Paint_Clear`: the first `n` bytes of row `y`. -/
def clearRow (widthByte : Nat) (data : UInt8) (y : Nat) : Nat → Memory → Memory
  | 0, m => m
  | n + 1, m => (clearRow widthByte data y n m).store (n + y * widthByte) data

/-- The outer loop: the first `n` rows. -/
def clearRows (widthByte : Nat) (data : UInt8) : Nat → Memory → Memory
  | 0, m => m
  | n + 1, m => clearRow widthByte data n widthByte (clearRows widthByte data n m)

/-- `Paint_Clear`. -/
def paintClear (p : Paint) (color : Nat) : Paint :=
  match clearByte p.scale color with
  | none => p
  | some data => { p with image := clearRows p.widthByte data p.heightByte p.image }

end EleDs
