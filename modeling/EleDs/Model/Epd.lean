/-
The e-paper panel and its driver (`components/epaper/driver/EPD_2in7_V2.c`).

The panel's controller has a picture RAM of one bit a pixel, eight pixels of a row to a
byte.  A command byte names a register and the data bytes after it are the register's
value; the data of command 0x24 goes to the RAM, at the address counter, which then
moves along X inside the window and on to the next row at its end (data entry mode
0x03, the mode a reset leaves and the only one the driver asks for).  No reset touches
the RAM, nor does deep sleep mode 1.  The other commands the driver sends (border,
update sequence, sleep) have no part in where the pixels go, so the model takes their
data and does nothing with it.
-/
import EleDs.Lib.Raster

namespace EleDs

open Raster

/-- `UWORD`: what is left of an `int` in 16 bits. -/
def uword (z : Int) : Nat := (z % 65536).toNat

/-- The controller. -/
structure Panel where
  /-- The command the next data byte belongs to. -/
  command : UInt8
  /-- The data bytes it has had so far. -/
  args : List UInt8
  window : Window
  counter : Cursor
  ram : Grid UInt8

namespace Panel

/-- The pixel at a row and a column: the high bit of a byte is its leftmost pixel. -/
def pixel (ram : Grid UInt8) (row col : Nat) : Bool := (ram row (col / 8)).toNat.testBit (7 - col % 8)

/-- Two data bytes as an address, the low one first. -/
def address (lo hi : UInt8) : Nat := lo.toNat + 256 * hi.toNat

/-- The registers the data bytes of a command fill, once they are all there. -/
def setRegister (p : Panel) (args : List UInt8) : Panel :=
  if p.command = 0x44 then
    match args with
    | [s, e] => { p with window := { p.window with left := s.toNat, right := e.toNat } }
    | _ => p
  else if p.command = 0x45 then
    match args with
    | [sl, sh, el, eh] =>
        { p with window := { p.window with top := address sl sh, bottom := address el eh } }
    | _ => p
  else if p.command = 0x4E then
    match args with
    | [x] => { p with counter := { p.counter with x := x.toNat } }
    | _ => p
  else if p.command = 0x4F then
    match args with
    | [yl, yh] => { p with counter := { p.counter with y := address yl yh } }
    | _ => p
  else p

/-- A reset.  Whatever values it leaves in the registers, the driver sends all of them
before it writes to the RAM. -/
def reset (p : Panel) : Panel :=
  { p with command := 0, args := [], window := ⟨0, 0, 0, 0⟩, counter := ⟨0, 0⟩ }

end Panel

/-! ### The driver -/

/-- `EPD_2IN7_V2_SendCommand`. -/
def sendCommand (p : Panel) (reg : UInt8) : Panel :=
  { (if reg = 0x12 then p.reset else p) with command := reg, args := [] }

/-- `EPD_2IN7_V2_SendData`. -/
def sendData (p : Panel) (data : UInt8) : Panel :=
  if p.command = 0x24 then
    { p with counter := advance p.window p.counter, ram := put p.ram p.counter data }
  else { p.setRegister (p.args ++ [data]) with args := p.args ++ [data] }

/-- A command and its data. -/
def send (p : Panel) (reg : UInt8) (data : List UInt8) : Panel :=
  data.foldl sendData (sendCommand p reg)

/-- `EPD_2IN7_V2_Init`. -/
def epdInit (p : Panel) : Panel :=
  let p := send p.reset 0x12 []
  let p := send p 0x45 [0x00, 0x00, 0xb0, 0x00]
  let p := send p 0x44 [0x00, 0x20]
  let p := send p 0x4F [0x00, 0x00]
  send p 0x11 [0x03]

/-- `EPD_2IN7_V2_TurnOnDisplay_Partial`. -/
def turnOnDisplayPartial (p : Panel) : Panel := send (send p 0x22 [0xFF]) 0x20 []

/-- `EPD_2IN7_V2_Sleep`. -/
def epdSleep (p : Panel) : Panel := send p 0x10 [0x01]

/-- The bytes `xstart … xend` of a row, the end excluded, that `Display_Partial` takes for
the pixels it is given. -/
def byteSpan (xstart xend : Nat) : Nat × Nat :=
  if (xstart % 8 + xend % 8 = 8 ∧ xstart % 8 > xend % 8) ∨ xstart % 8 + xend % 8 = 0 ∨
      ((xend : Int) - xstart) % 8 = 0 then
    (xstart / 8, xend / 8)
  else (xstart / 8, if xend % 8 = 0 then xend / 8 else xend / 8 + 1)

/-- `Image[0] … Image[n - 1]`, one after the other. -/
def sendImage (image : Nat → UInt8) : Nat → Panel → Panel
  | 0, p => p
  | n + 1, p => sendData (sendImage image n p) (image n)

/-- The number of bytes a row of the window gets. -/
def rowBytes (xstart xend : Nat) : Nat :=
  uword ((byteSpan xstart xend).2 - (byteSpan xstart xend).1)

/-- `IMAGE_COUNTER`. -/
def imageCounter (xstart ystart xend yend : Nat) : Nat :=
  uword (rowBytes xstart xend * ((yend : Int) - ystart))

/-- The low byte of a `UWORD` and the bit above it. -/
def lowByte (n : Nat) : UInt8 := UInt8.ofNat (n % 256)
def highBit (n : Nat) : UInt8 := UInt8.ofNat (n / 256 % 2)

/-- `EPD_2IN7_V2_Display_Partial`. -/
def displayPartial (p : Panel) (image : Nat → UInt8) (xstart ystart xend yend : Nat) : Panel :=
  let xs := (byteSpan xstart xend).1
  let xe := uword ((byteSpan xstart xend).2 - 1)
  let ye := uword ((yend : Int) - 1)
  let p := send p.reset 0x3C [0x80]
  let p := send p 0x44 [lowByte xs, lowByte xe]
  let p := send p 0x45 [lowByte ystart, highBit ystart, lowByte ye, highBit ye]
  let p := send p 0x4E [lowByte xs]
  let p := send p 0x4F [lowByte ystart, highBit ystart]
  let p := sendImage image (imageCounter xstart ystart xend yend) (sendCommand p 0x24)
  turnOnDisplayPartial p

end EleDs
