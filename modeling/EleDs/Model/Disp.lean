/-
Flushing an area of the screen (`applications/lvgl/lv_port_disp.c`).

LVGL hands `disp_flush` a rectangle, both corners included, and its colours row by row.
The flush draws them into a buffer turned by 270 degrees and sends the buffer to the
panel: once blank and once with the picture.
-/
import EleDs.Model.Paint

namespace EleDs

/-- `lv_area_t`. -/
structure LvArea where
  x1 : Int
  y1 : Int
  x2 : Int
  y2 : Int
deriving DecidableEq

/-- `uint32_t`. -/
def uint32 (z : Int) : Nat := (z % 4294967296).toNat

/-- What a call of `disp_flush` gets. -/
structure FlushCall where
  area : LvArea
  /-- `color_p`, a byte for each pixel: `0` is black. -/
  color : Nat → UInt8
  /-- What `lv_mem_alloc` answers: the memory from the new block on, or no block. -/
  tempBuf : Option Memory

/-- What a flush changes: the painting library's global and the panel. -/
structure Display where
  paint : Paint
  panel : Panel

namespace LvArea

def w (a : LvArea) : Nat := uint32 (a.x2 - a.x1 + 1)
def h (a : LvArea) : Nat := uint32 (a.y2 - a.y1 + 1)

/-- `buf_size`. -/
def bufSize (a : LvArea) : Nat := uint32 (uint32 (a.h + 7) / 8 * a.w)

end LvArea

/-- `lv_color_to1` at a colour depth of one bit. -/
def lvColorTo1 (color : UInt8) : UInt8 := color

/-- The first `n` pixels of row `y`. -/
def flushRow (color : Nat → UInt8) (w y : Nat) : Nat → Paint → Paint
  | 0, p => p
  | n + 1, p =>
      let p := flushRow color w y n p
      let idx := uint32 (n + y * w)
      paintSetPixel p (uword n) (uword y) (if lvColorTo1 (color idx) = 0 then BLACK else WHITE)

/-- The first `n` rows. -/
def flushRows (color : Nat → UInt8) (w : Nat) : Nat → Paint → Paint
  | 0, p => p
  | n + 1, p => flushRow color w n w (flushRows color w n p)

/-- `EPD_2IN7_V2_Display_Partial(temp_buf, area->y1, area->x1, area->y2, area->x2)`. -/
def displayArea (panel : Panel) (image : Memory) (a : LvArea) : Panel :=
  displayPartial panel image (uword a.y1) (uword a.x1) (uword a.y2) (uword a.x2)

/-- `disp_flush`. -/
def dispFlush (d : Display) (call : FlushCall) : Display :=
  let a := call.area
  match call.tempBuf with
  | none => d
  | some mem =>
      let panel := epdInit d.panel
      let paint := paintSelectImage (paintNewImage mem (uword a.h) (uword a.w) 270 WHITE) mem
      let paint := paintClear paint WHITE
      let paint := { paint with image := paint.image.memset 0xFF a.bufSize }
      -- the area is blanked before it is drawn
      let panel := displayArea panel paint.image a
      let paint := flushRows call.color a.w a.h paint
      let panel := displayArea panel paint.image a
      { paint := paint, panel := epdSleep panel }

/-- One flush after the other. -/
def dispFlushes (d : Display) (calls : List FlushCall) : Display := calls.foldl dispFlush d

/-! ### The flush that is not compiled in

The `#else` branch of the file packs the pixels itself. -/

/-- The first `n` pixels of row `y`. -/
def packRow (color : Nat → UInt8) (w h y : Nat) : Nat → Memory → Memory
  | 0, m => m
  | n + 1, m =>
      let m := packRow color w h y n m
      let srcIdx := uint32 (n + y * w)
      let newX := y
      let newY := uint32 ((w : Int) - 1 - n)
      let byteIdx := uint32 (newX / 8 + uint32 (newY * (uint32 (h + 7) / 8)))
      let bitMask := (0x80 : UInt8) >>> UInt8.ofNat (newX % 8)
      if lvColorTo1 (color srcIdx) = 0 then m.store byteIdx (m byteIdx &&& ~~~bitMask) else m

/-- The first `n` rows. -/
def packRows (color : Nat → UInt8) (w h : Nat) : Nat → Memory → Memory
  | 0, m => m
  | n + 1, m => packRow color w h n w (packRows color w h n m)

/-- The buffer that branch sends. -/
def packArea (call : FlushCall) (mem : Memory) : Memory :=
  packRows call.color call.area.w call.area.h call.area.h (mem.memset 0xFF call.area.bufSize)

end EleDs
