/-
What a flush packs, and what `Display_Partial` takes of it.

`disp_flush` draws an area of `w` by `h` pixels into a buffer of `w` rows, the last
column first, of as many bytes as `h` bits need: pixel `(x, y)` is bit `y` of row
`w - 1 - x` (`pixelBit`).  The loops through the painting library put every pixel there,
and so do the loops of the branch that is not compiled in (`flush_packs`).
`Display_Partial` computes the bytes of a row from the two ends of the area, and comes to
the stride of the buffer only for some of them (`flushReads_iff`).
-/
import EleDs.Lib.Bits
import EleDs.Proofs.Display

namespace EleDs

open Bits

/-! ### The bytes that are read -/

/-- The bytes of a row of the buffer: `ceil(h / 8)`. -/
def LvArea.stride (a : LvArea) : Nat := (a.h + 7) / 8

/-- What is sent of the buffer lies in it, and a row of the RAM gets a row of the buffer. -/
def FlushReads (a : LvArea) : Prop :=
  imageCounter (uword a.y1) (uword a.x1) (uword a.y2) (uword a.x2) ≤ a.bufSize ∧
    rowBytes (uword a.y1) (uword a.y2) = a.stride

/-- The ends for which the two roundings agree. -/
def EndsSuit (y1 y2 : Int) : Prop :=
  y1 % 8 < y2 % 8 ∨ y2 % 8 < y1 % 8 ∧ (y2 % 8 = 0 ∨ y1 % 8 + y2 % 8 = 8)

instance (y1 y2 : Int) : Decidable (EndsSuit y1 y2) :=
  inferInstanceAs (Decidable (_ ∨ _ ∧ _))

theorem LvArea.OnScreen.w_eq {a : LvArea} (h : a.OnScreen) : a.w = a.x2.toNat - a.x1.toNat + 1 := by
  obtain ⟨hx1, hx, hx2, -⟩ := h
  unfold LvArea.w uint32
  omega

theorem LvArea.OnScreen.h_eq {a : LvArea} (h : a.OnScreen) : a.h = a.y2.toNat - a.y1.toNat + 1 := by
  obtain ⟨-, -, -, hy1, hy, hy2⟩ := h
  unfold LvArea.h uint32
  omega

/-- What is allocated. -/
theorem LvArea.bufSize_eq {a : LvArea} (hw : a.w ≤ 264) (hh : a.h ≤ 176) :
    a.bufSize = a.stride * a.w := by
  have hmul : (a.h + 7) / 8 * a.w ≤ 22 * 264 := Nat.mul_le_mul (by omega) hw
  have hin : uint32 ((a.h : Int) + 7) = a.h + 7 := by
    unfold uint32
    omega
  have hcast : ((a.h + 7 : Nat) : Int) / 8 * a.w = ((a.h + 7) / 8 * a.w : Nat) := by
    push_cast
    rfl
  rw [LvArea.bufSize, hin, hcast, LvArea.stride]
  unfold uint32
  omega

/-- The bytes of a row, from the places of the ends in their bytes. -/
theorem rowBytes_cases {y1 y2 : Nat} (hy : y1 ≤ y2) (hy2 : y2 < 2040) :
    rowBytes y1 y2 =
      if (y1 % 8 + y2 % 8 = 8 ∧ y1 % 8 > y2 % 8) ∨ y1 % 8 = y2 % 8 ∨ y2 % 8 = 0
      then y2 / 8 - y1 / 8 else y2 / 8 + 1 - y1 / 8 := by
  rw [rowBytes_eq hy hy2]
  unfold byteSpan
  split_ifs <;> dsimp only <;> omega

/-- The rows of an area fill one byte more than the bytes its ends are apart, unless the lower
end stands further up in its byte than the upper one. -/
theorem stride_cases {y1 y2 : Nat} (hy : y1 ≤ y2) :
    (y2 - y1 + 1 + 7) / 8 = if y2 % 8 < y1 % 8 then y2 / 8 - y1 / 8 else y2 / 8 + 1 - y1 / 8 := by
  split_ifs <;> omega

theorem rowBytes_eq_stride_iff {y1 y2 : Nat} (hy : y1 ≤ y2) (hy2 : y2 < 2040) :
    rowBytes y1 y2 = (y2 - y1 + 1 + 7) / 8 ↔ EndsSuit y1 y2 := by
  have hspan : y1 / 8 ≤ y2 / 8 := Nat.div_le_div_right hy
  rw [rowBytes_cases hy hy2, stride_cases hy]
  unfold EndsSuit
  generalize y1 / 8 = q1 at *
  generalize y2 / 8 = q2 at *
  split_ifs <;> omega

/-- **Just for the ends that suit, `Display_Partial` reads the buffer as it was packed, and
not past its end.** -/
theorem flushReads_iff (a : LvArea) (ha : a.OnScreen) : FlushReads a ↔ EndsSuit a.y1 a.y2 := by
  have hw := ha.w_eq
  have hh := ha.h_eq
  obtain ⟨hx1, hx, hx2, hy1, hy, hy2⟩ := ha
  have hsize := LvArea.bufSize_eq (a := a) (by omega) (by omega)
  have hrow : rowBytes (uword a.y1) (uword a.y2) = a.stride ↔ EndsSuit a.y1 a.y2 := by
    have hsuit := rowBytes_eq_stride_iff (show a.y1.toNat ≤ a.y2.toNat by omega) (by omega)
    rw [uword_toNat hy1 (by omega), uword_toNat (by omega) (by omega), LvArea.stride, hh, hsuit,
      Int.toNat_of_nonneg hy1, Int.toNat_of_nonneg (by omega)]
  constructor
  · exact fun h => hrow.mp h.2
  · intro hsuit
    have hbytes := hrow.mpr hsuit
    refine ⟨?_, hbytes⟩
    -- as many rows are sent as the area is wide, less one
    have hcount : a.stride * (a.x2.toNat - a.x1.toNat) ≤ 22 * 263 := by
      refine Nat.mul_le_mul ?_ (by omega)
      rw [LvArea.stride]
      omega
    have hrows : ((uword a.x2 : Int) - uword a.x1) = (a.x2.toNat - a.x1.toNat : Nat) := by
      rw [uword_toNat hx1 (by omega), uword_toNat (by omega) (by omega)]
      omega
    rw [imageCounter, hbytes, hrows, ← Int.natCast_mul, uword_of_lt (by omega), hsize]
    exact Nat.mul_le_mul_left _ (by omega)

/-- The left half of the screen, from its top to its bottom. -/
theorem flushReads_half : (⟨0, 0, 131, 175⟩ : LvArea).OnScreen ∧ FlushReads ⟨0, 0, 131, 175⟩ :=
  ⟨by decide, (flushReads_iff ⟨0, 0, 131, 175⟩ (by decide)).mpr (by decide)⟩

/-- Six rows that lie across two bytes of the RAM are packed into one byte and sent as two:
64 bytes are read from a buffer of 33. -/
theorem flushReads_refuted :
    (⟨0, 4, 32, 9⟩ : LvArea).OnScreen ∧ (⟨0, 4, 32, 9⟩ : LvArea).bufSize = 33 ∧
    imageCounter (uword 4) (uword 0) (uword 9) (uword 32) = 64 ∧ ¬ FlushReads ⟨0, 4, 32, 9⟩ := by
  refine ⟨by decide, by decide, by decide, ?_⟩
  rintro ⟨hcount, -⟩
  exact absurd hcount (by decide)

/-! ### The place of a pixel -/

/-- The bit of the buffer that is pixel `(x, y)` of an area of `w` columns. -/
def pixelBit (stride w x y : Nat) : Nat := 8 * ((w - 1 - x) * stride + y / 8) + y % 8

theorem pixelBit_eq (stride w x y : Nat) :
    pixelBit stride w x y = 8 * stride * (w - 1 - x) + y := by
  have hrow : 8 * ((w - 1 - x) * stride) = 8 * stride * (w - 1 - x) := by
    rw [Nat.mul_assoc, Nat.mul_comm stride]
  unfold pixelBit
  omega

/-- No two pixels have the same. -/
theorem pixelBit_apart {stride w x y x' y' : Nat} (hx : x < w) (hx' : x' < w)
    (hy : y < 8 * stride) (hy' : y' < 8 * stride)
    (h : pixelBit stride w x y = pixelBit stride w x' y') : x = x' ∧ y = y' := by
  rw [pixelBit_eq, pixelBit_eq] at h
  have hpos : 0 < 8 * stride := by omega
  have hrow := congrArg (· / (8 * stride)) h
  have hcol := congrArg (· % (8 * stride)) h
  simp only [Nat.mul_add_div hpos, Nat.mul_add_mod, Nat.div_eq_of_lt hy, Nat.div_eq_of_lt hy',
    Nat.mod_eq_of_lt hy, Nat.mod_eq_of_lt hy'] at hrow hcol
  omega

/-- All of them are in the buffer. -/
theorem pixelBit_lt {stride w x y : Nat} (hx : x < w) (hy : y < 8 * stride) :
    (w - 1 - x) * stride + y / 8 < stride * w := by
  have hrows : (w - 1 - x + 1) * stride ≤ w * stride := Nat.mul_le_mul_right _ (by omega)
  rw [Nat.add_mul, Nat.one_mul, Nat.mul_comm w] at hrows
  omega

/-! ### The painting library -/

/-- The library's global while an area of `w` by `h` pixels is drawn. -/
structure Turned (p : Paint) (w h : Nat) : Prop where
  width : p.width = w
  height : p.height = h
  widthMemory : p.widthMemory = h
  heightMemory : p.heightMemory = w
  rotate : p.rotate = 270
  mirror : p.mirror = .none
  widthByte : p.widthByte = (h + 7) / 8
  scale : p.scale = 2

/-- The byte `Paint_SetPixel` reads and writes, at two grey levels. -/
def pixelAddr (p : Paint) (xpoint ypoint : Nat) : Option Nat :=
  (memoryPoint p xpoint ypoint).map fun xy => xy.1 / 8 + xy.2 * p.widthByte

theorem Turned.memoryPoint {p : Paint} {w h x y : Nat} (hp : Turned p w h) (hx : x < w)
    (hy : y < h) (hw : w < 65536) (hh : h < 65536) :
    memoryPoint p (uword x) (uword y) = some (y, w - 1 - x) := by
  have hturn : rotatePoint p x y = some (y, w - 1 - x) := by
    simp only [rotatePoint, hp.rotate, hp.heightMemory]
    have hback : uword ((w : Int) - x - 1) = w - 1 - x := by
      unfold uword
      omega
    simp [hback]
  rw [uword_of_lt (by omega), uword_of_lt (by omega), EleDs.memoryPoint, hp.width, hp.height,
    if_neg (by omega), hturn]
  simp only [mirrorPoint, hp.mirror, hp.widthMemory, hp.heightMemory]
  rw [if_neg (by omega)]

theorem Turned.pixelAddr {p : Paint} {w h x y : Nat} (hp : Turned p w h) (hx : x < w) (hy : y < h)
    (hw : w < 65536) (hh : h < 65536) :
    pixelAddr p (uword x) (uword y) = some ((w - 1 - x) * ((h + 7) / 8) + y / 8) := by
  rw [EleDs.pixelAddr, hp.memoryPoint hx hy hw hh, hp.widthByte, Nat.add_comm (_ * _) (y / 8)]
  rfl

/-- One bit is drawn, and the picture stays as it is turned. -/
theorem Turned.setPixel {p : Paint} {w h x y : Nat} (hp : Turned p w h) (hx : x < w) (hy : y < h)
    (hw : w < 65536) (hh : h < 65536) (color : Nat) :
    Turned (paintSetPixel p (uword x) (uword y) color) w h ∧
    ∀ i, bit (paintSetPixel p (uword x) (uword y) color).image i =
      if i = pixelBit ((h + 7) / 8) w x y then decide (color ≠ BLACK) else bit p.image i := by
  have hset : paintSetPixel p (uword x) (uword y) color = { p with
      image := p.image.store ((w - 1 - x) * ((h + 7) / 8) + y / 8)
        (drawBit (p.image ((w - 1 - x) * ((h + 7) / 8) + y / 8)) y color) } := by
    rw [paintSetPixel, hp.memoryPoint hx hy hw hh]
    simp only [hp.scale, if_true, hp.widthByte]
    rw [Nat.add_comm (y / 8)]
  rw [hset]
  refine ⟨⟨hp.width, hp.height, hp.widthMemory, hp.heightMemory, hp.rotate, hp.mirror,
    hp.widthByte, hp.scale⟩, ?_⟩
  have hk : y % 8 < 8 := Nat.mod_lt y (by decide)
  refine bit_write hk ?_ ?_
  · intro i hi
    exact if_neg hi
  · intro j hj
    simp only [Memory.store, if_true, drawBit]
    by_cases hblack : color = BLACK
    · rw [if_pos hblack]
      simp only [hblack, ne_eq, not_true_eq_false, decide_false]
      exact ofByte_andNot hj hk
    · rw [if_neg hblack]
      simp only [ne_eq, hblack, not_false_eq_true, decide_true]
      exact ofByte_or hj hk

/-! ### The loops -/

/-- The pixel is not black. -/
def white (color : Nat → UInt8) (w x y : Nat) : Bool := decide (color (x + y * w) ≠ 0)

/-- The body of the inner loop. -/
def drawPixel (color : Nat → UInt8) (w : Nat) (p : Paint) (x y : Nat) : Paint :=
  paintSetPixel p (uword x) (uword y)
    (if lvColorTo1 (color (uint32 (x + y * w))) = 0 then BLACK else WHITE)

theorem flushRow_eq (color : Nat → UInt8) (w y n : Nat) (p : Paint) :
    flushRow color w y n p = columns (drawPixel color w) y n p := by
  induction n with
  | zero => rfl
  | succ n ih =>
      rw [flushRow, ih]
      rfl

theorem flushRows_eq (color : Nat → UInt8) (w n : Nat) (p : Paint) :
    flushRows color w n p = rows (drawPixel color w) w n p := by
  induction n with
  | zero => rfl
  | succ n ih => rw [flushRows, ih, flushRow_eq, rows]

/-- The body of the other one. -/
def packPixel (color : Nat → UInt8) (w h : Nat) (m : Memory) (x y : Nat) : Memory :=
  let byteIdx := uint32 (y / 8 + uint32 (uint32 ((w : Int) - 1 - x) * (uint32 (h + 7) / 8)))
  if lvColorTo1 (color (uint32 (x + y * w))) = 0 then
    m.store byteIdx (m byteIdx &&& ~~~mask (y % 8))
  else m

theorem packRow_eq (color : Nat → UInt8) (w h y n : Nat) (m : Memory) :
    packRow color w h y n m = columns (packPixel color w h) y n m := by
  induction n with
  | zero => rfl
  | succ n ih =>
      rw [packRow, ih]
      rfl

theorem packRows_eq (color : Nat → UInt8) (w h n : Nat) (m : Memory) :
    packRows color w h n m = rows (packPixel color w h) w n m := by
  induction n with
  | zero => rfl
  | succ n ih => rw [packRows, ih, packRow_eq, rows]

section Sizes

variable {w h : Nat} (hw : w ≤ 264) (hh : h ≤ 176)

include hw hh

theorem index_small {x y : Nat} (hx : x < w) (hy : y < h) : uint32 (x + y * w) = x + y * w := by
  have hmul : y * w ≤ 175 * 264 := Nat.mul_le_mul (by omega) hw
  have hcast : (x : Int) + y * w = (x + y * w : Nat) := by push_cast; rfl
  rw [hcast]
  unfold uint32
  omega

theorem drawPixel_draws (color : Nat → UInt8) :
    Draws (drawPixel color w) w h (fun p => Turned p w h) (fun p => bit p.image)
      (pixelBit ((h + 7) / 8) w) (fun x y _ => white color w x y) where
  keeps hp hx hy := (hp.setPixel hx hy (by omega) (by omega) _).1
  here := by
    intro p x y hp hx hy
    rw [drawPixel, (hp.setPixel hx hy (by omega) (by omega) _).2, if_pos rfl,
      index_small hw hh hx hy, lvColorTo1, white]
    by_cases hcolor : color (x + y * w) = 0 <;> simp [hcolor, BLACK, WHITE]
  there := by
    intro p x y i hp hx hy hi
    rw [drawPixel, (hp.setPixel hx hy (by omega) (by omega) _).2, if_neg hi]
  apart := by
    intro x y x' y' hx hy hx' hy' heq
    exact pixelBit_apart hx hx' (by omega) (by omega) heq

theorem packPixel_bit (color : Nat → UInt8) (m : Memory) {x y : Nat} (hx : x < w) (hy : y < h)
    (i : Nat) :
    bit (packPixel color w h m x y) i = if i = pixelBit ((h + 7) / 8) w x y
      then (bit m i && white color w x y) else bit m i := by
  have hmul : (w - 1 - x) * ((h + 7) / 8) ≤ 263 * 22 := Nat.mul_le_mul (by omega) (by omega)
  have hrow : uint32 ((w : Int) - 1 - x) = w - 1 - x := by
    unfold uint32
    omega
  have hstride : uint32 ((h : Int) + 7) = h + 7 := by
    unfold uint32
    omega
  have hcast : ((w - 1 - x : Nat) : Int) * (((h + 7 : Nat) : Int) / 8)
      = ((w - 1 - x) * ((h + 7) / 8) : Nat) := by push_cast; rfl
  have hlow : uint32 (((w - 1 - x) * ((h + 7) / 8) : Nat) : Int) = (w - 1 - x) * ((h + 7) / 8) := by
    unfold uint32
    omega
  have haddr : uint32 ((y : Int) / 8
      + uint32 (uint32 ((w : Int) - 1 - x) * ((uint32 ((h : Int) + 7) : Int) / 8)))
      = (w - 1 - x) * ((h + 7) / 8) + y / 8 := by
    rw [hrow, hstride, hcast, hlow]
    unfold uint32
    omega
  rw [packPixel, haddr, index_small hw hh hx hy, lvColorTo1]
  have hk : y % 8 < 8 := Nat.mod_lt y (by decide)
  by_cases hcolor : color (x + y * w) = 0
  · have hwhite : white color w x y = false := by simp [white, hcolor]
    rw [if_pos hcolor, hwhite, Bool.and_false]
    refine bit_write hk ?_ ?_ i
    · intro j hj
      exact if_neg hj
    · intro j hj
      simp only [Memory.store, if_true]
      exact ofByte_andNot hj hk
  · have hwhite : white color w x y = true := by simp [white, hcolor]
    rw [if_neg hcolor, hwhite, Bool.and_true, ite_self]

theorem packPixel_draws (color : Nat → UInt8) :
    Draws (packPixel color w h) w h (fun _ => True) bit
      (pixelBit ((h + 7) / 8) w) (fun x y b => b && white color w x y) where
  keeps _ _ _ := trivial
  here := by
    intro m x y _ hx hy
    rw [packPixel_bit hw hh color m hx hy, if_pos rfl]
  there := by
    intro m x y i _ hx hy hi
    rw [packPixel_bit hw hh color m hx hy, if_neg hi]
  apart := by
    intro x y x' y' hx hy hx' hy' heq
    exact pixelBit_apart hx hx' (by omega) (by omega) heq

end Sizes

/-! ### A flush -/

/-- The painting library's global when the pixel loops begin. -/
def preparedPaint (a : LvArea) (mem : Memory) : Paint :=
  let paint := paintSelectImage (paintNewImage mem (uword a.h) (uword a.w) 270 WHITE) mem
  let paint := paintClear paint WHITE
  { paint with image := paint.image.memset 0xFF a.bufSize }

theorem dispFlush_paint (d : Display) (a : LvArea) (color : Nat → UInt8) (mem : Memory) :
    (dispFlush d ⟨a, color, some mem⟩).paint = flushRows color a.w a.h (preparedPaint a mem) := rfl

/-- `Paint_Clear` stays inside the rows it clears. -/
theorem clearRows_behind (widthByte : Nat) (data : UInt8) (m : Memory) {n i : Nat}
    (h : widthByte * n ≤ i) : clearRows widthByte data n m i = m i := by
  have hrow : ∀ (y k : Nat) (m : Memory), k + y * widthByte ≤ i →
      clearRow widthByte data y k m i = m i := by
    intro y k
    induction k with
    | zero => intro m _; rfl
    | succ k ih =>
        intro m hk
        rw [clearRow, Memory.store, if_neg (by omega), ih m (by omega)]
  induction n with
  | zero => rfl
  | succ n ih =>
      rw [Nat.mul_succ] at h
      rw [clearRows, hrow n widthByte _ (by rw [Nat.mul_comm n]; omega), ih (by omega)]

section Area

variable {a : LvArea} (hw : a.w ≤ 264) (hh : a.h ≤ 176) (mem : Memory)

include hw hh

theorem preparedPaint_turned : Turned (preparedPaint a mem) a.w a.h := by
  have hbytes : (if a.h % 8 = 0 then a.h / 8 else a.h / 8 + 1) = (a.h + 7) / 8 := by
    split <;> omega
  refine ⟨?_, ?_, ?_, ?_, rfl, rfl, ?_, rfl⟩
  · exact uword_of_lt (by omega)
  · exact uword_of_lt (by omega)
  · exact uword_of_lt (by omega)
  · exact uword_of_lt (by omega)
  · show (if uword a.h % 8 = 0 then uword a.h / 8 else uword a.h / 8 + 1) = _
    rw [uword_of_lt (by omega), hbytes]

theorem preparedPaint_behind {i : Nat} (hi : a.bufSize ≤ i) :
    (preparedPaint a mem).image i = mem i := by
  have hsize := LvArea.bufSize_eq hw hh
  have hp := preparedPaint_turned hw hh mem
  have hrows : (preparedPaint a mem).widthByte * uword a.w ≤ i := by
    rw [hp.widthByte, uword_of_lt (by omega)]
    exact hsize ▸ hi
  show Memory.memset _ 0xFF a.bufSize i = mem i
  rw [Memory.memset, if_neg (by omega)]
  exact clearRows_behind _ _ mem hrows

omit hw hh in
/-- The buffer is blank. -/
theorem bit_memset (m : Memory) {i : Nat} (hi : i < 8 * a.bufSize) :
    bit (m.memset 0xFF a.bufSize) i = true := by
  have hall : ∀ k : Fin 8, ofByte 0xFF k = true := by decide
  have hbyte : m.memset 0xFF a.bufSize (i / 8) = 0xFF := if_pos (by omega)
  rw [bit, hbyte]
  exact hall ⟨i % 8, Nat.mod_lt i (by decide)⟩

theorem pixelBit_lt_bufSize {x y : Nat} (hx : x < a.w) (hy : y < 8 * a.stride) :
    pixelBit a.stride a.w x y < 8 * a.bufSize := by
  have hlt := pixelBit_lt hx hy
  rw [← LvArea.bufSize_eq hw hh] at hlt
  unfold pixelBit
  omega

/-- A bit that is no pixel of the area. -/
def IsPadding (a : LvArea) (i : Nat) : Prop :=
  ∀ y < a.h, ∀ x < a.w, i ≠ pixelBit a.stride a.w x y

theorem flushed_pixel (color : Nat → UInt8) {x y : Nat} (hx : x < a.w) (hy : y < a.h) :
    bit (flushRows color a.w a.h (preparedPaint a mem)).image (pixelBit a.stride a.w x y)
      = white color a.w x y := by
  obtain ⟨-, hdrawn, -⟩ := rows_spec (drawPixel_draws hw hh color) (preparedPaint_turned hw hh mem)
    (Nat.le_refl a.h)
  rw [flushRows_eq]
  exact hdrawn y hy x hx

theorem flushed_padding (color : Nat → UInt8) {i : Nat} (h : IsPadding a i) :
    bit (flushRows color a.w a.h (preparedPaint a mem)).image i
      = bit (preparedPaint a mem).image i := by
  obtain ⟨-, -, hrest⟩ := rows_spec (drawPixel_draws hw hh color) (preparedPaint_turned hw hh mem)
    (Nat.le_refl a.h)
  rw [flushRows_eq]
  exact hrest i h

theorem packed_pixel (color : Nat → UInt8) {x y : Nat} (hx : x < a.w) (hy : y < a.h) :
    bit (packArea ⟨a, color, some mem⟩ mem) (pixelBit a.stride a.w x y) = white color a.w x y := by
  obtain ⟨-, hdrawn, -⟩ := rows_spec (packPixel_draws hw hh color)
    (s := mem.memset 0xFF a.bufSize) trivial (Nat.le_refl a.h)
  have hy' : y < 8 * a.stride := by
    rw [LvArea.stride]
    omega
  have hblank : bit (mem.memset 0xFF a.bufSize) (pixelBit ((a.h + 7) / 8) a.w x y) = true :=
    bit_memset mem (pixelBit_lt_bufSize hw hh hx hy')
  rw [packArea, packRows_eq]
  exact (hdrawn y hy x hx).trans (by rw [hblank, Bool.true_and])

theorem packed_padding (color : Nat → UInt8) {i : Nat} (h : IsPadding a i) :
    bit (packArea ⟨a, color, some mem⟩ mem) i = bit (mem.memset 0xFF a.bufSize) i := by
  obtain ⟨-, -, hrest⟩ := rows_spec (packPixel_draws hw hh color)
    (s := mem.memset 0xFF a.bufSize) trivial (Nat.le_refl a.h)
  rw [packArea, packRows_eq]
  exact hrest i h

omit hw hh in
/-- The last bits of a row are no pixels. -/
theorem isPadding_of_le {row y : Nat} (hrow : row < a.w) (hy : a.h ≤ y) (hy' : y < 8 * a.stride) :
    IsPadding a (pixelBit a.stride a.w (a.w - 1 - row) y) := by
  intro y' hlt x hx heq
  have hlt' : y' < 8 * a.stride := by omega
  have := (pixelBit_apart (by omega) hx hy' hlt' heq).2
  omega

end Area

/-- Every pixel of the area is in its bit of the picture, the bits at the ends of the rows
are white, and nothing behind the buffer is touched. -/
structure Packed (a : LvArea) (color : Nat → UInt8) (mem image : Memory) : Prop where
  pixels : ∀ x < a.w, ∀ y < a.h,
    image ((a.w - 1 - x) * a.stride + y / 8) &&& ((0x80 : UInt8) >>> UInt8.ofNat (y % 8)) = 0 ↔
      color (x + y * a.w) = 0
  padding : ∀ row < a.w, ∀ y, a.h ≤ y → y < 8 * a.stride →
    image (row * a.stride + y / 8) &&& ((0x80 : UInt8) >>> UInt8.ofNat (y % 8)) ≠ 0
  behind : ∀ i, a.bufSize ≤ i → image i = mem i

/-- **A flush packs every pixel into its own bit**, without leaving the buffer on the way, and
comes to the buffer the other branch would send. -/
theorem flush_packs (d : Display) (a : LvArea) (color : Nat → UInt8) (mem : Memory)
    (hw : a.w ≤ 264) (hh : a.h ≤ 176) :
    (∀ x < a.w, ∀ y < a.h, ∃ addr,
      pixelAddr (flushRow color a.w y x (flushRows color a.w y (preparedPaint a mem)))
        (uword x) (uword y) = some addr ∧ addr < a.bufSize) ∧
    Packed a color mem (dispFlush d ⟨a, color, some mem⟩).paint.image ∧
    ∀ i < a.bufSize, (dispFlush d ⟨a, color, some mem⟩).paint.image i
      = packArea ⟨a, color, some mem⟩ mem i := by
  have hstride : a.stride = (a.h + 7) / 8 := rfl
  have hpaint : ∀ i < 8 * a.bufSize, bit (preparedPaint a mem).image i = true := by
    intro i hi
    exact bit_memset _ hi
  refine ⟨?_, ⟨?_, ?_, ?_⟩, ?_⟩
  · intro x hx y hy
    -- the picture is turned the same way before every pixel
    have hrows := (rows_spec (drawPixel_draws hw hh color) (preparedPaint_turned hw hh mem)
      (Nat.le_of_lt hy)).1
    have hcols := (columns_spec (drawPixel_draws hw hh color) hrows hy (Nat.le_of_lt hx)).1
    rw [flushRows_eq, flushRow_eq]
    refine ⟨_, hcols.pixelAddr hx hy (by omega) (by omega), ?_⟩
    rw [LvArea.bufSize_eq hw hh]
    exact pixelBit_lt hx (by omega)
  · intro x hx y hy
    have hk : y % 8 < 8 := Nat.mod_lt y (by decide)
    have hbit := flushed_pixel hw hh mem color hx hy
    rw [pixelBit, bit_at _ _ hk] at hbit
    refine (and_mask_eq_zero hk).trans ?_
    rw [dispFlush_paint, hbit, white]
    simp
  · intro row hrow y hy hy'
    have hk : y % 8 < 8 := Nat.mod_lt y (by decide)
    have hrow' : a.w - 1 - (a.w - 1 - row) = row := by omega
    have hbit := flushed_padding hw hh mem color (isPadding_of_le hrow hy hy')
    rw [hpaint _ (pixelBit_lt_bufSize hw hh (by omega) hy'), pixelBit, bit_at _ _ hk, hrow'] at hbit
    intro hzero
    have hclear := (and_mask_eq_zero hk).mp hzero
    rw [dispFlush_paint, hbit] at hclear
    cases hclear
  · intro i hi
    rw [dispFlush_paint, ← preparedPaint_behind hw hh mem hi]
    refine byte_eq_of_bits fun k hk => flushed_padding hw hh mem color ?_
    intro y hy x hx heq
    have hlt := pixelBit_lt_bufSize hw hh hx (show y < 8 * a.stride by omega)
    omega
  · intro i hi
    rw [dispFlush_paint]
    refine byte_eq_of_bits fun k hk => ?_
    by_cases hpad : IsPadding a (8 * i + k)
    · rw [flushed_padding hw hh mem color hpad, packed_padding hw hh mem color hpad,
        hpaint _ (by omega), bit_memset mem (by omega)]
    · obtain ⟨y, hy, x, hx, heq⟩ : ∃ y < a.h, ∃ x < a.w, 8 * i + k = pixelBit a.stride a.w x y := by
        by_contra hnone
        exact hpad fun y hy x hx heq => hnone ⟨y, hy, x, hx, heq⟩
      rw [heq, flushed_pixel hw hh mem color hx hy, packed_pixel hw hh mem color hx hy]

/-- A picture of three columns and ten rows, two bytes each. -/
theorem flush_packs_small :
    Packed ⟨0, 0, 2, 9⟩ (fun i => if i % 2 = 0 then 0 else 1) (fun _ => 7)
      (dispFlush whiteDisplay ⟨⟨0, 0, 2, 9⟩, fun i => if i % 2 = 0 then 0 else 1,
        some fun _ => 7⟩).paint.image :=
  (flush_packs whiteDisplay ⟨0, 0, 2, 9⟩ (fun i => if i % 2 = 0 then 0 else 1) (fun _ => 7)
    (by decide) (by decide)).2.1

end EleDs
