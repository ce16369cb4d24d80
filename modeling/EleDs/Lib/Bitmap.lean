/-
Bits in bytes as a stream, and pictures of one bit per pixel.

A block of bytes is a stream of bits, the high bit of each byte first.  A bitmap is such a
block: its rows follow one another from top to bottom, and every row starts a byte of its
own, so that up to seven bits behind a row belong to no pixel.  `pixel` looks a pixel up in
the block and `pictureBits` is the stream of a picture; `pixel_of_bits` says that a
block with that stream shows that picture.
-/
import Mathlib.Data.List.Range
import Mathlib.Data.Nat.Bitwise
import EleDs.Lib.Bits

namespace Bitmap

open Bits

/-! ### Blocks of one length -/

section Blocks

variable {α β : Type} {f : α → List β} {n : Nat}

theorem length_blocks (hlen : ∀ a, (f a).length = n) (l : List α) :
    (l.flatMap f).length = n * l.length := by
  induction l with
  | nil => rfl
  | cons a l ih =>
      rw [List.flatMap_cons, List.length_append, hlen, ih, List.length_cons, Nat.mul_succ,
        Nat.add_comm]

/-- What stands at a place inside block `i`. -/
theorem getElem?_blocks (hlen : ∀ a, (f a).length = n) (l : List α) (i : Nat) {k : Nat}
    (hk : k < n) : (l.flatMap f)[n * i + k]? = l[i]?.bind fun a => (f a)[k]? := by
  induction l generalizing i with
  | nil => rfl
  | cons a l ih =>
      rw [List.flatMap_cons]
      cases i with
      | zero =>
          rw [Nat.mul_zero, Nat.zero_add, List.getElem?_append_left (by rw [hlen]; exact hk)]
          rfl
      | succ i =>
          have hplace : n * (i + 1) + k = n + (n * i + k) := by
            rw [Nat.mul_succ]
            omega
          rw [hplace, List.getElem?_append_right (by rw [hlen]; omega), hlen,
            Nat.add_sub_cancel_left, ih]
          rfl

end Blocks

/-! ### The bits of a number -/

/-- The `n` low bits of a number, the highest first. -/
def highBits : Nat → Nat → List Bool
  | 0, _ => []
  | n + 1, v => highBits n (v / 2) ++ [decide (v % 2 = 1)]

@[simp] theorem length_highBits (n v : Nat) : (highBits n v).length = n := by
  induction n generalizing v with
  | zero => rfl
  | succ n ih => simp [highBits, ih]

theorem shiftLeft_or_eq (v : Nat) (b : Bool) : v <<< 1 ||| b.toNat = v * 2 + b.toNat := by
  rw [← Nat.shiftLeft_add_eq_or_of_lt b.toNat_lt, Nat.shiftLeft_eq, Nat.pow_one]

theorem shiftLeft_or_lt {n v : Nat} (b : Bool) (hv : v < 2 ^ n) :
    v <<< 1 ||| b.toNat < 2 ^ (n + 1) := by
  have hb := b.toNat_lt
  rw [shiftLeft_or_eq, Nat.pow_succ]
  omega

/-- One more bit, put in at the low end. -/
theorem highBits_push (n v : Nat) (b : Bool) :
    highBits (n + 1) (v <<< 1 ||| b.toNat) = highBits n v ++ [b] := by
  have hb := b.toNat_lt
  have hdiv : (v * 2 + b.toNat) / 2 = v := by omega
  have hmod : (v * 2 + b.toNat) % 2 = b.toNat := by omega
  rw [shiftLeft_or_eq, highBits, hdiv, hmod]
  cases b <;> rfl

/-- Shifting puts zeros in at the low end. -/
theorem highBits_shiftLeft (n v k : Nat) :
    highBits (n + k) (v <<< k) = highBits n v ++ List.replicate k false := by
  induction k with
  | zero => simp
  | succ k ih =>
      have hdiv : v * 2 ^ (k + 1) / 2 = v * 2 ^ k := by
        rw [Nat.pow_succ, ← Nat.mul_assoc, Nat.mul_div_cancel _ (by decide)]
      have hmod : v * 2 ^ (k + 1) % 2 = 0 := by
        rw [Nat.pow_succ, ← Nat.mul_assoc, Nat.mul_mod_left]
      rw [Nat.shiftLeft_eq] at ih ⊢
      show highBits (n + k) (v * 2 ^ (k + 1) / 2) ++ [decide (v * 2 ^ (k + 1) % 2 = 1)] = _
      rw [hdiv, hmod, ih, List.append_assoc, List.replicate_succ']
      rfl

theorem getElem?_highBits (n v : Nat) {i : Nat} (hi : i < n) :
    (highBits n v)[i]? = some (v.testBit (n - 1 - i)) := by
  induction n generalizing v with
  | zero => omega
  | succ n ih =>
      rw [highBits]
      by_cases hin : i < n
      · have hidx : n + 1 - 1 - i = (n - 1 - i) + 1 := by omega
        rw [List.getElem?_append_left (by simpa using hin), ih _ hin, hidx, Nat.testBit_succ]
      · have hlast : i = n := by omega
        subst hlast
        rw [List.getElem?_append_right (by simp)]
        simp [Nat.testBit_zero]

/-! ### The bits of a block -/

/-- The bits of a byte. -/
def byteBits (b : UInt8) : List Bool := highBits 8 b.toNat

theorem length_byteBits (b : UInt8) : (byteBits b).length = 8 := length_highBits 8 b.toNat

/-- The bits of some bytes, one after the other. -/
def bitsOf (data : List UInt8) : List Bool := data.flatMap byteBits

@[simp] theorem bitsOf_append (a b : List UInt8) : bitsOf (a ++ b) = bitsOf a ++ bitsOf b := by
  simp [bitsOf]

@[simp] theorem bitsOf_singleton (b : UInt8) : bitsOf [b] = byteBits b := by
  simp [bitsOf]

@[simp] theorem length_bitsOf (data : List UInt8) : (bitsOf data).length = 8 * data.length :=
  length_blocks length_byteBits data

/-- A byte holds eight bits of the stream. -/
theorem getElem?_bitsOf (data : List UInt8) (a : Nat) {k : Nat} (hk : k < 8) :
    (bitsOf data)[8 * a + k]? = data[a]?.map fun b => ofByte b k := by
  rw [bitsOf, getElem?_blocks length_byteBits data a hk]
  cases data[a]? with
  | none => rfl
  | some b => exact getElem?_highBits 8 b.toNat hk

/-! ### Rows -/

/-- The bytes of a row. -/
def stride (w : Nat) : Nat := (w + 7) / 8

/-- The pixel in column `x` of row `y`, unless the block ends before it. -/
def pixel (data : List UInt8) (w x y : Nat) : Option Bool :=
  data[stride w * y + x / 8]?.map fun b => ofByte b (x % 8)

/-- A row, and zeros up to the end of its last byte. -/
def rowBits (w : Nat) (f : Nat → Bool) : List Bool :=
  (List.range w).map f ++ List.replicate (8 * stride w - w) false

/-- The first `h` rows of a picture. -/
def pictureBits (w : Nat) (f : Nat → Nat → Bool) (h : Nat) : List Bool :=
  (List.range h).flatMap fun y => rowBits w fun x => f x y

variable {w h : Nat} {f : Nat → Nat → Bool}

theorem le_stride (w : Nat) : w ≤ 8 * stride w := by
  unfold stride
  omega

@[simp] theorem length_rowBits (w : Nat) (f : Nat → Bool) :
    (rowBits w f).length = 8 * stride w := by
  have := le_stride w
  simp only [rowBits, List.length_append, List.length_map, List.length_range, List.length_replicate]
  omega

theorem getElem?_rowBits {f : Nat → Bool} {x : Nat} (hx : x < w) :
    (rowBits w f)[x]? = some (f x) := by
  rw [rowBits, List.getElem?_append_left (by simpa using hx)]
  simp [hx]

theorem pictureBits_succ (h : Nat) :
    pictureBits w f (h + 1) = pictureBits w f h ++ rowBits w fun x => f x h := by
  simp [pictureBits, List.range_succ]

theorem length_pictureBits (h : Nat) : (pictureBits w f h).length = 8 * (stride w * h) := by
  rw [pictureBits, length_blocks (fun y => length_rowBits w fun x => f x y), List.length_range,
    Nat.mul_assoc]

theorem getElem?_pictureBits {x y : Nat} (hx : x < w) (hy : y < h) :
    (pictureBits w f h)[8 * stride w * y + x]? = some (f x y) := by
  have hin : x < 8 * stride w := Nat.lt_of_lt_of_le hx (le_stride w)
  rw [pictureBits, getElem?_blocks (fun y => length_rowBits w fun x => f x y) _ _ hin,
    List.getElem?_range hy]
  exact getElem?_rowBits hx

/-- A pixel's place in the stream. -/
theorem pixel_eq (data : List UInt8) (w x y : Nat) :
    pixel data w x y = (bitsOf data)[8 * stride w * y + x]? := by
  have hsplit : 8 * stride w * y + x = 8 * (stride w * y + x / 8) + x % 8 := by
    rw [Nat.mul_assoc]
    omega
  rw [hsplit, getElem?_bitsOf _ _ (Nat.mod_lt x (by decide)), pixel]

/-- **A block with the stream of a picture shows the picture.** -/
theorem pixel_of_bits {data : List UInt8} (hbits : bitsOf data = pictureBits w f h) {x y : Nat}
    (hx : x < w) (hy : y < h) : pixel data w x y = some (f x y) := by
  rw [pixel_eq, hbits, getElem?_pictureBits hx hy]

end Bitmap
