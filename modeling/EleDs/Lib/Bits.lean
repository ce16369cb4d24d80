/-
Bits that lie in bytes, the high bit of a byte first.

Memory is one long row of bits: bit `i` is the one that the mask `0x80 >> i % 8` picks
from byte `i / 8`.  Pictures, glyphs and icons are kept so, and differ in where their
rows start.  A picture is drawn by two nested loops that change one bit at a time; what
`rows_spec` asks of them is that no two pixels have the same place.
-/
import Mathlib.Data.Nat.Basic

namespace Bits

/-! ### One byte -/

/-- The mask of bit `k`. -/
def mask (k : Nat) : UInt8 := 0x80 >>> UInt8.ofNat k

/-- Bit `k` of a byte. -/
def ofByte (b : UInt8) (k : Nat) : Bool := b.toBitVec.getLsbD (7 - k)

theorem ofByte_eq_testBit (b : UInt8) (k : Nat) : ofByte b k = b.toNat.testBit (7 - k) := rfl

theorem ofByte_mask {j k : Nat} (hj : j < 8) (hk : k < 8) : ofByte (mask k) j = decide (j = k) := by
  have hall : ∀ j k : Fin 8, ofByte (mask k) j = decide (j.val = k.val) := by decide
  exact hall ⟨j, hj⟩ ⟨k, hk⟩

theorem ofByte_or {b : UInt8} {j k : Nat} (hj : j < 8) (hk : k < 8) :
    ofByte (b ||| mask k) j = if j = k then true else ofByte b j := by
  have hmask := ofByte_mask hj hk
  unfold ofByte at hmask ⊢
  rw [UInt8.toBitVec_or, BitVec.getLsbD_or, hmask]
  by_cases h : j = k <;> simp [h]

theorem ofByte_andNot {b : UInt8} {j k : Nat} (hj : j < 8) (hk : k < 8) :
    ofByte (b &&& ~~~mask k) j = if j = k then false else ofByte b j := by
  have hmask := ofByte_mask hj hk
  unfold ofByte at hmask ⊢
  rw [UInt8.toBitVec_and, UInt8.toBitVec_not, BitVec.getLsbD_and, BitVec.getLsbD_not, hmask]
  have hin : 7 - j < 8 := by omega
  by_cases h : j = k <;> simp [h, hin]

/-- Eight bits make a byte. -/
theorem byte_ext {a b : UInt8} (h : ∀ k < 8, ofByte a k = ofByte b k) : a = b := by
  apply UInt8.toBitVec_inj.mp
  apply BitVec.eq_of_getLsbD_eq
  intro i hi
  have hbit := h (7 - i) (by omega)
  have hback : 7 - (7 - i) = i := by omega
  unfold ofByte at hbit
  rwa [hback] at hbit

theorem and_mask_eq_zero {b : UInt8} {k : Nat} (hk : k < 8) :
    b &&& mask k = 0 ↔ ofByte b k = false := by
  have hsplit : ∀ j < 8, ofByte (b &&& mask k) j = (ofByte b j && decide (j = k)) := by
    intro j hj
    have hmask := ofByte_mask hj hk
    unfold ofByte at hmask ⊢
    rw [UInt8.toBitVec_and, BitVec.getLsbD_and, hmask]
  have hzero : ∀ j, ofByte 0 j = false := by
    intro j
    simp [ofByte]
  constructor
  · intro h
    have hbit := hsplit k hk
    rw [h, hzero] at hbit
    simpa using hbit.symm
  · intro h
    refine byte_ext fun j hj => ?_
    rw [hsplit j hj, hzero]
    by_cases hjk : j = k
    · rw [hjk, h]
      rfl
    · simp [hjk]

/-! ### Memory -/

/-- Bit `i` of the memory. -/
def bit (m : Nat → UInt8) (i : Nat) : Bool := ofByte (m (i / 8)) (i % 8)

theorem bit_at (m : Nat → UInt8) (a : Nat) {k : Nat} (hk : k < 8) :
    bit m (8 * a + k) = ofByte (m a) k := by
  have hdiv : (8 * a + k) / 8 = a := by omega
  have hmod : (8 * a + k) % 8 = k := by omega
  rw [bit, hdiv, hmod]

/-- Changing one bit of one byte changes one bit of the memory. -/
theorem bit_write {m m' : Nat → UInt8} {a k : Nat} {v : Bool} (hk : k < 8)
    (hsame : ∀ i, i ≠ a → m' i = m i)
    (hbyte : ∀ j < 8, ofByte (m' a) j = if j = k then v else ofByte (m a) j) (i : Nat) :
    bit m' i = if i = 8 * a + k then v else bit m i := by
  unfold bit
  by_cases ha : i / 8 = a
  · rw [ha, hbyte _ (Nat.mod_lt i (by decide))]
    by_cases hik : i % 8 = k
    · rw [if_pos hik, if_pos (by omega)]
    · rw [if_neg hik, if_neg (by omega)]
  · rw [hsame _ ha, if_neg (by omega)]

/-- Memories with the same bits in a byte have the same byte. -/
theorem byte_eq_of_bits {m m' : Nat → UInt8} {a : Nat}
    (h : ∀ k < 8, bit m (8 * a + k) = bit m' (8 * a + k)) : m a = m' a := by
  refine byte_ext fun k hk => ?_
  have hbit := h k hk
  rwa [bit_at m a hk, bit_at m' a hk] at hbit

/-! ### Drawing -/

section Loops

variable {σ β : Type} (step : σ → Nat → Nat → σ)

/-- The pixels `0 … n - 1` of row `y`, one after the other. -/
def columns (y : Nat) : Nat → σ → σ
  | 0, s => s
  | n + 1, s => step (columns y n s) n y

/-- The rows `0 … n - 1`, of `w` pixels each. -/
def rows (w : Nat) : Nat → σ → σ
  | 0, s => s
  | n + 1, s => columns step n w (rows w n s)

/-- A step changes the place of its pixel, and nothing else. -/
structure Draws (w h : Nat) (Ok : σ → Prop) (val : σ → Nat → β) (place : Nat → Nat → Nat)
    (f : Nat → Nat → β → β) : Prop where
  keeps : ∀ {s x y}, Ok s → x < w → y < h → Ok (step s x y)
  here : ∀ {s x y}, Ok s → x < w → y < h →
    val (step s x y) (place x y) = f x y (val s (place x y))
  there : ∀ {s x y i}, Ok s → x < w → y < h → i ≠ place x y → val (step s x y) i = val s i
  apart : ∀ {x y x' y'}, x < w → y < h → x' < w → y' < h → place x y = place x' y' →
    x = x' ∧ y = y'

variable {step} {w h : Nat} {Ok : σ → Prop} {val : σ → Nat → β} {place : Nat → Nat → Nat}
  {f : Nat → Nat → β → β}

theorem columns_spec (hd : Draws step w h Ok val place f) {s : σ} (hs : Ok s) {y : Nat}
    (hy : y < h) {n : Nat} (hn : n ≤ w) :
    Ok (columns step y n s) ∧
    (∀ x < n, val (columns step y n s) (place x y) = f x y (val s (place x y))) ∧
    ∀ i, (∀ x < n, i ≠ place x y) → val (columns step y n s) i = val s i := by
  induction n with
  | zero =>
      refine ⟨hs, ?_, fun i _ => rfl⟩
      intro x hx
      omega
  | succ n ih =>
      obtain ⟨hok, hdone, hrest⟩ := ih (by omega)
      have hfresh : ∀ x < n, place n y ≠ place x y := by
        intro x hx heq
        have := (hd.apart (by omega) hy (by omega) hy heq).1
        omega
      rw [columns]
      refine ⟨hd.keeps hok (by omega) hy, ?_, ?_⟩
      · intro x hx
        by_cases hxn : x = n
        · subst hxn
          rw [hd.here hok (by omega) hy, hrest _ hfresh]
        · rw [hd.there hok (by omega) hy (hfresh x (by omega)).symm, hdone x (by omega)]
      · intro i hi
        rw [hd.there hok (by omega) hy (hi n (by omega)), hrest i fun x hx => hi x (by omega)]

/-- **Every pixel is drawn at its place, once, and nothing else is touched.** -/
theorem rows_spec (hd : Draws step w h Ok val place f) {s : σ} (hs : Ok s) {n : Nat}
    (hn : n ≤ h) :
    Ok (rows step w n s) ∧
    (∀ y < n, ∀ x < w, val (rows step w n s) (place x y) = f x y (val s (place x y))) ∧
    ∀ i, (∀ y < n, ∀ x < w, i ≠ place x y) → val (rows step w n s) i = val s i := by
  induction n with
  | zero =>
      refine ⟨hs, ?_, fun i _ => rfl⟩
      intro y hy
      omega
  | succ n ih =>
      obtain ⟨hok, hdone, hrest⟩ := ih (by omega)
      obtain ⟨hok', hrow, hothers⟩ := columns_spec hd hok (show n < h by omega) (Nat.le_refl w)
      have hfresh : ∀ y < n, ∀ x < w, ∀ x' < w, place x' n ≠ place x y := by
        intro y hy x hx x' hx' heq
        have := (hd.apart hx' (by omega) hx (by omega) heq).2
        omega
      rw [rows]
      refine ⟨hok', ?_, ?_⟩
      · intro y hy x hx
        by_cases hyn : y = n
        · subst hyn
          rw [hrow x hx, hrest _ fun y' hy' x' hx' => hfresh y' hy' x' hx' x hx]
        · rw [hothers _ fun x' hx' heq => hfresh y (by omega) x hx x' hx' heq.symm,
            hdone y (by omega) x hx]
      · intro i hi
        rw [hothers i fun x hx => hi n (by omega) x hx,
          hrest i fun y hy x hx => hi y (by omega) x hx]

end Loops

end Bits
