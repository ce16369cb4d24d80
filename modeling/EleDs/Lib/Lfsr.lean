/-
Registers that divide by a polynomial, a bit at a time.

The register moves down one place for each bit, and takes the polynomial in when the
bit that falls out is set.  A shift is linear in exclusive or, and a register whose low
bits are clear only moves down: so the bytes that are fed to it can be put together into
one word that is fed at once (`foldl_feed`), and what eight shifts make of the low byte
can stand in a table (`feed_eq`).  A polynomial with its top bit set loses nothing: two
registers that differ keep differing (`shift_injective`).
-/
import Mathlib.Logic.Function.Iterate

namespace Lfsr

variable {w : Nat} (poly : BitVec w)

/-- One bit, the lowest one first. -/
def shift (s : BitVec w) : BitVec w := if s.getLsbD 0 then (s >>> 1) ^^^ poly else s >>> 1

/-- One byte. -/
def feed (s : BitVec w) (b : BitVec 8) : BitVec w := (shift poly)^[8] (s ^^^ b.setWidth w)

/-- What is left in the register after some bytes, with the inversion at the end. -/
def crc (init xorout : BitVec w) (data : List (BitVec 8)) : BitVec w :=
  data.foldl (feed poly) init ^^^ xorout

/-! ### Shifts -/

theorem shift_xor (a b : BitVec w) : shift poly (a ^^^ b) = shift poly a ^^^ shift poly b := by
  simp only [shift, BitVec.getLsbD_xor, BitVec.ushiftRight_xor_distrib]
  cases a.getLsbD 0 <;> cases b.getLsbD 0 <;> simp
  · rw [BitVec.xor_assoc]
  · rw [BitVec.xor_assoc, BitVec.xor_comm (b >>> 1) poly, BitVec.xor_assoc]
  · rw [BitVec.xor_comm (b >>> 1) poly, ← BitVec.xor_assoc, BitVec.xor_assoc (a >>> 1),
      BitVec.xor_self, BitVec.xor_zero]

theorem shifts_xor (n : Nat) (a b : BitVec w) :
    (shift poly)^[n] (a ^^^ b) = (shift poly)^[n] a ^^^ (shift poly)^[n] b := by
  induction n with
  | zero => rfl
  | succ n ih => simp only [Function.iterate_succ_apply', ih, shift_xor]

/-- Bits that are clear fall out without a trace. -/
theorem shifts_of_clear {s : BitVec w} {n : Nat} (h : ∀ i < n, s.getLsbD i = false) :
    (shift poly)^[n] s = s >>> n := by
  induction n with
  | zero => simp
  | succ n ih =>
      have hlow : (s >>> n).getLsbD 0 = false := by
        rw [BitVec.getLsbD_ushiftRight, Nat.add_zero]
        exact h n (Nat.lt_succ_self n)
      rw [Function.iterate_succ_apply', ih fun i hi => h i (by omega), shift, hlow, if_neg (by simp),
        BitVec.shiftRight_add]

/-- A word moved up and shifted back, when none of it is lost on the way up. -/
theorem shifts_shiftLeft {s : BitVec w} {n : Nat} (h : ∀ i, w ≤ i + n → s.getLsbD i = false) :
    (shift poly)^[n] (s <<< n) = s := by
  rw [shifts_of_clear]
  · apply BitVec.eq_of_getLsbD_eq
    intro i hi
    rw [BitVec.getLsbD_ushiftRight, BitVec.getLsbD_shiftLeft]
    by_cases hfit : n + i < w
    · simp [hfit]
    · simp [hfit, h i (by omega)]
  · intro i hi
    simp [BitVec.getLsbD_shiftLeft, hi]

/-- **Nothing is lost when the polynomial has its top bit.** -/
theorem shift_injective {poly : BitVec w} (h : poly.getLsbD (w - 1) = true) :
    Function.Injective (shift poly) := by
  intro a b hab
  have hdiff : shift poly (a ^^^ b) = 0#w := by rw [shift_xor, hab, BitVec.xor_self]
  suffices hzero : a ^^^ b = 0#w from BitVec.xor_eq_zero_iff.mp hzero
  generalize a ^^^ b = d at hdiff
  have hw : w - 1 < w := BitVec.lt_of_getLsbD h
  apply BitVec.eq_of_getLsbD_eq
  intro i hi
  rw [BitVec.getLsbD_zero]
  by_cases hlow : d.getLsbD 0 = true
  · -- the polynomial would have to be `d >>> 1`, which has no top bit
    rw [shift, if_pos hlow] at hdiff
    have htop := congrArg (fun x => x.getLsbD (w - 1)) hdiff
    simp only [BitVec.getLsbD_xor, BitVec.getLsbD_ushiftRight, h] at htop
    rw [BitVec.getLsbD_of_ge d (1 + (w - 1)) (by omega)] at htop
    simp at htop
  · rw [shift, if_neg hlow] at hdiff
    cases i with
    | zero => simpa using hlow
    | succ i =>
        have hbit := congrArg (fun x => x.getLsbD i) hdiff
        simpa [BitVec.getLsbD_ushiftRight, Nat.add_comm] using hbit

/-! ### Bytes -/

/-- **The low byte can be looked up, and the rest moves down.** -/
theorem feed_eq (s : BitVec w) (b : BitVec 8) :
    feed poly s b = (shift poly)^[8] ((s ^^^ b.setWidth w) &&& 0xFF#w) ^^^ (s >>> 8) := by
  have hmask : ∀ i, (0xFF#w).getLsbD i = (decide (i < w) && decide (i < 8)) := by
    intro i
    rw [BitVec.getLsbD_ofNat, show (0xFF : Nat) = 2 ^ 8 - 1 from rfl, Nat.testBit_two_pow_sub_one]
  generalize hx : s ^^^ b.setWidth w = x
  have hsplit : x = (x &&& 0xFF#w) ^^^ (x &&& ~~~0xFF#w) := by
    apply BitVec.eq_of_getLsbD_eq
    intro i hi
    simp only [BitVec.getLsbD_xor, BitVec.getLsbD_and, BitVec.getLsbD_not, hmask, hi]
    cases x.getLsbD i <;> cases decide (i < 8) <;> rfl
  have hclear : ∀ i < 8, (x &&& ~~~0xFF#w).getLsbD i = false := by
    intro i hi
    simp only [BitVec.getLsbD_and, BitVec.getLsbD_not, hmask]
    by_cases hiw : i < w
    · simp [hi, hiw]
    · simp [hiw]
  have hrest : (x &&& ~~~0xFF#w) >>> 8 = s >>> 8 := by
    apply BitVec.eq_of_getLsbD_eq
    intro i hi
    simp only [BitVec.getLsbD_ushiftRight, BitVec.getLsbD_and, BitVec.getLsbD_not, hmask, ← hx,
      BitVec.getLsbD_xor, BitVec.getLsbD_setWidth]
    by_cases hiw : 8 + i < w
    · simp [hiw]
    · simp [hiw, BitVec.getLsbD_of_ge s (8 + i) (by omega)]
  calc feed poly s b = (shift poly)^[8] x := by rw [feed, hx]
    _ = (shift poly)^[8] ((x &&& 0xFF#w) ^^^ (x &&& ~~~0xFF#w)) := by rw [← hsplit]
    _ = (shift poly)^[8] (x &&& 0xFF#w) ^^^ (s >>> 8) := by
      rw [shifts_xor, shifts_of_clear poly hclear, hrest]

/-- Some bytes as one word, the first one lowest. -/
def word : List (BitVec 8) → BitVec w
  | [] => 0#w
  | b :: rest => b.setWidth w ^^^ (word rest <<< 8)

/-- There is nothing above the last byte. -/
theorem word_high {bs : List (BitVec 8)} {i : Nat} (h : 8 * bs.length ≤ i) :
    (word bs : BitVec w).getLsbD i = false := by
  induction bs generalizing i with
  | nil => simp [word]
  | cons b rest ih =>
      rw [List.length_cons] at h
      rw [word, BitVec.getLsbD_xor, BitVec.getLsbD_setWidth, BitVec.getLsbD_of_ge b i (by omega),
        BitVec.getLsbD_shiftLeft, ih (by omega)]
      simp

theorem word_injective {as bs : List (BitVec 8)} (hlen : as.length = bs.length)
    (hfit : 8 * as.length ≤ w) (h : (word as : BitVec w) = word bs) : as = bs := by
  induction as generalizing bs with
  | nil => exact (List.length_eq_zero_iff.mp hlen.symm).symm
  | cons a as ih =>
      cases bs with
      | nil => simp at hlen
      | cons b bs =>
          simp only [List.length_cons] at hlen hfit
          have hbit := fun i => congrArg (fun x : BitVec w => x.getLsbD i) h
          simp only [word, BitVec.getLsbD_xor, BitVec.getLsbD_setWidth,
            BitVec.getLsbD_shiftLeft] at hbit
          have hhead : a = b := by
            apply BitVec.eq_of_getLsbD_eq
            intro i hi
            simpa [hi, show i < w by omega] using hbit i
          have htail : (word as : BitVec w) = word bs := by
            apply BitVec.eq_of_getLsbD_eq
            intro i hi
            by_cases hlow : i + 8 < w
            · have := hbit (i + 8)
              simpa [hlow, show ¬ i + 8 < 8 by omega, BitVec.getLsbD_of_ge] using this
            · rw [word_high (by omega), word_high (by omega)]
          rw [hhead, ih (by omega) (by omega) htail]

/-- **Bytes that fit the register are fed as one word.** -/
theorem foldl_feed (bs : List (BitVec 8)) (s : BitVec w) (hfit : 8 * bs.length ≤ w) :
    bs.foldl (feed poly) s = (shift poly)^[8 * bs.length] (s ^^^ word bs) := by
  induction bs generalizing s with
  | nil => simp [word]
  | cons b rest ih =>
      rw [List.length_cons] at hfit
      have hback : (shift poly)^[8] (word rest <<< 8 : BitVec w) = word rest :=
        shifts_shiftLeft poly fun i hi => word_high (by omega)
      have hone : feed poly s b ^^^ word rest = (shift poly)^[8] (s ^^^ word (b :: rest)) := by
        rw [word, ← BitVec.xor_assoc, shifts_xor, hback, feed]
      rw [List.foldl_cons, ih _ (by omega), hone, ← Function.iterate_add_apply, List.length_cons,
        Nat.mul_add, Nat.mul_one]

theorem foldl_feed_injective {poly : BitVec w} (h : poly.getLsbD (w - 1) = true)
    (bs : List (BitVec 8)) : Function.Injective (bs.foldl (feed poly)) := by
  induction bs with
  | nil => exact fun _ _ hab => hab
  | cons b rest ih =>
      intro s t hst
      have hfed := (shift_injective h).iterate 8 (ih hst)
      exact (BitVec.xor_left_inj _).mp hfed

/-- **A burst no longer than the register shows in what is left.** -/
theorem crc_burst {poly : BitVec w} (h : poly.getLsbD (w - 1) = true) (init xorout : BitVec w)
    {before as bs after : List (BitVec 8)} (hlen : as.length = bs.length) (hfit : 8 * as.length ≤ w)
    (hne : as ≠ bs) :
    crc poly init xorout (before ++ as ++ after) ≠ crc poly init xorout (before ++ bs ++ after) := by
  intro heq
  simp only [crc, List.foldl_append] at heq
  have hblock := foldl_feed_injective h after ((BitVec.xor_left_inj _).mp heq)
  rw [foldl_feed poly as _ hfit, foldl_feed poly bs _ (by omega), hlen] at hblock
  have hword := (shift_injective h).iterate _ hblock
  exact hne (word_injective hlen hfit ((BitVec.xor_right_inj _).mp hword))

end Lfsr
