/-
Numbers the way they stand in memory.

A word is its bytes, lowest first.  A mask picks bits of it, and a mask that is all ones
less another one picks just the bits the other leaves: taking `m` off a number and
masking with what is left of the ones after taking `m` off them are the same only when
the number has all the bits of `m`.
-/
import Mathlib.Algebra.Group.Nat.Defs
import EleDs.Lib.Bytes

namespace CMem

/-- The unsigned number a little-endian machine reads from some bytes. -/
def littleEndian : Bytes → Nat
  | [] => 0
  | b :: rest => b.toNat + 256 * littleEndian rest

/-- Halving looks at each bit but the lowest. -/
theorem and_halves (a b : Nat) :
    a &&& b = 2 * (a / 2 &&& b / 2) + (if a % 2 = 1 ∧ b % 2 = 1 then 1 else 0) := by
  have hdiv : (a &&& b) / 2 = a / 2 &&& b / 2 := Nat.and_div_two
  have hmod : (a &&& b) % 2 = 1 ↔ a % 2 = 1 ∧ b % 2 = 1 := Nat.and_mod_two_eq_one
  split
  · rename_i h
    have := hmod.mpr h
    omega
  · rename_i h
    have : ¬ (a &&& b) % 2 = 1 := fun hc => h (hmod.mp hc)
    omega

/-- The bits in a mask and the bits outside it make up the number. -/
theorem and_compl_add_and (n : Nat) : ∀ x m : Nat, x < 2 ^ n → m < 2 ^ n →
    (x &&& (2 ^ n - 1 - m)) + (x &&& m) = x := by
  induction n with
  | zero =>
      intro x m hx hm
      have hx0 : x = 0 := by omega
      simp [hx0]
  | succ n ih =>
      intro x m hx hm
      rw [Nat.pow_succ] at hx hm ⊢
      have hhalf := ih (x / 2) (m / 2) (by omega) (by omega)
      have hrest : (2 ^ n * 2 - 1 - m) / 2 = 2 ^ n - 1 - m / 2 := by omega
      have hbit : (2 ^ n * 2 - 1 - m) % 2 = 1 - m % 2 := by omega
      rw [and_halves x (2 ^ n * 2 - 1 - m), and_halves x m, hrest, hbit]
      rcases Nat.mod_two_eq_zero_or_one x with h | h <;>
        rcases Nat.mod_two_eq_zero_or_one m with h' | h' <;> simp [h, h'] <;> omega

/-- A mask of few bits does not see the others. -/
theorem add_mul_and {n x m : Nat} (high : Nat) (hx : x < 2 ^ n) (hm : m < 2 ^ n) :
    (x + 2 ^ n * high) &&& m = x &&& m := by
  have hlow : ∀ y, y &&& m = y % 2 ^ n &&& m := by
    intro y
    rw [← Nat.and_two_pow_sub_one_eq_mod, Nat.and_assoc, Nat.and_comm (2 ^ n - 1),
      Nat.and_two_pow_sub_one_of_lt_two_pow hm]
  rw [hlow (x + 2 ^ n * high), Nat.add_mul_mod_self_left, Nat.mod_eq_of_lt hx]

end CMem
