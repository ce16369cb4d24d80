/-
Years and their days.

The years from one on follow each other without a gap, so a day is in exactly one of them
(`year_unique`).
-/
import Mathlib.Order.Basic

namespace Gregorian

def leap (y : Nat) : Bool := y % 4 = 0 && (y % 100 ≠ 0 || y % 400 = 0)

def length (y : Nat) : Nat := if leap y then 366 else 365

theorem length_bounds (y : Nat) : 365 ≤ length y ∧ length y ≤ 366 := by
  unfold length
  split <;> omega

/-- The days of the first `k` years from `first` on. -/
def daysBefore (first : Nat) : Nat → Nat
  | 0 => 0
  | k + 1 => daysBefore first k + length (first + k)

variable {first : Nat}

theorem daysBefore_mono {k k' : Nat} (h : k ≤ k') : daysBefore first k ≤ daysBefore first k' := by
  induction k' with
  | zero =>
      obtain rfl : k = 0 := by omega
      exact Nat.le_refl _
  | succ k' ih =>
      rcases Nat.lt_or_eq_of_le h with hlt | rfl
      · have := ih (by omega)
        rw [daysBefore]
        omega
      · exact Nat.le_refl _

/-- A day is in one year only. -/
theorem year_unique {d k k' : Nat} (h : daysBefore first k ≤ d) (hlt : d < daysBefore first (k + 1))
    (h' : daysBefore first k' ≤ d) (hlt' : d < daysBefore first (k' + 1)) : k = k' := by
  rcases Nat.lt_trichotomy k k' with hless | heq | hmore
  · have : daysBefore first (k + 1) ≤ daysBefore first k' := daysBefore_mono hless
    omega
  · exact heq
  · have : daysBefore first (k' + 1) ≤ daysBefore first k := daysBefore_mono hmore
    omega

end Gregorian
