/-
Going from place to place until there is nowhere to go.

A partial function says from each place where to go next.  From a start it either comes to a
place it does not lead on from, or goes on for ever.  If it leads on from finitely many places
only, it goes on for ever just when it comes back to a place it has been at (`ends_iff`).
-/
import Mathlib.Data.Set.Finite.Basic

namespace Orbit

variable {α : Type} (f : α → Option α)

/-- The place after `n` steps from `a`. -/
def orbit (a : α) : Nat → Option α
  | 0 => some a
  | n + 1 => (orbit a n).bind f

variable {f} {a : α}

theorem orbit_add (a : α) (m n : Nat) :
    orbit f a (m + n) = (orbit f a m).bind fun b => orbit f b n := by
  induction n with
  | zero =>
      rw [Nat.add_zero]
      cases orbit f a m <;> rfl
  | succ n ih =>
      rw [← Nat.add_assoc, orbit, ih]
      cases orbit f a m <;> rfl

theorem orbit_stays_none {m n : Nat} (h : orbit f a m = none) (hle : m ≤ n) :
    orbit f a n = none := by
  obtain ⟨k, rfl⟩ := Nat.exists_eq_add_of_le hle
  rw [orbit_add, h]
  rfl

/-- A place that is come back to is come back to again and again. -/
theorem orbit_returns {b : α} {d : Nat} (h : orbit f b d = some b) (k : Nat) :
    orbit f b (k * d) = some b := by
  induction k with
  | zero => simp [orbit]
  | succ k ih => rw [Nat.succ_mul, orbit_add, ih, Option.bind_some, h]

/-- **Going on ends just when no place is come back to.** -/
theorem ends_iff (hfin : {b | (f b).isSome = true}.Finite) (a : α) :
    (∃ n, orbit f a n = none) ↔
      ∀ i j b, i < j → orbit f a i = some b → orbit f a j ≠ some b := by
  constructor
  · rintro ⟨n, hn⟩ i j b hij hi hj
    have hback : orbit f b (j - i) = some b := by
      have hsplit : i + (j - i) = j := by omega
      rw [← hsplit, orbit_add, hi, Option.bind_some] at hj
      exact hj
    have hfar : orbit f a (i + n * (j - i)) = some b := by
      rw [orbit_add, hi, Option.bind_some]
      exact orbit_returns hback n
    have hlate : n ≤ i + n * (j - i) := by
      have := Nat.le_mul_of_pos_right n (show 0 < j - i by omega)
      omega
    rw [orbit_stays_none hn hlate] at hfar
    cases hfar
  · intro hnew
    by_contra hgoes
    push Not at hgoes
    choose g hg using fun n => Option.ne_none_iff_exists'.mp (hgoes n)
    have hleads : ∀ n, g n ∈ {b | (f b).isSome = true} := by
      intro n
      have hnext := hg (n + 1)
      rw [orbit, hg n, Option.bind_some] at hnext
      simp [hnext]
    have hinj : Function.Injective g := by
      intro i j hij
      rcases Nat.lt_trichotomy i j with hlt | heq | hgt
      · exact absurd (by rw [hg j, hij]) (hnew i j (g i) hlt (hg i))
      · exact heq
      · exact absurd (by rw [hg i, hij]) (hnew j i (g j) hgt (hg j))
    exact Set.infinite_of_injective_forall_mem hinj hleads hfin

end Orbit
