/-
Lines and circles in steps of one.

A line goes from the origin to `(a, b)` one pixel at a time.  The walk keeps no account of
how far it is from the line; that is `err`, and it follows from where the walk is.  In each
turn it may go to the right, and then, from there, up.  `trail` says where it is after `k`
turns.  If the line is steep that is the pixel nearest to the line in row `k`
(`step_steep`).  If it is flat the second decision comes from one column further on, and the
walk is at the height of the next column, or as near to it as it could get
(`step_flat`); between the diagonal and half of it, it stops one pixel short of its end.

A circle is walked from the top to the diagonal.  The walk stays in its row or goes down by
one in each column, and it is where it should be, `rim`, as long as it is above the diagonal
(`rim_succ`).
-/
import Mathlib.Data.Nat.Find
import Mathlib.Tactic.Ring
import Mathlib.Tactic.Linarith

namespace Bresenham

section Line

variable (a b : Nat)

/-- The account of the error at a pixel. -/
def err (w : Nat × Nat) : Int := a * (w.2 + 1) - b * (w.1 + 1)

/-- To the right, unless the walk is far above the line. -/
def stepRight (w : Nat × Nat) : Option (Nat × Nat) :=
  if 2 * err a b w ≥ -b then if w.1 = a then none else some (w.1 + 1, w.2) else some w

/-- Up, unless it is far below. -/
def stepUp (w : Nat × Nat) : Option (Nat × Nat) :=
  if 2 * err a b w ≤ a then if w.2 = b then none else some (w.1, w.2 + 1) else some w

/-- One turn. -/
def step (w : Nat × Nat) : Option (Nat × Nat) := (stepRight a b w).bind (stepUp a b)

/-- `n / d`, rounded to the nearest. -/
def nearest (n d : Nat) : Nat := (2 * n + d) / (2 * d)

/-- The number of turns before the last. -/
def turns : Nat := if a < b then b else if b < a ∧ a ≤ 2 * b then a - 1 else a

/-- Where the walk is after `k` turns. -/
def trail (k : Nat) : Nat × Nat :=
  if a < b then (nearest (a * k) b, k) else (k, min k (nearest (b * (k + 1)) a))

variable {a b}

theorem le_nearest_iff {m n d : Nat} (hd : 0 < d) : m ≤ nearest n d ↔ 2 * d * m ≤ 2 * n + d := by
  rw [nearest, Nat.le_div_iff_mul_le (by omega), Nat.mul_comm]

theorem nearest_lt_iff {m n d : Nat} (hd : 0 < d) : nearest n d < m ↔ 2 * n + d < 2 * d * m := by
  rw [← Nat.not_le, le_nearest_iff hd, Nat.not_le]

theorem nearest_mul (n : Nat) {d : Nat} (hd : 0 < d) : nearest (n * d) d = n := by
  refine Nat.le_antisymm (Nat.le_of_lt_succ ?_) ?_
  · rw [nearest_lt_iff hd]
    nlinarith
  · rw [le_nearest_iff hd]
    nlinarith

theorem nearest_mono {m n d : Nat} (hd : 0 < d) (h : m ≤ n) : nearest m d ≤ nearest n d := by
  rw [le_nearest_iff hd]
  have := (le_nearest_iff hd).mp (Nat.le_refl (nearest m d))
  omega

/-- One more part of a whole makes at most one more. -/
theorem nearest_add_le {c n d : Nat} (hd : 0 < d) (h : c ≤ d) :
    nearest (n + c) d ≤ nearest n d + 1 := by
  refine Nat.le_of_lt_succ ((nearest_lt_iff hd).mpr ?_)
  have := (nearest_lt_iff hd).mp (Nat.lt_succ_self (nearest n d))
  rw [Nat.mul_succ] at this ⊢
  rw [Nat.mul_succ]
  omega

/-- The walk goes to the right where the next row is nearer to the next column. -/
theorem right_iff (hb : 0 < b) (w : Nat × Nat) :
    2 * err a b w ≥ -b ↔ w.1 < nearest (a * (w.2 + 1)) b := by
  rw [Nat.lt_iff_add_one_le, le_nearest_iff hb, err]
  constructor
  · intro h
    zify
    nlinarith
  · intro h
    zify at h
    nlinarith

/-- And up where this column is nearer to the next row. -/
theorem up_iff (ha : 0 < a) (w : Nat × Nat) :
    2 * err a b w ≤ a ↔ w.2 < nearest (b * (w.1 + 1)) a := by
  rw [Nat.lt_iff_add_one_le, le_nearest_iff ha, err]
  constructor
  · intro h
    zify
    nlinarith
  · intro h
    zify at h
    nlinarith

/-- In a steep line the walk goes up every turn. -/
theorem step_steep (h : a < b) {k : Nat} (hk : k ≤ b) :
    step a b (trail a b k) = if k < b then some (trail a b (k + 1)) else none := by
  have hb : 0 < b := by omega
  have hnow : trail a b k = (nearest (a * k) b, k) := if_pos h
  have hnext : trail a b (k + 1) = (nearest (a * (k + 1)) b, k + 1) := if_pos h
  have hend : nearest (a * b) b = a := nearest_mul a hb
  have hmono : nearest (a * k) b ≤ nearest (a * (k + 1)) b :=
    nearest_mono hb (Nat.mul_le_mul_left a (Nat.le_succ k))
  have hsucc : nearest (a * (k + 1)) b ≤ nearest (a * k) b + 1 := by
    rw [Nat.mul_succ]
    exact nearest_add_le hb h.le
  -- From the new column the row is always too low.
  have hup : 2 * err a b (nearest (a * (k + 1)) b, k) ≤ a := by
    have hfar := (nearest_lt_iff hb).mp (Nat.lt_succ_self (nearest (a * (k + 1)) b))
    rw [err]
    zify at hfar
    nlinarith
  by_cases hlast : k < b
  · have hin : nearest (a * (k + 1)) b ≤ a :=
      (nearest_mono hb (Nat.mul_le_mul_left a hlast)).trans hend.le
    have hright : stepRight a b (nearest (a * k) b, k) = some (nearest (a * (k + 1)) b, k) := by
      rw [stepRight]
      by_cases hgo : nearest (a * k) b < nearest (a * (k + 1)) b
      · rw [if_pos ((right_iff hb _).mpr hgo), if_neg (by dsimp only; omega)]
        dsimp only
        rw [show nearest (a * k) b + 1 = nearest (a * (k + 1)) b by omega]
      · rw [if_neg (fun hc => hgo ((right_iff hb _).mp hc)),
          show nearest (a * k) b = nearest (a * (k + 1)) b by omega]
    rw [if_pos hlast, step, hnow, hright, hnext, Option.bind_some, stepUp, if_pos hup,
      if_neg (by dsimp only; omega)]
  · obtain rfl : k = b := by omega
    rw [if_neg hlast, step, hnow, hend, stepRight]
    split
    · rw [if_pos rfl]
      rfl
    · have hhere : 2 * err a k (a, k) ≤ a := by
        rw [err]
        zify at h
        nlinarith
      rw [Option.bind_some, stepUp, if_pos hhere, if_pos rfl]

/-- In a flat line it goes to the right every turn. -/
theorem step_flat (h : b ≤ a) {k : Nat} (hk : k ≤ turns a b) :
    step a b (trail a b k) = if k < turns a b then some (trail a b (k + 1)) else none := by
  have hnow : ∀ k, trail a b k = (k, min k (nearest (b * (k + 1)) a)) := fun k =>
    if_neg (Nat.not_lt.mpr h)
  have hturns : turns a b = if b < a ∧ a ≤ 2 * b then a - 1 else a := if_neg (Nat.not_lt.mpr h)
  by_cases ha : a = 0
  · subst ha
    obtain rfl : b = 0 := by omega
    obtain rfl : k = 0 := by simpa [turns] using hk
    rfl
  have hpos : 0 < a := by omega
  have hmono : nearest (b * (k + 1)) a ≤ nearest (b * (k + 1 + 1)) a :=
    nearest_mono hpos (Nat.mul_le_mul_left b (Nat.le_succ _))
  have hsucc : nearest (b * (k + 1 + 1)) a ≤ nearest (b * (k + 1)) a + 1 := by
    rw [Nat.mul_succ]
    exact nearest_add_le hpos h
  have hend : nearest (b * a) a = b := nearest_mul b hpos
  -- The walk is never far above the line.
  have hright : 2 * err a b (k, min k (nearest (b * (k + 1)) a)) ≥ -b := by
    have hfar := (nearest_lt_iff hpos).mp (Nat.lt_succ_self (nearest (b * (k + 1)) a))
    rw [err]
    zify at hfar h
    rcases Nat.le_total k (nearest (b * (k + 1)) a) with hle | hle
    · rw [Nat.min_eq_left hle]
      nlinarith
    · rw [Nat.min_eq_right hle]
      nlinarith
  rw [hnow k, step, stepRight, if_pos hright]
  dsimp only
  have hle : turns a b ≤ a := by
    rw [hturns]
    split <;> omega
  by_cases hka : k = a
  · rw [if_pos hka, if_neg (by omega)]
    rfl
  rw [if_neg hka, Option.bind_some]
  have hgoes : (min k (nearest (b * (k + 1)) a) < nearest (b * (k + 1 + 1)) a →
      min k (nearest (b * (k + 1)) a) ≠ b) →
      stepUp a b (k + 1, min k (nearest (b * (k + 1)) a)) = some (trail a b (k + 1)) := by
    intro hne
    rw [stepUp, hnow]
    by_cases hgo : min k (nearest (b * (k + 1)) a) < nearest (b * (k + 1 + 1)) a
    · rw [if_pos ((up_iff hpos _).mpr hgo), if_neg (hne hgo)]
      refine congrArg some (Prod.ext rfl ?_)
      dsimp only
      omega
    · rw [if_neg (fun hc => hgo ((up_iff hpos _).mp hc))]
      refine congrArg some (Prod.ext rfl ?_)
      dsimp only
      omega
  by_cases hk' : k + 1 < a
  · have hin : nearest (b * (k + 1 + 1)) a ≤ b :=
      (nearest_mono hpos (Nat.mul_le_mul_left b hk')).trans hend.le
    have hlast : k < turns a b := by
      rw [hturns]
      split <;> omega
    rw [if_pos hlast]
    exact hgoes (by omega)
  · obtain rfl : a = k + 1 := by omega
    -- Behind the last column the line goes on, and may be nearer to the row above its end.
    have hover : b < nearest (b * (k + 1 + 1)) (k + 1) ↔ k + 1 ≤ 2 * b := by
      rw [Nat.lt_iff_add_one_le, le_nearest_iff hpos]
      constructor <;> intro h' <;> nlinarith
    rw [hend] at hgoes ⊢
    by_cases hshort : b < k + 1 ∧ k + 1 ≤ 2 * b
    · have hlast : ¬ k < turns (k + 1) b := by
        rw [hturns, if_pos hshort]
        omega
      have hmin : min k b = b := by omega
      rw [if_neg hlast, hmin, stepUp, if_pos ((up_iff hpos _).mpr (hover.mpr hshort.2)), if_pos rfl]
    · have hlast : k < turns (k + 1) b := by
        rw [hturns, if_neg hshort]
        omega
      rw [if_pos hlast]
      exact hgoes (by omega)

/-- **Where the walk is, turn by turn.** -/
theorem step_trail {k : Nat} (hk : k ≤ turns a b) :
    step a b (trail a b k) = if k < turns a b then some (trail a b (k + 1)) else none := by
  by_cases h : a < b
  · have hturns : turns a b = b := if_pos h
    rw [hturns] at hk ⊢
    exact step_steep h hk
  · exact step_flat (Nat.not_lt.mp h) hk

theorem trail_zero : trail a b 0 = (0, 0) := by
  unfold trail
  split
  · have hb : 0 < b := by omega
    have hzero : nearest (a * 0) b = 0 := by
      rw [nearest, Nat.mul_zero, Nat.mul_zero, Nat.zero_add]
      exact Nat.div_eq_of_lt (by omega)
    rw [hzero]
  · rw [Nat.zero_min]

theorem turns_le : turns a b ≤ a + b := by
  unfold turns
  split_ifs <;> omega

/-- The walk stays between its ends. -/
theorem trail_le {k : Nat} (hk : k ≤ turns a b) : (trail a b k).1 ≤ a ∧ (trail a b k).2 ≤ b := by
  unfold turns at hk
  unfold trail
  by_cases h : a < b
  · rw [if_pos h] at hk ⊢
    have hb : 0 < b := by omega
    exact ⟨(nearest_mono hb (Nat.mul_le_mul_left a hk)).trans (nearest_mul a hb).le, hk⟩
  · rw [if_neg h] at hk ⊢
    have hka : k ≤ a := by
      split at hk <;> omega
    refine ⟨hka, ?_⟩
    dsimp only
    by_cases hlt : k + 1 ≤ a
    · have hpos : 0 < a := by omega
      have := (nearest_mono hpos (Nat.mul_le_mul_left b hlt)).trans (nearest_mul b hpos).le
      omega
    · -- The last column is reached on the diagonal or on a line that is flatter than half of it.
      obtain rfl : k = a := by omega
      have hend : ¬ (b < k ∧ k ≤ 2 * b) := by
        intro hc
        rw [if_pos hc] at hk
        omega
      by_cases hdiag : k ≤ b
      · omega
      · have hsteep : 2 * b < k := by omega
        have hlow : nearest (b * (k + 1)) k < b + 1 := by
          rw [nearest_lt_iff (by omega)]
          nlinarith
        omega

end Line

section Circle

/-- The row of column `x`: the highest whose square is nearer to that of the circle's than the
square of the row below. -/
def rim (r x : Nat) : Nat :=
  Nat.findGreatest (fun y => y * y + (y - 1) * (y - 1) + 2 * (x * x) < 2 * (r * r)) r

/-- What the walk decides by: how far the next column is outside, for this row and the one
below together. -/
def excess (r x y : Nat) : Int := 2 * (x + 1) ^ 2 + y ^ 2 + (y - 1) ^ 2 - 2 * r ^ 2

variable {r x y : Nat}

theorem rim_le : rim r x ≤ r := Nat.findGreatest_le _

theorem succ_le_rim_iff :
    y + 1 ≤ rim r x ↔ (y + 1) * (y + 1) + y * y + 2 * (x * x) < 2 * (r * r) := by
  constructor
  · intro h
    have hrim : (rim r x) * (rim r x) + (rim r x - 1) * (rim r x - 1) + 2 * (x * x) < 2 * (r * r) :=
      Nat.findGreatest_of_ne_zero
        (P := fun y => y * y + (y - 1) * (y - 1) + 2 * (x * x) < 2 * (r * r)) (n := r)
        (m := rim r x) rfl (by omega)
    have htop := Nat.mul_le_mul h h
    have hbelow := Nat.mul_le_mul (Nat.le_sub_one_of_lt h) (Nat.le_sub_one_of_lt h)
    omega
  · intro h
    have hle : y + 1 ≤ r := by
      by_contra hc
      have := Nat.mul_le_mul (Nat.lt_of_not_le hc) (Nat.lt_of_not_le hc)
      have := Nat.mul_le_mul (Nat.le_of_lt_succ (Nat.lt_of_not_le hc))
        (Nat.le_of_lt_succ (Nat.lt_of_not_le hc))
      nlinarith
    exact Nat.le_findGreatest hle h

theorem lt_of_rim_pos (h : 0 < rim r x) : x < r := by
  have hin := succ_le_rim_iff.mp h
  by_contra hc
  have := Nat.mul_le_mul (Nat.not_lt.mp hc) (Nat.not_lt.mp hc)
  omega

theorem rim_zero : rim r 0 = r := by
  refine Nat.le_antisymm rim_le ?_
  cases r with
  | zero => exact Nat.zero_le _
  | succ r =>
      rw [succ_le_rim_iff]
      nlinarith

theorem rim_antitone {x'} (h : x ≤ x') : rim r x' ≤ rim r x := by
  cases hy : rim r x' with
  | zero => exact Nat.zero_le _
  | succ y =>
      have := Nat.mul_le_mul h h
      rw [succ_le_rim_iff]
      have := succ_le_rim_iff.mp hy.ge
      omega

/-- The walk decides as it should, and it is never more than a row away. -/
theorem rim_succ (h : x ≤ rim r x) :
    (excess r x (rim r x) < 0 → rim r (x + 1) = rim r x) ∧
    (0 ≤ excess r x (rim r x) → x + 1 ≤ rim r x - 1 → rim r (x + 1) = rim r x - 1) ∧
    (0 ≤ excess r x (rim r x) → rim r x - 1 < x + 1 → rim r (x + 1) < x + 1) := by
  have hmono : rim r (x + 1) ≤ rim r x := rim_antitone (Nat.le_succ x)
  cases hy : rim r x with
  | zero =>
      have hneg : ¬ excess r x 0 < 0 := by
        obtain rfl : x = 0 := by omega
        rw [rim_zero] at hy
        subst hy
        decide
      refine ⟨fun hc => absurd hc hneg, fun _ _ => by omega, fun _ _ => by omega⟩
  | succ y =>
      have hnow := succ_le_rim_iff.mp hy.ge
      have hnext : y + 1 ≤ rim r (x + 1) ↔ excess r x (y + 1) < 0 := by
        rw [succ_le_rim_iff, excess]
        zify
        constructor <;> intro h' <;> nlinarith
      refine ⟨fun hlt => ?_, fun hge hin => ?_, fun hge hout => ?_⟩
      · have := hnext.mpr hlt
        omega
      · have hlt : ¬ y + 1 ≤ rim r (x + 1) := fun hc => absurd (hnext.mp hc) (not_lt.mpr hge)
        have hle : y ≤ rim r (x + 1) := by
          cases y with
          | zero => exact Nat.zero_le _
          | succ y =>
              have hxy : x ≤ y := by omega
              rw [succ_le_rim_iff]
              nlinarith
        omega
      · have hlt : ¬ y + 1 ≤ rim r (x + 1) := fun hc => absurd (hnext.mp hc) (not_lt.mpr hge)
        omega

/-- The excess is small. -/
theorem excess_bounds (h : x ≤ rim r x) :
    -(4 * (rim r x : Int)) + 2 ≤ excess r x (rim r x) ∧ excess r x (rim r x) ≤ 4 * x + 3 := by
  cases hy : rim r x with
  | zero =>
      obtain rfl : x = 0 := by omega
      rw [rim_zero] at hy
      subst hy
      decide
  | succ y =>
      have hin := succ_le_rim_iff.mp hy.ge
      have hout : ¬ y + 1 + 1 ≤ rim r x := by omega
      rw [succ_le_rim_iff, Nat.not_lt] at hout
      rw [excess]
      zify at hin hout
      push_cast
      constructor <;> nlinarith

end Circle

end Bresenham
