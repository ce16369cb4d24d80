/-
Numbers of limited precision.

A binary format keeps `digits` binary digits and exponents from `emin` to `emax`; what is
too small for a full number of digits keeps as many as there are above the last place of
`emin`, and what is too large becomes `2 ^ (emax + 1)`, which no number of the format is.
Rounding goes to the nearest number, and to the even one of two that are equally near.

The main result is `round_eq_of_near`: whatever lies close enough to a number of the
format rounds to it.  Close enough is a fraction of the number itself, `2 ^ -(digits + 1)`,
so that a decimal with enough digits always finds its way back (`round_scientific`).
-/
import Mathlib.Data.Int.Log
import Mathlib.Data.Rat.Floor
import Mathlib.Algebra.Order.Field.Power
import Mathlib.Tactic.Linarith
import Mathlib.Tactic.FieldSimp
import Mathlib.Tactic.Positivity

namespace Rounding

/-! ### Integers -/

/-- The nearest integer, and the even one of two that are equally near. -/
def roundEven (q : ℚ) : ℤ :=
  if q - ⌊q⌋ < 1 / 2 ∨ (q - ⌊q⌋ = 1 / 2 ∧ ⌊q⌋ % 2 = 0) then ⌊q⌋ else ⌊q⌋ + 1

theorem abs_sub_roundEven (q : ℚ) : |q - roundEven q| ≤ 1 / 2 := by
  have hlo := Int.floor_le q
  have hhi := Int.lt_floor_add_one q
  unfold roundEven
  split
  · rename_i h
    rw [abs_of_nonneg (by linarith)]
    rcases h with h | h
    · exact h.le
    · exact h.1.le
  · rename_i h
    have hge : 1 / 2 ≤ q - ⌊q⌋ := by
      by_contra hc
      exact h (Or.inl (by linarith))
    push_cast
    rw [abs_of_nonpos (by linarith)]
    linarith

theorem roundEven_eq {q : ℚ} {n : ℤ} (h : |q - n| < 1 / 2) : roundEven q = n := by
  have hr := abs_sub_roundEven q
  have hlt : |((roundEven q - n : ℤ) : ℚ)| < 1 := by
    push_cast
    calc |(roundEven q : ℚ) - n| = |(q - n) - (q - roundEven q)| := by ring_nf
      _ ≤ |q - n| + |q - roundEven q| := abs_sub _ _
      _ < 1 := by linarith
  have hint : |roundEven q - n| < 1 := by exact_mod_cast hlt
  have := Int.abs_lt_one_iff.mp hint
  omega

theorem le_roundEven {q : ℚ} {n : ℤ} (h : n ≤ q) : n ≤ roundEven q := by
  have := (abs_le.mp (abs_sub_roundEven q)).2
  have hlt : (n : ℚ) < roundEven q + 1 := by linarith
  have : n < roundEven q + 1 := by exact_mod_cast hlt
  omega

theorem roundEven_le {q : ℚ} {n : ℤ} (h : q ≤ n) : roundEven q ≤ n := by
  have := (abs_le.mp (abs_sub_roundEven q)).1
  have hlt : (roundEven q : ℚ) < n + 1 := by linarith
  have : roundEven q < n + 1 := by exact_mod_cast hlt
  omega

/-! ### Binary formats -/

/-- A binary format. -/
structure Format where
  digits : ℕ
  emin : ℤ
  emax : ℤ
  digits_pos : 0 < digits
  emin_le : emin ≤ emax

namespace Format

variable (F : Format)

/-- The exponent a positive number is kept with. -/
def exponent (q : ℚ) : ℤ := max (Int.log 2 q) F.emin

/-- What the last place of a positive number counts. -/
def ulp (q : ℚ) : ℚ := 2 ^ (F.exponent q - (F.digits - 1))

/-- Rounding of what is not negative. -/
def magnitude (q : ℚ) : ℚ := min (roundEven (q / F.ulp q) * F.ulp q) (2 ^ (F.emax + 1))

/-- Rounding to the format. -/
def round (q : ℚ) : ℚ := if q < 0 then -F.magnitude (-q) else F.magnitude q

/-- The number is one of the format. -/
def Number (d : ℚ) : Prop :=
  ∃ (m : ℕ) (e : ℤ), |d| = m * 2 ^ (e - (F.digits - 1)) ∧ m < 2 ^ F.digits ∧
    F.emin ≤ e ∧ e ≤ F.emax

variable {F}

theorem ulp_pos (q : ℚ) : 0 < F.ulp q := zpow_pos (by norm_num) _

theorem Number.neg {d : ℚ} (h : F.Number d) : F.Number (-d) := by
  obtain ⟨m, e, hd, hrest⟩ := h
  exact ⟨m, e, by rwa [abs_neg], hrest⟩

/-- An integer of at most so many digits. -/
theorem number_intCast {n : ℤ} (h : n.natAbs < 2 ^ F.digits) (hmin : F.emin ≤ F.digits - 1)
    (hmax : F.digits - 1 ≤ F.emax) : F.Number n := by
  refine ⟨n.natAbs, F.digits - 1, ?_, h, hmin, hmax⟩
  rw [sub_self, zpow_zero, mul_one, ← Int.cast_abs, ← Int.natCast_natAbs]
  rfl

/-- A power of two as so many last places of an exponent. -/
theorem two_zpow_eq (e : ℤ) : (2 : ℚ) ^ (e + 1) = 2 ^ F.digits * 2 ^ (e - (F.digits - 1)) := by
  rw [← zpow_natCast, ← zpow_add₀ (by norm_num : (2 : ℚ) ≠ 0)]
  congr 1
  ring

/-- The same power as the first number of its exponent. -/
theorem two_zpow_bottom {p : ℕ} (hp : F.digits = p + 1) (e : ℤ) :
    (2 : ℚ) ^ e = (2 ^ p : ℕ) * 2 ^ (e - (F.digits - 1)) := by
  rw [hp]
  push_cast
  rw [← zpow_natCast, ← zpow_add₀ (by norm_num : (2 : ℚ) ≠ 0)]
  congr 1
  ring

theorem lt_two_zpow {q : ℚ} : q < 2 ^ (F.exponent q + 1) := by
  refine (Int.lt_zpow_succ_log_self (by norm_num : 1 < 2) q).trans_le ?_
  have : (2 : ℚ) ^ (Int.log 2 q + 1) ≤ 2 ^ (F.exponent q + 1) :=
    zpow_le_zpow_right₀ (by norm_num) (by simp [exponent])
  exact_mod_cast this

/-- A positive number of the format in last places of its own. -/
theorem Number.eq_mul_ulp {d : ℚ} (h : F.Number d) (hpos : 0 < d) :
    ∃ m : ℕ, d = m * F.ulp d ∧ m < 2 ^ F.digits := by
  obtain ⟨m, e, hd, hm, hmin, -⟩ := h
  rw [abs_of_pos hpos] at hd
  have hlt : d < 2 ^ (e + 1) := by
    rw [hd, two_zpow_eq (F := F)]
    exact mul_lt_mul_of_pos_right (by exact_mod_cast hm) (by positivity)
  have hlog : Int.log 2 d < e + 1 :=
    (Int.lt_zpow_iff_log_lt (by norm_num) hpos).mp (by exact_mod_cast hlt)
  have hle : F.exponent d ≤ e := max_le (by omega) hmin
  obtain ⟨k, hk⟩ := Int.le.dest hle
  have hshift : (2 : ℚ) ^ (e - (F.digits - 1)) = 2 ^ k * F.ulp d := by
    rw [ulp, ← zpow_natCast (2 : ℚ) k, ← zpow_add₀ (by norm_num : (2 : ℚ) ≠ 0)]
    congr 1
    omega
  have hd' : d = ((m * 2 ^ k : ℕ) : ℚ) * F.ulp d := by
    push_cast
    rw [mul_assoc, ← hshift]
    exact hd
  refine ⟨m * 2 ^ k, hd', ?_⟩
  have hsize : d < 2 ^ F.digits * F.ulp d := by
    rw [ulp, ← two_zpow_eq]
    exact lt_two_zpow
  have : ((m * 2 ^ k : ℕ) : ℚ) < 2 ^ F.digits :=
    lt_of_mul_lt_mul_right (hd'.symm.trans_lt hsize) (ulp_pos d).le
  exact_mod_cast this

theorem Number.lt_emax {d : ℚ} (h : F.Number d) : |d| < 2 ^ (F.emax + 1) := by
  obtain ⟨m, e, hd, hm, -, hmax⟩ := h
  calc |d| = m * 2 ^ (e - (F.digits - 1)) := hd
    _ < 2 ^ F.digits * 2 ^ (e - (F.digits - 1)) :=
        mul_lt_mul_of_pos_right (by exact_mod_cast hm) (by positivity)
    _ = 2 ^ (e + 1) := (two_zpow_eq e).symm
    _ ≤ 2 ^ (F.emax + 1) := zpow_le_zpow_right₀ (by norm_num) (by omega)

theorem magnitude_eq {d x : ℚ} {n : ℕ} (hd : F.Number d) (hpos : 0 < d)
    (hn : d = n * F.ulp x) (hnear : |x - d| < F.ulp x / 2) : F.magnitude x = d := by
  have hu := ulp_pos (F := F) x
  have hround : roundEven (x / F.ulp x) = n := by
    refine roundEven_eq ?_
    have hquot : x / F.ulp x - (n : ℤ) = (x - d) / F.ulp x := by
      rw [hn]
      field_simp
      simp
    rw [hquot, abs_div, abs_of_pos hu, div_lt_iff₀ hu]
    linarith
  have hlt := hd.lt_emax
  rw [abs_of_pos hpos] at hlt
  rw [magnitude, hround, Int.cast_natCast, ← hn, min_eq_left hlt.le]

/-- The exponent of what lies just below a power of two is one less. -/
theorem exponent_below {e : ℤ} {x : ℚ} (hlo : 2 ^ (e - 1) ≤ x) (hhi : x < 2 ^ e)
    (hmin : F.emin < e) : F.exponent x = e - 1 := by
  have hx : 0 < x := lt_of_lt_of_le (by positivity) hlo
  have hge : e - 1 ≤ Int.log 2 x :=
    (Int.zpow_le_iff_le_log (by norm_num) hx).mp (by exact_mod_cast hlo)
  have hlt : Int.log 2 x < e :=
    (Int.lt_zpow_iff_log_lt (by norm_num) hx).mp (by exact_mod_cast hhi)
  simp only [exponent]
  omega

/-- A fraction of a number is less than half of its last place. -/
theorem Number.near_half {d x : ℚ} (hd : F.Number d) (hpos : 0 < d)
    (hnear : |x - d| * 2 ^ (F.digits + 1) < d) : |x - d| < F.ulp d / 2 := by
  obtain ⟨m, hm, hlt⟩ := hd.eq_mul_ulp hpos
  have hsize : d < 2 ^ F.digits * F.ulp d := by
    calc d = m * F.ulp d := hm
      _ < 2 ^ F.digits * F.ulp d :=
          mul_lt_mul_of_pos_right (by exact_mod_cast hlt) (ulp_pos d)
  have hpow : (0 : ℚ) < 2 ^ F.digits := by positivity
  have hscaled : |x - d| * 2 * 2 ^ F.digits < F.ulp d * 2 ^ F.digits := by
    rw [pow_succ] at hnear
    linarith
  linarith [lt_of_mul_lt_mul_right hscaled hpow.le]

/-- The numbers of an exponent start with its power of two. -/
theorem two_zpow_le {d : ℚ} (hpos : 0 < d) (hmin : F.emin < F.exponent d) :
    (2 : ℚ) ^ F.exponent d ≤ d := by
  have hlog : F.exponent d = Int.log 2 d := by
    simp only [exponent] at hmin ⊢
    omega
  rw [hlog]
  exact_mod_cast Int.zpow_log_le_self (b := 2) (by norm_num) hpos

/-- A number of the format is a power of two or a last place above one. -/
theorem Number.eq_two_zpow_or {d : ℚ} (hd : F.Number d) (hpos : 0 < d)
    (hmin : F.emin < F.exponent d) :
    d = 2 ^ F.exponent d ∨ 2 ^ F.exponent d + F.ulp d ≤ d := by
  obtain ⟨m, hm, -⟩ := hd.eq_mul_ulp hpos
  have hu := ulp_pos (F := F) d
  obtain ⟨p, hp⟩ : ∃ p, F.digits = p + 1 := ⟨F.digits - 1, by have := F.digits_pos; omega⟩
  have hbottom : (2 : ℚ) ^ F.exponent d = (2 ^ p : ℕ) * F.ulp d := two_zpow_bottom hp _
  have hge : ((2 ^ p : ℕ) : ℚ) ≤ m := by
    refine le_of_mul_le_mul_right ?_ hu
    rw [← hbottom, ← hm]
    exact two_zpow_le hpos hmin
  rcases Nat.lt_or_eq_of_le (Nat.cast_le.mp hge) with h | h
  · right
    have hstep : ((2 ^ p : ℕ) : ℚ) + 1 ≤ m := by exact_mod_cast h
    calc 2 ^ F.exponent d + F.ulp d = ((2 ^ p : ℕ) + 1) * F.ulp d := by rw [hbottom]; ring
      _ ≤ m * F.ulp d := mul_le_mul_of_nonneg_right hstep hu.le
      _ = d := hm.symm
  · left
    rw [hbottom, h]
    exact hm

theorem pos_of_near {d x : ℚ} {n : ℕ} (hnear : |x - d| * 2 ^ n < d) : 0 < x := by
  have hone : (1 : ℚ) ≤ 2 ^ n := one_le_pow₀ (by norm_num)
  have hle : |x - d| ≤ |x - d| * 2 ^ n := le_mul_of_one_le_right (abs_nonneg _) hone
  have := (abs_lt.mp (hle.trans_lt hnear)).1
  linarith

/-- **What lies close to a number of the format rounds to it.** -/
theorem magnitude_eq_of_near {d x : ℚ} (hd : F.Number d) (hpos : 0 < d)
    (hnear : |x - d| * 2 ^ (F.digits + 1) < d) : F.magnitude x = d := by
  have hhalf := hd.near_half hpos hnear
  have hu := ulp_pos (F := F) d
  obtain ⟨m, hm, hlt⟩ := hd.eq_mul_ulp hpos
  rcases lt_trichotomy (F.exponent x) (F.exponent d) with h | h | h
  · -- `x` has a smaller exponent, so `d` is the power of two between them, and the last
    -- places below it count half as much.
    have hmin : F.emin < F.exponent d := lt_of_le_of_lt (le_max_right _ _) h
    have hx : x < 2 ^ F.exponent d := by
      have : (2 : ℚ) ^ (F.exponent x + 1) ≤ 2 ^ F.exponent d :=
        zpow_le_zpow_right₀ (by norm_num) (by omega)
      exact (lt_two_zpow (F := F)).trans_le this
    have hd2 : d = 2 ^ F.exponent d := by
      rcases hd.eq_two_zpow_or hpos hmin with h2 | h2
      · exact h2
      · have := (abs_lt.mp hhalf).1
        linarith
    have hquarter : |x - d| < F.ulp d / 4 := by
      have hsize : d * 2 = 2 ^ F.digits * F.ulp d := by
        have := two_zpow_eq (F := F) (F.exponent d)
        rw [zpow_add₀ (by norm_num : (2 : ℚ) ≠ 0), zpow_one, ← hd2] at this
        exact this
      have hpow : (0 : ℚ) < 2 ^ F.digits := by positivity
      have hscaled : |x - d| * 4 * 2 ^ F.digits < F.ulp d * 2 ^ F.digits := by
        rw [pow_succ] at hnear
        linarith
      linarith [lt_of_mul_lt_mul_right hscaled hpow.le]
    have hexp : F.exponent x = F.exponent d - 1 := by
      refine exponent_below ?_ hx hmin
      have hle : F.ulp d ≤ d := by
        have hone : (1 : ℚ) ≤ m := by
          have : m ≠ 0 := by
            intro h0
            rw [h0, Nat.cast_zero, zero_mul] at hm
            linarith
          exact_mod_cast Nat.one_le_iff_ne_zero.mpr this
        calc F.ulp d = 1 * F.ulp d := (one_mul _).symm
          _ ≤ m * F.ulp d := mul_le_mul_of_nonneg_right hone hu.le
          _ = d := hm.symm
      have hpred : (2 : ℚ) ^ (F.exponent d - 1) = d / 2 := by
        rw [zpow_sub_one₀ (by norm_num : (2 : ℚ) ≠ 0), ← hd2]
        ring
      rw [hpred]
      have := (abs_lt.mp hquarter).1
      linarith
    have hulp : F.ulp x = F.ulp d / 2 := by
      rw [ulp, ulp, hexp, sub_right_comm, zpow_sub_one₀ (by norm_num : (2 : ℚ) ≠ 0)]
      ring
    refine magnitude_eq hd hpos (n := 2 * m) ?_ ?_
    · rw [hulp]
      push_cast
      linarith
    · rw [hulp]
      linarith
  · have hulp : F.ulp x = F.ulp d := by rw [ulp, h, ulp]
    refine magnitude_eq hd hpos (n := m) ?_ ?_
    · rwa [hulp]
    · rwa [hulp]
  · -- `x` has a larger exponent, so a whole last place is between them.
    have hx : (2 : ℚ) ^ (F.exponent d + 1) ≤ x := by
      have hmin : F.emin < F.exponent x := lt_of_le_of_lt (le_max_right _ _) h
      calc (2 : ℚ) ^ (F.exponent d + 1) ≤ 2 ^ F.exponent x :=
            zpow_le_zpow_right₀ (by norm_num) (by omega)
        _ ≤ x := two_zpow_le (pos_of_near hnear) hmin
    have hgap : d + F.ulp d ≤ 2 ^ (F.exponent d + 1) := by
      have hm1 : (m : ℚ) + 1 ≤ 2 ^ F.digits := by exact_mod_cast hlt
      calc d + F.ulp d = (m + 1) * F.ulp d := by rw [add_mul, one_mul, ← hm]
        _ ≤ 2 ^ F.digits * F.ulp d := mul_le_mul_of_nonneg_right hm1 hu.le
        _ = 2 ^ (F.exponent d + 1) := (two_zpow_eq _).symm
    have := (abs_lt.mp hhalf).2
    linarith

theorem round_zero : F.round 0 = 0 := by
  simp [round, magnitude, roundEven]
  positivity

theorem round_neg (q : ℚ) : F.round (-q) = -F.round q := by
  rcases lt_trichotomy q 0 with h | h | h
  · rw [round, round, if_neg (by linarith), if_pos h, neg_neg]
  · rw [h, neg_zero, round_zero, neg_zero]
  · rw [round, round, if_pos (by linarith), if_neg (by linarith), neg_neg]

theorem round_nonneg {q : ℚ} (hq : 0 ≤ q) : 0 ≤ F.round q := by
  have hu := ulp_pos (F := F) q
  have hdigits : 0 ≤ roundEven (q / F.ulp q) := le_roundEven (by
    rw [Int.cast_zero]
    positivity)
  rw [round, if_neg (not_lt.mpr hq), magnitude]
  exact le_min (mul_nonneg (by exact_mod_cast hdigits) hu.le) (by positivity)

/-- What lies close to a number of the format, of either sign, rounds to it. -/
theorem round_eq_of_near {d x : ℚ} (hd : F.Number d) (hzero : d = 0 → x = 0)
    (hnear : |x - d| * 2 ^ (F.digits + 1) < |d| ∨ d = 0) : F.round x = d := by
  rcases lt_trichotomy d 0 with h | h | h
  · have hnear' : |-x - -d| * 2 ^ (F.digits + 1) < -d := by
      have hneg : -x - -d = -(x - d) := by ring
      rw [hneg, abs_neg, ← abs_of_neg h]
      exact hnear.resolve_right h.ne
    have hx := pos_of_near hnear'
    rw [round, if_pos (neg_pos.mp hx), magnitude_eq_of_near hd.neg (neg_pos.mpr h) hnear', neg_neg]
  · rw [hzero h, h, round_zero]
  · have hnear' := hnear.resolve_right h.ne'
    rw [abs_of_pos h] at hnear'
    have hx := pos_of_near hnear'
    rw [round, if_neg (not_lt.mpr hx.le), magnitude_eq_of_near hd h hnear']

/-- The numbers of the format stay as they are. -/
theorem round_number {d : ℚ} (hd : F.Number d) : F.round d = d := by
  refine round_eq_of_near hd id ?_
  by_cases h : d = 0
  · exact Or.inr h
  · left
    simpa using h

/-- What rounding comes to is a number of the format, or too large for it. -/
theorem magnitude_number {q : ℚ} (hq : 0 ≤ q) :
    F.Number (F.magnitude q) ∨ F.magnitude q = 2 ^ (F.emax + 1) := by
  have hu := ulp_pos (F := F) q
  rcases le_or_gt (2 ^ (F.emax + 1)) (roundEven (q / F.ulp q) * F.ulp q) with h | h
  · exact Or.inr (min_eq_right h)
  left
  rw [magnitude, min_eq_left h.le]
  obtain ⟨m, hm⟩ := Int.eq_ofNat_of_zero_le
    (le_roundEven (n := 0) (q := q / F.ulp q) (by rw [Int.cast_zero]; positivity))
  rw [hm, Int.cast_natCast] at h ⊢
  have habs : |(m : ℚ) * F.ulp q| = m * F.ulp q := abs_of_nonneg (by positivity)
  rcases hq.eq_or_lt with h0 | hpos
  · -- Nothing stays of zero, whatever the exponent.
    have hm0 : m = 0 := by
      have : roundEven (q / F.ulp q) ≤ 0 := roundEven_le (by rw [← h0, zero_div, Int.cast_zero])
      omega
    refine ⟨0, F.emin, ?_, by positivity, le_refl _, F.emin_le⟩
    simp [hm0]
  have hle : m ≤ 2 ^ F.digits := by
    have : roundEven (q / F.ulp q) ≤ (2 ^ F.digits : ℕ) := by
      refine roundEven_le ?_
      rw [div_le_iff₀ hu]
      push_cast
      rw [ulp, ← two_zpow_eq]
      exact lt_two_zpow.le
    rw [hm] at this
    exact_mod_cast this
  rcases hle.lt_or_eq with hlt | heq
  · refine ⟨m, F.exponent q, by rw [habs, ulp], hlt, le_max_right _ _, ?_⟩
    by_contra hc
    -- An exponent that is too large: then the number is too large as well.
    have hlow : (2 : ℚ) ^ F.exponent q ≤ q :=
      two_zpow_le hpos (lt_of_le_of_lt F.emin_le (not_le.mp hc))
    obtain ⟨p, hp⟩ : ∃ p, F.digits = p + 1 := ⟨F.digits - 1, by have := F.digits_pos; omega⟩
    have hbottom : (2 : ℚ) ^ F.exponent q = (2 ^ p : ℕ) * F.ulp q := two_zpow_bottom hp _
    have hge : ((2 ^ p : ℕ) : ℤ) ≤ roundEven (q / F.ulp q) := by
      refine le_roundEven ?_
      rw [le_div_iff₀ hu, Int.cast_natCast, ← hbottom]
      exact hlow
    rw [hm] at hge
    have hge' : ((2 ^ p : ℕ) : ℚ) ≤ m := by exact_mod_cast hge
    have : (2 : ℚ) ^ (F.emax + 1) ≤ m * F.ulp q := by
      calc (2 : ℚ) ^ (F.emax + 1) ≤ 2 ^ F.exponent q :=
            zpow_le_zpow_right₀ (by norm_num) (by omega)
        _ = (2 ^ p : ℕ) * F.ulp q := hbottom
        _ ≤ m * F.ulp q := mul_le_mul_of_nonneg_right hge' hu.le
    linarith
  · -- A carry into the next exponent.
    have hnext : (m : ℚ) * F.ulp q = 2 ^ (F.exponent q + 1) := by
      rw [heq, two_zpow_eq (F := F), ulp]
      push_cast
      rfl
    obtain ⟨p, hp⟩ : ∃ p, F.digits = p + 1 := ⟨F.digits - 1, by have := F.digits_pos; omega⟩
    have hmax : F.exponent q + 1 < F.emax + 1 :=
      (zpow_lt_zpow_iff_right₀ (by norm_num : (1 : ℚ) < 2)).mp (hnext ▸ h)
    refine ⟨2 ^ p, F.exponent q + 1, ?_, ?_, ?_, by omega⟩
    · rw [habs, hnext, two_zpow_bottom hp]
    · rw [hp]
      exact Nat.pow_lt_pow_right (by norm_num) (Nat.lt_succ_self p)
    · exact (le_max_right _ _).trans (Int.le_add_one (le_refl _))

/-- What rounding comes to, of either sign. -/
theorem round_number_or (q : ℚ) : F.Number (F.round q) ∨ |F.round q| = 2 ^ (F.emax + 1) := by
  have hpos : (0 : ℚ) ≤ 2 ^ (F.emax + 1) := by positivity
  unfold round
  split
  · rename_i h
    rcases magnitude_number (F := F) (q := -q) (by linarith) with hm | hm
    · exact Or.inl hm.neg
    · exact Or.inr (by rw [hm, abs_neg, abs_of_nonneg hpos])
  · rename_i h
    rcases magnitude_number (F := F) (q := q) (not_lt.mp h) with hm | hm
    · exact Or.inl hm
    · exact Or.inr (by rw [hm, abs_of_nonneg hpos])

end Format

/-! ### Decimals -/

/-- A positive number to `k + 1` significant digits: the digits as a number, and the
exponent of ten of the first of them. -/
def scientific (k : ℕ) (d : ℚ) : ℕ × ℤ :=
  let e := Int.log 10 d
  let m := (roundEven (d / 10 ^ (e - k))).toNat
  if m = 10 ^ (k + 1) then (10 ^ k, e + 1) else (m, e)

/-- The number such digits stand for. -/
def scientificValue (k : ℕ) (s : ℕ × ℤ) : ℚ := s.1 * 10 ^ (s.2 - k)

/-- The digits before a carry is looked for. -/
theorem roundEven_digits (k : ℕ) {d : ℚ} (hd : 0 < d) :
    10 ^ k ≤ roundEven (d / 10 ^ (Int.log 10 d - k)) ∧
      roundEven (d / 10 ^ (Int.log 10 d - k)) ≤ 10 ^ (k + 1) := by
  have hs : (0 : ℚ) < 10 ^ (Int.log 10 d - k) := by positivity
  have hlo : (10 : ℚ) ^ Int.log 10 d ≤ d := by
    exact_mod_cast Int.zpow_log_le_self (b := 10) (by norm_num) hd
  have hhi : d < (10 : ℚ) ^ (Int.log 10 d + 1) := by
    exact_mod_cast Int.lt_zpow_succ_log_self (b := 10) (by norm_num) d
  refine ⟨le_roundEven ?_, roundEven_le ?_⟩
  · rw [le_div_iff₀ hs]
    push_cast
    rw [← zpow_natCast, ← zpow_add₀ (by norm_num : (10 : ℚ) ≠ 0), add_sub_cancel]
    exact hlo
  · rw [div_le_iff₀ hs]
    push_cast
    rw [← zpow_natCast, ← zpow_add₀ (by norm_num : (10 : ℚ) ≠ 0)]
    have : ((k + 1 : ℕ) : ℤ) + (Int.log 10 d - k) = Int.log 10 d + 1 := by
      push_cast
      ring
    rw [this]
    exact hhi.le

theorem scientific_bounds (k : ℕ) {d : ℚ} (hd : 0 < d) :
    10 ^ k ≤ (scientific k d).1 ∧ (scientific k d).1 < 10 ^ (k + 1) := by
  obtain ⟨hlo, hhi⟩ := roundEven_digits k hd
  unfold scientific
  dsimp only
  split
  · exact ⟨Nat.le_refl _, Nat.pow_lt_pow_right (by norm_num) (Nat.lt_succ_self k)⟩
  · rename_i hne
    have hcast : ((roundEven (d / 10 ^ (Int.log 10 d - k))).toNat : ℤ)
        = roundEven (d / 10 ^ (Int.log 10 d - k)) :=
      Int.toNat_of_nonneg ((by positivity : (0 : ℤ) ≤ 10 ^ k).trans hlo)
    rw [← hcast] at hlo hhi
    exact ⟨by exact_mod_cast hlo, lt_of_le_of_ne (by exact_mod_cast hhi) hne⟩

/-- A carry only moves the point. -/
theorem scientificValue_scientific (k : ℕ) {d : ℚ} (hd : 0 < d) :
    scientificValue k (scientific k d)
      = roundEven (d / 10 ^ (Int.log 10 d - k)) * 10 ^ (Int.log 10 d - k) := by
  obtain ⟨hlo, -⟩ := roundEven_digits k hd
  have hcast : ((roundEven (d / 10 ^ (Int.log 10 d - k))).toNat : ℤ)
      = roundEven (d / 10 ^ (Int.log 10 d - k)) :=
    Int.toNat_of_nonneg ((by positivity : (0 : ℤ) ≤ 10 ^ k).trans hlo)
  unfold scientific scientificValue
  dsimp only
  split
  · rename_i hcarry
    rw [hcarry] at hcast
    rw [← hcast]
    push_cast
    have hten : (10 : ℚ) ^ (Int.log 10 d + 1 - k) = 10 * 10 ^ (Int.log 10 d - k) := by
      rw [add_sub_right_comm, zpow_add_one₀ (by norm_num : (10 : ℚ) ≠ 0), mul_comm]
    rw [hten, pow_succ]
    ring
  · rw [← hcast]
    rfl

/-- A decimal is off by a small fraction of the number at most. -/
theorem scientific_near (k : ℕ) {d : ℚ} (hd : 0 < d) :
    |scientificValue k (scientific k d) - d| * (2 * 10 ^ k) ≤ d := by
  have hs : (0 : ℚ) < 10 ^ (Int.log 10 d - k) := by positivity
  have hlo : (10 : ℚ) ^ Int.log 10 d ≤ d := by
    exact_mod_cast Int.zpow_log_le_self (b := 10) (by norm_num) hd
  have hoff : |scientificValue k (scientific k d) - d| ≤ 10 ^ (Int.log 10 d - k) / 2 := by
    rw [scientificValue_scientific k hd]
    have hround := abs_sub_roundEven (d / 10 ^ (Int.log 10 d - k))
    have hsplit : (roundEven (d / 10 ^ (Int.log 10 d - k)) : ℚ) * 10 ^ (Int.log 10 d - k) - d
        = -((d / 10 ^ (Int.log 10 d - k) - roundEven (d / 10 ^ (Int.log 10 d - k)))
          * 10 ^ (Int.log 10 d - k)) := by
      field_simp
      ring
    rw [hsplit, abs_neg, abs_mul, abs_of_pos hs]
    linarith [mul_le_mul_of_nonneg_right hround hs.le]
  have hscale : (10 : ℚ) ^ (Int.log 10 d - k) * 10 ^ k = 10 ^ Int.log 10 d := by
    rw [← zpow_natCast, ← zpow_add₀ (by norm_num : (10 : ℚ) ≠ 0), sub_add_cancel]
  calc |scientificValue k (scientific k d) - d| * (2 * 10 ^ k)
      ≤ 10 ^ (Int.log 10 d - k) / 2 * (2 * 10 ^ k) :=
        mul_le_mul_of_nonneg_right hoff (by positivity)
    _ = 10 ^ Int.log 10 d := by rw [← hscale]; ring
    _ ≤ d := hlo

/-- **Enough digits bring a number back.** -/
theorem round_scientific {F : Format} {k : ℕ} {d : ℚ} (hF : F.Number d) (hd : 0 < d)
    (hk : 2 ^ F.digits < 10 ^ k) :
    F.round (scientificValue k (scientific k d)) = d := by
  refine Format.round_eq_of_near hF (fun h => absurd h hd.ne') (Or.inl ?_)
  rw [abs_of_pos hd]
  have hnear := scientific_near k hd
  rcases (abs_nonneg (scientificValue k (scientific k d) - d)).eq_or_lt with h | h
  · rw [← h, zero_mul]
    exact hd
  · refine lt_of_lt_of_le (mul_lt_mul_of_pos_left ?_ h) hnear
    have : (2 : ℚ) ^ F.digits < 10 ^ k := by exact_mod_cast hk
    rw [pow_succ]
    linarith

end Rounding
