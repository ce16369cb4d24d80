/-
Numbers written out in digits.

A numeral is its digits as characters, the highest one first and no zero in front.  The
base is a parameter: a C program writes numbers in base ten and in base eight.  Reading a
numeral gives back its number (`value_numeral`), and reading digits in two parts shifts
the first part up (`value_append`).
-/
import Mathlib.Data.Nat.Digits.Lemmas
import EleDs.Lib.Bytes

namespace Numerals

open CMem

/-- The character of a digit. -/
def digitByte (d : Nat) : UInt8 := UInt8.ofNat (48 + d)

/-- The digits of a number, with a single zero for zero. -/
def numeral (b n : Nat) : Bytes :=
  if n = 0 then [48] else (Nat.digits b n).reverse.map digitByte

/-- The number some digits stand for. -/
def value (b : Nat) (ds : Bytes) : Nat := ds.foldl (fun v d => b * v + (d.toNat - 48)) 0

/-- A decimal digit. -/
def isDigit (c : UInt8) : Bool := 48 ≤ c && c ≤ 57

/-! ### Reading -/

theorem toNat_digitByte {d : Nat} (h : d < 10) : (digitByte d).toNat = 48 + d := by
  simp [digitByte]
  omega

theorem isDigit_digitByte {d : Nat} (h : d < 10) : isDigit (digitByte d) = true := by
  have := toNat_digitByte h
  simp only [isDigit, Bool.and_eq_true, decide_eq_true_eq, UInt8.le_iff_toNat_le, this]
  refine ⟨?_, ?_⟩
  · show 48 ≤ 48 + d
    omega
  · show 48 + d ≤ 57
    omega

theorem value_from (b : Nat) (ds : Bytes) (v : Nat) :
    ds.foldl (fun v d => b * v + (d.toNat - 48)) v = v * b ^ ds.length + value b ds := by
  induction ds generalizing v with
  | nil => simp [value]
  | cons d ds ih =>
      show ds.foldl _ (b * v + (d.toNat - 48)) = _ + ds.foldl _ (b * 0 + (d.toNat - 48))
      rw [ih, ih (b * 0 + (d.toNat - 48)), List.length_cons, Nat.pow_succ]
      ring

theorem value_cons (b : Nat) (d : UInt8) (ds : Bytes) :
    value b (d :: ds) = (d.toNat - 48) * b ^ ds.length + value b ds := by
  show ds.foldl _ (b * 0 + (d.toNat - 48)) = _
  rw [value_from, Nat.mul_zero, Nat.zero_add]

/-- Digits in two parts: the first part counts as often as the second one has places. -/
theorem value_append (b : Nat) (xs ys : Bytes) :
    value b (xs ++ ys) = value b xs * b ^ ys.length + value b ys := by
  show (xs ++ ys).foldl _ 0 = _
  rw [List.foldl_append, value_from]
  rfl

/-- Zeros in front do not count. -/
theorem value_zeros (b k : Nat) (ds : Bytes) : value b (List.replicate k 48 ++ ds) = value b ds := by
  rw [value_append]
  have hzero : value b (List.replicate k 48) = 0 := by
    induction k with
    | zero => rfl
    | succ k ih =>
        rw [List.replicate_succ, value_cons, ih]
        simp
  rw [hzero, Nat.zero_mul, Nat.zero_add]

theorem value_map_digitByte {b : Nat} (hb : b ≤ 10) (ds : List Nat) (h : ∀ d ∈ ds, d < b) :
    value b (ds.reverse.map digitByte) = Nat.ofDigits b ds := by
  induction ds with
  | nil => rfl
  | cons d ds ih =>
      have hd : d < 10 := by
        have := h d List.mem_cons_self
        omega
      rw [List.reverse_cons, List.map_append, value_append, Nat.ofDigits_cons,
        ih fun x hx => h x (List.mem_cons_of_mem _ hx)]
      have hlow : value b [digitByte d] = d := by
        rw [value_cons, toNat_digitByte hd]
        simp [value]
      rw [List.map_singleton, hlow, List.length_singleton, Nat.pow_one, Nat.mul_comm, Nat.add_comm]

/-- **Reading a numeral gives back its number.** -/
theorem value_numeral {b : Nat} (h2 : 2 ≤ b) (hb : b ≤ 10) (n : Nat) : value b (numeral b n) = n := by
  unfold numeral
  split
  · rename_i h
    subst h
    simp [value]
  · rw [value_map_digitByte hb _ fun d hd => Nat.digits_lt_base h2 hd, Nat.ofDigits_digits]

/-! ### What a numeral looks like -/

theorem numeral_ne_nil (b n : Nat) : numeral b n ≠ [] := by
  unfold numeral
  split
  · simp
  · rename_i h
    simpa [Nat.digits_eq_nil_iff_eq_zero] using h

theorem mem_numeral {b n : Nat} (h2 : 2 ≤ b) {c : UInt8} (h : c ∈ numeral b n) :
    ∃ d < b, c = digitByte d := by
  unfold numeral at h
  split at h
  · exact ⟨0, by omega, by simpa [digitByte] using h⟩
  · obtain ⟨d, hd, rfl⟩ := List.mem_map.mp h
    exact ⟨d, Nat.digits_lt_base h2 (List.mem_reverse.mp hd), rfl⟩

theorem isDigit_of_mem_numeral {b n : Nat} (h2 : 2 ≤ b) (hb : b ≤ 10) {c : UInt8}
    (h : c ∈ numeral b n) : isDigit c = true := by
  obtain ⟨d, hd, rfl⟩ := mem_numeral h2 h
  exact isDigit_digitByte (by omega)

theorem length_numeral_le {b n k : Nat} (h2 : 2 ≤ b) (hk : 0 < k) (h : n < b ^ k) :
    (numeral b n).length ≤ k := by
  unfold numeral
  split
  · exact hk
  · rw [List.length_map, List.length_reverse]
    exact (Nat.digits_length_le_iff h2 n).mpr h

theorem lt_pow_length_numeral {b n : Nat} (h2 : 2 ≤ b) : n < b ^ (numeral b n).length := by
  unfold numeral
  split
  · rename_i h
    subst h
    exact Nat.pow_pos (by omega)
  · rw [List.length_map, List.length_reverse]
    exact (Nat.digits_length_le_iff h2 n).mp (Nat.le_refl _)

end Numerals
