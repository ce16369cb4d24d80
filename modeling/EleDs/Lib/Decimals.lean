/-
Floating-point numbers as text, the way the C library reads and writes them.

`strtod` takes the longest decimal a text starts with and rounds it to a double.
`sprintfG` is the conversion `%g`: so many significant digits, no zeros at the end of a
fraction, and an exponent only where the point would be far away.  The number that is
read back is the rounded decimal (`strtod_sprintfG`), so with seventeen digits it is the
number itself.
-/
import EleDs.Lib.Numerals
import EleDs.Lib.Rounding

namespace Decimals

open CMem Numerals Rounding

/-- The format of `double`. -/
def double : Format := ⟨53, -1022, 1023, by norm_num, by norm_num⟩

/-- The characters a decimal is made of. -/
def inDecimal (c : UInt8) : Bool :=
  isDigit c || c == 43 || c == 45 || c == 101 || c == 69 || c == 46

/-! ### Reading -/

/-- The exponent a text starts with, and how long it is. -/
def exponentPart (s : Bytes) : ℤ × ℕ :=
  if s.headD 0 = 101 ∨ s.headD 0 = 69 then
    let sign := if s.tail.headD 0 = 45 ∨ s.tail.headD 0 = 43 then 1 else 0
    let ds := (s.tail.drop sign).takeWhile isDigit
    if ds = [] then (0, 0)
    else (if s.tail.headD 0 = 45 then -(value 10 ds : ℤ) else value 10 ds, 1 + sign + ds.length)
  else (0, 0)

/-- `strtod` in the C locale, on a text without blanks in front and of no letters but `e`:
the number, and how many characters belong to it. -/
def strtod (s : Bytes) : ℚ × ℕ :=
  let sign := if s.headD 0 = 45 ∨ s.headD 0 = 43 then 1 else 0
  let whole := (s.drop sign).takeWhile isDigit
  let rest := s.drop (sign + whole.length)
  let point := if rest.headD 0 = 46 then 1 else 0
  let fraction := if rest.headD 0 = 46 then rest.tail.takeWhile isDigit else []
  if whole = [] ∧ fraction = [] then (0, 0)
  else
    let length := sign + whole.length + point + fraction.length
    let exponent := exponentPart (s.drop length)
    let q := (value 10 (whole ++ fraction) : ℚ) * 10 ^ (exponent.1 - fraction.length)
    (double.round (if s.headD 0 = 45 then -q else q), length + exponent.2)

/-! ### Writing -/

/-- Digits without the zeros at their end. -/
def stripZeros (ds : Bytes) : Bytes := (ds.reverse.dropWhile (· == 48)).reverse

/-- The fraction with its point, if there is one. -/
def pointed (fraction : Bytes) : Bytes := if fraction = [] then [] else 46 :: fraction

/-- The exponent of `%e`, two digits at least. -/
def exponentText (x : ℤ) : Bytes :=
  let ds := numeral 10 x.natAbs
  101 :: (if x < 0 then 45 else 43) :: (if ds.length < 2 then 48 :: ds else ds)

/-- `%g` with `k + 1` significant digits, of a positive number. -/
def positiveG (k : ℕ) (d : ℚ) : Bytes :=
  let s := scientific k d
  let ds := numeral 10 s.1
  if s.2 < -4 ∨ k < s.2 then
    ds.take 1 ++ pointed (stripZeros (ds.drop 1)) ++ exponentText s.2
  else if 0 ≤ s.2 then
    ds.take (s.2.toNat + 1) ++ pointed (stripZeros (ds.drop (s.2.toNat + 1)))
  else
    [48] ++ pointed (List.replicate (-s.2 - 1).toNat 48 ++ stripZeros ds)

/-- `sprintf` with `%g` and `k + 1` significant digits. -/
def sprintfG (k : ℕ) (d : ℚ) : Bytes :=
  if d = 0 then [48]
  else if d < 0 then 45 :: positiveG k (-d)
  else positiveG k d

/-! ### Digits -/

theorem stripZeros_append (ds : Bytes) :
    stripZeros ds ++ List.replicate (ds.length - (stripZeros ds).length) 48 = ds := by
  have hsplit := List.takeWhile_append_dropWhile (p := (· == 48)) (l := ds.reverse)
  have hzeros : ds.reverse.takeWhile (· == 48)
      = List.replicate (ds.reverse.takeWhile (· == 48)).length 48 := by
    refine List.eq_replicate_of_mem fun c hc => ?_
    simpa using List.mem_takeWhile_imp hc
  have hlen : ds.length - (stripZeros ds).length = (ds.reverse.takeWhile (· == 48)).length := by
    have := congrArg List.length hsplit
    simp only [List.length_append, List.length_reverse, stripZeros] at this ⊢
    omega
  rw [hlen, stripZeros, ← List.reverse_replicate, ← hzeros, ← List.reverse_append, hsplit,
    List.reverse_reverse]

theorem stripZeros_length_le (ds : Bytes) : (stripZeros ds).length ≤ ds.length := by
  have := congrArg List.length (stripZeros_append ds)
  simp only [List.length_append] at this
  omega

theorem mem_of_mem_stripZeros {ds : Bytes} {c : UInt8} (h : c ∈ stripZeros ds) : c ∈ ds := by
  rw [← stripZeros_append ds]
  exact List.mem_append_left _ h

/-- The zeros at the end of a fraction only move its last place. -/
theorem value_stripZeros (front ds : Bytes) :
    (value 10 (front ++ ds) : ℚ) * 10 ^ (-(ds.length : ℤ))
      = value 10 (front ++ stripZeros ds) * 10 ^ (-((stripZeros ds).length : ℤ)) := by
  have hzero : value 10 (List.replicate (ds.length - (stripZeros ds).length) 48) = 0 := by
    have := value_zeros 10 (ds.length - (stripZeros ds).length) []
    rw [List.append_nil] at this
    exact this
  have hsplit : value 10 (front ++ ds)
      = value 10 (front ++ stripZeros ds) * 10 ^ (ds.length - (stripZeros ds).length) := by
    conv_lhs => rw [← stripZeros_append ds, ← List.append_assoc, value_append, hzero]
    rw [List.length_replicate, Nat.add_zero]
  have hle := stripZeros_length_le ds
  rw [hsplit]
  push_cast
  rw [mul_assoc, ← zpow_natCast (10 : ℚ) (ds.length - (stripZeros ds).length),
    ← zpow_add₀ (by norm_num : (10 : ℚ) ≠ 0)]
  congr 2
  omega

/-! ### Reading what was written -/

theorem takeWhile_digits {ds tail : Bytes} (h : ∀ c ∈ ds, isDigit c = true)
    (ht : isDigit (tail.headD 0) = false) : (ds ++ tail).takeWhile isDigit = ds := by
  rw [List.takeWhile_append_of_pos h]
  cases tail with
  | nil => simp
  | cons c tail =>
      rw [List.takeWhile_cons_of_neg (by simpa using ht), List.append_nil]

theorem isDigit_range {c : UInt8} (h : isDigit c = true) : 48 ≤ c.toNat ∧ c.toNat ≤ 57 := by
  simpa [isDigit, UInt8.le_iff_toNat_le] using h

theorem ne_of_isDigit {c d : UInt8} (h : isDigit c = true) (hd : isDigit d = false) : c ≠ d := by
  rintro rfl
  rw [h] at hd
  exact Bool.noConfusion hd

/-- A digit comes first where the text is not empty. -/
theorem isDigit_headD {ds : Bytes} (tail : Bytes) (h : ∀ c ∈ ds, isDigit c = true)
    (hne : ds ≠ []) : isDigit ((ds ++ tail).headD 0) = true := by
  cases ds with
  | nil => exact absurd rfl hne
  | cons c ds => exact h c List.mem_cons_self

/-- An exponent, or none, behind a decimal. -/
structure IsExponent (text : Bytes) (x : ℤ) : Prop where
  /-- All of it is read. -/
  read : exponentPart text = (x, text.length)
  /-- It is neither a digit nor a point that comes first. -/
  digit : isDigit (text.headD 0) = false
  point : text.headD 0 ≠ 46

theorem isExponent_nil : IsExponent [] 0 := ⟨rfl, rfl, by decide⟩

theorem isExponent_exponentText (x : ℤ) : IsExponent (exponentText x) x := by
  have hdigits : ∀ c ∈ (if (numeral 10 x.natAbs).length < 2 then 48 :: numeral 10 x.natAbs
      else numeral 10 x.natAbs), isDigit c = true := by
    intro c hc
    have hnum : c ∈ numeral 10 x.natAbs → isDigit c = true :=
      isDigit_of_mem_numeral (by norm_num) (by norm_num)
    split at hc
    · rcases List.mem_cons.mp hc with h | h
      · rw [h]
        rfl
      · exact hnum h
    · exact hnum hc
  have hvalue : value 10 (if (numeral 10 x.natAbs).length < 2 then 48 :: numeral 10 x.natAbs
      else numeral 10 x.natAbs) = x.natAbs := by
    have hnum := value_numeral (b := 10) (by norm_num) (by norm_num) x.natAbs
    split
    · exact (value_zeros 10 1 _).trans hnum
    · exact hnum
  have hne : (if (numeral 10 x.natAbs).length < 2 then 48 :: numeral 10 x.natAbs
      else numeral 10 x.natAbs) ≠ [] := by
    split
    · simp
    · exact numeral_ne_nil _ _
  refine ⟨?_, by simp [exponentText, isDigit], by simp [exponentText]⟩
  unfold exponentText exponentPart
  dsimp only
  generalize (if (numeral 10 x.natAbs).length < 2 then 48 :: numeral 10 x.natAbs
      else numeral 10 x.natAbs) = ds at *
  have htake : ds.takeWhile isDigit = ds := List.takeWhile_eq_self_iff.mpr hdigits
  by_cases hx : x < 0
  · simp [hx, htake, hne, hvalue, abs_of_neg hx]
    omega
  · simp [hx, htake, hne, hvalue, abs_of_nonneg (not_lt.mp hx)]
    omega

/-- A number written with its parts. -/
theorem strtod_text (sgn : Bytes) {whole fraction exponent : Bytes} {x : ℤ}
    (hsgn : sgn = [] ∨ sgn = [45]) (hwhole : ∀ c ∈ whole, isDigit c = true) (hne : whole ≠ [])
    (hfraction : ∀ c ∈ fraction, isDigit c = true) (hx : IsExponent exponent x) :
    strtod (sgn ++ (whole ++ (pointed fraction ++ exponent)))
      = (double.round ((if sgn = [] then 1 else -1)
            * (value 10 (whole ++ fraction) * 10 ^ (x - fraction.length))),
          (sgn ++ (whole ++ (pointed fraction ++ exponent))).length) := by
  have hdigit := isDigit_headD (pointed fraction ++ exponent) hwhole hne
  have hminus := ne_of_isDigit hdigit (d := 45) (by decide)
  have hplus := ne_of_isDigit hdigit (d := 43) (by decide)
  have hsign : (if (sgn ++ (whole ++ (pointed fraction ++ exponent))).headD 0 = 45 ∨
      (sgn ++ (whole ++ (pointed fraction ++ exponent))).headD 0 = 43 then 1 else 0)
      = sgn.length := by
    rcases hsgn with rfl | rfl
    · rw [List.nil_append, if_neg (not_or.mpr ⟨hminus, hplus⟩)]
      rfl
    · simp
  -- What comes behind the digits in front of the point is no digit.
  have hrest : isDigit ((pointed fraction ++ exponent).headD 0) = false := by
    unfold pointed
    split
    · exact hx.digit
    · rfl
  have hpoint : (pointed fraction ++ exponent).headD 0 = 46 ↔ fraction ≠ [] := by
    unfold pointed
    split
    · rename_i h
      exact ⟨fun hc => absurd hc hx.point, fun hc => absurd h hc⟩
    · rename_i h
      exact ⟨fun _ => h, fun _ => rfl⟩
  have htaken : (if (pointed fraction ++ exponent).headD 0 = 46
      then (pointed fraction ++ exponent).tail.takeWhile isDigit else []) = fraction := by
    by_cases hf : fraction = []
    · rw [if_neg (fun h => hpoint.mp h hf), hf]
    · rw [if_pos (hpoint.mpr hf), pointed, if_neg hf, List.cons_append, List.tail_cons,
        takeWhile_digits hfraction hx.digit]
  have hpointed : (if (pointed fraction ++ exponent).headD 0 = 46 then 1 else 0)
      + fraction.length = (pointed fraction).length := by
    by_cases hf : fraction = []
    · rw [if_neg (fun h => hpoint.mp h hf), hf]
      rfl
    · rw [if_pos (hpoint.mpr hf), pointed, if_neg hf, List.length_cons, Nat.add_comm]
  have hdropped : (sgn ++ (whole ++ (pointed fraction ++ exponent))).drop
      (sgn.length + whole.length) = pointed fraction ++ exponent := by
    rw [← List.append_assoc, List.drop_left' (by rw [List.length_append])]
  have hexponent : (sgn ++ (whole ++ (pointed fraction ++ exponent))).drop
      (sgn.length + whole.length + (pointed fraction).length) = exponent := by
    rw [← List.append_assoc, ← List.append_assoc,
      List.drop_left' (by rw [List.length_append, List.length_append])]
  have hneg : (sgn ++ (whole ++ (pointed fraction ++ exponent))).headD 0 = 45 ↔ sgn ≠ [] := by
    rcases hsgn with rfl | rfl
    · exact ⟨fun hc => absurd hc hminus, fun hc => absurd rfl hc⟩
    · exact ⟨fun _ => by simp, fun _ => rfl⟩
  unfold strtod
  simp only [hsign, List.drop_left, takeWhile_digits hwhole hrest]
  rw [hdropped, htaken, if_neg (fun h => hne h.1), Nat.add_assoc _ _ fraction.length, hpointed,
    hexponent, hx.read]
  refine Prod.ext ?_ ?_
  · by_cases h : sgn = []
    · rw [if_neg (fun hc => hneg.mp hc h), if_pos h, one_mul]
    · rw [if_pos (hneg.mpr h), if_neg h, neg_one_mul]
  · simp
    omega

/-- The text is a decimal without a sign, of that number. -/
def IsDecimal (text : Bytes) (q : ℚ) : Prop :=
  ∃ (whole fraction exponent : Bytes) (x : ℤ),
    text = whole ++ (pointed fraction ++ exponent) ∧ whole ≠ [] ∧
    (∀ c ∈ whole, isDigit c = true) ∧ (∀ c ∈ fraction, isDigit c = true) ∧
    IsExponent exponent x ∧ value 10 (whole ++ fraction) * 10 ^ (x - fraction.length) = q

theorem strtod_of_isDecimal {text : Bytes} {q : ℚ} (h : IsDecimal text q) :
    strtod text = (double.round q, text.length) := by
  obtain ⟨whole, fraction, exponent, x, rfl, hne, hwhole, hfraction, hx, rfl⟩ := h
  have := strtod_text [] (Or.inl rfl) hwhole hne hfraction hx
  rwa [if_pos rfl, one_mul] at this

theorem strtod_neg_of_isDecimal {text : Bytes} {q : ℚ} (h : IsDecimal text q) :
    strtod (45 :: text) = (double.round (-q), text.length + 1) := by
  obtain ⟨whole, fraction, exponent, x, rfl, hne, hwhole, hfraction, hx, rfl⟩ := h
  have := strtod_text [45] (Or.inr rfl) hwhole hne hfraction hx
  rwa [if_neg (by simp), neg_one_mul] at this

theorem isDecimal_numeral (n : ℕ) : IsDecimal (numeral 10 n) n := by
  refine ⟨numeral 10 n, [], [], 0, by simp [pointed], numeral_ne_nil _ _,
    fun c => isDigit_of_mem_numeral (by norm_num) (by norm_num), by simp, isExponent_nil, ?_⟩
  rw [List.append_nil, value_numeral (by norm_num) (by norm_num)]
  simp

theorem length_digits (k : ℕ) {d : ℚ} (hd : 0 < d) :
    (numeral 10 (scientific k d).1).length = k + 1 := by
  obtain ⟨hlo, hhi⟩ := scientific_bounds k hd
  have hle := length_numeral_le (b := 10) (by norm_num) (Nat.succ_pos k) hhi
  have hlt := hlo.trans_lt (lt_pow_length_numeral (b := 10) (by norm_num))
  have := (Nat.pow_lt_pow_iff_right (by norm_num : 1 < 10)).mp hlt
  omega

/-- What `%g` writes is the decimal rounded to so many digits. -/
theorem isDecimal_positiveG (k : ℕ) {d : ℚ} (hd : 0 < d) :
    IsDecimal (positiveG k d) (scientificValue k (scientific k d)) := by
  have hlen := length_digits k hd
  have hdigits : ∀ c ∈ numeral 10 (scientific k d).1, isDigit c = true :=
    fun c => isDigit_of_mem_numeral (by norm_num) (by norm_num)
  have hvalue := value_numeral (b := 10) (by norm_num) (by norm_num) (scientific k d).1
  have hne : ∀ n, (numeral 10 (scientific k d).1).take (n + 1) ≠ [] := by
    intro n h
    have := congrArg List.length h
    rw [List.length_take, hlen, List.length_nil] at this
    omega
  unfold positiveG scientificValue
  dsimp only
  generalize hm : (scientific k d).1 = m at *
  generalize (scientific k d).2 = x
  -- The digits, with the point behind the first `n` of them.
  have hcut : ∀ n : ℕ, n ≤ k + 1 →
      (value 10 ((numeral 10 m).take n ++ stripZeros ((numeral 10 m).drop n)) : ℚ)
        * 10 ^ (-((stripZeros ((numeral 10 m).drop n)).length : ℤ)) = m * 10 ^ ((n : ℤ) - (k + 1)) := by
    intro n hn
    rw [← value_stripZeros, List.take_append_drop, hvalue, List.length_drop, hlen]
    congr 2
    omega
  split
  · refine ⟨_, _, _, x, List.append_assoc _ _ _, hne 0,
      fun c hc => hdigits c (List.mem_of_mem_take hc),
      fun c hc => hdigits c (List.mem_of_mem_drop (mem_of_mem_stripZeros hc)),
      isExponent_exponentText x, ?_⟩
    rw [sub_eq_neg_add, zpow_add₀ (by norm_num : (10 : ℚ) ≠ 0), ← mul_assoc, hcut 1 (by omega),
      mul_assoc, ← zpow_add₀ (by norm_num : (10 : ℚ) ≠ 0)]
    congr 2
    push_cast
    ring
  · rename_i hfixed
    split
    · rename_i hx
      refine ⟨_, _, [], 0, by rw [List.append_nil], hne x.toNat,
        fun c hc => hdigits c (List.mem_of_mem_take hc),
        fun c hc => hdigits c (List.mem_of_mem_drop (mem_of_mem_stripZeros hc)),
        isExponent_nil, ?_⟩
      rw [zero_sub, hcut (x.toNat + 1) (by omega)]
      congr 2
      omega
    · rename_i hx
      refine ⟨[48], _, [], 0, by rw [List.append_nil], by simp, by simp [isDigit], ?_,
        isExponent_nil, ?_⟩
      · intro c hc
        rcases List.mem_append.mp hc with h | h
        · rw [(List.mem_replicate.mp h).2]
          rfl
        · exact hdigits c (mem_of_mem_stripZeros h)
      · have hzeros : [48] ++ (List.replicate (-x - 1).toNat 48 ++ stripZeros (numeral 10 m))
            = List.replicate ((-x - 1).toNat + 1) 48 ++ stripZeros (numeral 10 m) := by
          rw [List.replicate_succ]
          rfl
        have hall := hcut 0 (Nat.zero_le _)
        rw [List.take_zero, List.nil_append, List.drop_zero] at hall
        rw [hzeros, value_zeros, List.length_append, List.length_replicate, zero_sub]
        have hsplit : -(((-x - 1).toNat + (stripZeros (numeral 10 m)).length : ℕ) : ℤ)
            = -((stripZeros (numeral 10 m)).length : ℤ) + (x + 1) := by
          push_cast
          omega
        rw [hsplit, zpow_add₀ (by norm_num : (10 : ℚ) ≠ 0), ← mul_assoc, hall, mul_assoc,
          ← zpow_add₀ (by norm_num : (10 : ℚ) ≠ 0)]
        congr 2
        push_cast
        ring

/-- **What is read back is the decimal that was written, rounded.** -/
theorem strtod_sprintfG (k : ℕ) {d : ℚ} (hd : d ≠ 0) :
    strtod (sprintfG k d) = (double.round (if d < 0
        then -scientificValue k (scientific k (-d)) else scientificValue k (scientific k d)),
      (sprintfG k d).length) := by
  unfold sprintfG
  rw [if_neg hd]
  split
  · rename_i h
    rw [strtod_neg_of_isDecimal (isDecimal_positiveG k (neg_pos.mpr h)), List.length_cons]
  · rename_i h
    exact strtod_of_isDecimal (isDecimal_positiveG k (lt_of_le_of_ne (not_lt.mp h) (Ne.symm hd)))

/-- Seventeen digits bring any double back. -/
theorem strtod_sprintfG_17 {d : ℚ} (hd : d ≠ 0) (hF : double.Number d) :
    strtod (sprintfG 16 d) = (d, (sprintfG 16 d).length) := by
  have hk : 2 ^ double.digits < 10 ^ 16 := by
    show 2 ^ 53 < 10 ^ 16
    norm_num
  rw [strtod_sprintfG 16 hd]
  congr 1
  split
  · rename_i h
    rw [Format.round_neg, round_scientific hF.neg (neg_pos.mpr h) hk, neg_neg]
  · rename_i h
    exact round_scientific hF (lt_of_le_of_ne (not_lt.mp h) (Ne.symm hd)) hk

/-! ### What is read -/

theorem length_takeWhile_le (p : UInt8 → Bool) (s : Bytes) : (s.takeWhile p).length ≤ s.length :=
  (List.takeWhile_prefix p).length_le

/-- A character in front makes the text longer than what is behind it. -/
theorem length_pos_of_headD {s : Bytes} {c : UInt8} (h : s.headD 0 = c) (h0 : c ≠ 0) :
    0 < s.length := by
  cases s with
  | nil => exact absurd h.symm h0
  | cons c s => exact Nat.succ_pos _

theorem exponentPart_le (s : Bytes) : (exponentPart s).2 ≤ s.length := by
  unfold exponentPart
  split
  · rename_i h
    have hpos : 0 < s.length := by
      rcases h with h | h
      · exact length_pos_of_headD h (by decide)
      · exact length_pos_of_headD h (by decide)
    dsimp only
    generalize (if s.tail.headD 0 = 45 ∨ s.tail.headD 0 = 43 then 1 else 0) = sign
    have hdrop := length_takeWhile_le isDigit (s.tail.drop sign)
    rw [List.length_drop, List.length_tail] at hdrop
    generalize (s.tail.drop sign).takeWhile isDigit = ds at *
    split
    · exact Nat.zero_le _
    · rename_i hne
      have := List.length_pos_iff.mpr hne
      show 1 + sign + ds.length ≤ s.length
      omega
  · exact Nat.zero_le _

/-- What belongs to the number is part of the text. -/
theorem strtod_le (s : Bytes) : (strtod s).2 ≤ s.length := by
  unfold strtod
  dsimp only
  generalize hsign : (if s.headD 0 = 45 ∨ s.headD 0 = 43 then 1 else 0) = sign
  generalize hwhole : (s.drop sign).takeWhile isDigit = whole
  generalize hrest : s.drop (sign + whole.length) = rest
  have hsigned : sign ≤ s.length := by
    split at hsign
    · rename_i h
      have : 0 < s.length := by
        rcases h with h | h
        · exact length_pos_of_headD h (by decide)
        · exact length_pos_of_headD h (by decide)
      omega
    · omega
  have hw := length_takeWhile_le isDigit (s.drop sign)
  rw [hwhole, List.length_drop] at hw
  have hr := congrArg List.length hrest
  rw [List.length_drop] at hr
  have hf : (if rest.headD 0 = 46 then 1 else 0)
      + (if rest.headD 0 = 46 then rest.tail.takeWhile isDigit else []).length ≤ rest.length := by
    split
    · rename_i h
      have hpos := length_pos_of_headD h (by decide)
      have := length_takeWhile_le isDigit rest.tail
      rw [List.length_tail] at this
      omega
    · simp
  generalize (if rest.headD 0 = 46 then 1 else 0) = point at *
  generalize (if rest.headD 0 = 46 then rest.tail.takeWhile isDigit else []) = fraction at *
  have he := exponentPart_le (s.drop (sign + whole.length + point + fraction.length))
  rw [List.length_drop] at he
  split
  · exact Nat.zero_le _
  · show sign + whole.length + point + fraction.length + _ ≤ s.length
    omega

theorem strtod_number (s : Bytes) :
    double.Number (strtod s).1 ∨ |(strtod s).1| = 2 ^ (double.emax + 1) := by
  unfold strtod
  dsimp only
  generalize (if s.headD 0 = 45 ∨ s.headD 0 = 43 then 1 else 0) = sign
  generalize (s.drop sign).takeWhile isDigit = whole
  generalize s.drop (sign + whole.length) = rest
  generalize (if rest.headD 0 = 46 then rest.tail.takeWhile isDigit else []) = fraction
  split
  · left
    exact ⟨0, 0, by simp, by norm_num [double], by norm_num [double], by norm_num [double]⟩
  · exact Format.round_number_or _

/-! ### What the texts look like -/

theorem inDecimal_of_isDigit {c : UInt8} (h : isDigit c = true) : inDecimal c = true := by
  simp [inDecimal, h]

theorem inDecimal_exponentText (x : ℤ) : ∀ c ∈ exponentText x, inDecimal c = true := by
  have hnum : ∀ c ∈ numeral 10 x.natAbs, inDecimal c = true := fun c hc =>
    inDecimal_of_isDigit (isDigit_of_mem_numeral (by norm_num) (by norm_num) hc)
  unfold exponentText
  intro c hc
  rcases List.mem_cons.mp hc with rfl | hc
  · rfl
  rcases List.mem_cons.mp hc with rfl | hc
  · split <;> rfl
  split at hc
  · rcases List.mem_cons.mp hc with rfl | hc
    · rfl
    · exact hnum c hc
  · exact hnum c hc

theorem inDecimal_pointed {fraction : Bytes} (h : ∀ c ∈ fraction, inDecimal c = true) :
    ∀ c ∈ pointed fraction, inDecimal c = true := by
  unfold pointed
  split
  · simp
  · intro c hc
    rcases List.mem_cons.mp hc with rfl | hc
    · rfl
    · exact h c hc

theorem inDecimal_positiveG (k : ℕ) (d : ℚ) : ∀ c ∈ positiveG k d, inDecimal c = true := by
  have hnum : ∀ c ∈ numeral 10 (scientific k d).1, inDecimal c = true := fun c hc =>
    inDecimal_of_isDigit (isDigit_of_mem_numeral (by norm_num) (by norm_num) hc)
  have hdrop : ∀ n, ∀ c ∈ pointed (stripZeros ((numeral 10 (scientific k d).1).drop n)),
      inDecimal c = true := fun n =>
    inDecimal_pointed fun c hc => hnum c (List.mem_of_mem_drop (mem_of_mem_stripZeros hc))
  unfold positiveG
  dsimp only
  intro c hc
  split at hc
  · rcases List.mem_append.mp hc with hc | hc
    · rcases List.mem_append.mp hc with hc | hc
      · exact hnum c (List.mem_of_mem_take hc)
      · exact hdrop 1 c hc
    · exact inDecimal_exponentText _ c hc
  · split at hc
    · rcases List.mem_append.mp hc with hc | hc
      · exact hnum c (List.mem_of_mem_take hc)
      · exact hdrop _ c hc
    · rcases List.mem_append.mp hc with hc | hc
      · rw [List.mem_singleton.mp hc]
        rfl
      · refine inDecimal_pointed (fun c hc => ?_) c hc
        rcases List.mem_append.mp hc with hc | hc
        · rw [(List.mem_replicate.mp hc).2]
          rfl
        · exact hnum c (mem_of_mem_stripZeros hc)

theorem inDecimal_sprintfG (k : ℕ) (d : ℚ) : ∀ c ∈ sprintfG k d, inDecimal c = true := by
  unfold sprintfG
  intro c hc
  split at hc
  · rw [List.mem_singleton.mp hc]
    rfl
  · split at hc
    · rcases List.mem_cons.mp hc with rfl | hc
      · rfl
      · exact inDecimal_positiveG k _ c hc
    · exact inDecimal_positiveG k _ c hc

theorem length_pointed_le (fraction : Bytes) : (pointed fraction).length ≤ fraction.length + 1 := by
  unfold pointed
  split
  · simp
  · simp

theorem length_exponentText_le {x : ℤ} (h : x.natAbs < 1000) : (exponentText x).length ≤ 5 := by
  have hnum := length_numeral_le (b := 10) (n := x.natAbs) (k := 3) (by norm_num) (by norm_num) h
  unfold exponentText
  dsimp only
  rw [List.length_cons, List.length_cons]
  split
  · rw [List.length_cons]
    omega
  · omega

theorem length_positiveG_le (k : ℕ) {d : ℚ} (hd : 0 < d) (hx : (scientific k d).2.natAbs < 1000) :
    (positiveG k d).length ≤ k + 7 := by
  have hlen := length_digits k hd
  have hexp := length_exponentText_le hx
  unfold positiveG
  dsimp only
  generalize (scientific k d).1 = m at *
  generalize (scientific k d).2 = x at *
  have hcut : ∀ n, ((numeral 10 m).take n).length
      + (pointed (stripZeros ((numeral 10 m).drop n))).length ≤ k + 2 := by
    intro n
    have h1 := length_pointed_le (stripZeros ((numeral 10 m).drop n))
    have h2 := stripZeros_length_le ((numeral 10 m).drop n)
    rw [List.length_drop, hlen] at h2
    rw [List.length_take, hlen]
    omega
  split
  · have := hcut 1
    rw [List.length_append, List.length_append]
    omega
  · split
    · have := hcut (x.toNat + 1)
      rw [List.length_append]
      omega
    · have h1 := length_pointed_le (List.replicate (-x - 1).toNat 48 ++ stripZeros (numeral 10 m))
      have h2 := stripZeros_length_le (numeral 10 m)
      rw [List.length_append, List.length_replicate] at h1
      rw [List.length_append, List.length_singleton]
      omega

end Decimals
