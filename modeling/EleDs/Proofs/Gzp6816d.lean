/-
Which readings of the pressure sensor come out right.

The driver means to take `DMIN` off the 24 bits of the reading.  What it does is mask the
reading with the 24 ones less `DMIN`, which are the bits `DMIN` does not have.  The two
are the same number just when the reading has all the bits of `DMIN`, and those readings
it gets right.  The bytes before and behind the pressure play no role either way.
-/
import Mathlib.Data.Rat.Cast.Order
import Mathlib.Tactic.NormNum
import Mathlib.Tactic.Linarith
import EleDs.Model.Gzp6816d

namespace EleDs

open CMem

/-! ### The byte order -/

theorem swapBytes_getElem? {data : Bytes} {i j : Nat} (hi : i < data.length) (hj : j < data.length)
    (k : Nat) :
    (swapBytes data i j)[k]? = if k = j then data[i]? else if k = i then data[j]? else data[k]? := by
  have hget : ∀ x, x < data.length → data[x]? = some (data.getD x 0) := by
    intro x hx
    simp [List.getD_eq_getElem?_getD, hx]
  rw [swapBytes, List.getElem?_set, List.length_set, List.getElem?_set, hget i hi, hget j hj]
  by_cases hkj : k = j
  · rw [if_pos hkj.symm, if_pos hj, if_pos hkj]
  · rw [if_neg (Ne.symm hkj), if_neg hkj]
    by_cases hki : k = i
    · rw [if_pos hki.symm, if_pos hi, if_pos hki]
    · rw [if_neg (Ne.symm hki), if_neg hki]

/-- The loop has turned round what is between its two indices. -/
theorem reverseLoop_getElem? : ∀ (fuel i j : Nat) (data : Bytes), j < data.length →
    j ≤ i + 2 * fuel → ∀ k, (reverseLoop fuel i j data)[k]?
      = if i ≤ k ∧ k ≤ j then data[i + j - k]? else data[k]? := by
  intro fuel
  induction fuel with
  | zero =>
      intro i j data _ hfuel k
      rw [reverseLoop]
      split
      · congr 1
        omega
      · rfl
  | succ fuel ih =>
      intro i j data hj hfuel k
      rw [reverseLoop]
      by_cases hij : i < j
      · have hlen : (swapBytes data i j).length = data.length := by simp [swapBytes]
        rw [if_pos hij, ih (i + 1) (j - 1) _ (by omega) (by omega) k,
          swapBytes_getElem? (by omega) hj, swapBytes_getElem? (by omega) hj]
        -- inside, at the two ends, or outside
        by_cases hin : i + 1 ≤ k ∧ k ≤ j - 1
        · have hmid : i + 1 + (j - 1) - k = i + j - k := by omega
          have hne : i + j - k ≠ j ∧ i + j - k ≠ i := by omega
          have hall : i ≤ k ∧ k ≤ j := by omega
          rw [if_pos hin, hmid, if_neg hne.1, if_neg hne.2, if_pos hall]
        · rw [if_neg hin]
          by_cases hkj : k = j
          · subst hkj
            rw [if_pos rfl, if_pos ⟨Nat.le_of_lt hij, Nat.le_refl k⟩, Nat.add_sub_cancel]
          · by_cases hki : k = i
            · subst hki
              rw [if_neg hkj, if_pos rfl, if_pos ⟨Nat.le_refl k, Nat.le_of_lt hij⟩,
                Nat.add_sub_cancel_left]
            · have hout : ¬ (i ≤ k ∧ k ≤ j) := by omega
              rw [if_neg hkj, if_neg hki, if_neg hout]
      · rw [if_neg hij]
        split
        · congr 1
          omega
        · rfl

/-- **`reverse_bytes` reverses.** -/
theorem reverseBytes_eq (data : Bytes) : reverseBytes data = data.reverse := by
  cases hdata : data with
  | nil => rfl
  | cons b rest =>
      rw [← hdata]
      have hpos : 0 < data.length := by simp [hdata]
      apply List.ext_getElem?
      intro k
      rw [reverseBytes, reverseLoop_getElem? _ _ _ _ (by omega) (by omega)]
      by_cases hk : k < data.length
      · rw [if_pos (by omega), List.getElem?_reverse hk, Nat.zero_add]
      · rw [if_neg (by omega), List.getElem?_eq_none (by omega),
          List.getElem?_eq_none (by simpa using hk)]

/-! ### A reading -/

/-- What the sensor sends. -/
structure Frame where
  status : UInt8
  p2 : UInt8
  p1 : UInt8
  p0 : UInt8
  t1 : UInt8
  t0 : UInt8

namespace Frame

def bytes (f : Frame) : Buf 6 := ⟨[f.status, f.p2, f.p1, f.p0, f.t1, f.t0], rfl⟩

/-- The 24 bits of the pressure. -/
def reading (f : Frame) : Nat := f.p2.toNat * 65536 + f.p1.toNat * 256 + f.p0.toNat

/-- The 16 bits of the temperature. -/
def warmth (f : Frame) : Nat := f.t1.toNat * 256 + f.t0.toNat

/-- The reading has every bit that `DMIN` has. -/
def HasBits (f : Frame) : Prop := f.reading &&& DMIN = DMIN

theorem reading_lt (f : Frame) : f.reading < 2 ^ 24 := by
  have h2 := f.p2.toNat_lt
  have h1 := f.p1.toNat_lt
  have h0 := f.p0.toNat_lt
  simp only [reading]
  omega

end Frame

theorem calRawdata_rawPressure (f : Frame) :
    (calRawdata f.bytes).rawPressure = f.reading + 2 ^ 24 * f.status.toNat := by
  show littleEndian (reverseBytes [f.status, f.p2, f.p1, f.p0]) = _
  rw [reverseBytes_eq]
  simp [littleEndian, Frame.reading]
  omega

theorem calRawdata_rawTemperature (f : Frame) : (calRawdata f.bytes).rawTemperature = f.warmth := by
  show littleEndian (reverseBytes [f.t1, f.t0]) = _
  rw [reverseBytes_eq]
  simp [littleEndian, Frame.warmth]
  omega

/-- What is left of the reading when the bits of `DMIN` are taken out. -/
def Frame.masked (f : Frame) : Nat := f.reading &&& (GZP6816D_PRESSURE_VALUE_MASK - DMIN)

theorem calRawdata_pressure (f : Frame) :
    (calRawdata f.bytes).pressure = 80 / 13421772 * (f.masked : ℚ) + 20 := by
  show calcPressure (calRawdata f.bytes).rawPressure GZP6816D_PRESSURE_VALUE_MASK = _
  rw [calRawdata_rawPressure, calcPressure, add_mul_and _ f.reading_lt (by decide), Frame.masked]
  norm_num [PMAX, PMIN, DMAX, DMIN, OFFSET_PRESSURE]

/-- The bits taken out make up the difference. -/
theorem Frame.masked_add (f : Frame) : f.masked + (f.reading &&& DMIN) = f.reading :=
  and_compl_add_and 24 f.reading DMIN f.reading_lt (by decide)

/-- The pressure is the one the tool computes, and the temperature is its 16 bits. -/
def Agrees (f : Frame) : Prop :=
  (calRawdata f.bytes).pressure = pressureCalculation f.reading DMIN DMAX PMIN PMAX ∧
    (calRawdata f.bytes).rawTemperature = f.warmth

theorem agrees_of_hasBits {f : Frame} (h : f.HasBits) : Agrees f := by
  refine ⟨?_, calRawdata_rawTemperature f⟩
  have hsum := f.masked_add
  rw [h] at hsum
  have hsum' : (f.masked : ℚ) + DMIN = f.reading := by exact_mod_cast hsum
  rw [calRawdata_pressure, pressureCalculation, ← hsum']
  norm_num [PMAX, PMIN, DMAX, DMIN]

theorem hasBits_of_agrees {f : Frame} (h : Agrees f) : f.HasBits := by
  have hpressure := h.1
  rw [calRawdata_pressure, pressureCalculation] at hpressure
  norm_num [PMAX, PMIN, DMAX, DMIN] at hpressure
  have hmasked : (f.masked : ℚ) + 1677722 = f.reading := by linarith
  have hmasked' : f.masked + DMIN = f.reading := by exact_mod_cast hmasked
  have hsum := f.masked_add
  show f.reading &&& DMIN = DMIN
  omega

/-- **The pressure is right just for the readings that have all the bits of `DMIN`.**  It
never depends on the status or the temperature, and where it is right it grows with the
reading. -/
theorem agrees_iff_hasBits (f : Frame) :
    (Agrees f ↔ f.HasBits) ∧
    (∀ g : Frame, f.reading = g.reading →
      (calRawdata f.bytes).pressure = (calRawdata g.bytes).pressure) ∧
    ∀ g : Frame, f.HasBits → g.HasBits → f.reading < g.reading →
      (calRawdata f.bytes).pressure < (calRawdata g.bytes).pressure := by
  refine ⟨?_, ?_, ?_⟩
  · exact ⟨hasBits_of_agrees, agrees_of_hasBits⟩
  · intro g h
    rw [calRawdata_pressure, calRawdata_pressure, Frame.masked, Frame.masked, h]
  · intro g hf hg hlt
    have hmasked : f.masked < g.masked := by
      have hsum := f.masked_add
      have hsum' := g.masked_add
      rw [hf] at hsum
      rw [hg] at hsum'
      omega
    have hmasked' : (f.masked : ℚ) < g.masked := by exact_mod_cast hmasked
    rw [calRawdata_pressure, calRawdata_pressure]
    linarith

/-- The highest reading is one of them. -/
theorem agrees_highest :
    Agrees ⟨0, 0xFF, 0xFF, 0xFF, 0, 0⟩ ∧
      (calRawdata (Frame.bytes ⟨0, 0x19, 0x99, 0x9A, 0, 0⟩)).pressure
        < (calRawdata (Frame.bytes ⟨0, 0xFF, 0xFF, 0xFF, 0, 0⟩)).pressure :=
  ⟨(agrees_iff_hasBits ⟨0, 0xFF, 0xFF, 0xFF, 0, 0⟩).1.mpr rfl,
    (agrees_iff_hasBits ⟨0, 0x19, 0x99, 0x9A, 0, 0⟩).2.2 ⟨0, 0xFF, 0xFF, 0xFF, 0, 0⟩ rfl rfl
      (by decide)⟩

/-- The frame the driver's own test computes with. -/
def testFrame : Frame := ⟨0x04, 0x9B, 0xB0, 0xC5, 0x56, 0xAA⟩

/-- It comes out too high. -/
theorem testFrame_refuted : testFrame.reading = 10203333 ∧ testFrame.masked = 8527941 ∧
    ¬ Agrees testFrame := by
  refine ⟨by decide, by decide, ?_⟩
  intro h
  have hbits : testFrame.reading &&& DMIN = DMIN := hasBits_of_agrees h
  exact absurd hbits (by decide)

end EleDs
