/-
A list as a ring.

Cell 0 follows the last cell.  `window` reads some cells in a row, `ringWrite` writes
some, and both go round the end when they have to.  The two lemmas a queue in a ring
needs are at the end: writing right behind a window extends it, and a window can be
read in two parts.
-/
import EleDs.Lib.Bytes

namespace CMem

variable {α : Type}

/-- The cell `k` places after cell `r` of `n`. -/
def ringNext (n r k : Nat) : Nat := if r + k < n then r + k else r + k - n

/-- The `k` cells from `r` on. -/
def window (b : List α) (r k : Nat) : List α := ((b ++ b).drop r).take k

/-- Copy `src` into the cells from `w` on. -/
def ringWrite (b : List α) (w : Nat) (src : List α) : List α :=
  overwrite (overwrite b w (src.take (b.length - w))) 0 (src.drop (b.length - w))

theorem ringNext_lt {n r k : Nat} (hr : r < n) (hk : k ≤ n) : ringNext n r k < n := by
  unfold ringNext
  split <;> omega

/-! ### Cell by cell -/

theorem length_ringWrite {b : List α} {w : Nat} {src : List α} (hw : w < b.length)
    (hlen : src.length ≤ b.length) : (ringWrite b w src).length = b.length := by
  have hfirst : w + (src.take (b.length - w)).length ≤ b.length := by
    rw [List.length_take]
    omega
  rw [ringWrite, length_overwrite, length_overwrite hfirst]
  rw [length_overwrite hfirst, List.length_drop]
  omega

theorem getElem?_ringWrite {b : List α} {w : Nat} {src : List α} (hw : w < b.length)
    (hlen : src.length ≤ b.length) {j : Nat} (hj : j < b.length) :
    (ringWrite b w src)[j]? =
      if w ≤ j ∧ j < w + src.length then src[j - w]?
      else if j + b.length < w + src.length then src[j + b.length - w]?
      else b[j]? := by
  have hfirst : w + (src.take (b.length - w)).length ≤ b.length := by
    rw [List.length_take]
    omega
  have hsecond : 0 + (src.drop (b.length - w)).length
      ≤ (overwrite b w (src.take (b.length - w))).length := by
    rw [length_overwrite hfirst, List.length_drop]
    omega
  rw [ringWrite, getElem?_overwrite hsecond, getElem?_overwrite hfirst, List.length_drop,
    List.length_take, List.getElem?_drop, List.getElem?_take]
  by_cases hwrap : j + b.length < w + src.length
  · rw [if_pos (by omega), if_neg (by omega), if_pos hwrap]
    congr 1
    omega
  · rw [if_neg (by omega), if_neg hwrap]
    by_cases hin : w ≤ j ∧ j < w + src.length
    · rw [if_pos (by omega), if_pos (by omega), if_pos hin]
    · rw [if_neg (by omega), if_neg hin]

theorem getElem?_window (b : List α) (r k i : Nat) :
    (window b r k)[i]? = if i < k then b[ringNext b.length r i]? else none := by
  unfold window ringNext
  rw [List.getElem?_take, List.getElem?_drop, List.getElem?_append]
  by_cases hi : i < k
  · rw [if_pos hi, if_pos hi]
    split <;> rfl
  · rw [if_neg hi, if_neg hi]

theorem length_window {b : List α} {r k : Nat} (hr : r < b.length) (hk : k ≤ b.length) :
    (window b r k).length = k := by
  rw [window, List.length_take, List.length_drop, List.length_append]
  omega

/-! ### Windows -/

/-- A window that ends before the ring goes round. -/
theorem window_ahead {b : List α} {r k : Nat} (hr : r ≤ b.length) (hk : k ≤ b.length - r) :
    window b r k = (b.drop r).take k := by
  rw [window, List.drop_append_of_le_length hr,
    List.take_append_of_le_length (by rw [List.length_drop]; exact hk)]

/-- A window that reaches its end. -/
theorem window_round {b : List α} {r k : Nat} (hr : r ≤ b.length) (hk : b.length - r ≤ k) :
    window b r k = b.drop r ++ b.take (k - (b.length - r)) := by
  rw [window, List.drop_append_of_le_length hr, List.take_append,
    List.take_of_length_le (by rw [List.length_drop]; exact hk), List.length_drop]

/-- A copy that stops before the ring goes round. -/
theorem ringWrite_ahead {b : List α} {w : Nat} {src : List α} (h : src.length ≤ b.length - w) :
    ringWrite b w src = overwrite b w src := by
  rw [ringWrite, List.take_of_length_le h, List.drop_of_length_le h]
  simp [overwrite]

/-- Writing right behind a window extends it. -/
theorem window_ringWrite {b : List α} {r k : Nat} (src : List α) (hr : r < b.length)
    (hk : k + src.length ≤ b.length) :
    window (ringWrite b (ringNext b.length r k) src) r (k + src.length)
      = window b r k ++ src := by
  have hw := ringNext_lt hr (show k ≤ b.length by omega)
  have hlen := length_ringWrite hw (show src.length ≤ b.length by omega)
  refine List.ext_getElem? fun i => ?_
  rw [getElem?_window, hlen, List.getElem?_append, length_window hr (by omega), getElem?_window]
  by_cases hi : i < k + src.length
  · have hcell := ringNext_lt hr (show i ≤ b.length by omega)
    rw [if_pos hi, getElem?_ringWrite hw (by omega) hcell]
    by_cases hold : i < k
    · -- a cell of the old window is not written
      have hout : ringNext b.length r i < ringNext b.length r k ∧
          ringNext b.length r k + src.length ≤ ringNext b.length r i + b.length ∨
          ringNext b.length r k + src.length ≤ ringNext b.length r i := by
        unfold ringNext
        split <;> split <;> omega
      rw [if_pos hold, if_pos hold, if_neg (by omega), if_neg (by omega)]
    · have hin : ringNext b.length r i = ringNext b.length r k + (i - k) ∨
          ringNext b.length r i + b.length = ringNext b.length r k + (i - k) := by
        unfold ringNext
        split <;> split <;> omega
      rw [if_neg hold]
      rcases hin with hin | hin
      · rw [if_pos (by omega)]
        congr 1
        omega
      · rw [if_neg (by omega), if_pos (by omega)]
        congr 1
        omega
  · rw [if_neg hi, if_neg (by omega), List.getElem?_eq_none (by omega)]

/-- A window can be read in two parts. -/
theorem window_add {b : List α} {r j k : Nat} (hr : r < b.length) (hk : j + k ≤ b.length) :
    window b r (j + k) = window b r j ++ window b (ringNext b.length r j) k := by
  refine List.ext_getElem? fun i => ?_
  rw [List.getElem?_append, length_window hr (by omega), getElem?_window, getElem?_window,
    getElem?_window]
  by_cases hfirst : i < j
  · rw [if_pos hfirst, if_pos hfirst, if_pos (by omega)]
  · rw [if_neg hfirst]
    by_cases hsecond : i - j < k
    · rw [if_pos hsecond, if_pos (by omega)]
      congr 1
      unfold ringNext
      split <;> split <;> split <;> omega
    · rw [if_neg hsecond, if_neg (by omega)]

end CMem
