/-
Filling a window of a grid, a row at a time.

A cursor goes through the window from left to right and from top to bottom, and one
value is written at each place it stops.  `scan_grid` says where the values end up: as
long as there are no more of them than the window has cells, cell `(row, col)` gets the
value of its rank in reading order, and nothing outside the window changes.
-/
import Mathlib.Data.Nat.Basic

namespace Raster

variable {α : Type}

/-- The columns `left … right` of the rows `top … bottom`, all of them included. -/
structure Window where
  left : Nat
  right : Nat
  top : Nat
  bottom : Nat
deriving DecidableEq

/-- Where the next value goes. -/
structure Cursor where
  x : Nat
  y : Nat
deriving DecidableEq

/-- One place on: along the row, and from its end to the start of the next one. -/
def advance (w : Window) (c : Cursor) : Cursor :=
  if c.x = w.right then ⟨w.left, if c.y = w.bottom then w.top else c.y + 1⟩
  else ⟨c.x + 1, c.y⟩

/-- A grid, by row and column. -/
abbrev Grid (α : Type) := Nat → Nat → α

/-- Write one cell. -/
def put (g : Grid α) (c : Cursor) (a : α) : Grid α :=
  fun row col => if row = c.y ∧ col = c.x then a else g row col

/-- Write `f 0, …, f (n - 1)`, moving on after each. -/
def scan (w : Window) (f : Nat → α) : Nat → Cursor × Grid α → Cursor × Grid α
  | 0, s => s
  | n + 1, s =>
      let s' := scan w f n s
      (advance w s'.1, put s'.2 s'.1 (f n))

namespace Window

/-- The window of `width` columns and `height` rows at a corner. -/
def ofSize (left top width height : Nat) : Window :=
  ⟨left, left + width - 1, top, top + height - 1⟩

end Window

/-- The `n`-th place of a window of `width` columns. -/
def place (left top width n : Nat) : Cursor := ⟨left + n % width, top + n / width⟩

/-- The number a cell has in reading order. -/
def rank (left top width row col : Nat) : Nat := (row - top) * width + (col - left)

variable {left top width height n : Nat}

theorem advance_place (hn : n + 1 < width * height) :
    advance (.ofSize left top width height) (place left top width n)
      = place left top width (n + 1) := by
  have hw : 0 < width := Nat.pos_of_ne_zero (by rintro rfl; omega)
  have hmod : n % width < width := Nat.mod_lt n hw
  have hdiv : width * (n / width) + n % width = n := Nat.div_add_mod n width
  unfold advance place Window.ofSize
  by_cases hend : n % width = width - 1
  · -- the last column: the next place starts a row, and there is one
    have hnext : n + 1 = width * (n / width + 1) := by
      rw [Nat.mul_add, Nat.mul_one]
      omega
    have hrow : n / width + 1 < height := by
      rw [hnext] at hn
      exact Nat.lt_of_mul_lt_mul_left hn
    rw [if_pos (by dsimp only; omega), if_neg (by dsimp only; omega), hnext,
      Nat.mul_mod_right, Nat.mul_div_cancel_left _ hw]
    rfl
  · have hnext : n + 1 = width * (n / width) + (n % width + 1) := by omega
    have hlt : n % width + 1 < width := by omega
    rw [if_neg (by dsimp only; omega), hnext, Nat.mul_add_mod, Nat.mod_eq_of_lt hlt,
      Nat.mul_add_div hw, Nat.div_eq_of_lt hlt]
    rfl

theorem scan_cursor (f : Nat → α) (g : Grid α) (hn : n < width * height) :
    (scan (.ofSize left top width height) f n (place left top width 0, g)).1
      = place left top width n := by
  induction n with
  | zero => rfl
  | succ n ih =>
      rw [scan, ih (by omega)]
      exact advance_place hn

/-- Only the cells of the window have a place in it, and each has one. -/
theorem eq_place_iff (hn : n < width * height) {row col : Nat} :
    (row = (place left top width n).y ∧ col = (place left top width n).x) ↔
      (top ≤ row ∧ row < top + height ∧ left ≤ col ∧ col < left + width) ∧
        rank left top width row col = n := by
  have hw : 0 < width := Nat.pos_of_ne_zero (by rintro rfl; omega)
  have hmod : n % width < width := Nat.mod_lt n hw
  have hrow : n / width < height := Nat.div_lt_of_lt_mul hn
  unfold place rank
  constructor
  · rintro ⟨rfl, rfl⟩
    refine ⟨⟨Nat.le_add_right top _, Nat.add_lt_add_left hrow top,
      Nat.le_add_right left _, Nat.add_lt_add_left hmod left⟩, ?_⟩
    dsimp only
    rw [Nat.add_sub_cancel_left, Nat.add_sub_cancel_left, Nat.mul_comm, Nat.div_add_mod]
  · rintro ⟨⟨htop, _, hleft, hright⟩, rfl⟩
    have hcol : col - left < width := by omega
    dsimp only
    rw [Nat.mul_comm, Nat.mul_add_div hw, Nat.mul_add_mod, Nat.mod_eq_of_lt hcol,
      Nat.div_eq_of_lt hcol]
    omega

/-- **Where a scan puts its values.** -/
theorem scan_grid (f : Nat → α) (g : Grid α) (hn : n ≤ width * height) (row col : Nat) :
    (scan (.ofSize left top width height) f n (place left top width 0, g)).2 row col
      = if (top ≤ row ∧ row < top + height ∧ left ≤ col ∧ col < left + width) ∧
          rank left top width row col < n
        then f (rank left top width row col) else g row col := by
  induction n with
  | zero => rw [if_neg (by omega)]; rfl
  | succ n ih =>
      rw [scan]
      dsimp only
      rw [scan_cursor f g hn, put, ih (by omega)]
      by_cases hhere : row = (place left top width n).y ∧ col = (place left top width n).x
      · obtain ⟨hin, hrank⟩ := (eq_place_iff hn).mp hhere
        rw [if_pos hhere, if_pos ⟨hin, by omega⟩, hrank]
      · have hnot := mt (eq_place_iff hn).mpr hhere
        rw [if_neg hhere]
        by_cases hbefore : (top ≤ row ∧ row < top + height ∧ left ≤ col ∧ col < left + width) ∧
            rank left top width row col < n
        · rw [if_pos hbefore, if_pos ⟨hbefore.1, by omega⟩]
        · rw [if_neg hbefore, if_neg]
          rintro ⟨hin, hlt⟩
          have hne : rank left top width row col ≠ n := fun h => hnot ⟨hin, h⟩
          exact hbefore ⟨hin, by omega⟩

/-- A cell of the window comes before its end. -/
theorem rank_lt {row col : Nat}
    (h : top ≤ row ∧ row < top + height ∧ left ≤ col ∧ col < left + width) :
    rank left top width row col < width * height := by
  have hrows : (row - top + 1) * width ≤ height * width :=
    Nat.mul_le_mul_right width (by omega)
  unfold rank
  rw [Nat.mul_comm width height]
  rw [Nat.add_mul, Nat.one_mul] at hrows
  omega

/-- **A scan of the whole window**, from its corner on. -/
theorem scan_window (f : Nat → α) (g : Grid α) (row col : Nat) :
    (scan (.ofSize left top width height) f (width * height) (⟨left, top⟩, g)).2 row col
      = if top ≤ row ∧ row < top + height ∧ left ≤ col ∧ col < left + width
        then f (rank left top width row col) else g row col := by
  have hcorner : (⟨left, top⟩ : Cursor) = place left top width 0 := by
    rw [place, Nat.zero_mod, Nat.zero_div, Nat.add_zero, Nat.add_zero]
  rw [hcorner, scan_grid f g (Nat.le_refl _)]
  by_cases hin : top ≤ row ∧ row < top + height ∧ left ≤ col ∧ col < left + width
  · rw [if_pos hin, if_pos ⟨hin, rank_lt hin⟩]
  · rw [if_neg hin, if_neg fun h => hin h.1]

end Raster
