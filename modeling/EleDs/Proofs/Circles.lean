/-
The points of a circle.

`Paint_DrawCircle` walks an eighth of the circle and draws the other seven with it.  Its
account is kept in sixteen bits; up to a radius of 8192 that is enough, and then the rows it
draws are those of `Bresenham.rim` (`drawCircle_draws`).
-/
import EleDs.Lib.Bresenham
import EleDs.Model.Draw

namespace EleDs

open Bresenham

theorem int16_of_small {z : Int} (hlow : -32768 ≤ z) (hhigh : z < 32768) : int16 z = z := by
  unfold int16
  omega

section Circle

variable {radius x : Nat}

/-- What holds of the variables at the start of the turn for column `x`. -/
structure CircleAt (radius x : Nat) (s : CircleState) : Prop where
  column : s.xCurrent = x
  -- Above the diagonal the walk is on the rim; below it only has to be known that it is below.
  row : x ≤ rim radius x → s.yCurrent = rim radius x
  account : x ≤ rim radius x → s.esp = excess radius x (rim radius x)
  past : rim radius x < x → s.yCurrent < x

theorem circleAt_start (hr : radius ≤ 8192) : CircleAt radius 0 (circleStart radius) where
  column := rfl
  row := fun _ => by
    rw [rim_zero]
    exact int16_of_small (by omega) (by omega)
  account := fun _ => by
    rw [rim_zero, excess]
    refine (int16_of_small (by omega) (by omega)).trans ?_
    push_cast
    ring
  past := fun h => absurd h (Nat.not_lt_zero _)

theorem circleAt_step (hr : radius ≤ 8192) {s : CircleState} (hs : CircleAt radius x s)
    (hx : x ≤ rim radius x) : CircleAt radius (x + 1) (circleStep s) := by
  have hy := hs.row hx
  have he := hs.account hx
  have hle : rim radius x ≤ radius := rim_le
  obtain ⟨hstay, hdown, hout⟩ := rim_succ hx
  have hcolumn : int16 ((x : Int) + 1) = ((x + 1 : Nat) : Int) := by
    rw [int16_of_small (by omega) (by omega)]
    push_cast
    rfl
  rw [circleStep, hs.column, hy, he]
  by_cases hneg : excess radius x (rim radius x) < 0
  · rw [if_pos hneg]
    have hrow := hstay hneg
    have hnext : excess radius x (rim radius x) + (4 * (x : Int) + 6)
        = excess radius (x + 1) (rim radius x) := by
      rw [excess, excess]
      push_cast
      ring
    refine ⟨hcolumn, fun h => ?_, fun h => ?_, fun h => ?_⟩
    · rw [hrow]
    · have hb := excess_bounds h
      have hlt := lt_of_rim_pos (Nat.lt_of_lt_of_le (Nat.succ_pos x) h)
      rw [hrow] at hb h
      show int16 _ = _
      rw [hnext, hrow]
      exact int16_of_small (by omega) (by omega)
    · rw [hrow] at h
      show (rim radius x : Int) < _
      omega
  · rw [if_neg hneg]
    have hpos := not_lt.mp hneg
    have hbelow : int16 ((rim radius x : Int) - 1) = (rim radius x : Int) - 1 :=
      int16_of_small (by omega) (by omega)
    by_cases hin : x + 1 ≤ rim radius x - 1
    · have hrow := hdown hpos hin
      have hnext : excess radius x (rim radius x) + (10 + 4 * ((x : Int) - rim radius x))
          = excess radius (x + 1) (rim radius x - 1) := by
        rw [excess, excess, Nat.cast_sub (by omega)]
        push_cast
        ring
      refine ⟨hcolumn, fun _ => ?_, fun h => ?_, fun h => ?_⟩
      · show int16 _ = _
        rw [hbelow, hrow]
        omega
      · have hb := excess_bounds h
        rw [hrow] at hb
        show int16 _ = _
        rw [hnext, hrow]
        exact int16_of_small (by omega) (by omega)
      · omega
    · have hend := hout hpos (by omega)
      refine ⟨hcolumn, fun h => ?_, fun h => ?_, fun _ => ?_⟩
      · omega
      · omega
      · show int16 _ < _
        rw [hbelow]
        omega

variable (xCenter yCenter color : Nat) (lineWidth : DotPixel) (drawFill : DrawFill)

/-- What is drawn for column `x`: its end, or all of it from the diagonal on. -/
def circleTurn (radius : Nat) (p : Paint) (x : Nat) : Paint :=
  match drawFill with
  | .full => forUp 0 (rim radius x + 1 - x)
      (fun k => eightPoints xCenter yCenter color .px1 x (x + k)) p
  | .empty => eightPoints xCenter yCenter color lineWidth x (rim radius x) p

/-- The columns above the diagonal, from `x` on. -/
def circleColumns (radius x : Nat) : List Nat :=
  (List.range' x (radius + 1 - x)).filter fun x => x ≤ rim radius x

theorem circleColumns_cons (hx : x ≤ rim radius x) :
    circleColumns radius x = x :: circleColumns radius (x + 1) := by
  have hle : rim radius x ≤ radius := rim_le
  rw [circleColumns, show radius + 1 - x = radius + 1 - (x + 1) + 1 by omega, List.range'_succ,
    List.filter_cons_of_pos (by simpa using hx)]
  rfl

theorem circleColumns_nil (hx : rim radius x < x) : circleColumns radius x = [] := by
  rw [circleColumns, List.filter_eq_nil_iff]
  intro x' hx'
  have hge : x ≤ x' := by
    rw [List.mem_range'_1] at hx'
    exact hx'.1
  have hrim : rim radius x' ≤ rim radius x := rim_antitone hge
  simp only [decide_eq_true_eq]
  omega

theorem circleLoop_draws (hr : radius ≤ 8192) {fuel : Nat} (hfuel : radius + 1 ≤ x + fuel)
    {s : CircleState} (hs : CircleAt radius x s) (p : Paint) :
    circleLoop xCenter yCenter color lineWidth drawFill (fuel + 1) s p
      = .ok ((circleColumns radius x).foldl
          (circleTurn xCenter yCenter color lineWidth drawFill radius) p) := by
  induction fuel generalizing x s p with
  | zero =>
      have hover : rim radius x < x := by
        have hle : rim radius x ≤ radius := rim_le
        omega
      rw [circleLoop, hs.column, if_neg (by have := hs.past hover; omega), circleColumns_nil hover]
      rfl
  | succ fuel ih =>
      rw [circleLoop, hs.column]
      by_cases hx : x ≤ rim radius x
      · have hle : rim radius x ≤ radius := rim_le
        have hy := hs.row hx
        have hnext := circleAt_step hr hs hx
        rw [if_pos (by omega), circleColumns_cons hx]
        cases drawFill with
        | full =>
            have hturns : ((rim radius x : Int) - x + 1).toNat = rim radius x + 1 - x := by omega
            have hcolumn : circleColumn xCenter yCenter color s p
                = .ok (circleTurn xCenter yCenter color lineWidth .full radius p x) := by
              rw [circleColumn, hy, hs.column, if_neg (by omega), hturns]
              rfl
            dsimp only
            rw [hcolumn]
            exact ih (by omega) hnext _
        | empty =>
            dsimp only
            rw [hy]
            exact ih (by omega) hnext _
      · have hover : rim radius x < x := Nat.lt_of_not_le hx
        rw [if_neg (by have := hs.past hover; omega), circleColumns_nil hover]
        rfl

end Circle

/-- **The points of a circle.** -/
theorem drawCircle_draws {p : Paint} {xCenter yCenter radius : Nat} (hx : xCenter ≤ p.width)
    (hy : yCenter < p.height) (hr : radius ≤ 8192) (color : Nat) (lineWidth : DotPixel)
    (drawFill : DrawFill) :
    paintDrawCircle p xCenter yCenter radius color lineWidth drawFill
      = .ok ((circleColumns radius 0).foldl
          (circleTurn xCenter yCenter color lineWidth drawFill radius) p) := by
  rw [paintDrawCircle, if_neg (by omega)]
  exact circleLoop_draws xCenter yCenter color lineWidth drawFill hr (by omega)
    (circleAt_start hr) p

end EleDs
