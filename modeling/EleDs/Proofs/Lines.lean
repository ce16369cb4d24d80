/-
The points of a line.

`Paint_DrawLine` decides about the second coordinate after it has changed the first, and
from the error it has changed with it.  Its loop is the walk of `Lib/Bresenham.lean`, mirrored and
moved to where the line starts, so its points can be written down (`drawLine_draws`).  A
steep line is as it should be.  A flat one is half a pixel high or more where it can be, and
where it rises between a half and one it is one point short.
-/
import EleDs.Lib.Bresenham
import EleDs.Model.Draw
import EleDs.Proofs.Display

namespace EleDs

open CMem Bresenham

/-! ### One direction -/

/-- `k` steps from `start` towards `stop`. -/
def along (start stop k : Nat) : Nat := if start < stop then start + k else start - k

/-- How far it is. -/
def distance (start stop : Nat) : Nat := if start < stop then stop - start else start - stop

theorem along_eq_stop_iff {start stop k : Nat} (hk : k ≤ distance start stop) :
    along start stop k = stop ↔ k = distance start stop := by
  unfold along distance at *
  split at hk <;> split <;> omega

theorem along_zero (start stop : Nat) : along start stop 0 = start := by
  unfold along
  split <;> omega

/-- One step more, in a `UWORD`. -/
theorem along_succ {start stop k : Nat} (hk : k < distance start stop) (hstart : start < 65536)
    (hstop : stop < 65536) :
    uword (along start stop k + if start < stop then 1 else -1) = along start stop (k + 1) := by
  unfold along distance uword at *
  split at hk <;> split <;> simp_all <;> omega

section Line

variable {xstart ystart xend yend : Nat}

/-- The loop's variables at a place of the walk. -/
def lineAt (xstart ystart xend yend : Nat) (w : Nat × Nat) : LineState where
  xpoint := along xstart xend w.1
  ypoint := along ystart yend w.2
  esp := err (distance xstart xend) (distance ystart yend) w

theorem lineSetup_dx : (lineSetup xstart ystart xend yend).dx = distance xstart xend := by
  unfold lineSetup distance
  dsimp only
  split <;> split <;> omega

theorem lineSetup_dy : (lineSetup xstart ystart xend yend).dy = -(distance ystart yend : Int) := by
  unfold lineSetup distance
  dsimp only
  split <;> split <;> omega

variable (hx : xstart < 65536) (hxe : xend < 65536) (hy : ystart < 65536) (hye : yend < 65536)

include hx hxe in
theorem lineStepX_at {w : Nat × Nat} (hw : w.1 ≤ distance xstart xend) :
    lineStepX (lineSetup xstart ystart xend yend) (lineAt xstart ystart xend yend w)
      = (stepRight (distance xstart xend) (distance ystart yend) w).map
          (lineAt xstart ystart xend yend) := by
  have hend := along_eq_stop_iff hw
  rw [lineStepX, stepRight, lineSetup_dy]
  show (if 2 * err _ _ w ≥ _ then if along xstart xend w.1 = xend then _ else _ else _) = _
  by_cases hgo : 2 * err (distance xstart xend) (distance ystart yend) w ≥ -(distance ystart yend : Int)
  · rw [if_pos hgo, if_pos hgo]
    by_cases hlast : w.1 = distance xstart xend
    · rw [if_pos hlast, if_pos (hend.mpr hlast)]
      rfl
    · rw [if_neg hlast, if_neg fun hc => hlast (hend.mp hc)]
      have hx' := along_succ (Nat.lt_of_le_of_ne hw hlast) hx hxe
      refine congrArg some (LineState.ext hx' rfl ?_)
      show err _ _ w + _ = err _ _ (w.1 + 1, w.2)
      rw [err, err]
      push_cast
      ring
  · rw [if_neg hgo, if_neg hgo]
    rfl

include hy hye in
theorem lineStepY_at {w : Nat × Nat} (hw : w.2 ≤ distance ystart yend) :
    lineStepY (lineSetup xstart ystart xend yend) (lineAt xstart ystart xend yend w)
      = (stepUp (distance xstart xend) (distance ystart yend) w).map
          (lineAt xstart ystart xend yend) := by
  have hend := along_eq_stop_iff hw
  rw [lineStepY, stepUp, lineSetup_dx]
  show (if 2 * err _ _ w ≤ _ then if along ystart yend w.2 = yend then _ else _ else _) = _
  by_cases hgo : 2 * err (distance xstart xend) (distance ystart yend) w ≤ distance xstart xend
  · rw [if_pos hgo, if_pos hgo]
    by_cases hlast : w.2 = distance ystart yend
    · rw [if_pos hlast, if_pos (hend.mpr hlast)]
      rfl
    · rw [if_neg hlast, if_neg fun hc => hlast (hend.mp hc)]
      have hy' := along_succ (Nat.lt_of_le_of_ne hw hlast) hy hye
      refine congrArg some (LineState.ext rfl hy' ?_)
      show err _ _ w + _ = err _ _ (w.1, w.2 + 1)
      rw [err, err]
      push_cast
      ring
  · rw [if_neg hgo, if_neg hgo]
    rfl

/-! ### The loop -/

/-- The walk of this line. -/
abbrev lineTrail (xstart ystart xend yend k : Nat) : Nat × Nat :=
  trail (distance xstart xend) (distance ystart yend) k

/-- The number of points but one. -/
abbrev lineTurns (xstart ystart xend yend : Nat) : Nat :=
  turns (distance xstart xend) (distance ystart yend)

include hx hxe hy hye in
/-- A turn of the loop is a turn of the walk. -/
theorem lineStep_at {k : Nat} (hk : k ≤ lineTurns xstart ystart xend yend) :
    lineStep (lineSetup xstart ystart xend yend)
        (lineAt xstart ystart xend yend (lineTrail xstart ystart xend yend k))
      = if k < lineTurns xstart ystart xend yend
        then some (lineAt xstart ystart xend yend (lineTrail xstart ystart xend yend (k + 1)))
        else none := by
  obtain ⟨hi, hj⟩ := trail_le hk
  have hstep := step_trail hk
  rw [step] at hstep
  rw [lineStep, lineStepX_at hx hxe hi]
  cases hright : stepRight (distance xstart xend) (distance ystart yend)
      (lineTrail xstart ystart xend yend k) with
  | none =>
      rw [hright, Option.bind_none] at hstep
      split at hstep
      · cases hstep
      · rename_i hlast
        rw [if_neg hlast]
        rfl
  | some w =>
      have hw : w.2 ≤ distance ystart yend := by
        rw [stepRight] at hright
        split_ifs at hright <;> cases hright <;> exact hj
      rw [hright, Option.bind_some] at hstep
      rw [Option.map_some, Option.bind_some, lineStepY_at hy hye hw, hstep]
      split <;> rfl

variable (xstart ystart xend yend)

/-- The point that is drawn in turn `k`; of a dotted line every third is a gap. -/
def linePoint (color : Nat) (lineWidth : DotPixel) (lineStyle : LineStyle) (p : Paint) (k : Nat) :
    Paint :=
  paintDrawPoint p (along xstart xend (lineTrail xstart ystart xend yend k).1)
    (along ystart yend (lineTrail xstart ystart xend yend k).2)
    (if lineStyle = .dotted ∧ k % 3 = 2 then IMAGE_BACKGROUND else color) lineWidth .fillAround

variable {xstart ystart xend yend}

include hx hxe hy hye in
theorem lineLoop_draws (color : Nat) (lineWidth : DotPixel) (lineStyle : LineStyle)
    {fuel k dottedLen : Nat} (hk : k ≤ lineTurns xstart ystart xend yend)
    (hfuel : lineTurns xstart ystart xend yend < k + fuel)
    (hdotted : lineStyle = .dotted → dottedLen = k % 3) (p : Paint) :
    lineLoop (lineSetup xstart ystart xend yend) color lineWidth lineStyle fuel
        (lineAt xstart ystart xend yend (lineTrail xstart ystart xend yend k)) dottedLen p
      = .ok ((List.range' k (lineTurns xstart ystart xend yend + 1 - k)).foldl
          (linePoint xstart ystart xend yend color lineWidth lineStyle) p) := by
  induction fuel generalizing k dottedLen p with
  | zero => omega
  | succ fuel ih =>
      have hsmall : (k % 3 + 1) % 256 = k % 3 + 1 := Nat.mod_eq_of_lt (by omega)
      have hgap : (lineStyle = .dotted ∧ (dottedLen + 1) % 256 % 3 = 0)
          ↔ (lineStyle = .dotted ∧ k % 3 = 2) := by
        refine and_congr_right fun h => ?_
        rw [hdotted h, hsmall]
        omega
      have hpoint : paintDrawPoint p (along xstart xend (lineTrail xstart ystart xend yend k).1)
          (along ystart yend (lineTrail xstart ystart xend yend k).2)
          (if lineStyle = .dotted ∧ (dottedLen + 1) % 256 % 3 = 0 then IMAGE_BACKGROUND else color)
          lineWidth .fillAround = linePoint xstart ystart xend yend color lineWidth lineStyle p k := by
        rw [linePoint, if_congr hgap rfl rfl]
      have hrange : lineTurns xstart ystart xend yend + 1 - k
          = lineTurns xstart ystart xend yend + 1 - (k + 1) + 1 := by omega
      rw [hrange, List.range'_succ, List.foldl_cons, ← hpoint, lineLoop, lineStep_at hx hxe hy hye hk]
      by_cases hlast : k < lineTurns xstart ystart xend yend
      · rw [if_pos hlast]
        refine ih hlast (by omega) (fun h => ?_) _
        by_cases hthird : k % 3 = 2
        · rw [if_pos (hgap.mpr ⟨h, hthird⟩)]
          omega
        · rw [if_neg fun hc => hthird (hgap.mp hc).2, hdotted h, hsmall]
          omega
      · rw [if_neg hlast, show lineTurns xstart ystart xend yend + 1 - (k + 1) = 0 by omega]
        rfl

end Line

/-- **The points of a line.**  They are drawn from the start on, as many as the walk has turns. -/
theorem drawLine_draws {p : Paint} {xstart ystart xend yend : Nat} (hw : p.width < 65536)
    (hh : p.height < 65536) (hxs : xstart ≤ p.width) (hys : ystart ≤ p.height)
    (hxe : xend ≤ p.width) (hye : yend ≤ p.height) (color : Nat) (lineWidth : DotPixel)
    (lineStyle : LineStyle) :
    paintDrawLine p xstart ystart xend yend color lineWidth lineStyle
      = .ok ((List.range (lineTurns xstart ystart xend yend + 1)).foldl
          (linePoint xstart ystart xend yend color lineWidth lineStyle) p) := by
  have hfuel : lineTurns xstart ystart xend yend
      < 0 + ((lineSetup xstart ystart xend yend).dx.natAbs
        + (lineSetup xstart ystart xend yend).dy.natAbs + 1) := by
    have hle : lineTurns xstart ystart xend yend ≤ distance xstart xend + distance ystart yend :=
      turns_le
    rw [lineSetup_dx, lineSetup_dy, Int.natAbs_neg, Int.natAbs_natCast, Int.natAbs_natCast]
    omega
  have hstart : (⟨xstart, ystart, (lineSetup xstart ystart xend yend).dx
        + (lineSetup xstart ystart xend yend).dy⟩ : LineState)
      = lineAt xstart ystart xend yend (lineTrail xstart ystart xend yend 0) := by
    rw [lineTrail, trail_zero]
    refine LineState.ext (along_zero _ _).symm (along_zero _ _).symm ?_
    rw [lineSetup_dx, lineSetup_dy]
    show _ = err _ _ (0, 0)
    rw [err]
    push_cast
    ring
  rw [paintDrawLine, if_neg (by omega)]
  dsimp only
  rw [hstart, lineLoop_draws (by omega) (by omega) (by omega) (by omega) color lineWidth lineStyle
    (Nat.zero_le _) hfuel (fun _ => rfl) p, Nat.sub_zero, ← List.range_eq_range']

end EleDs
