/-
What the drawing functions draw.

Each of them is given its strokes, in a picture of `w` by `h`, and draws them and nothing
else (`Drawn`).  `Paint_SetPixel` lets the first column behind the right edge and the first
row behind the lower one through, so what is drawn has to keep inside; how far that is is
said with each of them.  Points of one pixel always do: they are drawn one pixel up and one
to the left of where they should be.
-/
import EleDs.Proofs.Canvas
import EleDs.Proofs.Circles
import EleDs.Proofs.Lines

namespace EleDs

open Bits Canvas

/-- A colour is black or it is white. -/
def isWhite (color : Nat) : Bool := decide (color ≠ BLACK)

section Strokes

variable {w h : Nat} {p : Paint}

/-! ### Windows and bitmaps -/

def windowStrokes (xstart ystart xend yend color : Nat) : List Stroke :=
  (List.range' ystart (yend - ystart)).flatMap fun y =>
    (List.range' xstart (xend - xstart)).flatMap fun x => [⟨x, y, isWhite color⟩]

theorem Upright.clearWindows (hp : Upright w h p) {xstart ystart xend yend : Nat} (hx : xend ≤ w)
    (hy : yend ≤ h) (color : Nat) :
    Drawn (windowStrokes xstart ystart xend yend color) p
      (paintClearWindows p xstart ystart xend yend color) :=
  hp.forUp fun y _ hy' _ hq => hq.forUp fun x _ hx' _ hr =>
    hr.setPixel (by omega) (by omega) color

def pasteStrokes (imageBuffer : Memory) (xStart yStart imageWidth imageHeight : Nat)
    (flipColor : Bool) : List Stroke :=
  (List.range' 0 imageHeight).flatMap fun y => (List.range' 0 imageWidth).flatMap fun x =>
    [⟨x + xStart, y + yStart,
      isWhite (pasteColor imageBuffer ((imageWidth + 7) / 8) x y flipColor)⟩]

theorem Upright.paste (hp : Upright w h p) {xStart yStart imageWidth imageHeight : Nat}
    (hx : xStart + imageWidth ≤ w) (hy : yStart + imageHeight ≤ h) (imageBuffer : Memory)
    (flipColor : Bool) :
    Drawn (pasteStrokes imageBuffer xStart yStart imageWidth imageHeight flipColor) p
      (paintDrawBitMapPaste p imageBuffer xStart yStart imageWidth imageHeight flipColor) := by
  have hwidth : (if imageWidth % 8 = 0 then imageWidth / 8 else imageWidth / 8 + 1)
      = (imageWidth + 7) / 8 := by
    split <;> omega
  have := hp.smallWidth
  have := hp.smallHeight
  unfold paintDrawBitMapPaste
  rw [hwidth]
  refine hp.forUp fun y _ hy' q hq => hq.forUp fun x _ hx' r hr => ?_
  have hcolumn : uword ((x : Int) + xStart) = x + xStart := uword_of_lt (n := x + xStart) (by omega)
  have hrow : uword ((y : Int) + yStart) = y + yStart := uword_of_lt (n := y + yStart) (by omega)
  rw [hcolumn, hrow]
  exact hr.setPixel (by omega) (by omega) _

/-! ### Points -/

/-- A point that is filled around, of `2 * dot - 1` by `2 * dot - 1` pixels.  It is cut off at
the left, and at the top it is not drawn at all. -/
def aroundStrokes (xpoint ypoint dot color : Nat) : List Stroke :=
  (List.range' 0 (2 * dot - 1)).flatMap fun i =>
    if xpoint + i < dot ∨ ypoint < dot then []
    else (List.range' 0 (2 * dot - 1)).flatMap fun j =>
      [⟨xpoint + i - dot, ypoint + j - dot, isWhite color⟩]

/-- A point that is filled to the right. -/
def rightupStrokes (xpoint ypoint dot color : Nat) : List Stroke :=
  (List.range' 0 dot).flatMap fun i => (List.range' 0 dot).flatMap fun j =>
    if xpoint + i = 0 ∨ ypoint + j = 0 then [] else [⟨xpoint + i - 1, ypoint + j - 1, isWhite color⟩]

variable (w h) in
/-- `Paint_DrawPoint` as strokes. -/
def pointStrokes (xpoint ypoint color : Nat) (dotPixel : DotPixel) (dotStyle : DotStyle) :
    List Stroke :=
  if w < xpoint ∨ h < ypoint then []
  else
    match dotStyle with
    | .fillAround => aroundStrokes xpoint ypoint dotPixel.size color
    | .fillRightup => rightupStrokes xpoint ypoint dotPixel.size color

variable (w h) in
/-- A point does not reach the edges at the right and below. -/
def PointFits (xpoint ypoint : Nat) (dotPixel : DotPixel) : Prop :=
  w < xpoint ∨ h < ypoint ∨ (xpoint + dotPixel.size ≤ w + 1 ∧ ypoint + dotPixel.size ≤ h + 1)

/-- A point of one pixel always fits. -/
theorem pointFits_px1 (xpoint ypoint : Nat) : PointFits w h xpoint ypoint .px1 := by
  show w < xpoint ∨ h < ypoint ∨ (xpoint + 1 ≤ w + 1 ∧ ypoint + 1 ≤ h + 1)
  omega

theorem DotPixel.size_pos (d : DotPixel) : 0 < d.size := by cases d <;> decide

/-- The rest of a column. -/
theorem Upright.fillColumn (hp : Upright w h p) {xpoint ypoint dot xDir yDir left : Nat}
    (hx : dot ≤ xpoint + xDir) (hxw : xpoint + xDir < dot + w) (hy : dot ≤ ypoint)
    (hyh : ypoint + yDir + left ≤ dot + h) (color : Nat) :
    Drawn ((List.range' yDir left).flatMap fun j =>
        [⟨xpoint + xDir - dot, ypoint + j - dot, isWhite color⟩]) p
      (EleDs.fillColumn xpoint ypoint color dot xDir yDir left p) := by
  induction left generalizing yDir p with
  | zero => exact Drawn.refl p
  | succ left ih =>
      have := hp.smallWidth
      have := hp.smallHeight
      have hcolumn : uword ((xpoint : Int) + xDir - dot) = xpoint + xDir - dot := by
        unfold uword
        omega
      have hrow : uword ((ypoint : Int) + yDir - dot) = ypoint + yDir - dot := by
        unfold uword
        omega
      have hpixel := hp.setPixel (x := xpoint + xDir - dot) (y := ypoint + yDir - dot) (by omega)
        (by omega) color
      rw [EleDs.fillColumn, if_neg (by omega), hcolumn, hrow, List.range'_succ, List.flatMap_cons]
      exact hpixel.trans (ih (hpixel.upright hp) (by omega))

theorem Upright.drawPoint (hp : Upright w h p) {xpoint ypoint : Nat} {dotPixel : DotPixel}
    (hfits : PointFits w h xpoint ypoint dotPixel) (color : Nat) (dotStyle : DotStyle) :
    Drawn (pointStrokes w h xpoint ypoint color dotPixel dotStyle) p
      (paintDrawPoint p xpoint ypoint color dotPixel dotStyle) := by
  unfold pointStrokes paintDrawPoint
  rw [hp.width, hp.height]
  by_cases hout : w < xpoint ∨ h < ypoint
  · rw [if_pos hout, if_pos hout]
    exact Drawn.refl p
  have hpos := dotPixel.size_pos
  have hin : xpoint + dotPixel.size ≤ w + 1 ∧ ypoint + dotPixel.size ≤ h + 1 := by
    rcases hfits with hc | hc | hc
    · exact absurd (.inl hc) hout
    · exact absurd (.inr hc) hout
    · exact hc
  have hsmall := hp.smallWidth
  have hsmall' := hp.smallHeight
  rw [if_neg hout, if_neg hout]
  cases dotStyle with
  | fillAround =>
      refine hp.forUp fun i _ hlt q hq => ?_
      have hi : i < 2 * dotPixel.size - 1 := hlt
      by_cases hcut : xpoint + i < dotPixel.size ∨ ypoint < dotPixel.size
      · -- The first pixel of the column is outside, and that ends the column.
        have hturns : 2 * dotPixel.size - 1 = 2 * dotPixel.size - 2 + 1 := by omega
        rw [if_pos hcut, hturns, EleDs.fillColumn, if_pos (by omega)]
        exact Drawn.refl q
      · rw [if_neg hcut]
        exact hq.fillColumn (by omega) (by omega) (by omega) (by omega) color
  | fillRightup =>
      refine hp.forUp fun i _ hlt q hq => hq.forUp fun j _ hlt' r hr => ?_
      have hi : i < dotPixel.size := hlt
      have hj : j < dotPixel.size := hlt'
      by_cases hcut : xpoint + i = 0 ∨ ypoint + j = 0
      · rw [if_pos hcut, hr.setPixel_far]
        · exact Drawn.refl r
        · unfold uword
          omega
      · have hcolumn : uword ((xpoint : Int) + i - 1) = xpoint + i - 1 := by
          unfold uword
          omega
        have hrow : uword ((ypoint : Int) + j - 1) = ypoint + j - 1 := by
          unfold uword
          omega
        rw [if_neg hcut, hcolumn, hrow]
        exact hr.setPixel (by omega) (by omega) color

/-! ### Lines -/

/-- It ends, and these are the strokes. -/
def Draws (l : List Stroke) (p : Paint) (r : Except Fault Paint) : Prop :=
  ∃ p', r = .ok p' ∧ Drawn l p p'

theorem Upright.bind {l m : List Stroke} {r : Except Fault Paint} {f : Paint → Except Fault Paint}
    (hp : Upright w h p) (hd : Draws l p r) (hf : ∀ q, Upright w h q → Draws m q (f q)) :
    Draws (l ++ m) p (r.bind f) := by
  obtain ⟨p', rfl, hone⟩ := hd
  obtain ⟨p'', hrun, hrest⟩ := hf p' (hone.upright hp)
  exact ⟨p'', hrun, hone.trans hrest⟩

variable (w h) in
/-- `Paint_DrawLine` as strokes. -/
def lineStrokes (xstart ystart xend yend color : Nat) (lineWidth : DotPixel)
    (lineStyle : LineStyle) : List Stroke :=
  if w < xstart ∨ h < ystart ∨ w < xend ∨ h < yend then []
  else (List.range (lineTurns xstart ystart xend yend + 1)).flatMap fun k =>
    pointStrokes w h (along xstart xend (lineTrail xstart ystart xend yend k).1)
      (along ystart yend (lineTrail xstart ystart xend yend k).2)
      (if lineStyle = .dotted ∧ k % 3 = 2 then IMAGE_BACKGROUND else color) lineWidth .fillAround

variable (w h) in
/-- Its ends do not reach the edges. -/
def LineFits (xstart ystart xend yend : Nat) (lineWidth : DotPixel) : Prop :=
  PointFits w h xstart ystart lineWidth ∧ PointFits w h xend yend lineWidth

theorem along_le {start stop k bound : Nat} (hk : k ≤ distance start stop) (hstart : start ≤ bound)
    (hstop : stop ≤ bound) : along start stop k ≤ bound := by
  unfold along distance at *
  split at hk <;> split <;> omega

theorem Upright.drawLine (hp : Upright w h p) {xstart ystart xend yend : Nat} {lineWidth : DotPixel}
    (hfits : LineFits w h xstart ystart xend yend lineWidth) (color : Nat) (lineStyle : LineStyle) :
    Draws (lineStrokes w h xstart ystart xend yend color lineWidth lineStyle) p
      (paintDrawLine p xstart ystart xend yend color lineWidth lineStyle) := by
  have hsmall := hp.smallWidth
  have hsmall' := hp.smallHeight
  unfold lineStrokes
  by_cases hout : w < xstart ∨ h < ystart ∨ w < xend ∨ h < yend
  · rw [if_pos hout, paintDrawLine, hp.width, hp.height, if_pos hout]
    exact ⟨p, rfl, Drawn.refl p⟩
  · rw [if_neg hout]
    refine ⟨_, drawLine_draws (by rw [hp.width]; omega) (by rw [hp.height]; omega)
      (by rw [hp.width]; omega) (by rw [hp.height]; omega) (by rw [hp.width]; omega)
      (by rw [hp.height]; omega) color lineWidth lineStyle, ?_⟩
    refine hp.foldl fun k hk q hq => hq.drawPoint ?_ _ _
    have hturn : k ≤ lineTurns xstart ystart xend yend :=
      Nat.le_of_lt_succ (List.mem_range.mp hk)
    obtain ⟨hi, hj⟩ := Bresenham.trail_le hturn
    unfold LineFits PointFits at hfits
    have hx : along xstart xend (lineTrail xstart ystart xend yend k).1 ≤ w + 1 - lineWidth.size :=
      along_le hi (by omega) (by omega)
    have hy : along ystart yend (lineTrail xstart ystart xend yend k).2 ≤ h + 1 - lineWidth.size :=
      along_le hj (by omega) (by omega)
    unfold PointFits
    omega

/-! ### Rectangles -/

variable (w h) in
/-- `Paint_DrawRectangle` as strokes.  The last row of a filled one is left out. -/
def rectangleStrokes (xstart ystart xend yend color : Nat) (lineWidth : DotPixel)
    (drawFill : DrawFill) : List Stroke :=
  if w < xstart ∨ h < ystart ∨ w < xend ∨ h < yend then []
  else
    match drawFill with
    | .full => (List.range' ystart (yend - ystart)).flatMap fun y =>
        lineStrokes w h xstart y xend y color lineWidth .solid
    | .empty => lineStrokes w h xstart ystart xend ystart color lineWidth .solid ++
        (lineStrokes w h xstart ystart xstart yend color lineWidth .solid ++
        (lineStrokes w h xend yend xend ystart color lineWidth .solid ++
        lineStrokes w h xend yend xstart yend color lineWidth .solid))

theorem Upright.rectangleRows (hp : Upright w h p) {xstart xend ypoint left : Nat}
    {lineWidth : DotPixel} (hx : xstart + lineWidth.size ≤ w + 1)
    (hxe : xend + lineWidth.size ≤ w + 1) (hy : ypoint + left + lineWidth.size ≤ h + 1)
    (color : Nat) :
    Draws ((List.range' ypoint left).flatMap fun y =>
        lineStrokes w h xstart y xend y color lineWidth .solid) p
      (EleDs.rectangleRows xstart xend color lineWidth ypoint left p) := by
  induction left generalizing ypoint p with
  | zero => exact ⟨p, rfl, Drawn.refl p⟩
  | succ left ih =>
      have hrow : LineFits w h xstart ypoint xend ypoint lineWidth := by
        unfold LineFits PointFits
        omega
      rw [List.range'_succ, List.flatMap_cons]
      exact hp.bind (hp.drawLine hrow color .solid) fun q hq => ih hq (by omega)

theorem Upright.drawRectangle (hp : Upright w h p) {xstart ystart xend yend : Nat}
    {lineWidth : DotPixel} (hfits : LineFits w h xstart ystart xend yend lineWidth) (color : Nat)
    (drawFill : DrawFill) :
    Draws (rectangleStrokes w h xstart ystart xend yend color lineWidth drawFill) p
      (paintDrawRectangle p xstart ystart xend yend color lineWidth drawFill) := by
  unfold rectangleStrokes paintDrawRectangle
  rw [hp.width, hp.height]
  by_cases hout : w < xstart ∨ h < ystart ∨ w < xend ∨ h < yend
  · rw [if_pos hout, if_pos hout]
    exact ⟨p, rfl, Drawn.refl p⟩
  rw [if_neg hout, if_neg hout]
  have hin : (xstart + lineWidth.size ≤ w + 1 ∧ ystart + lineWidth.size ≤ h + 1) ∧
      xend + lineWidth.size ≤ w + 1 ∧ yend + lineWidth.size ≤ h + 1 := by
    unfold LineFits PointFits at hfits
    omega
  obtain ⟨⟨hx, hy⟩, hxe, hye⟩ := hin
  have hline : ∀ {x y x' y' : Nat}, x + lineWidth.size ≤ w + 1 → y + lineWidth.size ≤ h + 1 →
      x' + lineWidth.size ≤ w + 1 → y' + lineWidth.size ≤ h + 1 → ∀ q, Upright w h q →
      Draws (lineStrokes w h x y x' y' color lineWidth .solid) q
        (paintDrawLine q x y x' y' color lineWidth .solid) :=
    fun hx hy hx' hy' q hq =>
      hq.drawLine ⟨.inr (.inr ⟨hx, hy⟩), .inr (.inr ⟨hx', hy'⟩)⟩ color .solid
  cases drawFill with
  | full => exact hp.rectangleRows hx hxe (by omega) color
  | empty =>
      exact hp.bind (hline hx hy hxe hy p hp) fun q hq =>
        hq.bind (hline hx hy hx hye q hq) fun r hr =>
          hr.bind (hline hxe hye hxe hy r hr) (hline hxe hye hx hye)

/-! ### Circles -/

/-- Where the eight points for a pair of distances are. -/
def eightPlaces (xCenter yCenter : Nat) (a b : Int) : List (Int × Int) :=
  [(xCenter + a, yCenter + b), (xCenter - a, yCenter + b), (xCenter - b, yCenter + a),
    (xCenter - b, yCenter - a), (xCenter - a, yCenter - b), (xCenter + a, yCenter - b),
    (xCenter + b, yCenter - a), (xCenter + b, yCenter + a)]

variable (w h) in
/-- And their strokes. -/
def eightStrokes (xCenter yCenter color : Nat) (dot : DotPixel) (a b : Int) : List Stroke :=
  (eightPlaces xCenter yCenter a b).flatMap fun d =>
    pointStrokes w h (uword d.1) (uword d.2) color dot .fillAround

variable (w h) in
/-- `Paint_DrawCircle` as strokes. -/
def circleStrokes (xCenter yCenter radius color : Nat) (lineWidth : DotPixel)
    (drawFill : DrawFill) : List Stroke :=
  if w < xCenter ∨ h ≤ yCenter then []
  else (circleColumns radius 0).flatMap fun x =>
    match drawFill with
    | .full => (List.range' 0 (Bresenham.rim radius x + 1 - x)).flatMap fun k : Nat =>
        eightStrokes w h xCenter yCenter color .px1 x (x + k)
    | .empty => eightStrokes w h xCenter yCenter color lineWidth x (Bresenham.rim radius x)

variable (w h) in
/-- The account is large enough, and points of more than a pixel do not reach the edges. -/
def CircleFits (xCenter yCenter radius : Nat) (lineWidth : DotPixel) (drawFill : DrawFill) : Prop :=
  radius ≤ 8192 ∧ (drawFill = .full ∨ lineWidth = .px1 ∨
    (xCenter + radius + lineWidth.size ≤ w + 1 ∧ yCenter + radius + lineWidth.size ≤ h + 1))

theorem eightPoints_eq (xCenter yCenter color : Nat) (dot : DotPixel) (a b : Int) (p : Paint) :
    eightPoints xCenter yCenter color dot a b p = (eightPlaces xCenter yCenter a b).foldl
      (fun p d => paintDrawPoint p (uword d.1) (uword d.2) color dot .fillAround) p := by
  simp only [eightPoints, eightPlaces, List.foldl_cons, List.foldl_nil]

theorem Upright.eightPoints (hp : Upright w h p) {xCenter yCenter a b : Nat} {dot : DotPixel}
    (hx : xCenter ≤ w) (hy : yCenter ≤ h) (hab : a ≤ b) (hb : b ≤ 8192)
    (hfits : dot = .px1 ∨ (xCenter + b + dot.size ≤ w + 1 ∧ yCenter + b + dot.size ≤ h + 1))
    (color : Nat) :
    Drawn (eightStrokes w h xCenter yCenter color dot a b) p
      (EleDs.eightPoints xCenter yCenter color dot a b p) := by
  have hsmall := hp.smallWidth
  have hsmall' := hp.smallHeight
  have hpoint : ∀ {dx dy : Int}, dx.natAbs ≤ b → dy.natAbs ≤ b →
      PointFits w h (uword (xCenter + dx)) (uword (yCenter + dy)) dot := by
    intro dx dy hdx hdy
    rcases hfits with rfl | hfits
    · exact pointFits_px1 _ _
    · unfold PointFits uword
      omega
  rw [eightPoints_eq]
  refine hp.foldl fun d hd q hq => hq.drawPoint ?_ color _
  unfold eightPlaces at hd
  simp only [List.mem_cons, List.not_mem_nil, or_false] at hd
  rcases hd with rfl | rfl | rfl | rfl | rfl | rfl | rfl | rfl <;>
    exact hpoint (by omega) (by omega)

theorem Upright.drawCircle (hp : Upright w h p) {xCenter yCenter radius : Nat}
    {lineWidth : DotPixel} {drawFill : DrawFill}
    (hfits : CircleFits w h xCenter yCenter radius lineWidth drawFill) (color : Nat) :
    Draws (circleStrokes w h xCenter yCenter radius color lineWidth drawFill) p
      (paintDrawCircle p xCenter yCenter radius color lineWidth drawFill) := by
  obtain ⟨hr, hfits⟩ := hfits
  unfold circleStrokes
  by_cases hout : w < xCenter ∨ h ≤ yCenter
  · rw [if_pos hout, paintDrawCircle, hp.width, hp.height, if_pos hout]
    exact ⟨p, rfl, Drawn.refl p⟩
  rw [if_neg hout]
  refine ⟨_, drawCircle_draws (by rw [hp.width]; omega) (by rw [hp.height]; omega) hr color lineWidth
    drawFill, ?_⟩
  refine hp.foldl fun x hx q hq => ?_
  have hrim : Bresenham.rim radius x ≤ radius := Bresenham.rim_le
  have habove : x ≤ Bresenham.rim radius x := by
    simpa using (List.mem_filter.mp hx).2
  cases drawFill with
  | full =>
      refine hq.forUp fun k _ hk r hr' => ?_
      have hlt : k < Bresenham.rim radius x + 1 - x := hk
      exact hr'.eightPoints (b := x + k) (by omega) (by omega) (by omega) (by omega) (.inl rfl) color
  | empty =>
      refine hq.eightPoints (by omega) (by omega) habove (by omega) ?_ color
      rcases hfits with hc | hc | hc
      · cases hc
      · exact .inl hc
      · exact .inr ⟨by omega, by omega⟩

end Strokes

end EleDs
