/-
Lines and circles as sets of pixels.

With points of one pixel the order of the strokes does not matter, and one can say of each
pixel whether it is drawn: of a line those of the walk (`drawLine_picture`), of a circle
those whose larger distance from the centre is the row `Bresenham.rim` has for the smaller
one, which is a question about squares (`drawCircle_picture`).
-/
import EleDs.Proofs.Drawing

namespace EleDs

open Bits Bresenham Canvas

section Pixels

variable {w h : Nat} {p : Paint} {x y : Nat} {white : Bool}

/-- These pixels have this colour now, and no other bit has changed. -/
structure Inked (S : Nat → Nat → Prop) (white : Bool) (p p' : Paint) : Prop where
  here : ∀ x y, x < p.width → y < p.height → S x y → pixel p' x y = white
  there : ∀ x y, x < p.width → y < p.height → ¬ S x y → pixel p' x y = pixel p x y
  outside : ∀ i, (∀ x y, x < p.width → y < p.height → i ≠ pixelIndex p x y) →
    bit p'.image i = bit p.image i

theorem Drawn.inked {l : List Stroke} {p' : Paint} {S : Nat → Nat → Prop} (hd : Drawn l p p')
    (hcolor : ∀ s ∈ l, s.white = white)
    (hS : ∀ x y, x < p.width → y < p.height → (⟨x, y, white⟩ ∈ l ↔ S x y)) :
    Inked S white p p' where
  here := fun x y hx hy hs => by
    rw [hd.pixels x y hx hy, strokes_of_color hcolor, if_pos ((hS x y hx hy).mpr hs)]
  there := fun x y hx hy hs => by
    rw [hd.pixels x y hx hy, strokes_of_color hcolor, if_neg fun hc => hs ((hS x y hx hy).mp hc)]
  outside := hd.outside

/-- A point of one pixel is one pixel up and to the left of its place. -/
theorem mem_pointStrokes_px1 {xpoint ypoint color : Nat} :
    ⟨x, y, white⟩ ∈ pointStrokes w h xpoint ypoint color .px1 .fillAround ↔
      xpoint ≤ w ∧ ypoint ≤ h ∧ x + 1 = xpoint ∧ y + 1 = ypoint ∧ white = isWhite color := by
  unfold pointStrokes
  split
  · rename_i hout
    simp only [List.not_mem_nil, false_iff]
    omega
  · rename_i hin
    have hrange : List.range' 0 (2 * DotPixel.px1.size - 1) = [0] := rfl
    have hsize : DotPixel.px1.size = 1 := rfl
    dsimp only
    rw [aroundStrokes, hrange, hsize, List.flatMap_singleton, List.flatMap_singleton]
    split
    · rename_i hcut
      simp only [List.not_mem_nil, false_iff]
      omega
    · rename_i hcut
      rw [List.mem_singleton, Stroke.mk.injEq]
      constructor
      · rintro ⟨rfl, rfl, rfl⟩
        exact ⟨by omega, by omega, by omega, by omega, rfl⟩
      · rintro ⟨-, -, rfl, rfl, rfl⟩
        exact ⟨rfl, rfl, rfl⟩

/-! ### Lines -/

/-- The pixels of a line from `(xstart, ystart)` to `(xend, yend)`, counted from one. -/
def OnLine (xstart ystart xend yend x y : Nat) : Prop :=
  ∃ k ≤ lineTurns xstart ystart xend yend,
    x = along xstart xend (lineTrail xstart ystart xend yend k).1 ∧
    y = along ystart yend (lineTrail xstart ystart xend yend k).2

theorem mem_lineStrokes {xstart ystart xend yend color : Nat} (hx : xstart ≤ w) (hy : ystart ≤ h)
    (hxe : xend ≤ w) (hye : yend ≤ h) :
    ⟨x, y, white⟩ ∈ lineStrokes w h xstart ystart xend yend color .px1 .solid ↔
      OnLine xstart ystart xend yend (x + 1) (y + 1) ∧ white = isWhite color := by
  unfold lineStrokes OnLine
  rw [if_neg (by omega), List.mem_flatMap]
  constructor
  · rintro ⟨k, hk, hmem⟩
    obtain ⟨-, -, hxk, hyk, hwhite⟩ := mem_pointStrokes_px1.mp hmem
    exact ⟨⟨k, Nat.le_of_lt_succ (List.mem_range.mp hk), hxk, hyk⟩, hwhite⟩
  · rintro ⟨⟨k, hk, hxk, hyk⟩, hwhite⟩
    obtain ⟨hi, hj⟩ := trail_le hk
    exact ⟨k, List.mem_range.mpr (Nat.lt_succ_of_le hk), mem_pointStrokes_px1.mpr
      ⟨along_le hi hx hxe, along_le hj hy hye, hxk, hyk, hwhite⟩⟩

/-- **The pixels of a line.** -/
theorem drawLine_picture (hp : Upright w h p) {xstart ystart xend yend : Nat} (hx : xstart ≤ w)
    (hy : ystart ≤ h) (hxe : xend ≤ w) (hye : yend ≤ h) (color : Nat) :
    ∃ p', paintDrawLine p xstart ystart xend yend color .px1 .solid = .ok p' ∧
      Inked (fun x y => OnLine xstart ystart xend yend (x + 1) (y + 1)) (isWhite color) p p' := by
  obtain ⟨p', hrun, hdrawn⟩ := hp.drawLine
    (show LineFits w h xstart ystart xend yend .px1 from ⟨pointFits_px1 _ _, pointFits_px1 _ _⟩)
    color .solid
  refine ⟨p', hrun, hdrawn.inked (fun s hs => ?_) fun x y _ _ => ?_⟩
  · exact ((mem_lineStrokes hx hy hxe hye).mp hs).2
  · rw [mem_lineStrokes hx hy hxe hye]
    exact and_iff_left rfl

theorem drawLine_picture_small :
    ∃ p', paintDrawLine smallPaint 1 1 6 3 BLACK .px1 .solid = .ok p' ∧
      Inked (fun x y => OnLine 1 1 6 3 (x + 1) (y + 1)) (isWhite BLACK) smallPaint p' :=
  drawLine_picture upright_smallPaint (by decide) (by decide) (by decide) (by decide) BLACK

-- A flat line is a column ahead of where it should be.
example : lineTurns 1 1 6 3 = 5 ∧
    (List.range 6).map (lineTrail 1 1 6 3) = [(0, 0), (1, 1), (2, 1), (3, 2), (4, 2), (5, 2)] := by
  decide

/-! ### Circles -/

/-- The distances of a pixel from a centre, both counted from one, the smaller first. -/
def distances (xCenter yCenter x y : Nat) : Nat × Nat :=
  (min ((x : Int) - xCenter).natAbs ((y : Int) - yCenter).natAbs,
    max ((x : Int) - xCenter).natAbs ((y : Int) - yCenter).natAbs)

theorem mem_eightPlaces {xCenter yCenter a b : Nat} (hab : a ≤ b) :
    ((x : Int), (y : Int)) ∈ eightPlaces xCenter yCenter a b ↔
      distances xCenter yCenter x y = (a, b) := by
  unfold eightPlaces distances
  simp only [List.mem_cons, List.not_mem_nil, or_false, Prod.mk.injEq]
  constructor
  · intro hd
    rcases hd with hd | hd | hd | hd | hd | hd | hd | hd <;> rw [hd.1, hd.2] <;> omega
  · intro hd
    have hsides : (((x : Int) - xCenter).natAbs = a ∧ ((y : Int) - yCenter).natAbs = b) ∨
        (((x : Int) - xCenter).natAbs = b ∧ ((y : Int) - yCenter).natAbs = a) := by omega
    have hsign : ∀ {u c : Int} {n : Nat}, (u - c).natAbs = n → u = c + n ∨ u = c - n := by
      intro u c n hn
      omega
    rcases hsides with ⟨hu, hv⟩ | ⟨hu, hv⟩ <;> rcases hsign hu with hu | hu <;>
      rcases hsign hv with hv | hv <;> simp only [hu, hv, true_and, true_or, or_true]

theorem mem_eightStrokes {xCenter yCenter color a b : Nat} (hw : w < 32768) (hh : h < 32768)
    (hx : xCenter ≤ w) (hy : yCenter ≤ h) (hab : a ≤ b) (hb : b ≤ 8192) :
    ⟨x, y, white⟩ ∈ eightStrokes w h xCenter yCenter color .px1 a b ↔
      (x < w ∧ y < h ∧ distances xCenter yCenter (x + 1) (y + 1) = (a, b)) ∧
        white = isWhite color := by
  unfold eightStrokes
  rw [List.mem_flatMap]
  constructor
  · rintro ⟨d, hd, hmem⟩
    obtain ⟨hdx, hdy, hxk, hyk, hwhite⟩ := mem_pointStrokes_px1.mp hmem
    -- A coordinate that is negative is not small in sixteen bits.
    have hnear : (d.1 - xCenter).natAbs ≤ b ∧ (d.2 - yCenter).natAbs ≤ b := by
      unfold eightPlaces at hd
      simp only [List.mem_cons, List.not_mem_nil, or_false] at hd
      rcases hd with rfl | rfl | rfl | rfl | rfl | rfl | rfl | rfl <;> dsimp only <;> omega
    obtain ⟨hd1, hd2⟩ : d.1 = (x + 1 : Nat) ∧ d.2 = (y + 1 : Nat) := by
      unfold uword at hdx hdy hxk hyk
      omega
    rw [← Prod.eta d, hd1, hd2, mem_eightPlaces hab] at hd
    exact ⟨⟨by omega, by omega, hd⟩, hwhite⟩
  · rintro ⟨⟨hxw, hyh, hdist⟩, hwhite⟩
    refine ⟨_, (mem_eightPlaces hab).mpr hdist, mem_pointStrokes_px1.mpr ?_⟩
    dsimp only
    rw [uword_of_lt (by omega), uword_of_lt (by omega)]
    exact ⟨by omega, by omega, rfl, rfl, hwhite⟩

/-- The pixels of a circle: the square of its larger distance is nearer to the circle's than the
squares of the ones next to it, or all that are not outside. -/
def OnCircle (radius : Nat) (drawFill : DrawFill) (d : Nat × Nat) : Prop :=
  d.2 * d.2 + (d.2 - 1) * (d.2 - 1) + 2 * (d.1 * d.1) < 2 * (radius * radius) ∧
    (drawFill = .empty →
      2 * (radius * radius) ≤ d.2 * d.2 + (d.2 + 1) * (d.2 + 1) + 2 * (d.1 * d.1))

theorem onCircle_iff {radius : Nat} (hr : 0 < radius) {drawFill : DrawFill} {a b : Nat}
    (hab : a ≤ b) :
    OnCircle radius drawFill (a, b) ↔ b ≤ rim radius a ∧ (drawFill = .empty → b = rim radius a) := by
  have hupper : 2 * (radius * radius) ≤ b * b + (b + 1) * (b + 1) + 2 * (a * a) ↔
      rim radius a ≤ b := by
    have hnext : b + 1 ≤ rim radius a ↔ _ := succ_le_rim_iff
    omega
  have hlower : b * b + (b - 1) * (b - 1) + 2 * (a * a) < 2 * (radius * radius) ↔
      b ≤ rim radius a := by
    cases b with
    | zero =>
        obtain rfl : a = 0 := by omega
        have := Nat.mul_pos hr hr
        rw [rim_zero]
        omega
    | succ b =>
        rw [succ_le_rim_iff]
        rfl
  unfold OnCircle
  dsimp only
  rw [hupper, hlower]
  exact and_congr_right fun hb => imp_congr_right fun _ => ⟨fun h => by omega, fun h => by omega⟩

theorem mem_circleColumns {radius a : Nat} : a ∈ circleColumns radius 0 ↔ a ≤ rim radius a := by
  have hle : rim radius a ≤ radius := rim_le
  unfold circleColumns
  rw [List.mem_filter, List.mem_range'_1, decide_eq_true_iff]
  constructor
  · exact And.right
  · intro ha
    exact ⟨⟨Nat.zero_le a, by omega⟩, ha⟩

theorem mem_circleStrokes {xCenter yCenter radius color : Nat} (hw : w < 32768) (hh : h < 32768)
    (hx : xCenter ≤ w) (hy : yCenter < h) (hr : 0 < radius) (hr' : radius ≤ 8192)
    {drawFill : DrawFill} :
    ⟨x, y, white⟩ ∈ circleStrokes w h xCenter yCenter radius color .px1 drawFill ↔
      (x < w ∧ y < h ∧ OnCircle radius drawFill (distances xCenter yCenter (x + 1) (y + 1))) ∧
        white = isWhite color := by
  have hsmall : ∀ a, rim radius a ≤ 8192 := fun a => rim_le.trans hr'
  have hle : (distances xCenter yCenter (x + 1) (y + 1)).1
      ≤ (distances xCenter yCenter (x + 1) (y + 1)).2 := by
    unfold distances
    exact min_le_max
  unfold circleStrokes
  rw [if_neg (by omega), List.mem_flatMap, ← Prod.eta (distances _ _ _ _), onCircle_iff hr hle]
  constructor
  · rintro ⟨a, ha, hmem⟩
    have habove := mem_circleColumns.mp ha
    cases drawFill with
    | full =>
        obtain ⟨k, hk, hmem⟩ := List.mem_flatMap.mp hmem
        have hk' := (List.mem_range'_1.mp hk).2
        obtain ⟨⟨hxw, hyh, hd⟩, hwhite⟩ := (mem_eightStrokes (b := a + k) hw hh hx hy.le (by omega)
          (by have := hsmall a; omega)).mp hmem
        rw [hd]
        exact ⟨⟨hxw, hyh, by dsimp only; omega, fun hc => nomatch hc⟩, hwhite⟩
    | empty =>
        obtain ⟨⟨hxw, hyh, hd⟩, hwhite⟩ :=
          (mem_eightStrokes hw hh hx hy.le habove (hsmall a)).mp hmem
        rw [hd]
        exact ⟨⟨hxw, hyh, Nat.le_refl _, fun _ => rfl⟩, hwhite⟩
  · rintro ⟨⟨hxw, hyh, hin, hrim⟩, hwhite⟩
    generalize hd : distances xCenter yCenter (x + 1) (y + 1) = d at *
    obtain ⟨a, b⟩ := d
    dsimp only at *
    refine ⟨a, mem_circleColumns.mpr (hle.trans hin), ?_⟩
    cases drawFill with
    | full =>
        have hb : b = a + (b - a) := by omega
        refine List.mem_flatMap.mpr ⟨b - a, List.mem_range'_1.mpr ⟨Nat.zero_le _, by omega⟩, ?_⟩
        rw [hb] at hd
        exact (mem_eightStrokes (b := a + (b - a)) hw hh hx hy.le (by omega)
          (by have := hsmall a; omega)).mpr ⟨⟨hxw, hyh, hd⟩, hwhite⟩
    | empty =>
        rw [hrim rfl] at hd
        exact (mem_eightStrokes hw hh hx hy.le (hle.trans hin) (hsmall a)).mpr
          ⟨⟨hxw, hyh, hd⟩, hwhite⟩

end Pixels

end EleDs
