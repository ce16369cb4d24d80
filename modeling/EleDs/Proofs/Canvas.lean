/-
Drawing as it is meant.

Whatever way the picture is turned and mirrored, each pixel has a bit of its own in the
memory (`place_apart`), and `Paint_SetPixel` changes that bit (`Upright.setPixel`).  So the
memory stands for a picture, and what a function draws can be said as a list of strokes.
`Drawn` says it, with the rest of the memory: nothing outside the picture is touched, not
even the bits that fill up a row.
-/
import EleDs.Lib.Bits
import EleDs.Lib.Canvas
import EleDs.Model.Draw
import EleDs.Proofs.Display

namespace EleDs

open Bits Canvas

/-! ### Where a pixel is -/

/-- The library's global is as `Paint_NewImage` makes it, for a picture of `w` by `h`. -/
structure Upright (w h : Nat) (p : Paint) : Prop where
  width : p.width = w
  height : p.height = h
  smallWidth : w < 32768
  smallHeight : h < 32768
  turned : ((p.rotate = 0 ∨ p.rotate = 180) ∧ p.widthMemory = w ∧ p.heightMemory = h) ∨
    ((p.rotate = 90 ∨ p.rotate = 270) ∧ p.widthMemory = h ∧ p.heightMemory = w)
  wide : p.widthMemory ≤ 8 * p.widthByte
  scale : p.scale = 2

theorem upright_newImage (image : Memory) {width height rotate : Nat} (color : Nat)
    (hrotate : rotate = 0 ∨ rotate = 90 ∨ rotate = 180 ∨ rotate = 270) (hw : width < 32768)
    (hh : height < 32768) :
    Upright (if rotate = 0 ∨ rotate = 180 then width else height)
      (if rotate = 0 ∨ rotate = 180 then height else width)
      (paintNewImage image width height rotate color) where
  width := rfl
  height := rfl
  smallWidth := by split <;> omega
  smallHeight := by split <;> omega
  turned := by
    by_cases hflat : rotate = 0 ∨ rotate = 180
    · rw [if_pos hflat, if_pos hflat]
      exact .inl ⟨hflat, rfl, rfl⟩
    · rw [if_neg hflat, if_neg hflat]
      exact .inr ⟨by show rotate = 90 ∨ rotate = 270; omega, rfl, rfl⟩
  wide := by
    show width ≤ 8 * if width % 8 = 0 then width / 8 else width / 8 + 1
    split <;> omega
  scale := rfl

/-- The place the rotation gives a pixel. -/
def turnedPlace (p : Paint) (x y : Nat) : Nat × Nat :=
  if p.rotate = 0 then (x, y)
  else if p.rotate = 90 then (p.widthMemory - 1 - y, x)
  else if p.rotate = 180 then (p.widthMemory - 1 - x, p.heightMemory - 1 - y)
  else (y, p.heightMemory - 1 - x)

/-- Its place in the memory, by column and row. -/
def place (p : Paint) (x y : Nat) : Nat × Nat :=
  let xy := turnedPlace p x y
  match p.mirror with
  | .none => xy
  | .horizontal => (p.widthMemory - 1 - xy.1, xy.2)
  | .vertical => (xy.1, p.heightMemory - 1 - xy.2)
  | .origin => (p.widthMemory - 1 - xy.1, p.heightMemory - 1 - xy.2)

section Upright

variable {w h : Nat} {p : Paint} {x y : Nat}

theorem Upright.turnedPlace_lt (hp : Upright w h p) (hx : x < w) (hy : y < h) :
    (turnedPlace p x y).1 < p.widthMemory ∧ (turnedPlace p x y).2 < p.heightMemory := by
  unfold turnedPlace
  obtain ⟨hr, hw, hh⟩ | ⟨hr, hw, hh⟩ := hp.turned <;> rcases hr with hr | hr <;> simp [hr] <;> omega

theorem Upright.place_lt (hp : Upright w h p) (hx : x < w) (hy : y < h) :
    (place p x y).1 < p.widthMemory ∧ (place p x y).2 < p.heightMemory := by
  have := hp.turnedPlace_lt hx hy
  unfold place
  dsimp only
  cases p.mirror <;> dsimp only <;> omega

theorem Upright.rotatePoint (hp : Upright w h p) (hx : x < w) (hy : y < h) :
    rotatePoint p x y = some (turnedPlace p x y) := by
  have hback : ∀ {a b : Nat}, b < a → a < 32768 → uword ((a : Int) - b - 1) = a - 1 - b := by
    intro a b hb ha
    unfold uword
    omega
  have := hp.smallWidth
  have := hp.smallHeight
  unfold EleDs.rotatePoint turnedPlace
  obtain ⟨hr, hw, hh⟩ | ⟨hr, hw, hh⟩ := hp.turned <;> rcases hr with hr | hr <;> simp [hr, hw, hh]
  · exact ⟨hback hx (by omega), hback hy (by omega)⟩
  · exact hback hy (by omega)
  · exact hback hx (by omega)

theorem Upright.mirrorPoint (hp : Upright w h p) (hx : x < w) (hy : y < h) :
    mirrorPoint p (turnedPlace p x y).1 (turnedPlace p x y).2 = place p x y := by
  have hlt := hp.turnedPlace_lt hx hy
  have hsmall : p.widthMemory < 32768 ∧ p.heightMemory < 32768 := by
    have := hp.smallWidth
    have := hp.smallHeight
    obtain ⟨-, hw, hh⟩ | ⟨-, hw, hh⟩ := hp.turned <;> omega
  have hcolumn : uword ((p.widthMemory : Int) - (turnedPlace p x y).1 - 1)
      = p.widthMemory - 1 - (turnedPlace p x y).1 := by
    unfold uword
    omega
  have hrow : uword ((p.heightMemory : Int) - (turnedPlace p x y).2 - 1)
      = p.heightMemory - 1 - (turnedPlace p x y).2 := by
    unfold uword
    omega
  unfold EleDs.mirrorPoint place
  cases p.mirror <;> simp only [hcolumn, hrow]

theorem Upright.memoryPoint (hp : Upright w h p) (hx : x < w) (hy : y < h) :
    memoryPoint p x y = some (place p x y) := by
  have hlt := hp.place_lt hx hy
  rw [EleDs.memoryPoint, hp.width, hp.height, if_neg (by omega), hp.rotatePoint hx hy]
  dsimp only
  rw [hp.mirrorPoint hx hy, if_neg (by omega)]

/-- Two pixels have two places. -/
theorem Upright.place_apart (hp : Upright w h p) {x' y' : Nat} (hx : x < w) (hy : y < h)
    (hx' : x' < w) (hy' : y' < h) (heq : place p x y = place p x' y') : x = x' ∧ y = y' := by
  have hlt := hp.turnedPlace_lt hx hy
  have hlt' := hp.turnedPlace_lt hx' hy'
  have hturned : turnedPlace p x y = turnedPlace p x' y' := by
    unfold place at heq
    dsimp only at heq
    cases hm : p.mirror <;> rw [hm] at heq <;> dsimp only at heq
    · exact heq
    all_goals
      rw [Prod.mk.injEq] at heq
      refine Prod.ext ?_ ?_ <;> omega
  unfold turnedPlace at hturned
  obtain ⟨hr, hw, hh⟩ | ⟨hr, hw, hh⟩ := hp.turned <;> rcases hr with hr | hr <;>
    simp [hr, hw, hh] at hturned <;> omega

/-! ### The picture in the memory -/

/-- The bit of a pixel. -/
def pixelIndex (p : Paint) (x y : Nat) : Nat := 8 * ((place p x y).2 * p.widthByte) + (place p x y).1

/-- The picture. -/
def pixel (p : Paint) : Plane := fun x y => bit p.image (pixelIndex p x y)

theorem Upright.pixelIndex_apart (hp : Upright w h p) {x' y' : Nat} (hx : x < w) (hy : y < h)
    (hx' : x' < w) (hy' : y' < h) (heq : pixelIndex p x y = pixelIndex p x' y') :
    x = x' ∧ y = y' := by
  have hlt := hp.place_lt hx hy
  have hlt' := hp.place_lt hx' hy'
  have hwide := hp.wide
  unfold pixelIndex at heq
  have hrow : (place p x y).2 = (place p x' y').2 := by
    rcases Nat.lt_trichotomy (place p x y).2 (place p x' y').2 with hless | hsame | hmore
    · have := Nat.mul_le_mul_right p.widthByte (Nat.succ_le_of_lt hless)
      rw [Nat.succ_mul] at this
      omega
    · exact hsame
    · have := Nat.mul_le_mul_right p.widthByte (Nat.succ_le_of_lt hmore)
      rw [Nat.succ_mul] at this
      omega
  rw [hrow] at heq
  exact hp.place_apart hx hy hx' hy' (Prod.ext (by omega) hrow)

/-- `p'` is `p` with these strokes, and nothing else is changed. -/
structure Drawn (l : List Stroke) (p p' : Paint) : Prop where
  frame : p' = { p with image := p'.image }
  pixels : ∀ x y, x < p.width → y < p.height → pixel p' x y = strokes (pixel p) l x y
  outside : ∀ i, (∀ x y, x < p.width → y < p.height → i ≠ pixelIndex p x y) →
    bit p'.image i = bit p.image i

theorem Upright.of_frame {p' : Paint} (hp : Upright w h p) (hframe : p' = { p with image := p'.image }) :
    Upright w h p' := by
  rw [hframe]
  exact ⟨hp.width, hp.height, hp.smallWidth, hp.smallHeight, hp.turned, hp.wide, hp.scale⟩

theorem Drawn.upright {l : List Stroke} {p' : Paint} (hd : Drawn l p p') (hp : Upright w h p) :
    Upright w h p' := hp.of_frame hd.frame

theorem Drawn.refl (p : Paint) : Drawn [] p p := ⟨rfl, fun _ _ _ _ => rfl, fun _ _ => rfl⟩

theorem Drawn.trans {l m : List Stroke} {p' p'' : Paint} (hd : Drawn l p p') (hd' : Drawn m p' p'') :
    Drawn (l ++ m) p p'' := by
  have hindex : pixelIndex p' = pixelIndex p := by
    rw [hd.frame]
    rfl
  have hwidth : p'.width = p.width := by rw [hd.frame]
  have hheight : p'.height = p.height := by rw [hd.frame]
  refine ⟨?_, fun x y hx hy => ?_, fun i hi => ?_⟩
  · rw [hd'.frame, hd.frame]
  · rw [hd'.pixels x y (hwidth ▸ hx) (hheight ▸ hy), strokes_append]
    exact strokes_congr m (hd.pixels x y hx hy)
  · rw [hd'.outside i (by rw [hindex, hwidth, hheight]; exact hi), hd.outside i hi]

/-- **One pixel.** -/
theorem Upright.setPixel (hp : Upright w h p) (hx : x < w) (hy : y < h) (color : Nat) :
    Drawn [⟨x, y, decide (color ≠ BLACK)⟩] p (paintSetPixel p x y color) := by
  have hset : paintSetPixel p x y color = { p with
      image := p.image.store ((place p x y).1 / 8 + (place p x y).2 * p.widthByte)
        (drawBit (p.image ((place p x y).1 / 8 + (place p x y).2 * p.widthByte))
          (place p x y).1 color) } := by
    rw [paintSetPixel, hp.memoryPoint hx hy]
    simp only [hp.scale, if_true]
  have hindex : 8 * ((place p x y).1 / 8 + (place p x y).2 * p.widthByte) + (place p x y).1 % 8
      = pixelIndex p x y := by
    unfold pixelIndex
    omega
  have hk : (place p x y).1 % 8 < 8 := Nat.mod_lt _ (by decide)
  have hbits : ∀ i, bit (paintSetPixel p x y color).image i
      = if i = pixelIndex p x y then decide (color ≠ BLACK) else bit p.image i := by
    rw [hset, ← hindex]
    refine bit_write hk ?_ ?_
    · intro i hi
      exact if_neg hi
    · intro j hj
      simp only [Memory.store, if_true, drawBit]
      by_cases hblack : color = BLACK
      · rw [if_pos hblack]
        simp only [hblack, ne_eq, not_true_eq_false, decide_false]
        exact ofByte_andNot hj hk
      · rw [if_neg hblack]
        simp only [ne_eq, hblack, not_false_eq_true, decide_true]
        exact ofByte_or hj hk
  have hframe : paintSetPixel p x y color
      = { p with image := (paintSetPixel p x y color).image } := by rw [hset]
  refine ⟨hframe, fun x' y' hx' hy' => ?_, fun i hi => ?_⟩
  · have hbit := hbits (pixelIndex p x' y')
    have hsame : pixelIndex (paintSetPixel p x y color) x' y' = pixelIndex p x' y' := by
      rw [hframe]
      rfl
    show bit _ (pixelIndex (paintSetPixel p x y color) x' y') = if x' = x ∧ y' = y then _ else _
    rw [hsame, hbit]
    rw [hp.width] at hx'
    rw [hp.height] at hy'
    by_cases hhere : x' = x ∧ y' = y
    · rw [if_pos hhere, if_pos (by rw [hhere.1, hhere.2])]
    · rw [if_neg hhere, if_neg fun hc => hhere (hp.pixelIndex_apart hx' hy' hx hy hc)]
      rfl
  · rw [hbits, if_neg (hi x y (hp.width ▸ hx) (hp.height ▸ hy))]

/-- A pixel behind the edge is not drawn, unless it is just behind it. -/
theorem Upright.setPixel_far (hp : Upright w h p) (hfar : w < x ∨ h < y) (color : Nat) :
    paintSetPixel p x y color = p := by
  rw [paintSetPixel, EleDs.memoryPoint, hp.width, hp.height, if_pos (by omega)]

/-! ### Loops -/

/-- A loop draws what its turns draw. -/
theorem Upright.foldl {α : Type} {l : List α} {f : α → List Stroke} {step : Paint → α → Paint}
    (hp : Upright w h p) (hstep : ∀ a ∈ l, ∀ q, Upright w h q → Drawn (f a) q (step q a)) :
    Drawn (l.flatMap f) p (l.foldl step p) := by
  induction l generalizing p with
  | nil => exact Drawn.refl p
  | cons a l ih =>
      have hone := hstep a List.mem_cons_self p hp
      rw [List.flatMap_cons, List.foldl_cons]
      exact hone.trans (ih (hone.upright hp) fun b hb => hstep b (List.mem_cons_of_mem a hb))

theorem Upright.forUp {start stop : Nat} {f : Nat → List Stroke} {body : Nat → Paint → Paint}
    (hp : Upright w h p)
    (hbody : ∀ i, start ≤ i → i < stop → ∀ q, Upright w h q → Drawn (f i) q (body i q)) :
    Drawn ((List.range' start (stop - start)).flatMap f) p (forUp start stop body p) := by
  refine hp.foldl fun i hi => ?_
  rw [List.mem_range'_1] at hi
  exact hbody i hi.1 (by omega)

end Upright

end EleDs
