/-
Whole drawings.

A drawing is a list of calls.  `Command.draw` is what the library does for a call and
`Command.strokes` is what the call is for.  Where all of them keep inside the picture, the
drawing ends, the picture has all the strokes in their order, whatever way it is turned and
mirrored, and no other bit of the memory has changed (`drawing_refines`).
-/
import EleDs.Proofs.Text

namespace EleDs

open Bits Canvas CMem Numerals

/-- A call of the library. -/
inductive Command where
  | clearWindows (xstart ystart xend yend color : Nat)
  | drawPoint (xpoint ypoint color : Nat) (dotPixel : DotPixel) (dotStyle : DotStyle)
  | drawLine (xstart ystart xend yend color : Nat) (lineWidth : DotPixel) (lineStyle : LineStyle)
  | drawRectangle (xstart ystart xend yend color : Nat) (lineWidth : DotPixel) (drawFill : DrawFill)
  | drawCircle (xCenter yCenter radius color : Nat) (lineWidth : DotPixel) (drawFill : DrawFill)
  | drawChar (xpoint ypoint : Nat) (asciiChar : UInt8) (font : SFont)
      (colorForeground colorBackground : Nat)
  | drawStringEN (xstart ystart : Nat) (pString : Bytes) (font : SFont)
      (colorForeground colorBackground : Nat)
  | drawStringCN (xstart ystart : Nat) (pString : Bytes) (font : CFont)
      (colorForeground colorBackground : Nat)
  | drawNum (xpoint ypoint : Nat) (nummber : Int) (font : SFont)
      (colorForeground colorBackground : Nat)
  | drawTime (xstart ystart : Nat) (pTime : PaintTime) (font : SFont)
      (colorForeground colorBackground : Nat)
  | drawBitMapPaste (imageBuffer : Memory) (xStart yStart imageWidth imageHeight : Nat)
      (flipColor : Bool)

namespace Command

/-- What is done. -/
def draw (p : Paint) : Command → Except Fault Paint
  | clearWindows xstart ystart xend yend color =>
      .ok (paintClearWindows p xstart ystart xend yend color)
  | drawPoint xpoint ypoint color dotPixel dotStyle =>
      .ok (paintDrawPoint p xpoint ypoint color dotPixel dotStyle)
  | drawLine xstart ystart xend yend color lineWidth lineStyle =>
      paintDrawLine p xstart ystart xend yend color lineWidth lineStyle
  | drawRectangle xstart ystart xend yend color lineWidth drawFill =>
      paintDrawRectangle p xstart ystart xend yend color lineWidth drawFill
  | drawCircle xCenter yCenter radius color lineWidth drawFill =>
      paintDrawCircle p xCenter yCenter radius color lineWidth drawFill
  | drawChar xpoint ypoint asciiChar font colorForeground colorBackground =>
      .ok (paintDrawChar p xpoint ypoint asciiChar font colorForeground colorBackground)
  | drawStringEN xstart ystart pString font colorForeground colorBackground =>
      .ok (paintDrawStringEN p xstart ystart pString font colorForeground colorBackground)
  | drawStringCN xstart ystart pString font colorForeground colorBackground =>
      paintDrawStringCN p xstart ystart pString font colorForeground colorBackground
  | drawNum xpoint ypoint nummber font colorForeground colorBackground =>
      paintDrawNum p xpoint ypoint nummber font colorForeground colorBackground
  | drawTime xstart ystart pTime font colorForeground colorBackground =>
      paintDrawTime p xstart ystart pTime font colorForeground colorBackground
  | drawBitMapPaste imageBuffer xStart yStart imageWidth imageHeight flipColor =>
      .ok (paintDrawBitMapPaste p imageBuffer xStart yStart imageWidth imageHeight flipColor)

/-- What it is for. -/
def strokes (w h : Nat) : Command → List Stroke
  | clearWindows xstart ystart xend yend color => windowStrokes xstart ystart xend yend color
  | drawPoint xpoint ypoint color dotPixel dotStyle =>
      pointStrokes w h xpoint ypoint color dotPixel dotStyle
  | drawLine xstart ystart xend yend color lineWidth lineStyle =>
      lineStrokes w h xstart ystart xend yend color lineWidth lineStyle
  | drawRectangle xstart ystart xend yend color lineWidth drawFill =>
      rectangleStrokes w h xstart ystart xend yend color lineWidth drawFill
  | drawCircle xCenter yCenter radius color lineWidth drawFill =>
      circleStrokes w h xCenter yCenter radius color lineWidth drawFill
  | drawChar xpoint ypoint asciiChar font colorForeground colorBackground =>
      charStrokes w h xpoint ypoint asciiChar font colorForeground colorBackground
  | drawStringEN xstart ystart pString font colorForeground colorBackground =>
      textStrokes w h xstart ystart font colorForeground colorBackground (cstr pString) 0
  | drawStringCN xstart ystart pString font colorForeground colorBackground =>
      (cnPlaces font ((cnText pString).getD []) xstart).flatMap
        (cnStrokes font ystart colorForeground colorBackground)
  | drawNum xpoint ypoint nummber font colorForeground colorBackground =>
      textStrokes w h xpoint ypoint font colorBackground colorForeground
        (numeral 10 nummber.toNat) 0
  | drawTime xstart ystart pTime font colorForeground colorBackground =>
      timeStrokes w h xstart ystart pTime font colorForeground colorBackground
  | drawBitMapPaste imageBuffer xStart yStart imageWidth imageHeight flipColor =>
      pasteStrokes imageBuffer xStart yStart imageWidth imageHeight flipColor

/-- It keeps inside the picture. -/
def Fits (w h : Nat) : Command → Prop
  | clearWindows _ _ xend yend _ => xend ≤ w ∧ yend ≤ h
  | drawPoint xpoint ypoint _ dotPixel _ => PointFits w h xpoint ypoint dotPixel
  | drawLine xstart ystart xend yend _ lineWidth _ => LineFits w h xstart ystart xend yend lineWidth
  | drawRectangle xstart ystart xend yend _ lineWidth _ =>
      LineFits w h xstart ystart xend yend lineWidth
  | drawCircle xCenter yCenter radius _ lineWidth drawFill =>
      CircleFits w h xCenter yCenter radius lineWidth drawFill
  | drawChar xpoint ypoint _ font _ _ => CharFits w h xpoint ypoint font
  | drawStringEN xstart ystart _ font _ _ => StringFits w h xstart ystart font
  | drawStringCN xstart ystart pString font _ _ => ystart + font.height ≤ h ∧
      ∃ text, cnText pString = some text ∧ ∀ c ∈ cnPlaces font text xstart, c.1 + font.width ≤ w
  | drawNum xpoint ypoint nummber font _ _ =>
      StringFits w h xpoint ypoint font ∧ 0 ≤ nummber ∧ nummber < 2 ^ 31
  | drawTime xstart ystart pTime font _ _ => TimeFits w h xstart ystart pTime font
  | drawBitMapPaste _ xStart yStart imageWidth imageHeight _ =>
      xStart + imageWidth ≤ w ∧ yStart + imageHeight ≤ h

end Command

/-- One call. -/
theorem Upright.command {w h : Nat} {p : Paint} (hp : Upright w h p) {c : Command}
    (hfits : c.Fits w h) : Draws (c.strokes w h) p (c.draw p) := by
  cases c with
  | clearWindows => exact ⟨_, rfl, hp.clearWindows hfits.1 hfits.2 _⟩
  | drawPoint => exact ⟨_, rfl, hp.drawPoint hfits _ _⟩
  | drawLine => exact hp.drawLine hfits _ _
  | drawRectangle => exact hp.drawRectangle hfits _ _
  | drawCircle => exact hp.drawCircle hfits _
  | drawChar => exact ⟨_, rfl, hp.drawChar hfits _ _ _⟩
  | drawStringEN => exact ⟨_, rfl, hp.drawString hfits _ _ _⟩
  | drawStringCN =>
      obtain ⟨hy, text, htext, hplaces⟩ := hfits
      rw [Command.strokes, htext]
      exact hp.drawStringCN htext hplaces hy _ _
  | drawNum _ _ nummber =>
      obtain ⟨hstart, hpos, hlt⟩ := hfits
      obtain ⟨n, rfl⟩ := Int.eq_ofNat_of_zero_le hpos
      exact hp.drawNum hstart (by omega) _ _
  | drawTime => exact hp.drawTime hfits _ _
  | drawBitMapPaste => exact ⟨_, rfl, hp.paste hfits.1 hfits.2 _ _⟩

/-- **A drawing is what its calls are for.** -/
theorem drawing_refines {w h : Nat} {p : Paint} (hp : Upright w h p) {calls : List Command}
    (hfits : ∀ c ∈ calls, c.Fits w h) :
    Draws (calls.flatMap (Command.strokes w h)) p (calls.foldlM Command.draw p) := by
  induction calls generalizing p with
  | nil => exact ⟨p, rfl, Drawn.refl p⟩
  | cons c calls ih =>
      rw [List.flatMap_cons, List.foldlM_cons]
      exact hp.bind (hp.command (hfits c List.mem_cons_self)) fun q hq =>
        ih hq fun c hc => hfits c (List.mem_cons_of_mem _ hc)

/-- A white picture of twenty by twelve, in a memory of twelve by twenty. -/
def smallPaint : Paint := paintNewImage (fun _ => 0xFF) 12 20 270 WHITE

theorem upright_smallPaint : Upright 20 12 smallPaint :=
  upright_newImage (fun _ => 0xFF) WHITE (.inr (.inr (.inr rfl))) (by decide) (by decide)

/-- A font of three by five, with stripes for characters. -/
def smallFont : SFont := ⟨fun _ => 0xA0, 3, 5⟩

/-- A frame, a disc and a number in it. -/
def smallDrawing : List Command :=
  [.drawRectangle 1 1 20 12 BLACK .px1 .empty, .drawCircle 5 6 4 BLACK .px2 .full,
    .drawNum 8 3 42 smallFont WHITE BLACK]

theorem smallDrawing_fits : ∀ c ∈ smallDrawing, c.Fits 20 12 := by
  intro c hc
  unfold smallDrawing at hc
  simp only [List.mem_cons, List.not_mem_nil, or_false] at hc
  rcases hc with rfl | rfl | rfl
  · exact ⟨pointFits_px1 1 1, pointFits_px1 20 12⟩
  · exact ⟨by decide, .inl rfl⟩
  · exact ⟨⟨by decide, by decide, ⟨by decide, by decide⟩⟩, by decide, by decide⟩

theorem drawing_refines_smallDrawing :
    Draws (smallDrawing.flatMap (Command.strokes 20 12)) smallPaint
      (smallDrawing.foldlM Command.draw smallPaint) :=
  drawing_refines upright_smallPaint smallDrawing_fits

end EleDs
