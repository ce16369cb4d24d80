/-
Where a flush puts the pixels.

`flush_ram` is the whole effect of `disp_flush` on the panel's RAM: the rows
`x1 … x2 - 1`, in the bytes `Display_Partial` takes for `y1 … y2`, get the buffer, and
nothing else changes.  A picture turned by 270 degrees belongs in the rows
`263 - x2 … 263 - x1`.  The two ranges are never the same: the flush stops a row early,
and it counts the rows from the other side.  So there is always an edge of the area
that no flush of it can store.
-/
import EleDs.Model.Disp

namespace EleDs

open Raster

/-! ### The registers -/

theorem uword_of_lt {n : Nat} (h : n < 65536) : uword n = n := by
  unfold uword
  omega

theorem Panel.setRegister_ram (p : Panel) (args : List UInt8) :
    (p.setRegister args).ram = p.ram := by
  unfold Panel.setRegister
  split_ifs <;> first | rfl | (split <;> rfl)

theorem Panel.setRegister_command (p : Panel) (args : List UInt8) :
    (p.setRegister args).command = p.command := by
  unfold Panel.setRegister
  split_ifs <;> first | rfl | (split <;> rfl)

/-- Data for a register stays out of the RAM. -/
theorem foldl_sendData_ram (data : List UInt8) :
    ∀ {p : Panel}, p.command ≠ 0x24 → (data.foldl sendData p).ram = p.ram := by
  induction data with
  | nil => intro p _; rfl
  | cons b data ih =>
      intro p hp
      have hone : sendData p b = { p.setRegister (p.args ++ [b]) with args := p.args ++ [b] } :=
        if_neg hp
      rw [List.foldl_cons, ih (by rw [hone]; exact (p.setRegister_command _) ▸ hp), hone]
      exact p.setRegister_ram _

theorem send_ram (p : Panel) {reg : UInt8} (hreg : reg ≠ 0x24) (data : List UInt8) :
    (send p reg data).ram = p.ram := by
  rw [send, foldl_sendData_ram data hreg]
  unfold sendCommand
  split <;> rfl

theorem epdInit_ram (p : Panel) : (epdInit p).ram = p.ram := by
  unfold epdInit
  dsimp only
  rw [send_ram _ (by decide), send_ram _ (by decide), send_ram _ (by decide),
    send_ram _ (by decide), send_ram _ (by decide)]
  rfl

theorem epdSleep_ram (p : Panel) : (epdSleep p).ram = p.ram := send_ram p (by decide) _

theorem turnOnDisplayPartial_ram (p : Panel) : (turnOnDisplayPartial p).ram = p.ram := by
  unfold turnOnDisplayPartial
  rw [send_ram _ (by decide), send_ram _ (by decide)]

/-! ### The image -/

/-- Sending the image is a scan of the window. -/
theorem sendImage_eq_scan (image : Memory) (n : Nat) {p : Panel} (hp : p.command = 0x24) :
    sendImage image n p = { p with
      counter := (scan p.window image n (p.counter, p.ram)).1
      ram := (scan p.window image n (p.counter, p.ram)).2 } := by
  induction n with
  | zero => rfl
  | succ n ih =>
      rw [sendImage, ih, sendData, if_pos hp]
      rfl

/-- The panel as `Display_Partial` leaves it before the image. -/
theorem displayPartial_ram_scan (p : Panel) (image : Memory) (xstart ystart xend yend : Nat) :
    (displayPartial p image xstart ystart xend yend).ram =
      (scan ⟨(lowByte (byteSpan xstart xend).1).toNat,
          (lowByte (uword ((byteSpan xstart xend).2 - 1))).toNat,
          Panel.address (lowByte ystart) (highBit ystart),
          Panel.address (lowByte (uword ((yend : Int) - 1))) (highBit (uword ((yend : Int) - 1)))⟩
        image (imageCounter xstart ystart xend yend)
        (⟨(lowByte (byteSpan xstart xend).1).toNat,
          Panel.address (lowByte ystart) (highBit ystart)⟩, p.ram)).2 := by
  unfold displayPartial
  dsimp only
  rw [turnOnDisplayPartial_ram, sendImage_eq_scan image _ rfl]
  rfl

theorem lowByte_toNat {n : Nat} (h : n < 256) : (lowByte n).toNat = n := by
  rw [lowByte, Nat.mod_eq_of_lt h, UInt8.toNat_ofNat', Nat.mod_eq_of_lt h]

theorem address_lowByte_highBit {n : Nat} (h : n < 512) :
    Panel.address (lowByte n) (highBit n) = n := by
  rw [Panel.address, lowByte, highBit, UInt8.toNat_ofNat', UInt8.toNat_ofNat']
  omega

theorem byteSpan_fst (xstart xend : Nat) : (byteSpan xstart xend).1 = xstart / 8 := by
  unfold byteSpan
  split <;> rfl

theorem byteSpan_snd {xstart xend : Nat} (h : xstart ≤ xend) :
    xstart / 8 ≤ (byteSpan xstart xend).2 ∧ (byteSpan xstart xend).2 ≤ xend / 8 + 1 := by
  unfold byteSpan
  split_ifs <;> dsimp only <;> omega

theorem rowBytes_eq {xstart xend : Nat} (h : xstart ≤ xend) (hend : xend < 2040) :
    rowBytes xstart xend = (byteSpan xstart xend).2 - xstart / 8 := by
  obtain ⟨hlow, hhigh⟩ := byteSpan_snd h
  rw [rowBytes, byteSpan_fst, ← Int.ofNat_sub hlow]
  exact uword_of_lt (by omega)

/-- **What `Display_Partial` writes.**  The ends it is given are the first row and the
first column it leaves alone, except that columns come by the byte. -/
theorem displayPartial_ram (p : Panel) (image : Memory) {xstart ystart xend yend : Nat}
    (hx : xstart ≤ xend) (hxend : xend < 2040) (hy : ystart ≤ yend) (hyend : yend < 512)
    (hcount : rowBytes xstart xend * (yend - ystart) < 65536) (row col : Nat) :
    (displayPartial p image xstart ystart xend yend).ram row col =
      if ystart ≤ row ∧ row < yend ∧
          xstart / 8 ≤ col ∧ col < xstart / 8 + rowBytes xstart xend
      then image (rank (xstart / 8) ystart (rowBytes xstart xend) row col)
      else p.ram row col := by
  obtain ⟨rows, rfl⟩ := Nat.le.dest hy
  rw [Nat.add_sub_cancel_left] at hcount
  have hcounter : imageCounter xstart ystart xend (ystart + rows)
      = rowBytes xstart xend * rows := by
    rw [imageCounter, ← Int.ofNat_sub hy, Nat.add_sub_cancel_left, ← Int.natCast_mul]
    exact uword_of_lt hcount
  obtain ⟨hlow, hhigh⟩ := byteSpan_snd hx
  have hbytes := rowBytes_eq hx hxend
  rw [displayPartial_ram_scan, hcounter, byteSpan_fst]
  by_cases hempty : rowBytes xstart xend * rows = 0
  · -- not a byte is sent, whatever the window is
    rw [hempty, if_neg]
    · rfl
    · rcases Nat.mul_eq_zero.mp hempty with h | h <;> omega
  · have hrows : 0 < rows := Nat.pos_of_ne_zero fun h => hempty (by rw [h, Nat.mul_zero])
    have hcols : 0 < rowBytes xstart xend :=
      Nat.pos_of_ne_zero fun h => hempty (by rw [h, Nat.zero_mul])
    have hright : uword ((byteSpan xstart xend).2 - 1)
        = xstart / 8 + rowBytes xstart xend - 1 := by
      unfold uword
      omega
    have hbottom : uword ((ystart + rows : Nat) - 1) = ystart + rows - 1 := by
      unfold uword
      omega
    rw [hright, hbottom, lowByte_toNat (by omega), lowByte_toNat (by omega),
      address_lowByte_highBit (by omega), address_lowByte_highBit (by omega)]
    exact scan_window image p.ram row col

/-! ### A flush -/

/-- The areas LVGL flushes on a screen of 264 by 176. -/
def LvArea.OnScreen (a : LvArea) : Prop :=
  0 ≤ a.x1 ∧ a.x1 ≤ a.x2 ∧ a.x2 ≤ 263 ∧ 0 ≤ a.y1 ∧ a.y1 ≤ a.y2 ∧ a.y2 ≤ 175

instance (a : LvArea) : Decidable a.OnScreen :=
  inferInstanceAs (Decidable (_ ∧ _ ∧ _ ∧ _ ∧ _ ∧ _))

theorem uword_toNat {z : Int} (h : 0 ≤ z) (hlt : z < 65536) : uword z = z.toNat := by
  unfold uword
  omega

theorem displayArea_ram {a : LvArea} (ha : a.OnScreen) (p : Panel) (image : Memory)
    (row col : Nat) :
    (displayArea p image a).ram row col =
      if a.x1.toNat ≤ row ∧ row < a.x2.toNat ∧ a.y1.toNat / 8 ≤ col ∧
          col < a.y1.toNat / 8 + rowBytes a.y1.toNat a.y2.toNat
      then image (rank (a.y1.toNat / 8) a.x1.toNat (rowBytes a.y1.toNat a.y2.toNat) row col)
      else p.ram row col := by
  obtain ⟨hx1, hx, hx2, hy1, hy, hy2⟩ := ha
  have hbytes : rowBytes a.y1.toNat a.y2.toNat ≤ 22 := by
    have hspan := byteSpan_snd (show a.y1.toNat ≤ a.y2.toNat by omega)
    rw [rowBytes_eq (by omega) (by omega)]
    omega
  have hcount : rowBytes a.y1.toNat a.y2.toNat * (a.x2.toNat - a.x1.toNat) ≤ 22 * 263 :=
    Nat.mul_le_mul hbytes (by omega)
  rw [displayArea, uword_toNat hy1 (by omega), uword_toNat hx1 (by omega),
    uword_toNat (by omega) (by omega), uword_toNat (by omega) (by omega)]
  exact displayPartial_ram p image (by omega) (by omega) (by omega) (by omega) (by omega) row col

/-- **The whole effect of a flush on the RAM.** -/
theorem flush_ram {a : LvArea} (ha : a.OnScreen) (d : Display) (color : Nat → UInt8)
    (mem : Memory) (row col : Nat) :
    (dispFlush d ⟨a, color, some mem⟩).panel.ram row col =
      if a.x1.toNat ≤ row ∧ row < a.x2.toNat ∧ a.y1.toNat / 8 ≤ col ∧
          col < a.y1.toNat / 8 + rowBytes a.y1.toNat a.y2.toNat
      then (dispFlush d ⟨a, color, some mem⟩).paint.image
        (rank (a.y1.toNat / 8) a.x1.toNat (rowBytes a.y1.toNat a.y2.toNat) row col)
      else d.panel.ram row col := by
  unfold dispFlush
  dsimp only
  rw [epdSleep_ram, displayArea_ram ha, displayArea_ram ha, epdInit_ram]
  split_ifs <;> rfl

/-- A row outside `x1 … x2 - 1` keeps what it had, also when there was no memory for the
buffer. -/
theorem flush_row_kept {a : LvArea} (ha : a.OnScreen) (d : Display) (color : Nat → UInt8)
    (tempBuf : Option Memory) {row : Nat} (hrow : row < a.x1.toNat ∨ a.x2.toNat ≤ row) (col : Nat) :
    (dispFlush d ⟨a, color, tempBuf⟩).panel.ram row col = d.panel.ram row col := by
  cases tempBuf with
  | none => rfl
  | some mem => rw [flush_ram ha, if_neg (by omega)]

/-! ### What a flush is for -/

/-- The row of the RAM a column of the screen belongs in, turned by 270 degrees. -/
def screenRow (x : Int) : Nat := (263 - x).toNat

/-- The colour of a pixel of the area: `true` is white. -/
def LvArea.white (a : LvArea) (color : Nat → UInt8) (x y : Int) : Bool :=
  color ((x - a.x1) + (y - a.y1) * (a.x2 - a.x1 + 1)).toNat ≠ 0

/-- The area is in the RAM where it belongs, and the rest of the screen is as it was. -/
structure Placed (a : LvArea) (color : Nat → UInt8) (before after : Grid UInt8) : Prop where
  stored : ∀ x y, a.x1 ≤ x → x ≤ a.x2 → a.y1 ≤ y → y ≤ a.y2 →
    Panel.pixel after (screenRow x) y.toNat = a.white color x y
  kept : ∀ row col, row < 264 → col < 176 →
    (∀ x y, a.x1 ≤ x → x ≤ a.x2 → a.y1 ≤ y → y ≤ a.y2 → ¬ (row = screenRow x ∧ col = y.toNat)) →
    Panel.pixel after row col = Panel.pixel before row col

/-- Every flush of a sequence puts its area where it belongs. -/
def FlushesPlaced (d : Display) : List FlushCall → Prop
  | [] => True
  | call :: calls =>
      Placed call.area call.color d.panel.ram (dispFlush d call).panel.ram ∧
        FlushesPlaced (dispFlush d call) calls

/-- The first or the last column of an area belongs in a row the flush does not write. -/
theorem exists_lost_column {a : LvArea} (ha : a.OnScreen) :
    ∃ x, (x = a.x1 ∨ x = a.x2) ∧ (screenRow x < a.x1.toNat ∨ a.x2.toNat ≤ screenRow x) := by
  obtain ⟨hx1, hx, hx2, _⟩ := ha
  unfold screenRow
  -- both rows inside would need x1 + x2 to be more than 263 and not more
  by_cases h : 263 < a.x1 + a.x2
  · exact ⟨a.x2, Or.inr rfl, Or.inl (by omega)⟩
  · exact ⟨a.x1, Or.inl rfl, Or.inr (by omega)⟩

/-- **No area is stored whatever it shows.**  After any flushes, and whether or not there
is memory for its buffer, a flush leaves an edge column of its area as the RAM had it,
and so does not store every picture. -/
theorem column_never_stored (d : Display) (before : List FlushCall) (a : LvArea)
    (tempBuf : Option Memory) (ha : a.OnScreen) :
    (∃ x, (x = a.x1 ∨ x = a.x2) ∧ ∀ color y,
      Panel.pixel (dispFlush (dispFlushes d before) ⟨a, color, tempBuf⟩).panel.ram (screenRow x) y
        = Panel.pixel (dispFlushes d before).panel.ram (screenRow x) y) ∧
    ¬ ∀ color, Placed a color (dispFlushes d before).panel.ram
      (dispFlush (dispFlushes d before) ⟨a, color, tempBuf⟩).panel.ram := by
  obtain ⟨x, hedge, hrow⟩ := exists_lost_column ha
  have hkept : ∀ color y,
      Panel.pixel (dispFlush (dispFlushes d before) ⟨a, color, tempBuf⟩).panel.ram (screenRow x) y
        = Panel.pixel (dispFlushes d before).panel.ram (screenRow x) y := by
    intro color y
    rw [Panel.pixel, flush_row_kept ha _ color tempBuf hrow]
    rfl
  refine ⟨⟨x, hedge, hkept⟩, ?_⟩
  intro hplaced
  obtain ⟨hx1, hx, hx2, hy1, hy, hy2⟩ := ha
  -- both an all-black and an all-white area would have to be there already
  have hblack := (hplaced fun _ => 0).stored x a.y1 (by omega) (by omega) (by omega) hy
  have hwhite := (hplaced fun _ => 1).stored x a.y1 (by omega) (by omega) (by omega) hy
  rw [hkept] at hblack hwhite
  rw [hblack] at hwhite
  exact absurd hwhite (by simp [LvArea.white])

/-- A white screen. -/
def whiteDisplay : Display where
  paint := paintNewImage (fun _ => 0) 176 264 270 WHITE
  panel := ⟨0, [], ⟨0, 0, 0, 0⟩, ⟨0, 0⟩, fun _ _ => 0xFF⟩

/-- Not even the whole screen. -/
theorem column_never_stored_fullScreen :
    (⟨0, 0, 263, 175⟩ : LvArea).OnScreen ∧
    ¬ ∀ color, Placed ⟨0, 0, 263, 175⟩ color whiteDisplay.panel.ram
      (dispFlush whiteDisplay ⟨⟨0, 0, 263, 175⟩, color, some fun _ => 0⟩).panel.ram :=
  ⟨by decide,
    (column_never_stored whiteDisplay [] ⟨0, 0, 263, 175⟩ (some fun _ => 0) (by decide)).2⟩

/-- A black square of eight pixels on a white screen does not reach the rows 240 … 247 it
belongs in. -/
theorem flushesPlaced_refuted :
    ¬ ∀ (d : Display) (calls : List FlushCall), (∀ call ∈ calls, call.area.OnScreen) →
      FlushesPlaced d calls := by
  intro hall
  have hplaced := hall whiteDisplay [⟨⟨16, 0, 23, 7⟩, fun _ => 0, some fun _ => 0⟩] (by
    intro call hcall
    rw [List.mem_singleton] at hcall
    rw [hcall]
    decide)
  have hblack := hplaced.1.stored 16 0 (by decide) (by decide) (by decide) (by decide)
  revert hblack
  decide +kernel

end EleDs
