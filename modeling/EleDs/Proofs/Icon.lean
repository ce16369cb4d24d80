/-
What an icon file shows.

The loops of the tool put a bit into the file for every pixel and fill each row up to a
whole byte, whatever the width is: the rows of a file are the rows of the picture
(`convertPngToBin_ok`).  What stands in front of them is the header of a picture of 48
times 48 pixels.  A decoder takes the size of the picture from there, and with it the
length of a row, so what it shows is the picture when that is the picture's own size and
not otherwise (`holds_iff`).

The decoder's loop over a line takes the bits of its buffer one after the other
(`indexedPixels_ok`), and these are the pixels of the layout as far as the file goes
(`lineIndexed_reads`).  Where it has ended, they are what the buffer has held before.
-/
import EleDs.Model.Icon

namespace EleDs

open CMem Bits Bitmap

/-! ### The rows -/

namespace Packing

/-- The bits put out so far. -/
def bits (p : Packing) : List Bool := bitsOf p.binData ++ highBits p.bitCount p.byte

/-- Fewer than eight bits wait for their byte, and there is nothing above them. -/
structure Ok (p : Packing) : Prop where
  inByte : p.bitCount < 8
  fits : p.byte < 2 ^ p.bitCount

/-- Nothing waits. -/
theorem ok_whole (data : Bytes) : Ok ⟨data, 0, 0⟩ := by
  constructor <;> simp

@[simp] theorem bits_whole (data : Bytes) : bits ⟨data, 0, 0⟩ = bitsOf data :=
  List.append_nil _

end Packing

theorem grayBit_eq (gray : UInt8) (threshold : Int) :
    grayBit gray threshold = (decide (threshold ≤ gray.toNat)).toNat := by
  unfold grayBit
  by_cases h : (gray.toNat : Int) < threshold
  · rw [if_pos h, decide_eq_false (by omega)]
    rfl
  · rw [if_neg h, decide_eq_true (by omega)]
    rfl

/-- A number below 256 goes in as it is. -/
theorem bytearrayAppend_ok (data : Bytes) {byte : Nat} (h : byte < 2 ^ 8) :
    ∃ data', bytearrayAppend data byte = .ok data' ∧
      bitsOf data' = bitsOf data ++ highBits 8 byte := by
  refine ⟨data ++ [UInt8.ofNat byte], if_pos h, ?_⟩
  rw [bitsOf_append, bitsOf_singleton, byteBits, UInt8.toNat_ofNat_of_lt' h]

/-- **A pixel is one more bit.** -/
theorem binPixel_ok {p : Packing} (h : p.Ok) (b : Bool) :
    ∃ q, binPixel p b.toNat = .ok q ∧ q.Ok ∧ q.bits = p.bits ++ [b] := by
  have hfits := shiftLeft_or_lt b h.fits
  have hbits := highBits_push p.bitCount p.byte b
  unfold binPixel
  by_cases hfull : p.bitCount + 1 = 8
  · rw [hfull] at hfits hbits
    obtain ⟨data, happend, hdata⟩ := bytearrayAppend_ok p.binData hfits
    refine ⟨⟨data, 0, 0⟩, ?_, Packing.ok_whole data, ?_⟩
    · simp only [hfull, if_true, happend]
      rfl
    · rw [Packing.bits_whole, hdata, hbits, Packing.bits, List.append_assoc]
  · have hin := h.inByte
    refine ⟨⟨p.binData, p.byte <<< 1 ||| b.toNat, p.bitCount + 1⟩, ?_, ⟨?_, hfits⟩, ?_⟩
    · simp only [hfull, if_false]
    · show p.bitCount + 1 < 8
      omega
    · show bitsOf p.binData ++ highBits (p.bitCount + 1) (p.byte <<< 1 ||| b.toNat)
        = bitsOf p.binData ++ highBits p.bitCount p.byte ++ [b]
      rw [hbits, List.append_assoc]

theorem binColumns_ok (img : GrayImage) (threshold : Int) (y : Nat) (data : Bytes) (n : Nat) :
    ∃ p, binColumns img threshold y data n = .ok p ∧ p.Ok ∧
      p.bits = bitsOf data ++ (List.range n).map fun x => img.light threshold x y := by
  induction n with
  | zero =>
      refine ⟨⟨data, 0, 0⟩, rfl, Packing.ok_whole data, ?_⟩
      simp
  | succ x ih =>
      obtain ⟨p, hp, hok, hbits⟩ := ih
      obtain ⟨q, hq, hok', hbits'⟩ := binPixel_ok hok (img.light threshold x y)
      refine ⟨q, ?_, hok', ?_⟩
      · rw [binColumns, hp, grayBit_eq]
        exact hq
      · rw [hbits', hbits, List.append_assoc, List.range_succ, List.map_append]
        rfl

/-- The bits that wait come into a byte of their own, with zeros behind them. -/
theorem binRest_ok {p : Packing} (h : p.Ok) :
    ∃ data k, binRest p = .ok data ∧ k < 8 ∧ bitsOf data = p.bits ++ List.replicate k false := by
  have hin := h.inByte
  unfold binRest
  by_cases hwait : p.bitCount > 0
  · have hlen : p.bitCount + (8 - p.bitCount) = 8 := by omega
    have hfits : p.byte <<< (8 - p.bitCount) < 2 ^ 8 := by
      have hmul := Nat.mul_lt_mul_of_pos_right h.fits (Nat.two_pow_pos (8 - p.bitCount))
      rwa [← Nat.pow_add, hlen, ← Nat.shiftLeft_eq] at hmul
    have hbits := highBits_shiftLeft p.bitCount p.byte (8 - p.bitCount)
    rw [hlen] at hbits
    obtain ⟨data, happend, hdata⟩ := bytearrayAppend_ok p.binData hfits
    refine ⟨data, 8 - p.bitCount, ?_, by omega, ?_⟩
    · rw [if_pos hwait, happend]
    · rw [hdata, hbits, Packing.bits, List.append_assoc]
  · have hnone : p.bitCount = 0 := by omega
    refine ⟨p.binData, 0, if_neg hwait, by decide, ?_⟩
    rw [Packing.bits, hnone]
    simp [highBits]

/-- **The rows of the file are the rows of the picture.** -/
theorem binRows_ok (img : GrayImage) (threshold : Int) (n : Nat) :
    ∃ data, binRows img threshold n = .ok data ∧
      bitsOf data = pictureBits img.width (img.light threshold) n := by
  induction n with
  | zero => exact ⟨[], rfl, rfl⟩
  | succ y ih =>
      obtain ⟨data, hdata, hbits⟩ := ih
      obtain ⟨p, hp, hok, hrow⟩ := binColumns_ok img threshold y data img.width
      obtain ⟨data', k, hrest, hk, hbits'⟩ := binRest_ok hok
      rw [hrow, List.append_assoc] at hbits'
      -- the bytes are whole, so the zeros reach the end of the last one
      have hpad : k = 8 * stride img.width - img.width := by
        have hlen := congrArg List.length hbits'
        simp only [length_bitsOf, List.length_append, List.length_map, List.length_range,
          List.length_replicate] at hlen
        unfold stride
        omega
      refine ⟨data', ?_, ?_⟩
      · rw [binRows, hdata]
        show (do binRest (← binColumns img threshold y data img.width)) = _
        rw [hp]
        exact hrest
      · rw [hbits', hbits, hpad, pictureBits_succ]
        rfl

/-- **The tool writes a file for every picture, and the rows of the picture in it.** -/
theorem convertPngToBin_ok (img : GrayImage) (threshold : Int) :
    ∃ data, convertPngToBin img threshold = .ok (LVGL_HEADER ++ data) ∧
      bitsOf data = pictureBits img.width (img.light threshold) img.height := by
  obtain ⟨data, hdata, hbits⟩ := binRows_ok img threshold img.height
  refine ⟨data, ?_, hbits⟩
  rw [convertPngToBin, hdata]
  rfl

/-! ### The header -/

section Header

variable {front : Bytes} {header : LvImgHeader}

theorem builtInInfo_append (hlen : lvImgHeaderSize ≤ front.length) (rest : Bytes) :
    lvImgDecoderBuiltInInfo (front ++ rest) = lvImgDecoderBuiltInInfo front := by
  have hread : lvFsRead (front ++ rest) 0 lvImgHeaderSize = lvFsRead front 0 lvImgHeaderSize :=
    List.take_append_of_le_length hlen
  unfold lvImgDecoderBuiltInInfo
  rw [hread]

theorem indexed1Bit_append (hlen : front.length = 12)
    (hinfo : lvImgDecoderBuiltInInfo front = some header)
    (hcf : header.cf = LV_IMG_CF_INDEXED_1BIT) (rest : Bytes) :
    indexed1Bit (front ++ rest) = some ⟨header.w, header.h, Bitmap.pixel rest header.w⟩ := by
  have hshort : lvImgHeaderSize ≤ front.length := by
    rw [hlen]
    decide
  unfold indexed1Bit
  rw [builtInInfo_append hshort, hinfo, List.drop_left' hlen]
  exact if_pos hcf

/-- **Rows behind a header are the picture when the header has the picture's size.** -/
theorem holds_iff {rest : Bytes} {img : GrayImage} {threshold : Int} (hlen : front.length = 12)
    (hinfo : lvImgDecoderBuiltInInfo front = some header)
    (hcf : header.cf = LV_IMG_CF_INDEXED_1BIT)
    (hbits : bitsOf rest = pictureBits img.width (img.light threshold) img.height) :
    Holds (front ++ rest) img threshold ↔ header.w = img.width ∧ header.h = img.height := by
  have hpic := indexed1Bit_append hlen hinfo hcf rest
  constructor
  · intro h
    obtain ⟨pic, hpic', hwidth, hheight, -⟩ := h
    cases hpic.symm.trans hpic'
    exact ⟨hwidth, hheight⟩
  · intro h
    obtain ⟨hw, hh⟩ := h
    refine ⟨_, hpic, hw, hh, ?_⟩
    intro x y hx hy
    show Bitmap.pixel rest header.w x y = some (img.light threshold x y)
    rw [hw]
    exact pixel_of_bits hbits hx hy

/-- What the tool says of every picture. -/
def iconHeader : LvImgHeader := ⟨LV_IMG_CF_INDEXED_1BIT, 0, 0, 48, 48⟩

theorem info_LVGL_HEADER : lvImgDecoderBuiltInInfo LVGL_HEADER = some iconHeader := by
  decide

theorem info_icon (data : Bytes) :
    lvImgDecoderBuiltInInfo (LVGL_HEADER ++ data) = some iconHeader := by
  rw [builtInInfo_append (by decide), info_LVGL_HEADER]

end Header

/-- **An icon file holds its picture exactly when the picture is 48 pixels wide and 48
high.** -/
theorem convertPngToBin_holds_iff (img : GrayImage) (threshold : Int) :
    (∃ file, convertPngToBin img threshold = .ok file ∧ Holds file img threshold) ↔
      img.width = 48 ∧ img.height = 48 := by
  obtain ⟨data, hfile, hbits⟩ := convertPngToBin_ok img threshold
  have hholds := holds_iff rfl info_LVGL_HEADER rfl hbits
  constructor
  · intro h
    obtain ⟨file, hfile', hpic⟩ := h
    cases hfile.symm.trans hfile'
    obtain ⟨hw, hh⟩ := hholds.mp hpic
    exact ⟨hw.symm, hh.symm⟩
  · intro h
    obtain ⟨hw, hh⟩ := h
    exact ⟨_, hfile, hholds.mpr ⟨hw.symm, hh.symm⟩⟩

/-- An icon of `tianqi_32` has 32 times 32 pixels; its file says 48 times 48. -/
theorem convertPngToBin_size_32 :
    ¬ ∃ file, convertPngToBin ⟨32, 32, fun _ _ => 255⟩ 128 = .ok file ∧
      Holds file ⟨32, 32, fun _ _ => 255⟩ 128 := by
  intro h
  obtain ⟨file, hfile, hpic⟩ := h
  obtain ⟨data, hfile', hbits⟩ := convertPngToBin_ok ⟨32, 32, fun _ _ => 255⟩ 128
  cases hfile'.symm.trans hfile
  have hsize := (holds_iff rfl info_LVGL_HEADER rfl hbits).mp hpic
  exact absurd hsize.1 (by decide)

/-! ### A line -/

/-- A shift and a mask pick one bit. -/
theorem valAct_eq (byte : UInt8) {pos : Nat} (hpos : pos < 8) :
    (byte.toNat >>> pos) &&& ((1 <<< 1) - 1) = (ofByte byte (7 - pos)).toNat := by
  have hback : 7 - (7 - pos) = pos := by omega
  rw [ofByte_eq_testBit, hback, Nat.toNat_testBit, Nat.shiftRight_eq_div_pow]
  exact Nat.and_one_is_mod _

/-- **A line is a run of the buffer's bits.** -/
theorem indexedPixels_ok {buf : Bytes} {len dataTmp pos i : Nat} (hpos : pos < 8)
    (hplace : 8 * dataTmp + (7 - pos) = i) (hin : i + len ≤ 8 * buf.length) :
    indexedPixels buf 1 len dataTmp pos
      = .ok ((((bitsOf buf).drop i).take len).map Bool.toNat) := by
  induction len generalizing dataTmp pos i with
  | zero => rw [List.take_zero]; rfl
  | succ len ih =>
      have hbyte : dataTmp < buf.length := by omega
      have hbit : (bitsOf buf)[i]? = some (ofByte buf[dataTmp] (7 - pos)) := by
        rw [← hplace, getElem?_bitsOf buf dataTmp (by omega), List.getElem?_eq_getElem hbyte]
        rfl
      obtain ⟨hi, hget⟩ := List.getElem?_eq_some_iff.mp hbit
      rw [indexedPixels, List.getElem?_eq_getElem hbyte, List.drop_eq_getElem_cons hi, hget,
        List.take_succ_cons, List.map_cons, ← valAct_eq _ hpos]
      by_cases hlast : pos < 1
      · -- the next pixel starts a byte
        simp only [hlast, if_true]
        rw [ih (by decide) (i := i + 1) (by omega) (by omega)]
        rfl
      · simp only [hlast, if_false]
        rw [ih (by omega) (i := i + 1) (by omega) (by omega)]
        rfl

section Line

variable {header : LvImgHeader} {x y len : Nat}

theorem indexedPlace_eq (hcf : header.cf = LV_IMG_CF_INDEXED_1BIT) (x y : Nat) :
    indexedPlace header x y
      = ⟨stride header.w, stride header.w * y + x / 8 + 8, 7 - x % 8⟩ := by
  have hmod : x &&& 7 = x % 8 := Nat.and_two_pow_sub_one_eq_mod x 3
  rw [indexedPlace, if_pos hcf, hmod, Nat.shiftRight_eq_div_pow, Nat.shiftRight_eq_div_pow]
  rfl

/-- What is read for a line: a whole row's bytes, from the one of the first pixel on, or as
many as the file still has. -/
def lineData (file : Bytes) (header : LvImgHeader) (x y : Nat) : Bytes :=
  lvFsRead file (stride header.w * y + x / 8 + 12) (stride header.w)

theorem length_lineData_le (file : Bytes) (header : LvImgHeader) (x y : Nat) :
    (lineData file header x y).length ≤ stride header.w := by
  rw [lineData, lvFsRead, List.length_take]
  exact Nat.min_le_left _ _

/-- The buffer then: behind what was read it has what it has held before. -/
def lineBuf (file : Bytes) (header : LvImgHeader) (x y : Nat) (held : Bytes) : Bytes :=
  overwrite held 0 (lineData file header x y)

theorem lineIndexed_ok (file : Bytes) (hcf : header.cf = LV_IMG_CF_INDEXED_1BIT)
    (hx : x + len ≤ header.w) (y : Nat) (fsBuf : Buf (indexedPlace header x y).w) :
    lvImgDecoderBuiltInLineIndexed file header x y len fsBuf
      = .ok ((((bitsOf (lineBuf file header x y fsBuf.data)).drop (x % 8)).take len).map
          Bool.toNat) := by
  have hplace := indexedPlace_eq hcf x y
  have hstride : (indexedPlace header x y).w = stride header.w := by rw [hplace]
  have hofs : (indexedPlace header x y).ofs = stride header.w * y + x / 8 + 8 := by rw [hplace]
  have hpos : (indexedPlace header x y).pos = 7 - x % 8 := by rw [hplace]
  have hpx : lvImgCfGetPxSize header.cf = 1 := if_pos hcf
  have hroom := le_stride header.w
  have hread : lvFsRead file ((indexedPlace header x y).ofs + 4) (indexedPlace header x y).w
      = lineData file header x y := by
    rw [hofs, hstride]
    rfl
  have hfits : 0 + (lineData file header x y).length ≤ (indexedPlace header x y).w := by
    rw [Nat.zero_add, hstride]
    exact length_lineData_le file header x y
  obtain ⟨buf, hmem, hdata⟩ := fsBuf.memcpy_ok hfits
  have hline : buf.data = lineBuf file header x y fsBuf.data := hdata
  have hsize : buf.data.length = stride header.w := buf.size.trans hstride
  rw [hline] at hsize
  unfold lvImgDecoderBuiltInLineIndexed
  simp only [hread, hmem]
  show indexedPixels buf.data (lvImgCfGetPxSize header.cf) len 0 (indexedPlace header x y).pos = _
  rw [hpx, hline, hpos]
  exact indexedPixels_ok (by omega) (by omega) (by omega)

/-- A pixel that is in the file comes into the buffer. -/
theorem getElem?_lineBuf {file held : Bytes} (hheld : held.length = stride header.w) {i : Nat}
    (hi : x + i < header.w) {b : Bool}
    (hpixel : Bitmap.pixel (file.drop 12) header.w (x + i) y = some b) :
    (bitsOf (lineBuf file header x y held))[x % 8 + i]? = some b := by
  have hroom := le_stride header.w
  have hdiv : (x + i) / 8 = x / 8 + (x % 8 + i) / 8 := by omega
  have hmod : (x + i) % 8 = (x % 8 + i) % 8 := by omega
  rw [Bitmap.pixel, hdiv, hmod, List.getElem?_drop] at hpixel
  obtain ⟨byte, hbyte, hval⟩ := Option.map_eq_some_iff.mp hpixel
  have hread : (lineData file header x y)[(x % 8 + i) / 8]? = some byte := by
    have hplace : stride header.w * y + x / 8 + 12 + (x % 8 + i) / 8
        = 12 + (stride header.w * y + (x / 8 + (x % 8 + i) / 8)) := by omega
    rw [lineData, lvFsRead, List.getElem?_take_of_lt (by omega), List.getElem?_drop, hplace, hbyte]
  obtain ⟨hin, -⟩ := List.getElem?_eq_some_iff.mp hread
  have hfits : 0 + (lineData file header x y).length ≤ held.length := by
    rw [Nat.zero_add, hheld]
    exact length_lineData_le file header x y
  have hsplit : x % 8 + i = 8 * ((x % 8 + i) / 8) + (x % 8 + i) % 8 := by omega
  rw [hsplit, getElem?_bitsOf _ _ (Nat.mod_lt _ (by decide)), lineBuf,
    getElem?_overwrite hfits, if_pos (by omega), Nat.sub_zero, hread]
  exact congrArg some hval

/-- **The decoder reads by the layout.** -/
theorem lineIndexed_reads (file : Bytes) (hcf : header.cf = LV_IMG_CF_INDEXED_1BIT)
    (hx : x + len ≤ header.w) (y : Nat) (fsBuf : Buf (indexedPlace header x y).w) :
    ∃ vals, lvImgDecoderBuiltInLineIndexed file header x y len fsBuf = .ok vals ∧
      ∀ i < len, ∀ b, Bitmap.pixel (file.drop 12) header.w (x + i) y = some b →
        vals[i]? = some b.toNat := by
  have hheld : fsBuf.data.length = stride header.w := by
    rw [fsBuf.size, indexedPlace_eq hcf]
  refine ⟨_, lineIndexed_ok file hcf hx y fsBuf, ?_⟩
  intro i hi b hpixel
  rw [List.getElem?_map, List.getElem?_take_of_lt hi, List.getElem?_drop,
    getElem?_lineBuf hheld (by omega) hpixel]
  rfl

/-- Behind the end of the file the decoder reads what the buffer has held before. -/
theorem lineIndexed_leftover {file : Bytes} (hcf : header.cf = LV_IMG_CF_INDEXED_1BIT)
    (hx : x + len ≤ header.w) (hend : file.length ≤ stride header.w * y + x / 8 + 12)
    (fsBuf : Buf (indexedPlace header x y).w) :
    lvImgDecoderBuiltInLineIndexed file header x y len fsBuf
      = .ok ((((bitsOf fsBuf.data).drop (x % 8)).take len).map Bool.toNat) := by
  have hnone : lineBuf file header x y fsBuf.data = fsBuf.data := by
    rw [lineBuf, lineData, lvFsRead, List.drop_eq_nil_of_le hend]
    simp [overwrite]
  rw [lineIndexed_ok file hcf hx y fsBuf, hnone]

end Line

/-! ### From the tool to the decoder -/

theorem indexed1Bit_eq_some {file : Bytes} {pic : Picture} (h : indexed1Bit file = some pic) :
    ∃ header, lvImgDecoderBuiltInInfo file = some header ∧
      header.cf = LV_IMG_CF_INDEXED_1BIT ∧
      pic = ⟨header.w, header.h, Bitmap.pixel (file.drop 12) header.w⟩ := by
  unfold indexed1Bit at h
  cases hinfo : lvImgDecoderBuiltInInfo file with
  | none =>
      rw [hinfo] at h
      cases h
  | some header =>
      rw [hinfo] at h
      obtain ⟨hcf, hpic⟩ := Option.ite_none_right_eq_some.mp h
      exact ⟨header, rfl, hcf, (Option.some.inj hpic).symm⟩

/-- **The decoder shows the picture that a file holds.** -/
theorem Holds.lines {file : Bytes} {img : GrayImage} {threshold : Int}
    (h : Holds file img threshold) :
    ∃ header, lvImgDecoderBuiltInInfo file = some header ∧
      header.w = img.width ∧ header.h = img.height ∧
      ∀ y < img.height, ∀ fsBuf : Buf (indexedPlace header 0 y).w,
        ∃ vals, lvImgDecoderBuiltInLineIndexed file header 0 y img.width fsBuf = .ok vals ∧
          ∀ x < img.width, vals[x]? = some (img.light threshold x y).toNat := by
  obtain ⟨pic, hpic, hwidth, hheight, hpixel⟩ := h
  obtain ⟨header, hinfo, hcf, rfl⟩ := indexed1Bit_eq_some hpic
  refine ⟨header, hinfo, hwidth, hheight, ?_⟩
  intro y hy fsBuf
  have hin : 0 + img.width ≤ header.w := by
    rw [Nat.zero_add]
    exact hwidth.ge
  obtain ⟨vals, hvals, hread⟩ := lineIndexed_reads file hcf hin y fsBuf
  refine ⟨vals, hvals, ?_⟩
  intro x hx
  refine hread x hx _ ?_
  rw [Nat.zero_add]
  exact hpixel x y hx hy

/-- **An icon of 48 times 48 pixels is shown as it is.** -/
theorem convertPngToBin_lines (img : GrayImage) (threshold : Int) (hw : img.width = 48)
    (hh : img.height = 48) :
    ∃ file, convertPngToBin img threshold = .ok file ∧
      lvImgDecoderBuiltInInfo file = some iconHeader ∧
      ∀ y < 48, ∀ fsBuf : Buf (indexedPlace iconHeader 0 y).w,
        ∃ vals, lvImgDecoderBuiltInLineIndexed file iconHeader 0 y 48 fsBuf = .ok vals ∧
          ∀ x < 48, vals[x]? = some (img.light threshold x y).toNat := by
  obtain ⟨data, hfile, hbits⟩ := convertPngToBin_ok img threshold
  have hholds := (holds_iff rfl info_LVGL_HEADER rfl hbits).mpr ⟨hw.symm, hh.symm⟩
  obtain ⟨header, hheader, -, -, hlines⟩ := hholds.lines
  cases (info_icon data).symm.trans hheader
  rw [hw, hh] at hlines
  exact ⟨_, hfile, info_icon data, hlines⟩

/-- **Where a smaller picture has ended, the decoder shows what its buffer has held.** -/
theorem convertPngToBin_leftover (img : GrayImage) (threshold : Int) {y : Nat}
    (hend : stride img.width * img.height ≤ 6 * y) :
    ∃ file, convertPngToBin img threshold = .ok file ∧
      lvImgDecoderBuiltInInfo file = some iconHeader ∧
      ∀ fsBuf : Buf (indexedPlace iconHeader 0 y).w,
        lvImgDecoderBuiltInLineIndexed file iconHeader 0 y 48 fsBuf
          = .ok ((bitsOf fsBuf.data).map Bool.toNat) := by
  obtain ⟨data, hfile, hbits⟩ := convertPngToBin_ok img threshold
  have hlen : data.length = stride img.width * img.height := by
    have := congrArg List.length hbits
    rw [length_bitsOf, length_pictureBits] at this
    omega
  refine ⟨_, hfile, info_icon data, ?_⟩
  intro fsBuf
  have hwhole : (bitsOf fsBuf.data).length ≤ 48 := by
    rw [length_bitsOf, fsBuf.size, indexedPlace_eq rfl]
    show 8 * stride 48 ≤ 48
    decide
  have hshort : (LVGL_HEADER ++ data).length ≤ stride iconHeader.w * y + 0 / 8 + 12 := by
    rw [List.length_append, hlen]
    show 12 + _ ≤ 6 * y + 0 / 8 + 12
    omega
  rw [lineIndexed_leftover rfl (by decide) hshort fsBuf]
  show Except.ok (((bitsOf fsBuf.data).take 48).map Bool.toNat) = _
  rw [List.take_of_length_le hwhole]

end EleDs
