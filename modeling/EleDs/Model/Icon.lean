/-
The icons: the tool that makes them (`res/icon/tar_icon.py`) and the decoder that reads
them (`packages/LVGL-v8.3.11/src/draw/lv_img_decoder.c`).

The tool turns a picture into one bit a pixel and puts a header in front that is the same
for every picture.  The decoder knows of a picture only what the header says: its format,
its size, and from these where a row starts.
-/
import EleDs.Lib.Bitmap
import EleDs.Lib.Words

namespace EleDs

open CMem

/-! ### The tool -/

/-- What `append` raises for a number that is no byte. -/
inductive PyError where
  | valueError
deriving DecidableEq, Repr

/-- `img` after `convert("L")` and `enhance(2.0)`. -/
structure GrayImage where
  width : Nat
  height : Nat
  pixels : Nat → Nat → UInt8

/-- `LVGL_HEADER`. -/
def LVGL_HEADER : Bytes :=
  [0x07, 0xc0, 0x00, 0x06, 0x03, 0x03, 0x03, 0x02, 0x51, 0x51, 0x51, 0xd3]

/-- `bytearray.append`. -/
def bytearrayAppend (data : Bytes) (byte : Nat) : Except PyError Bytes :=
  if byte < 256 then .ok (data ++ [UInt8.ofNat byte]) else .error .valueError

/-- The variables of the loops of `convert_png_to_bin`. -/
structure Packing where
  binData : Bytes
  byte : Nat
  bitCount : Nat
deriving DecidableEq, Repr

/-- The bit of a pixel. -/
def grayBit (gray : UInt8) (threshold : Int) : Nat :=
  if (gray.toNat : Int) < threshold then 0 else 1

/-- The inner loop's body. -/
def binPixel (p : Packing) (bit : Nat) : Except PyError Packing :=
  let byte := p.byte <<< 1 ||| bit
  let bitCount := p.bitCount + 1
  if bitCount = 8 then do
    let binData ← bytearrayAppend p.binData byte
    .ok { binData := binData, byte := 0, bitCount := 0 }
  else .ok { p with byte := byte, bitCount := bitCount }

/-- The columns `0 … n - 1` of row `y`. -/
def binColumns (img : GrayImage) (threshold : Int) (y : Nat) (binData : Bytes) :
    Nat → Except PyError Packing
  | 0 => .ok { binData := binData, byte := 0, bitCount := 0 }
  | x + 1 => do
      let p ← binColumns img threshold y binData x
      binPixel p (grayBit (img.pixels x y) threshold)

/-- The rest of a row, with zeros behind it. -/
def binRest (p : Packing) : Except PyError Bytes :=
  if p.bitCount > 0 then bytearrayAppend p.binData (p.byte <<< (8 - p.bitCount)) else .ok p.binData

/-- The rows `0 … n - 1`. -/
def binRows (img : GrayImage) (threshold : Int) : Nat → Except PyError Bytes
  | 0 => .ok []
  | y + 1 => do
      let binData ← binRows img threshold y
      let p ← binColumns img threshold y binData img.width
      binRest p

/-- `convert_png_to_bin`: what it writes to `bin_path`. -/
def convertPngToBin (img : GrayImage) (threshold : Int) : Except PyError Bytes := do
  let binData ← binRows img threshold img.height
  .ok (LVGL_HEADER ++ binData)

/-! ### The decoder -/

/-- `lv_img_cf_t`, as far as the built-in decoder tells its values apart. -/
def LV_IMG_CF_TRUE_COLOR : Nat := 4
def LV_IMG_CF_INDEXED_1BIT : Nat := 7
def LV_IMG_CF_INDEXED_2BIT : Nat := 8
def LV_IMG_CF_INDEXED_4BIT : Nat := 9
def LV_IMG_CF_INDEXED_8BIT : Nat := 10
def LV_IMG_CF_RGB565A8 : Nat := 20

def CF_BUILT_IN_FIRST : Nat := LV_IMG_CF_TRUE_COLOR
def CF_BUILT_IN_LAST : Nat := LV_IMG_CF_RGB565A8

/-- `lv_img_header_t`. -/
structure LvImgHeader where
  cf : Nat
  alwaysZero : Nat
  reserved : Nat
  w : Nat
  h : Nat
deriving DecidableEq, Repr

/-- The bit fields of a word, from its low end on. -/
def LvImgHeader.ofWord (word : Nat) : LvImgHeader :=
  { cf := word % 2 ^ 5
    alwaysZero := word / 2 ^ 5 % 2 ^ 3
    reserved := word / 2 ^ 8 % 2 ^ 2
    w := word / 2 ^ 10 % 2 ^ 11
    h := word / 2 ^ 21 % 2 ^ 11 }

/-- `sizeof(lv_img_header_t)`. -/
def lvImgHeaderSize : Nat := 4

/-- `lv_fs_seek` to a place and `lv_fs_read` from there. -/
def lvFsRead (file : Bytes) (pos btr : Nat) : Bytes := (file.drop pos).take btr

/-- `lv_img_decoder_built_in_info` of a `.bin` file. -/
def lvImgDecoderBuiltInInfo (file : Bytes) : Option LvImgHeader :=
  let data := lvFsRead file 0 lvImgHeaderSize
  if data.length ≠ lvImgHeaderSize then none
  else
    let header := LvImgHeader.ofWord (littleEndian data)
    if header.cf < CF_BUILT_IN_FIRST ∨ header.cf > CF_BUILT_IN_LAST then none
    else some header

/-- `lv_img_cf_get_px_size`, of the indexed formats. -/
def lvImgCfGetPxSize (cf : Nat) : Nat :=
  if cf = LV_IMG_CF_INDEXED_1BIT then 1
  else if cf = LV_IMG_CF_INDEXED_2BIT then 2
  else if cf = LV_IMG_CF_INDEXED_4BIT then 4
  else if cf = LV_IMG_CF_INDEXED_8BIT then 8
  else 0

/-- What the `switch` of `lv_img_decoder_built_in_line_indexed` sets: the bytes of a row,
the byte a pixel is in, counted from the end of the header, and its shift. -/
structure IndexedPlace where
  w : Nat
  ofs : Nat
  pos : Nat
deriving DecidableEq, Repr

def indexedPlace (header : LvImgHeader) (x y : Nat) : IndexedPlace :=
  if header.cf = LV_IMG_CF_INDEXED_1BIT then
    let w := (header.w + 7) >>> 3
    { w := w, ofs := w * y + (x >>> 3) + 8, pos := 7 - (x &&& 0x7) }
  else if header.cf = LV_IMG_CF_INDEXED_2BIT then
    let w := (header.w + 3) >>> 2
    { w := w, ofs := w * y + (x >>> 2) + 16, pos := 6 - (x &&& 0x3) * 2 }
  else if header.cf = LV_IMG_CF_INDEXED_4BIT then
    let w := (header.w + 1) >>> 1
    { w := w, ofs := w * y + (x >>> 1) + 64, pos := 4 - (x &&& 0x1) * 4 }
  else if header.cf = LV_IMG_CF_INDEXED_8BIT then
    { w := header.w, ofs := header.w * y + x + 1024, pos := 0 }
  else { w := 0, ofs := 0, pos := 0 }

/-- The loop over the pixels of a line: the places in the palette it takes colours from. -/
def indexedPixels (fsBuf : Bytes) (pxSize : Nat) : Nat → Nat → Nat → Except Fault (List Nat)
  | 0, _, _ => .ok []
  | len + 1, dataTmp, pos =>
      match fsBuf[dataTmp]? with
      | none => .error .readOverrun
      | some byte => do
          let valAct := (byte.toNat >>> pos) &&& ((1 <<< pxSize) - 1)
          let rest ←
            if pos < pxSize then indexedPixels fsBuf pxSize len (dataTmp + 1) (8 - pxSize)
            else indexedPixels fsBuf pxSize len dataTmp (pos - pxSize)
          .ok (valAct :: rest)

/-- `lv_img_decoder_built_in_line_indexed` of a file.  Whether the read comes to a whole row
is not looked at: the buffer keeps what `lv_mem_buf_get` has handed out with it. -/
def lvImgDecoderBuiltInLineIndexed (file : Bytes) (header : LvImgHeader) (x y len : Nat)
    (fsBuf : Buf (indexedPlace header x y).w) : Except Fault (List Nat) := do
  let place := indexedPlace header x y
  let fsBuf ← fsBuf.memcpy 0 (lvFsRead file (place.ofs + 4) place.w)
  indexedPixels fsBuf.data (lvImgCfGetPxSize header.cf) len 0 place.pos

/-! ### The picture in a file -/

/-- A picture of one bit per pixel; a pixel is missing when the file ends before it. -/
structure Picture where
  width : Nat
  height : Nat
  pixel : Nat → Nat → Option Bool

/-- The layout `CF_INDEXED_1BIT`: a header, a palette of two colours, and the rows. -/
def indexed1Bit (file : Bytes) : Option Picture :=
  match lvImgDecoderBuiltInInfo file with
  | none => none
  | some header =>
      if header.cf = LV_IMG_CF_INDEXED_1BIT then
        some
          { width := header.w
            height := header.h
            pixel := Bitmap.pixel (file.drop 12) header.w }
      else none

/-- The pixels an icon is to show as ones. -/
def GrayImage.light (img : GrayImage) (threshold : Int) (x y : Nat) : Bool :=
  decide (threshold ≤ (img.pixels x y).toNat)

/-- The file holds the picture that a grey image makes. -/
def Holds (file : Bytes) (img : GrayImage) (threshold : Int) : Prop :=
  ∃ pic, indexed1Bit file = some pic ∧ pic.width = img.width ∧ pic.height = img.height ∧
    ∀ x y, x < img.width → y < img.height → pic.pixel x y = some (img.light threshold x y)

end EleDs
