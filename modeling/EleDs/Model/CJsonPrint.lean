/-
The printer of cJSON (`packages/cJSON-v1.7.17/cJSON.c`).

The text grows in one block of memory.  Before each piece `ensure` makes the block large
enough, the piece is written at the offset, and the offset moves behind it, sometimes at
once and sometimes by the length of the string that now stands there.  What a larger block
holds behind the old bytes is not known: a byte that nothing was stored in is `none`, and
reading it is a fault, as is writing outside the block.

Allocation always succeeds; the sizes `ensure` refuses are refused.
-/
import EleDs.Model.CJsonParse

namespace EleDs

open CMem Decimals Numerals

namespace CJson

/-- `printbuffer`.  The length of the block is `buffer.length`. -/
structure PrintBuffer where
  buffer : List (Option UInt8)
  offset : Nat
  depth : Nat
  format : Bool

namespace PrintBuffer

/-- The block after `realloc`: the old bytes, and others. -/
def grow (p : PrintBuffer) (newsize : Nat) : PrintBuffer :=
  { p with buffer := p.buffer ++ List.replicate (newsize - p.buffer.length) none }

/-- `ensure`; `none` is the null pointer. -/
def ensure (p : PrintBuffer) (needed : Nat) : Option PrintBuffer :=
  if 0 < p.buffer.length ∧ p.buffer.length ≤ p.offset then none
  else if INT_MAX.toNat < needed then none
  else if needed + p.offset + 1 ≤ p.buffer.length then some p
  else if INT_MAX.toNat / 2 < needed + p.offset + 1 then
    if needed + p.offset + 1 ≤ INT_MAX.toNat then some (p.grow INT_MAX.toNat) else none
  else some (p.grow ((needed + p.offset + 1) * 2))

/-- Some bytes, from `i` behind the offset on. -/
def put (p : PrintBuffer) (i : Nat) (bytes : Bytes) : Except Fault PrintBuffer :=
  if p.offset + i + bytes.length ≤ p.buffer.length then
    .ok { p with buffer := overwrite p.buffer (p.offset + i) (bytes.map some) }
  else .error .writeOverrun

/-- `offset += n`. -/
def advance (p : PrintBuffer) (n : Nat) : PrintBuffer := { p with offset := p.offset + n }

/-- `strlen` on a block of which some bytes are not known. -/
def strlenOf : List (Option UInt8) → Except Fault Nat
  | [] => .error .readOverrun
  | none :: _ => .error .uninitialised
  | some c :: rest =>
      if c = 0 then .ok 0
      else do
        let n ← strlenOf rest
        .ok (n + 1)

/-- `update_offset`. -/
def updateOffset (p : PrintBuffer) : Except Fault PrintBuffer := do
  let n ← strlenOf (p.buffer.drop p.offset)
  .ok (p.advance n)

/-- A piece that `ensure` is asked room for, written at the offset. -/
def ensurePut (p : PrintBuffer) (needed : Nat) (bytes : Bytes) :
    Except Fault (Option PrintBuffer) :=
  match p.ensure needed with
  | none => .ok none
  | some p => do
      let p ← p.put 0 bytes
      .ok (some p)

/-- The tabs in front of a member of an object. -/
def putTabs (p : PrintBuffer) : Except Fault (Option PrintBuffer) :=
  if p.format then do
    match ← p.ensurePut p.depth (List.replicate p.depth 9) with
    | none => .ok none
    | some p => .ok (some (p.advance p.depth))
  else .ok (some p)

end PrintBuffer

/-! ### Numbers -/

/-- `compare_double`, each operation rounded. -/
def compareDouble (a b : ℚ) : Bool :=
  |double.round (a - b)| ≤ double.round (max |a| |b| * 2 ^ (-52 : ℤ))

/-- `isinf`. -/
def isinf (d : ℚ) : Bool := |d| = 2 ^ (1024 : ℤ)

/-- `sprintf` with `%d`. -/
def sprintfD (n : Int) : Bytes :=
  if n < 0 then 45 :: numeral 10 n.natAbs else numeral 10 n.natAbs

/-- What `print_number` writes into `number_buffer`, one text over the other. -/
def numberTexts (d : ℚ) : List Bytes :=
  if isinf d then [ascii "null"]
  else if d = saturate d then [sprintfD (saturate d)]
  else if (strtod (sprintfG 14 d)).2 = 0 ∨ ¬ compareDouble (strtod (sprintfG 14 d)).1 d then
    [sprintfG 14 d, sprintfG 16 d]
  else [sprintfG 14 d]

/-- The text that stands there in the end. -/
def numberText (d : ℚ) : Bytes := (numberTexts d).getLastD []

/-- `print_number`.  `number_buffer` has 26 bytes, and `sprintf` does not look at that. -/
def printNumber (p : PrintBuffer) (d : ℚ) : Except Fault (Option PrintBuffer) :=
  if (numberTexts d).any fun text => 26 < text.length + 1 then .error .writeOverrun
  else do
    match ← p.ensurePut ((numberText d).length + 1) (numberText d ++ [0]) with
    | none => .ok none
    | some p => .ok (some (p.advance (numberText d).length))

/-! ### Strings -/

/-- The letter of an escape of two characters. -/
def shortEscape (c : UInt8) : Option UInt8 :=
  if c = 92 then some 92
  else if c = 34 then some 34
  else if c = 8 then some 98
  else if c = 12 then some 102
  else if c = 10 then some 110
  else if c = 13 then some 114
  else if c = 9 then some 116
  else none

/-- How many more characters `print_string_ptr` counts for a character. -/
def escapeLength (c : UInt8) : Nat :=
  if (shortEscape c).isSome then 1 else if c < 32 then 5 else 0

/-- A digit of `%x`. -/
def hexChar (d : Nat) : UInt8 := if d < 10 then UInt8.ofNat (48 + d) else UInt8.ofNat (87 + d)

/-- `sprintf` with `u%04x` of a byte. -/
def unicodeText (c : UInt8) : Bytes := [117, 48, 48, hexChar (c.toNat / 16), hexChar (c.toNat % 16)]

/-- What a character is written as. -/
def escapeText (c : UInt8) : Bytes :=
  if 31 < c ∧ c ≠ 34 ∧ c ≠ 92 then [c]
  else
    match shortEscape c with
    | some letter => [92, letter]
    | none => 92 :: unicodeText c

/-- The bytes that are stored for it: `sprintf` adds a NUL. -/
def escapeStore (c : UInt8) : Bytes :=
  if 31 < c ∧ c ≠ 34 ∧ c ≠ 92 then escapeText c
  else
    match shortEscape c with
    | some _ => escapeText c
    | none => escapeText c ++ [0]

/-- The loop that copies a string, from `i` behind the offset on. -/
def printEscaped (p : PrintBuffer) : Nat → Bytes → Except Fault PrintBuffer
  | _, [] => .ok p
  | i, c :: rest => do
      let p ← p.put i (escapeStore c)
      printEscaped p (i + (escapeText c).length) rest

/-- `print_string_ptr`. -/
def printStringPtr (p : PrintBuffer) (s : Bytes) : Except Fault (Option PrintBuffer) :=
  let input := cstr s
  let escapeCharacters := input.foldl (fun n c => n + escapeLength c) 0
  let outputLength := input.length + escapeCharacters
  match p.ensure (outputLength + 3) with
  | none => .ok none
  | some p =>
      if escapeCharacters = 0 then do
        let p ← p.put 0 [34]
        let p ← p.put 1 input
        let p ← p.put (outputLength + 1) [34, 0]
        .ok (some p)
      else do
        let p ← p.put 0 [34]
        let p ← printEscaped p 1 input
        let p ← p.put (outputLength + 1) [34, 0]
        .ok (some p)

/-! ### Values -/

mutual

/-- `print_value`, with `print_array` and `print_object`. -/
def printValue (p : PrintBuffer) : CJson → Except Fault (Option PrintBuffer)
  | .null => p.ensurePut 5 (ascii "null" ++ [0])
  | .bool false => p.ensurePut 6 (ascii "false" ++ [0])
  | .bool true => p.ensurePut 5 (ascii "true" ++ [0])
  | .number d => printNumber p d
  | .string s => printStringPtr p s
  | .array items => do
      match ← p.ensurePut 1 [91] with
      | none => .ok none
      | some p => do
          match ← printItems { p.advance 1 with depth := p.depth + 1 } items with
          | none => .ok none
          | some p => do
              match ← p.ensurePut 2 [93, 0] with
              | none => .ok none
              | some p => .ok (some { p with depth := p.depth - 1 })
  | .object members => do
      let opening : Bytes := if p.format then [123, 10] else [123]
      match ← p.ensurePut (opening.length + 1) opening with
      | none => .ok none
      | some p => do
          match ← printMembers { p.advance opening.length with depth := p.depth + 1 } members with
          | none => .ok none
          | some p => do
              let closing : Bytes := if p.format then List.replicate (p.depth - 1) 9 else []
              match ← p.ensurePut (if p.format then p.depth + 1 else 2) (closing ++ [125, 0]) with
              | none => .ok none
              | some p => .ok (some { p with depth := p.depth - 1 })

/-- The loop of `print_array`. -/
def printItems (p : PrintBuffer) : List CJson → Except Fault (Option PrintBuffer)
  | [] => .ok (some p)
  | item :: rest => do
      match ← printValue p item with
      | none => .ok none
      | some p => do
          let p ← p.updateOffset
          if rest.isEmpty then .ok (some p)
          else do
            let comma : Bytes := if p.format then [44, 32] else [44]
            match ← p.ensurePut (comma.length + 1) (comma ++ [0]) with
            | none => .ok none
            | some p => printItems (p.advance comma.length) rest

/-- The loop of `print_object`. -/
def printMembers (p : PrintBuffer) : List (Bytes × CJson) → Except Fault (Option PrintBuffer)
  | [] => .ok (some p)
  | (name, item) :: rest => do
      match ← p.putTabs with
      | none => .ok none
      | some p => do
          match ← printStringPtr p name with
          | none => .ok none
          | some p => do
              let p ← p.updateOffset
              let colon : Bytes := if p.format then [58, 9] else [58]
              match ← p.ensurePut colon.length colon with
              | none => .ok none
              | some p => do
                  match ← printValue (p.advance colon.length) item with
                  | none => .ok none
                  | some p => do
                      let p ← p.updateOffset
                      let ending : Bytes := (if rest.isEmpty then [] else [44])
                        ++ (if p.format then [10] else [])
                      match ← p.ensurePut (ending.length + 1) (ending ++ [0]) with
                      | none => .ok none
                      | some p => printMembers (p.advance ending.length) rest

end

/-- The bytes of a block, all of which must be known. -/
def known : List (Option UInt8) → Except Fault Bytes
  | [] => .ok []
  | none :: _ => .error .uninitialised
  | some c :: rest => do
      let bytes ← known rest
      .ok (c :: bytes)

/-- `print`: the text, without its NUL, or `none` for the null pointer. -/
def print (item : CJson) (format : Bool) : Except Fault (Option Bytes) := do
  let p : PrintBuffer :=
    { buffer := List.replicate 256 none, offset := 0, depth := 0, format := format }
  match ← printValue p item with
  | none => .ok none
  | some p => do
      let p ← p.updateOffset
      let text ← known (p.buffer.take p.offset)
      .ok (some text)

/-- `cJSON_Print`. -/
def cJSONPrint (item : CJson) : Except Fault (Option Bytes) := print item true

/-- `cJSON_PrintUnformatted`. -/
def cJSONPrintUnformatted (item : CJson) : Except Fault (Option Bytes) := print item false

end CJson

/-- cJSON as the firmware calls it: `cJSON_Parse` on a string and `cJSON_Print`.  A fault or
a null pointer of the printer is an empty text. -/
def cJsonLib : CJsonLib where
  parse text :=
    match CJson.parse (text ++ [0]) with
    | .ok r => r
    | .error _ => none
  print json :=
    match CJson.cJSONPrint json with
    | .ok (some text) => text
    | _ => []

end EleDs
