/-
The parser of cJSON (`packages/cJSON-v1.7.17/cJSON.c`).

A buffer is a block of memory with a length that is checked before most reads and an
offset that goes back and forth by one.  Some reads are not checked: the first character
of an array or of a string, and what stands behind a backslash.  Reading or writing
outside a block is a fault here, so that nothing is assumed about the checks.

Arrays and objects call the parser of values again.  The nesting limit bounds these calls,
and `parseValue` counts them down with it; the lists inside an array or an object are
loops of their own.  Allocation always succeeds, and the place of an error, which nobody
asks for, is left out: a parse that fails is `none`.
-/
import EleDs.Lib.Decimals
import EleDs.Model.CJson

namespace EleDs

open CMem Decimals Numerals

namespace CJson

/-- `CJSON_NESTING_LIMIT`. -/
def CJSON_NESTING_LIMIT : Nat := 1000

/-- `parse_buffer`. -/
structure ParseBuffer where
  content : Bytes
  length : Nat
  offset : Nat
  depth : Nat

/-- What a parser leaves behind, or `none` where it returns false. -/
abbrev Parsed (α : Type) : Type := Option (α × ParseBuffer)

/-- A parser of values. -/
abbrev ValueParser : Type := ParseBuffer → Except Fault (Parsed CJson)

/-- One byte of a block. -/
def byteAt (content : Bytes) (i : Nat) : Except Fault UInt8 :=
  match content[i]? with
  | none => .error .readOverrun
  | some c => .ok c

namespace ParseBuffer

/-- `can_read`. -/
def canRead (b : ParseBuffer) (size : Nat) : Bool := b.offset + size ≤ b.length

/-- `can_access_at_index`. -/
def canAccessAtIndex (b : ParseBuffer) (index : Nat) : Bool := b.offset + index < b.length

/-- `buffer_at_offset(buffer)[0]`. -/
def head (b : ParseBuffer) : Except Fault UInt8 := byteAt b.content b.offset

/-- `can_access_at_index(buffer, 0) && (buffer_at_offset(buffer)[0] == c)`. -/
def nextIs (b : ParseBuffer) (c : UInt8) : Except Fault Bool :=
  if b.canAccessAtIndex 0 then do
    let d ← b.head
    .ok (d == c)
  else .ok false

/-- `buffer->offset += n`. -/
def skip (b : ParseBuffer) (n : Nat) : ParseBuffer := { b with offset := b.offset + n }

end ParseBuffer

/-- `strncmp(content + at, text, strlen(text)) == 0`: no byte is read behind the first one
that differs. -/
def strncmpEq (content : Bytes) : Nat → Bytes → Except Fault Bool
  | _, [] => .ok true
  | i, c :: text => do
      let d ← byteAt content i
      if d == c then strncmpEq content (i + 1) text else .ok false

/-! ### Blanks -/

/-- The loop over the characters up to 32, with so many bytes left. -/
def skipBlanks (content : Bytes) : Nat → Nat → Except Fault Nat
  | offset, 0 => .ok offset
  | offset, left + 1 => do
      let c ← byteAt content offset
      if c ≤ 32 then skipBlanks content (offset + 1) left else .ok offset

/-- `buffer_skip_whitespace`.  At the end it goes back to the last character. -/
def bufferSkipWhitespace (b : ParseBuffer) : Except Fault ParseBuffer :=
  if b.canAccessAtIndex 0 then do
    let offset ← skipBlanks b.content b.offset (b.length - b.offset)
    .ok { b with offset := if offset = b.length then offset - 1 else offset }
  else .ok b

/-- `skip_utf8_bom`. -/
def skipUtf8Bom (b : ParseBuffer) : Except Fault ParseBuffer :=
  if b.canAccessAtIndex 4 then do
    let bom ← strncmpEq b.content b.offset [0xEF, 0xBB, 0xBF]
    .ok (if bom then b.skip 3 else b)
  else .ok b

/-! ### Numbers -/

/-- The loop that copies a number, `n` characters at most. -/
def copyNumber (content : Bytes) (length : Nat) : Nat → Nat → Except Fault Bytes
  | _, 0 => .ok []
  | i, n + 1 =>
      if i < length then do
        let c ← byteAt content i
        if inDecimal c then do
          let rest ← copyNumber content length (i + 1) n
          .ok (c :: rest)
        else .ok []
      else .ok []

/-- `parse_number`.  `number_c_string` takes 63 characters and a NUL. -/
def parseNumber (b : ParseBuffer) : Except Fault (Parsed CJson) := do
  let numberCString ← copyNumber b.content b.length b.offset 63
  let converted := strtod numberCString
  if converted.2 = 0 then .ok none
  else .ok (some (.number converted.1, b.skip converted.2))

/-! ### Strings -/

/-- The value of one hexadecimal digit. -/
def hexDigit (c : UInt8) : Option Nat :=
  if 48 ≤ c ∧ c ≤ 57 then some (c.toNat - 48)
  else if 65 ≤ c ∧ c ≤ 70 then some (10 + (c.toNat - 65))
  else if 97 ≤ c ∧ c ≤ 102 then some (10 + (c.toNat - 97))
  else none

/-- The loop of `parse_hex4`, with `n` digits to go. -/
def parseHex4Loop (content : Bytes) : Nat → Nat → Nat → Except Fault Nat
  | _, 0, h => .ok h
  | i, n + 1, h => do
      let c ← byteAt content i
      match hexDigit c with
      | none => .ok 0
      | some d => parseHex4Loop content (i + 1) n (if 0 < n then (h + d) * 16 else h + d)

/-- `parse_hex4`.  What is not a digit makes it zero. -/
def parseHex4 (content : Bytes) (input : Nat) : Except Fault Nat := parseHex4Loop content input 4 0

/-- The loop that writes the bytes of a code point, the last one first. -/
def utf8Loop (firstByteMark : Nat) : Nat → Nat → Bytes → Bytes
  | 0, codepoint, tail => UInt8.ofNat ((codepoint ||| firstByteMark) &&& 0xFF) :: tail
  | position + 1, codepoint, tail =>
      utf8Loop firstByteMark position (codepoint >>> 6)
        (UInt8.ofNat ((codepoint ||| 0x80) &&& 0xBF) :: tail)

/-- The second half of `utf16_literal_to_utf8`. -/
def encodeUtf8 (codepoint : Nat) : Option Bytes :=
  if codepoint < 0x80 then some [UInt8.ofNat (codepoint &&& 0x7F)]
  else if codepoint < 0x800 then some (utf8Loop 0xC0 1 codepoint [])
  else if codepoint < 0x10000 then some (utf8Loop 0xE0 2 codepoint [])
  else if codepoint ≤ 0x10FFFF then some (utf8Loop 0xF0 3 codepoint [])
  else none

/-- `utf16_literal_to_utf8`: what is written, and the length of what was read.  `none` is
the length zero, for a literal that is not well formed. -/
def utf16LiteralToUtf8 (content : Bytes) (inputPointer inputEnd : Nat) :
    Except Fault (Option (Bytes × Nat)) :=
  if inputEnd - inputPointer < 6 then .ok none
  else do
    let firstCode ← parseHex4 content (inputPointer + 2)
    if 0xDC00 ≤ firstCode ∧ firstCode ≤ 0xDFFF then .ok none
    else if 0xD800 ≤ firstCode ∧ firstCode ≤ 0xDBFF then
      let secondSequence := inputPointer + 6
      if inputEnd - secondSequence < 6 then .ok none
      else do
        let c ← byteAt content secondSequence
        if c ≠ 92 then .ok none
        else do
          let u ← byteAt content (secondSequence + 1)
          if u ≠ 117 then .ok none
          else do
            let secondCode ← parseHex4 content (secondSequence + 2)
            if secondCode < 0xDC00 ∨ 0xDFFF < secondCode then .ok none
            else
              let codepoint := 0x10000 + (((firstCode &&& 0x3FF) <<< 10) ||| (secondCode &&& 0x3FF))
              .ok ((encodeUtf8 codepoint).map fun bytes => (bytes, 12))
    else .ok ((encodeUtf8 firstCode).map fun bytes => (bytes, 6))

/-- The loop that looks for the closing quote: where it is, and how many backslashes come
before it.  `none` where the text ends first. -/
def findQuote (content : Bytes) (length : Nat) : Nat → Nat → Nat →
    Except Fault (Option (Nat × Nat))
  | 0, _, _ => .error .diverged
  | fuel + 1, inputEnd, skippedBytes =>
      if inputEnd < length then do
        let c ← byteAt content inputEnd
        if c = 34 then .ok (some (inputEnd, skippedBytes))
        else if c = 92 then
          if length ≤ inputEnd + 1 then .ok none
          else findQuote content length fuel (inputEnd + 2) (skippedBytes + 1)
        else findQuote content length fuel (inputEnd + 1) skippedBytes
      else .ok none

/-- `*output_pointer++ = …`, with `size` bytes allocated. -/
def emit (size : Nat) (output bytes : Bytes) : Except Fault Bytes :=
  if output.length + bytes.length ≤ size then .ok (output ++ bytes) else .error .writeOverrun

/-- What a backslash and the character behind it stand for, but for a literal. -/
def escaped (c : UInt8) : Option UInt8 :=
  if c = 98 then some 8
  else if c = 102 then some 12
  else if c = 110 then some 10
  else if c = 114 then some 13
  else if c = 116 then some 9
  else if c = 34 ∨ c = 92 ∨ c = 47 then some c
  else none

/-- The loop that copies the characters of a string. -/
def copyString (content : Bytes) (inputEnd size : Nat) : Nat → Nat → Bytes →
    Except Fault (Option Bytes)
  | 0, _, _ => .error .diverged
  | fuel + 1, inputPointer, output =>
      if inputPointer < inputEnd then do
        let c ← byteAt content inputPointer
        if c ≠ 92 then do
          let output ← emit size output [c]
          copyString content inputEnd size fuel (inputPointer + 1) output
        else do
          let e ← byteAt content (inputPointer + 1)
          if e = 117 then do
            match ← utf16LiteralToUtf8 content inputPointer inputEnd with
            | none => .ok none
            | some (bytes, sequenceLength) => do
                let output ← emit size output bytes
                copyString content inputEnd size fuel (inputPointer + sequenceLength) output
          else
            match escaped e with
            | none => .ok none
            | some d => do
                let output ← emit size output [d]
                copyString content inputEnd size fuel (inputPointer + 2) output
      else do
        let output ← emit size output [0]
        .ok (some output)

/-- `parse_string`.  The string is what stands in the output before a NUL. -/
def parseString (b : ParseBuffer) : Except Fault (Parsed Bytes) := do
  let c ← b.head
  if c ≠ 34 then .ok none
  else
    match ← findQuote b.content b.length (b.length + 1) (b.offset + 1) 0 with
    | none => .ok none
    | some (inputEnd, skippedBytes) => do
        let allocationLength := inputEnd - b.offset - skippedBytes
        match ← copyString b.content inputEnd (allocationLength + 1) (b.length + 1)
            (b.offset + 1) [] with
        | none => .ok none
        | some output => .ok (some (cstr output, { b with offset := inputEnd + 1 }))

/-! ### Values -/

/-- The loop over the items of an array, from the character in front of one. -/
def arrayItems (parseValue : ValueParser) : Nat → ParseBuffer → List CJson →
    Except Fault (Parsed (List CJson))
  | 0, _, _ => .error .diverged
  | fuel + 1, b, items => do
      let b ← bufferSkipWhitespace (b.skip 1)
      match ← parseValue b with
      | none => .ok none
      | some (item, b) => do
          let b ← bufferSkipWhitespace b
          if ← b.nextIs 44 then arrayItems parseValue fuel b (items ++ [item])
          else .ok (some (items ++ [item], b))

/-- `parse_array`. -/
def parseArray (parseValue : ValueParser) (b : ParseBuffer) :
    Except Fault (Parsed CJson) :=
  if CJSON_NESTING_LIMIT ≤ b.depth then .ok none
  else do
    let b := { b with depth := b.depth + 1 }
    let c ← b.head
    if c ≠ 91 then .ok none
    else do
      let b ← bufferSkipWhitespace (b.skip 1)
      if ← b.nextIs 93 then
        .ok (some (.array [], { b.skip 1 with depth := b.depth - 1 }))
      else if b.canAccessAtIndex 0 then do
        match ← arrayItems parseValue b.length { b with offset := b.offset - 1 } [] with
        | none => .ok none
        | some (items, b) => do
            if ← b.nextIs 93 then
              .ok (some (.array items, { b.skip 1 with depth := b.depth - 1 }))
            else .ok none
      else .ok none

/-- The loop over the members of an object, from the character in front of one. -/
def objectMembers (parseValue : ValueParser) : Nat → ParseBuffer →
    List (Bytes × CJson) → Except Fault (Parsed (List (Bytes × CJson)))
  | 0, _, _ => .error .diverged
  | fuel + 1, b, members => do
      let b ← bufferSkipWhitespace (b.skip 1)
      match ← parseString b with
      | none => .ok none
      | some (name, b) => do
          let b ← bufferSkipWhitespace b
          if ← b.nextIs 58 then do
            let b ← bufferSkipWhitespace (b.skip 1)
            match ← parseValue b with
            | none => .ok none
            | some (item, b) => do
                let b ← bufferSkipWhitespace b
                if ← b.nextIs 44 then objectMembers parseValue fuel b (members ++ [(name, item)])
                else .ok (some (members ++ [(name, item)], b))
          else .ok none

/-- `parse_object`. -/
def parseObject (parseValue : ValueParser) (b : ParseBuffer) :
    Except Fault (Parsed CJson) :=
  if CJSON_NESTING_LIMIT ≤ b.depth then .ok none
  else do
    let b := { b with depth := b.depth + 1 }
    if ← b.nextIs 123 then do
      let b ← bufferSkipWhitespace (b.skip 1)
      if ← b.nextIs 125 then
        .ok (some (.object [], { b.skip 1 with depth := b.depth - 1 }))
      else if b.canAccessAtIndex 0 then do
        match ← objectMembers parseValue b.length { b with offset := b.offset - 1 } [] with
        | none => .ok none
        | some (members, b) => do
            if ← b.nextIs 125 then
              .ok (some (.object members, { b.skip 1 with depth := b.depth - 1 }))
            else .ok none
      else .ok none
    else .ok none

/-- `can_read(buffer, n) && (strncmp(buffer_at_offset(buffer), text, n) == 0)`. -/
def literal (b : ParseBuffer) (text : Bytes) : Except Fault Bool :=
  if b.canRead text.length then strncmpEq b.content b.offset text else .ok false

/-- `(c == '-') || ((c >= '0') && (c <= '9'))`, with the check in front of it. -/
def startsNumber (b : ParseBuffer) : Except Fault Bool :=
  if b.canAccessAtIndex 0 then do
    let c ← b.head
    .ok (c == 45 || isDigit c)
  else .ok false

/-- `parse_value`, with so many calls inside one another allowed. -/
def parseValue : Nat → ParseBuffer → Except Fault (Parsed CJson)
  | 0, _ => .error .diverged
  | nesting + 1, b => do
      if ← literal b (ascii "null") then .ok (some (.null, b.skip 4))
      else if ← literal b (ascii "false") then .ok (some (.bool false, b.skip 5))
      else if ← literal b (ascii "true") then .ok (some (.bool true, b.skip 4))
      else if ← b.nextIs 34 then do
        match ← parseString b with
        | none => .ok none
        | some (s, b) => .ok (some (.string s, b))
      else if ← startsNumber b then parseNumber b
      else if ← b.nextIs 91 then parseArray (parseValue nesting) b
      else if ← b.nextIs 123 then parseObject (parseValue nesting) b
      else .ok none

/-- `cJSON_ParseWithLengthOpts`. -/
def parseWithLengthOpts (value : Bytes) (bufferLength : Nat) (requireNullTerminated : Bool) :
    Except Fault (Option CJson) :=
  if bufferLength = 0 then .ok none
  else do
    let b : ParseBuffer := { content := value, length := bufferLength, offset := 0, depth := 0 }
    let b ← bufferSkipWhitespace (← skipUtf8Bom b)
    match ← parseValue (CJSON_NESTING_LIMIT + 1) b with
    | none => .ok none
    | some (item, b) =>
        if requireNullTerminated then do
          let b ← bufferSkipWhitespace b
          if ← b.nextIs 0 then .ok (some item) else .ok none
        else .ok (some item)

/-- `cJSON_ParseWithOpts`. -/
def parseWithOpts (value : Bytes) (requireNullTerminated : Bool) : Except Fault (Option CJson) := do
  let length ← strlen value
  parseWithLengthOpts value (length + 1) requireNullTerminated

/-- `cJSON_Parse`. -/
def parse (value : Bytes) : Except Fault (Option CJson) := parseWithOpts value false

end CJson

end EleDs
