/-
Writing a tar archive, and looking for an entry of one (`applications/microtar/microtar.c`).

The writer keeps two numbers besides its stream: where it believes to be and what is left to
be written of the current entry.  The padding behind the data comes with the write that
leaves nothing.  As for the reader, a call that fails still moves the position.

A header is filled in field by field, each with `sprintf` or `strcpy`.  What does not fit into
its field is a fault.
-/
import EleDs.Lib.Numerals
import EleDs.Model.Untar

namespace EleDs

open CMem Calls Numerals

/-- The character `'5'`. -/
def MTAR_TDIR : UInt8 := 53

/-! ### Headers -/

/-- `sprintf` with `%o`. -/
def sprintfO (n : Nat) : Bytes := numeral 8 n

/-- `sprintf` with `%06o`. -/
def sprintfO6 (n : Nat) : Bytes := List.replicate (6 - (numeral 8 n).length) 48 ++ numeral 8 n

/-- A text and its NUL in a field of so many bytes. -/
def putField (rh : Buf rawHeaderSize) (off size : Nat) (text : Bytes) :
    Except Fault (Buf rawHeaderSize) :=
  if text.length < size then rh.memcpy off (text ++ [0]) else .error .writeOverrun

/-- A number in octal. -/
def putOctal (rh : Buf rawHeaderSize) (off size : Nat) : Option Nat →
    Except Fault (Buf rawHeaderSize)
  | none => .error .uninitialised
  | some n => putField rh off size (sprintfO n)

/-- `header_to_raw`. -/
def headerToRaw (h : MtarHeader) : Except Fault (Buf rawHeaderSize) := do
  let rh := Buf.zero rawHeaderSize
  let rh ← putOctal rh offMode 8 h.mode
  let rh ← putOctal rh offOwner 8 h.owner
  let rh ← putOctal rh offSize 12 h.size
  let rh ← putOctal rh offMtime 12 h.mtime
  let rh ← rh.memcpy offType [if h.type = 0 then MTAR_TREG else h.type]
  let rh ← putField rh 0 100 h.name.str
  let rh ← putField rh offLinkname 100 h.linkname.str
  let rh ← putField rh offChecksum 8 (sprintfO6 (checksum rh.data))
  rh.memcpy (offChecksum + 7) [32]

/-! ### The writer -/

/-- The error code of `microtar.h` that writing can come to. -/
inductive WriteError where
  | writeFail
deriving DecidableEq, Repr

def WriteError.code : WriteError → Int
  | writeFail => -4

/-- `mtar_t` opened for writing, what its file holds, and the outcomes of the writes to come. -/
structure TarWriter where
  pos : Nat
  remainingData : Nat
  file : Bytes
  plan : List CallOutcome

/-- `mtar_open(tar, filename, "w")`, once the file is open. -/
def TarWriter.opened (plan : List CallOutcome) : TarWriter :=
  { pos := 0, remainingData := 0, file := [], plan := plan }

abbrev WriteCall := Call Fault WriteError TarWriter

/-- `file_write`: whether all of it was written. -/
def fileWrite (data : Bytes) : WriteCall Bool := do
  let s ← get
  let stored := match s.plan.headD .good with
    | .good => data
    | .bad n => data.take (min n (data.length - 1))
  modify fun s => { s with plan := s.plan.tail, file := s.file ++ stored }
  pure (stored.length = data.length)

/-- `twrite`. -/
def twrite (data : Bytes) : WriteCall Unit := do
  let done ← fileWrite data
  modify fun s => { s with pos := (s.pos + data.length) % 4294967296 }
  if done then pure () else throw .writeFail

/-- `write_null_bytes`. -/
def writeNullBytes : Nat → WriteCall Unit
  | 0 => pure ()
  | n + 1 => do
      twrite [0]
      writeNullBytes n

/-- A variable that must have been stored in, for the writer. -/
def given : Option Nat → WriteCall Nat
  | some v => pure v
  | none => Call.fault .uninitialised

/-- `mtar_write_header`. -/
def mtarWriteHeader (h : MtarHeader) : WriteCall Unit := do
  let rh ← Call.lift (headerToRaw h)
  let size ← given h.size
  modify fun s => { s with remainingData := size }
  twrite rh.data

/-- A header after `memset`, with the name copied into it. -/
def namedHeader (name : Bytes) : Except Fault MtarHeader := do
  let name ← (Buf.zero 100).strcpy name
  .ok { mode := some 0, owner := some 0, size := some 0, mtime := some 0, type := 0, name := name,
        linkname := Buf.zero 100 }

/-- `mtar_write_file_header`.  The mode is `0664`. -/
def mtarWriteFileHeader (name : Bytes) (size : Nat) : WriteCall Unit := do
  let h ← Call.lift (namedHeader name)
  mtarWriteHeader { h with size := some size, type := MTAR_TREG, mode := some 436 }

/-- `mtar_write_dir_header`.  The mode is `0775`. -/
def mtarWriteDirHeader (name : Bytes) : WriteCall Unit := do
  let h ← Call.lift (namedHeader name)
  mtarWriteHeader { h with type := MTAR_TDIR, mode := some 509 }

/-- `mtar_write_data`. -/
def mtarWriteData (data : Bytes) : WriteCall Unit := do
  twrite data
  modify fun s => { s with
    remainingData := (s.remainingData + 4294967296 - data.length % 4294967296) % 4294967296 }
  let s ← get
  if s.remainingData = 0 then
    writeNullBytes ((roundUp s.pos 512 + 4294967296 - s.pos) % 4294967296)

/-- `mtar_finalize`: two null records. -/
def mtarFinalize : WriteCall Unit := writeNullBytes (rawHeaderSize * 2)

/-! ### Looking for an entry -/

/-- What `mtar_find` has come to: it may still be on its way. -/
inductive Search where
  | found (h : MtarHeader)
  /-- `MTAR_ENOTFOUND`. -/
  | notFound
  | running
deriving DecidableEq

section Reader

variable (file : Bytes)

/-- `mtar_rewind`. -/
def mtarRewind : TarCall Unit := do
  modify fun s => { s with remainingData := 0, lastHeader := 0 }
  mtarSeek 0

/-- The loop of `mtar_find`, after so many turns. -/
def findLoop (name : Bytes) : Nat → MtarHeader → TarCall Search
  | 0, _ => pure .running
  | turns + 1, header => do
      match ← (mtarReadHeader file header).attempt with
      | .ok header =>
          if header.name.str = cstr name then pure (.found header)
          else do
            -- the result of `mtar_next` is not looked at
            let _ ← (mtarNext file).attempt
            findLoop name turns header
      | .error .nullRecord => pure .notFound
      | .error e => throw e

/-- `mtar_find`. -/
def mtarFind (name : Bytes) (turns : Nat) : TarCall Search := do
  mtarRewind
  findLoop file name turns .fresh

/-- `mtar_skip_data`. -/
def mtarSkipData (h : MtarHeader) : TarCall Unit := do
  let size ← stored h.size
  dataLoop file (fun _ => pure ()) size size

end Reader

end EleDs
