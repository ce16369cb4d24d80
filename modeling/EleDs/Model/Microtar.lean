/-
Reading a tar archive (`applications/microtar/microtar.c`).

The reader keeps three numbers besides the stream: where it believes to be, what is left
to be read of the current entry, and where the last header was.  It believes to have read
or sought even when the call has failed, so the stream can be somewhere else.  Headers are
read twice or three times: once for the caller, once before the data and once more to get
to the next entry, each time into a variable of its own.

The archive is what the stream shows when it is opened: an entry that replaces the archive
itself is not modelled.  Positions are 32-bit numbers, and `fseek` takes its offset as a
signed one, so from `2^31` on it fails.
-/
import EleDs.Lib.Calls
import EleDs.Model.Files

namespace EleDs

open CMem Calls

/-- The error codes of `microtar.h` that reading can come to. -/
inductive MtarError where
  | openFail
  | readFail
  | seekFail
  | badChksum
  | nullRecord
deriving DecidableEq, Repr

def MtarError.code : MtarError → Int
  | openFail => -2
  | readFail => -3
  | seekFail => -5
  | badChksum => -6
  | nullRecord => -7

/-- The character `'0'`. -/
def MTAR_TREG : UInt8 := 48

/-! ### Headers -/

/-- `mtar_header_t`.  A number is missing as long as nothing was stored in it. -/
structure MtarHeader where
  mode : Option Nat
  owner : Option Nat
  size : Option Nat
  mtime : Option Nat
  type : UInt8
  name : Buf 100
  linkname : Buf 100
deriving DecidableEq

/-- A local variable. -/
def MtarHeader.fresh : MtarHeader :=
  { mode := none, owner := none, size := none, mtime := none, type := 0,
    name := Buf.zero 100, linkname := Buf.zero 100 }

/-- `sizeof(mtar_raw_header_t)`. -/
def rawHeaderSize : Nat := 512

/-- The offsets of the fields of `mtar_raw_header_t`. -/
def offMode : Nat := 100
def offOwner : Nat := 108
def offSize : Nat := 124
def offMtime : Nat := 136
def offChecksum : Nat := 148
def offType : Nat := 156
def offLinkname : Nat := 157

/-- `round_up`, in 32 bits. -/
def roundUp (n incr : Nat) : Nat := (n + (incr - n % incr) % incr) % 4294967296

/-- `checksum`: the checksum itself counts as blanks. -/
def checksum (rh : Bytes) : Nat :=
  (rh.take offChecksum ++ rh.drop offType).foldl (fun res b => res + b.toNat) 256

def isOctal (b : UInt8) : Bool := 48 ≤ b && b ≤ 55

/-- `isspace`. -/
def isSpace (b : UInt8) : Bool := b == 32 || (9 ≤ b && b ≤ 13)

/-- The number some octal digits stand for. -/
def octalValue (digits : Bytes) : Nat := digits.foldl (fun v d => 8 * v + (d.toNat - 48)) 0

/-- `sscanf(s, "%o", &v)` into 32 bits: what is stored, if the conversion succeeds. -/
def sscanfOctal (s : Bytes) : Option Nat :=
  let text := s.dropWhile isSpace
  let signed := text.headD 0 == 45 || text.headD 0 == 43
  let digits := (if signed then text.tail else text).takeWhile isOctal
  if digits = [] then none
  else if octalValue digits ≥ 4294967296 then some 4294967295
  else if text.headD 0 == 45 then some ((4294967296 - octalValue digits) % 4294967296)
  else some (octalValue digits)

/-- `raw_to_header`. -/
def rawToHeader (h : MtarHeader) (rh : Bytes) : Except Fault (Except MtarError MtarHeader) :=
  if rh.getD offChecksum 0 = 0 then .ok (.error .nullRecord)
  else
    match sscanfOctal (rh.drop offChecksum) with
    | none => .error .uninitialised
    | some chksum2 =>
        if checksum rh ≠ chksum2 then .ok (.error .badChksum)
        else do
          let name ← h.name.strcpy rh
          let linkname ← h.linkname.strcpy (rh.drop offLinkname)
          .ok (.ok
            { mode := (sscanfOctal (rh.drop offMode)).or h.mode
              owner := (sscanfOctal (rh.drop offOwner)).or h.owner
              size := (sscanfOctal (rh.drop offSize)).or h.size
              mtime := (sscanfOctal (rh.drop offMtime)).or h.mtime
              type := rh.getD offType 0
              name := name
              linkname := linkname })

/-! ### The reader and what is around it -/

/-- What a call of the C library does: what it should, or less.  A read or a write then
comes to at most so many bytes, a file is not opened, a seek leaves the stream alone. -/
inductive CallOutcome where
  | good
  | bad (n : Nat)
deriving DecidableEq, Repr

/-- What `untar` asks the file system for. -/
inductive FileCall where
  | mkdir (dir : Bytes)
  /-- `fopen(path, "wb")` for the entry of that name. -/
  | fopen (name path : Bytes) (opened : Bool)
  /-- `fclose`, and what the file holds then. -/
  | fclose (path content : Bytes)
deriving DecidableEq, Repr

/-- `mtar_t` with its stream, the files, what was asked of them, and the outcomes of the
calls to come.  When these run out, every call succeeds. -/
structure TarState where
  pos : Nat
  remainingData : Nat
  lastHeader : Nat
  /-- Where the stream stands. -/
  offset : Nat
  isOpen : Bool
  fs : FileSystem
  trace : List FileCall
  plan : List CallOutcome

abbrev TarCall := Call Fault MtarError TarState

def nextOutcome : TarCall CallOutcome := do
  let s ← get
  modify fun s => { s with plan := s.plan.tail }
  pure (s.plan.headD .good)

/-- A variable that must have been stored in. -/
def stored {α : Type} : Option α → TarCall α
  | some v => pure v
  | none => Call.fault .uninitialised

section Reader

variable (file : Bytes)

/-- `fread`, and the bytes if they are all there. -/
def fread (size : Nat) : TarCall (Option Bytes) := do
  let o ← nextOutcome
  let s ← get
  let there := (file.drop s.offset).take size
  let data := match o with
    | .good => there
    | .bad n => there.take (min n (size - 1))
  modify fun s => { s with offset := s.offset + data.length }
  pure (if data.length = size then some data else none)

/-- `fseek`, and whether it succeeds. -/
def fseek (pos : Nat) : TarCall Bool := do
  let o ← nextOutcome
  if o = .good ∧ pos < 2147483648 then
    modify fun s => { s with offset := pos }
    pure true
  else pure false

/-- `tread`. -/
def tread (size : Nat) : TarCall Bytes := do
  let data ← fread file size
  modify fun s => { s with pos := (s.pos + size) % 4294967296 }
  match data with
  | some data => pure data
  | none => throw .readFail

/-- `mtar_seek`. -/
def mtarSeek (pos : Nat) : TarCall Unit := do
  let done ← fseek pos
  modify fun s => { s with pos := pos }
  if done then pure () else throw .seekFail

/-- `mtar_read_header`. -/
def mtarReadHeader (h : MtarHeader) : TarCall MtarHeader := do
  modify fun s => { s with lastHeader := s.pos }
  let rh ← tread file rawHeaderSize
  let s ← get
  mtarSeek s.lastHeader
  match ← Call.lift (rawToHeader h rh) with
  | .ok h => pure h
  | .error e => throw e

/-- The first read of an entry: go past the header. -/
def mtarBeginData : TarCall Unit := do
  let h ← mtarReadHeader file .fresh
  let s ← get
  mtarSeek ((s.pos + rawHeaderSize) % 4294967296)
  let size ← stored h.size
  modify fun s => { s with remainingData := size }

/-- The read itself, and the way back to the header after the last one. -/
def mtarReadOn (size : Nat) : TarCall Bytes := do
  let data ← tread file size
  modify fun s => { s with
    remainingData := (s.remainingData + 4294967296 - size) % 4294967296 }
  let s ← get
  if s.remainingData = 0 then mtarSeek s.lastHeader
  pure data

/-- `mtar_read_data`. -/
def mtarReadData (size : Nat) : TarCall Bytes := do
  let s ← get
  if s.remainingData = 0 then mtarBeginData file
  mtarReadOn file size

/-- `mtar_next`. -/
def mtarNext : TarCall Unit := do
  let h ← mtarReadHeader file .fresh
  let size ← stored h.size
  let n := (roundUp size 512 + rawHeaderSize) % 4294967296
  let s ← get
  mtarSeek ((s.pos + n) % 4294967296)

/-- `mtar_close`. -/
def mtarClose : TarCall Unit := modify fun s => { s with isOpen := false }

/-- `mtar_open(tar, filename, "r")`, once the file is known to be there. -/
def mtarOpen : TarCall Unit := do
  modify fun s => { s with pos := 0, remainingData := 0, lastHeader := 0, offset := 0 }
  match ← nextOutcome with
  | .bad _ => throw .openFail
  | .good =>
      modify fun s => { s with isOpen := true }
      match ← (mtarReadHeader file .fresh).attempt with
      | .ok _ => pure ()
      | .error e =>
          mtarClose
          throw e

end Reader

end EleDs
