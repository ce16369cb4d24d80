/-
The file system under the firmware.

Files are byte strings filed under the path a name resolves to, so two spellings
of one path are one file.  What the flash does on a call is not the program's
choice: each call takes its outcome as an argument, and a proof about "every
outcome" quantifies over it.
-/
import Mathlib.Logic.Function.Basic
import EleDs.Lib.Bytes

namespace EleDs

open CMem

/-- `dfscfg.h`. -/
def SYSFILE_PATH : Bytes := ascii "/sysfile"
def CONFIG_FILE_PATH : Bytes := SYSFILE_PATH ++ ascii "/config"
def UPDATE_DIR : Bytes := SYSFILE_PATH ++ ascii "/soft/update"

/-- A path after resolution: the names from the root down. -/
abbrev Path := List Bytes

/-- Follow a path name component by component; empty ones and `.` stay, `..` goes up. -/
def resolve (name : Bytes) : Path :=
  (name.splitOn 47).foldl
    (fun dir c =>
      if c = [] ∨ c = ascii "." then dir
      else if c = ascii ".." then dir.dropLast
      else dir ++ [c]) []

/-- The contents of the files there are. -/
abbrev FileSystem := Path → Option Bytes

namespace FileSystem

def get (fs : FileSystem) (name : Bytes) : Option Bytes := fs (resolve name)

def put (fs : FileSystem) (name : Bytes) (content : Bytes) : FileSystem :=
  Function.update fs (resolve name) (some content)

@[simp] theorem get_put (fs : FileSystem) (name content : Bytes) :
    (fs.put name content).get name = some content := by
  simp [get, put]

@[simp] theorem put_put (fs : FileSystem) (name a b : Bytes) :
    (fs.put name a).put name b = fs.put name b := by
  simp [put]

end FileSystem

/-- What one `write` call does. -/
inductive WriteOutcome where
  /-- Everything is stored. -/
  | full
  /-- At most `n` bytes are stored, as on a full flash. -/
  | short (n : Nat)
  /-- Nothing is stored and the call returns a negative value. -/
  | failed
deriving DecidableEq, Repr

namespace WriteOutcome

/-- The bytes that reach the file. -/
def stored (w : WriteOutcome) (data : Bytes) : Bytes :=
  match w with
  | full => data
  | short n => data.take n
  | failed => []

/-- The value `write` returns. -/
def ret (w : WriteOutcome) (data : Bytes) : Int :=
  match w with
  | failed => -1
  | w => (w.stored data).length

end WriteOutcome

end EleDs
