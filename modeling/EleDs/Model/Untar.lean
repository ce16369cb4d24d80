/-
Unpacking an archive (`untar` in `applications/common/common.c`).

The loop over the headers has no bound, so it is modelled by the turns it takes: after so
many turns it has returned, broken a rule of C or is still running.
-/
import EleDs.Model.Microtar

namespace EleDs

open CMem Calls

/-- `common.h`. -/
def MAX_PATH : Nat := 256

/-- `snprintf(full_path, sizeof(full_path), "%s/%s", dst_dir, h.name)`. -/
def fullPath (dst name : Bytes) : Bytes := (dst ++ 47 :: name).take (MAX_PATH - 1)

/-- What stands before the last `/`, if there is one. -/
def beforeLastSlash : Bytes → Option Bytes
  | [] => none
  | b :: rest =>
      match beforeLastSlash rest with
      | some dir => some (b :: dir)
      | none => if b = 47 then some [] else none

/-- `mkdir`, whose result nobody looks at. -/
def mkdir (dir : Bytes) : TarCall Unit :=
  modify fun s => { s with trace := s.trace ++ [.mkdir dir] }

/-- The paths that end before a `/`, but for one in front. -/
def slashPrefixes (tmp : Bytes) : List Bytes :=
  ((List.range tmp.length).filter fun i => 1 ≤ i ∧ tmp.getD i 0 = 47).map tmp.take

/-- `mkdir_recursive`.  The last byte of an empty string is looked for in front of it. -/
def mkdirRecursive (dir : Bytes) : TarCall Unit := do
  let tmp := dir.take (MAX_PATH - 1)
  if tmp = [] then Call.fault .readOverrun
  let tmp := if tmp.getLast? = some 47 then tmp.dropLast else tmp
  (slashPrefixes tmp).forM mkdir
  mkdir tmp

/-- The directories of a path are made before the file. -/
def makeParents (path : Bytes) : TarCall Unit :=
  match beforeLastSlash path with
  | some dir => mkdirRecursive dir
  | none => pure ()

/-- `fopen(full_path, "wb")`. -/
def fopenWb (name path : Bytes) : TarCall Bool := do
  let o ← nextOutcome
  let opened := o = .good
  modify fun s => { s with
    fs := if opened then s.fs.put path [] else s.fs
    trace := s.trace ++ [.fopen name path opened] }
  pure opened

/-- `fwrite`, at the end of the file. -/
def fwrite (path data : Bytes) : TarCall Unit := do
  let o ← nextOutcome
  let written := match o with
    | .good => data
    | .bad n => data.take n
  modify fun s => { s with fs := s.fs.put path ((s.fs.get path).getD [] ++ written) }

def fclose (path : Bytes) : TarCall Unit :=
  modify fun s => { s with trace := s.trace ++ [.fclose path ((s.fs.get path).getD [])] }

section Untar

variable (file : Bytes)

/-- The loops over the data of an entry, which differ in what they do with a piece of it. -/
def dataLoop (piece : Bytes → TarCall Unit) : Nat → Int → TarCall Unit
  | 0, remaining => if remaining > 0 then Call.fault .diverged else pure ()
  | fuel + 1, remaining =>
      if remaining > 0 then do
        let toRead := if remaining > 512 then 512 else remaining
        let data ← mtarReadData file toRead.toNat
        piece data
        dataLoop piece fuel (remaining - toRead)
      else pure ()

/-- A read that fails is what `untar` returns. -/
def earlyReturn : Except MtarError Unit → Option Int
  | .ok _ => none
  | .error e => some e.code

/-- A regular file, and what is returned if that fails. -/
def extract (name path : Bytes) (remaining : Int) : TarCall (Option Int) := do
  makeParents path
  if ← fopenWb name path then
    let r ← (dataLoop file (fwrite path) remaining.toNat remaining).attempt
    fclose path
    pure (earlyReturn r)
  else pure (some (-1))

/-- Anything else. -/
def skip (remaining : Int) : TarCall (Option Int) := do
  let r ← (dataLoop file (fun _ => pure ()) remaining.toNat remaining).attempt
  pure (earlyReturn r)

/-- What is done with an entry. -/
def untarEntry (dst name : Bytes) (type : UInt8) (remaining : Int) : TarCall (Option Int) :=
  if type = MTAR_TREG then extract file name (fullPath dst name) remaining
  else skip file remaining

/-- One turn of the loop over the headers: the header for the next one, or the result. -/
def untarTurn (dst : Bytes) (h : MtarHeader) : TarCall (MtarHeader ⊕ Int) := do
  match ← (mtarReadHeader file h).attempt with
  | .error _ =>
      mtarClose
      pure (.inr 0)
  | .ok h =>
      let size ← stored h.size
      match ← untarEntry file dst h.name.str h.type (wrap32 size) with
      | some ret => pure (.inr ret)
      | none =>
          -- the result of `mtar_next` is not looked at
          let _ ← (mtarNext file).attempt
          pure (.inl h)

/-- The loop, after so many turns: the result, if there is one by then. -/
def untarLoop (dst : Bytes) : Nat → MtarHeader → TarCall (Option Int)
  | 0, _ => pure none
  | turns + 1, h => do
      match ← untarTurn file dst h with
      | .inl h => untarLoop dst turns h
      | .inr ret => pure (some ret)

/-- `untar` on a file that is there. -/
def untarFile (dst : Bytes) (turns : Nat) : TarCall (Option Int) := do
  match ← (mtarOpen file).attempt with
  | .error e => pure (some e.code)
  | .ok _ => untarLoop file dst turns .fresh

end Untar

/-- `untar(tar_path, dst_dir)`. -/
def untar (tarPath dst : Bytes) (turns : Nat) : TarCall (Option Int) := do
  let s ← get
  match s.fs.get tarPath with
  | none => pure (some MtarError.openFail.code)
  | some file => untarFile file dst turns

/-- The state `untar` is called in. -/
def TarState.before (fs : FileSystem) (plan : List CallOutcome) : TarState :=
  { pos := 0
    remainingData := 0
    lastHeader := 0
    offset := 0
    isOpen := false
    fs := fs
    trace := []
    plan := plan }

end EleDs
