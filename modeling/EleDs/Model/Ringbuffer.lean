/-
The ring buffer between the two threads (`rt-thread/components/drivers/ipc/ringbuffer.c`).

Each index has a mirror bit that flips when the index goes round.  Equal indices mean
empty in the same mirror and full in different ones; the fields at the end of
`RtRingbuffer` say that the writer is never behind the reader nor a round ahead of it,
and both operations have to prove that they leave it so.
-/
import EleDs.Lib.Bytes

namespace EleDs

open CMem

/-- `struct rt_ringbuffer` over `size` bytes. -/
structure RtRingbuffer (size : Nat) where
  buffer : Buf size
  readMirror : Bool
  readIndex : Nat
  writeMirror : Bool
  writeIndex : Nat
  read_lt : readIndex < size
  write_lt : writeIndex < size
  same : readMirror = writeMirror → readIndex ≤ writeIndex
  mirrored : readMirror ≠ writeMirror → writeIndex ≤ readIndex

/-- `enum rt_ringbuffer_state`. -/
inductive RtRingbufferState where
  | empty
  | full
  | halffull
deriving DecidableEq

namespace RtRingbuffer

variable {size : Nat}

/-- `rt_ringbuffer_init` on a pool of `size` bytes. -/
def init (size : Nat) (h : 0 < size) : RtRingbuffer size where
  buffer := Buf.zero size
  readMirror := false
  readIndex := 0
  writeMirror := false
  writeIndex := 0
  read_lt := h
  write_lt := h
  same := fun _ => Nat.le_refl 0
  mirrored := fun _ => Nat.le_refl 0

/-- `rt_ringbuffer_status`. -/
def status (rb : RtRingbuffer size) : RtRingbufferState :=
  if rb.readIndex = rb.writeIndex then
    if rb.readMirror = rb.writeMirror then .empty else .full
  else .halffull

/-- `rt_ringbuffer_data_len`. -/
def dataLen (rb : RtRingbuffer size) : Nat :=
  match rb.status with
  | .empty => 0
  | .full => size
  | .halffull =>
      if rb.writeIndex > rb.readIndex then rb.writeIndex - rb.readIndex
      else size - (rb.readIndex - rb.writeIndex)

/-- `rt_ringbuffer_space_len`. -/
def spaceLen (rb : RtRingbuffer size) : Nat := size - rb.dataLen

/-- How much is in the buffer, by the mirrors. -/
theorem dataLen_cases (rb : RtRingbuffer size) :
    (rb.readMirror = rb.writeMirror ∧ rb.readIndex ≤ rb.writeIndex ∧
      rb.dataLen = rb.writeIndex - rb.readIndex) ∨
    (rb.readMirror ≠ rb.writeMirror ∧ rb.writeIndex ≤ rb.readIndex ∧
      rb.dataLen = size - (rb.readIndex - rb.writeIndex)) := by
  by_cases hm : rb.readMirror = rb.writeMirror
  · have hle := rb.same hm
    refine Or.inl ⟨hm, hle, ?_⟩
    unfold dataLen status
    by_cases heq : rb.readIndex = rb.writeIndex
    · simp [heq, hm]
    · simp [heq, show rb.writeIndex > rb.readIndex by omega]
  · have hle := rb.mirrored hm
    refine Or.inr ⟨hm, hle, ?_⟩
    unfold dataLen status
    by_cases heq : rb.readIndex = rb.writeIndex
    · simp [heq, hm]
    · simp [heq, show ¬ rb.writeIndex > rb.readIndex by omega]

/-- How much is free, by the mirrors. -/
theorem spaceLen_cases (rb : RtRingbuffer size) :
    (rb.readMirror = rb.writeMirror ∧ rb.readIndex ≤ rb.writeIndex ∧
      rb.spaceLen = size - (rb.writeIndex - rb.readIndex)) ∨
    (rb.readMirror ≠ rb.writeMirror ∧ rb.writeIndex ≤ rb.readIndex ∧
      rb.spaceLen = rb.readIndex - rb.writeIndex) := by
  have := rb.read_lt
  unfold spaceLen
  rcases rb.dataLen_cases with ⟨hm, hle, hlen⟩ | ⟨hm, hle, hlen⟩
  · exact Or.inl ⟨hm, hle, by rw [hlen]⟩
  · exact Or.inr ⟨hm, hle, by omega⟩

/-- `if (size < length) length = size;` -/
def clamp (size length : Nat) : Nat := if size < length then size else length

theorem clamp_eq_min (size length : Nat) : clamp size length = min length size := by
  unfold clamp
  split <;> omega

/-- `rt_ringbuffer_put`: what does not fit is dropped. -/
def put (rb : RtRingbuffer size) (data : Bytes) : Nat × RtRingbuffer size :=
  if rb.spaceLen = 0 then (0, rb)
  else
    let length := clamp rb.spaceLen data.length
    have hspace : length ≤ rb.spaceLen := by grind [clamp_eq_min]
    have hw := rb.write_lt
    have hr := rb.read_lt
    if h : size - rb.writeIndex > length then
      (length,
        { rb with
          buffer := rb.buffer.write rb.writeIndex (data.take length) (by grind)
          writeIndex := rb.writeIndex + length
          write_lt := by omega
          same := by grind [rb.spaceLen_cases]
          mirrored := by grind [rb.spaceLen_cases] })
    else
      let first := size - rb.writeIndex
      (length,
        { rb with
          buffer := (rb.buffer.write rb.writeIndex (data.take first) (by grind)).write 0
            ((data.drop first).take (length - first)) (by grind [rb.spaceLen_cases])
          writeMirror := !rb.writeMirror
          writeIndex := length - first
          write_lt := by grind [rb.spaceLen_cases]
          same := by grind [rb.spaceLen_cases]
          mirrored := by grind [rb.spaceLen_cases] })

/-- `rt_ringbuffer_get`: the bytes handed over and the buffer after it. -/
def get (rb : RtRingbuffer size) (length : Nat) : Bytes × RtRingbuffer size :=
  if rb.dataLen = 0 then ([], rb)
  else
    let length := clamp rb.dataLen length
    have hdata : length ≤ rb.dataLen := by grind [clamp_eq_min]
    have hw := rb.write_lt
    have hr := rb.read_lt
    if h : size - rb.readIndex > length then
      ((rb.buffer.data.drop rb.readIndex).take length,
        { rb with
          readIndex := rb.readIndex + length
          read_lt := by omega
          same := by grind [rb.dataLen_cases]
          mirrored := by grind [rb.dataLen_cases] })
    else
      let first := size - rb.readIndex
      (rb.buffer.data.drop rb.readIndex ++ rb.buffer.data.take (length - first),
        { rb with
          readMirror := !rb.readMirror
          readIndex := length - first
          read_lt := by grind [rb.dataLen_cases]
          same := by grind [rb.dataLen_cases]
          mirrored := by grind [rb.dataLen_cases] })

/-! ### The rest of the interface -/

/-- `rt_ringbuffer_put_force`: of too much data only the end is taken, and what is in the
buffer makes room. -/
def putForce (rb : RtRingbuffer size) (data : Bytes) : Nat × RtRingbuffer size :=
  let src := if size < data.length then data.drop (data.length - size) else data
  let length := src.length
  have hlength : length ≤ size := by grind
  have hw := rb.write_lt
  have hr := rb.read_lt
  if h : size - rb.writeIndex > length then
    let writeIndex := rb.writeIndex + length
    (length,
      { rb with
        buffer := rb.buffer.write rb.writeIndex src (by grind)
        writeIndex := writeIndex
        readIndex := if length > rb.spaceLen then writeIndex else rb.readIndex
        read_lt := by grind
        write_lt := by omega
        same := by grind [rb.spaceLen_cases]
        mirrored := by grind [rb.spaceLen_cases] })
  else
    let first := size - rb.writeIndex
    let writeIndex := length - first
    (length,
      { rb with
        buffer := (rb.buffer.write rb.writeIndex (src.take first) (by grind)).write 0
          (src.drop first) (by grind)
        writeMirror := !rb.writeMirror
        writeIndex := writeIndex
        readMirror := if length > rb.spaceLen ∧ writeIndex ≤ rb.readIndex then !rb.readMirror
          else rb.readMirror
        readIndex := if length > rb.spaceLen then writeIndex else rb.readIndex
        read_lt := by grind
        write_lt := by omega
        same := by grind [rb.spaceLen_cases]
        mirrored := by grind [rb.spaceLen_cases] })

/-- `rt_ringbuffer_peek`: the bytes up to the end of the memory, which count as read. -/
def peek (rb : RtRingbuffer size) : Bytes × RtRingbuffer size :=
  if rb.dataLen = 0 then ([], rb)
  else
    have hw := rb.write_lt
    have hr := rb.read_lt
    if h : size - rb.readIndex > rb.dataLen then
      ((rb.buffer.data.drop rb.readIndex).take rb.dataLen,
        { rb with
          readIndex := rb.readIndex + rb.dataLen
          read_lt := by omega
          same := by grind [rb.dataLen_cases]
          mirrored := by grind [rb.dataLen_cases] })
    else
      ((rb.buffer.data.drop rb.readIndex).take (size - rb.readIndex),
        { rb with
          readMirror := !rb.readMirror
          readIndex := 0
          read_lt := by omega
          same := by grind [rb.dataLen_cases]
          mirrored := by grind [rb.dataLen_cases] })

/-- `rt_ringbuffer_putchar`. -/
def putchar (rb : RtRingbuffer size) (ch : UInt8) : Nat × RtRingbuffer size :=
  if hspace : rb.spaceLen = 0 then (0, rb)
  else
    have hw := rb.write_lt
    have hr := rb.read_lt
    let buffer := rb.buffer.write rb.writeIndex [ch] (by grind)
    if h : rb.writeIndex = size - 1 then
      (1,
        { rb with
          buffer := buffer
          writeMirror := !rb.writeMirror
          writeIndex := 0
          write_lt := by omega
          same := by grind [rb.spaceLen_cases]
          mirrored := by grind [rb.spaceLen_cases] })
    else
      (1,
        { rb with
          buffer := buffer
          writeIndex := rb.writeIndex + 1
          write_lt := by omega
          same := by grind [rb.spaceLen_cases]
          mirrored := by grind [rb.spaceLen_cases] })

/-- `rt_ringbuffer_putchar_force`. -/
def putcharForce (rb : RtRingbuffer size) (ch : UInt8) : Nat × RtRingbuffer size :=
  let full := rb.status = .full
  have hw := rb.write_lt
  have hr := rb.read_lt
  let buffer := rb.buffer.write rb.writeIndex [ch] (by grind)
  if h : rb.writeIndex = size - 1 then
    (1,
      { rb with
        buffer := buffer
        writeMirror := !rb.writeMirror
        writeIndex := 0
        readMirror := if full then !rb.readMirror else rb.readMirror
        readIndex := if full then 0 else rb.readIndex
        read_lt := by grind
        write_lt := by omega
        same := by grind [status, rb.dataLen_cases]
        mirrored := by grind [status, rb.dataLen_cases] })
  else
    (1,
      { rb with
        buffer := buffer
        writeIndex := rb.writeIndex + 1
        readIndex := if full then rb.writeIndex + 1 else rb.readIndex
        read_lt := by grind
        write_lt := by omega
        same := by grind [status, rb.dataLen_cases]
        mirrored := by grind [status, rb.dataLen_cases] })

/-- `rt_ringbuffer_getchar`: the byte, if there is one. -/
def getchar (rb : RtRingbuffer size) : Option UInt8 × RtRingbuffer size :=
  if hdata : rb.dataLen = 0 then (none, rb)
  else
    have hw := rb.write_lt
    have hr := rb.read_lt
    let ch := rb.buffer.data[rb.readIndex]?
    if h : rb.readIndex = size - 1 then
      (ch,
        { rb with
          readMirror := !rb.readMirror
          readIndex := 0
          read_lt := by omega
          same := by grind [rb.dataLen_cases]
          mirrored := by grind [rb.dataLen_cases] })
    else
      (ch,
        { rb with
          readIndex := rb.readIndex + 1
          read_lt := by omega
          same := by grind [rb.dataLen_cases]
          mirrored := by grind [rb.dataLen_cases] })

/-- `rt_ringbuffer_reset`. -/
def reset (rb : RtRingbuffer size) : RtRingbuffer size :=
  { rb with
    readMirror := false
    readIndex := 0
    writeMirror := false
    writeIndex := 0
    read_lt := Nat.lt_of_le_of_lt (Nat.zero_le _) rb.read_lt
    write_lt := Nat.lt_of_le_of_lt (Nat.zero_le _) rb.read_lt
    same := fun _ => Nat.le_refl 0
    mirrored := fun _ => Nat.le_refl 0 }

end RtRingbuffer

end EleDs
