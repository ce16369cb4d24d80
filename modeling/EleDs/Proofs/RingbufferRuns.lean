/-
The ring buffer is a bounded queue, whatever is done with it.

`Queue.Step` says what each operation of the interface may do to a queue that holds at most
`size` bytes, in terms of the queue alone.  Any sequence of operations on a ring buffer is a
run of that queue, with the same answers (`runs_of_ring`).

Two operations are not what their names say.  Forcing data in throws away the oldest bytes,
down to the last `size` of all there were; and peeking takes the bytes out, as many as
stand in one piece in the memory.
-/
import EleDs.Proofs.Ringbuffer

namespace EleDs

open CMem

/-- The last `n` elements. -/
def newest {α : Type} (n : Nat) (l : List α) : List α := l.drop (l.length - n)

theorem newest_append_of_le {α : Type} {n : Nat} {l : List α} (h : l.length ≤ n) :
    newest n l = l := by
  rw [newest, Nat.sub_eq_zero_of_le h, List.drop_zero]

/-- Of data that is too long only the end matters. -/
theorem newest_append_newest {α : Type} (n : Nat) (l src : List α) :
    newest n (l ++ newest n src) = newest n (l ++ src) := by
  by_cases h : src.length ≤ n
  · rw [newest_append_of_le h]
  · have hlen : (newest n src).length = n := by
      rw [newest, List.length_drop]
      omega
    have hall : ∀ s : List α, n ≤ s.length → newest n (l ++ s) = newest n s := by
      intro s hs
      rw [newest, List.length_append, List.drop_append, List.drop_of_length_le (by omega),
        List.nil_append, newest]
      congr 1
      omega
    rw [hall _ (by omega), hall _ (by omega), newest, hlen, Nat.sub_self, List.drop_zero]

/-! ### The interface -/

/-- The operations. -/
inductive RingOp where
  | put (data : Bytes)
  | putForce (data : Bytes)
  | get (length : Nat)
  | peek
  | putchar (ch : UInt8)
  | putcharForce (ch : UInt8)
  | getchar
  | dataLen
  | reset

/-- What they return. -/
inductive RingAnswer where
  | count (n : Nat)
  | bytes (data : Bytes)
  | done

/-- An operation on the ring buffer. -/
def RingOp.on {size : Nat} (rb : RtRingbuffer size) : RingOp → RingAnswer × RtRingbuffer size
  | put data => (.count (rb.put data).1, (rb.put data).2)
  | putForce data => (.count (rb.putForce data).1, (rb.putForce data).2)
  | get length => (.bytes (rb.get length).1, (rb.get length).2)
  | peek => (.bytes rb.peek.1, rb.peek.2)
  | putchar ch => (.count (rb.putchar ch).1, (rb.putchar ch).2)
  | putcharForce ch => (.count (rb.putcharForce ch).1, (rb.putcharForce ch).2)
  | getchar => (.bytes rb.getchar.1.toList, rb.getchar.2)
  | dataLen => (.count rb.dataLen, rb)
  | reset => (.done, rb.reset)

/-- A sequence of operations: the answers and the buffer at the end. -/
def RingOp.run {size : Nat} : List RingOp → RtRingbuffer size → List RingAnswer × RtRingbuffer size
  | [], rb => ([], rb)
  | op :: ops, rb =>
      let rest := RingOp.run ops (op.on rb).2
      ((op.on rb).1 :: rest.1, rest.2)

/-! ### The queue -/

/-- What an operation may do to a queue of at most `size` bytes. -/
inductive Queue.Step (size : Nat) : Bytes → RingOp → RingAnswer → Bytes → Prop where
  | put (q data : Bytes) : Step size q (.put data) (.count (min data.length (size - q.length)))
      (q ++ data.take (size - q.length))
  | putForce (q data : Bytes) : Step size q (.putForce data) (.count (min data.length size))
      (newest size (q ++ data))
  | get (q : Bytes) (n : Nat) : Step size q (.get n) (.bytes (q.take n)) (q.drop n)
  | peek {q : Bytes} {k : Nat} (hk : k ≤ q.length) (hpos : q ≠ [] → 0 < k) :
      Step size q .peek (.bytes (q.take k)) (q.drop k)
  | putchar (q : Bytes) (ch : UInt8) : Step size q (.putchar ch)
      (.count (min 1 (size - q.length))) (q ++ [ch].take (size - q.length))
  | putcharForce (q : Bytes) (ch : UInt8) : Step size q (.putcharForce ch) (.count 1)
      (newest size (q ++ [ch]))
  | getchar (q : Bytes) : Step size q .getchar (.bytes (q.take 1)) (q.drop 1)
  | dataLen (q : Bytes) : Step size q .dataLen (.count q.length) q
  | reset (q : Bytes) : Step size q .reset .done []

/-- A run of the queue. -/
inductive Queue.Run (size : Nat) : Bytes → List RingOp → List RingAnswer → Bytes → Prop where
  | nil (q : Bytes) : Run size q [] [] q
  | cons {q q' q'' : Bytes} {op : RingOp} {ops : List RingOp} {a : RingAnswer}
      {as : List RingAnswer} (h : Queue.Step size q op a q') (hs : Run size q' ops as q'') :
      Run size q (op :: ops) (a :: as) q''

namespace RtRingbuffer

variable {size : Nat} (rb : RtRingbuffer size)

theorem spaceLen_eq : rb.spaceLen = size - rb.contents.length := by
  rw [length_contents]
  rfl

/-! ### Forcing data in -/

/-- A buffer that was written to over its oldest bytes, and is full now. -/
theorem contents_of_overwrite {rb' : RtRingbuffer size} {src : Bytes} {k : Nat}
    (hk : k ≤ rb.dataLen) (hfull : rb.dataLen - k + src.length = size)
    (hbuffer : rb'.buffer.data = ringWrite rb.buffer.data rb.writeIndex src)
    (hread : rb'.readIndex = ringNext size rb.readIndex k) (hlen : rb'.dataLen = size) :
    rb'.contents = rb.contents.drop k ++ src := by
  have hsize := rb.buffer.size
  have hle := rb.dataLen_le
  have hr : ringNext size rb.readIndex k < size := ringNext_lt rb.read_lt (by omega)
  obtain ⟨hsplit, hlength⟩ := rb.contents_split (Nat.add_sub_cancel' hk)
  have hwrite : ringNext size (ringNext size rb.readIndex k) (rb.dataLen - k) = rb.writeIndex := by
    have hrd := rb.read_lt
    rw [rb.writeIndex_eq]
    unfold ringNext
    split <;> split <;> split <;> omega
  have hwindow := window_ringWrite (b := rb.buffer.data) (r := ringNext size rb.readIndex k)
    (k := rb.dataLen - k) src (by rw [hsize]; exact hr) (by rw [hsize]; omega)
  rw [hsize, hwrite, ← hbuffer, hfull] at hwindow
  rw [contents, hread, hlen, hwindow, hsplit, List.drop_left' hlength]

theorem dataLen_full (h : rb.readIndex = rb.writeIndex) (hm : rb.readMirror ≠ rb.writeMirror) :
    rb.dataLen = size := by
  rcases rb.dataLen_cases with ⟨hsame, -, -⟩ | ⟨-, -, hlen⟩
  · exact absurd hsame hm
  · omega

/-- **`put_force` keeps the newest bytes.** -/
theorem putForce_spec (data : Bytes) :
    (rb.putForce data).1 = min data.length size ∧
    (rb.putForce data).2.contents = newest size (rb.contents ++ data) := by
  have hsize := rb.buffer.size
  have hr := rb.read_lt
  have hw := rb.write_lt
  have hle := rb.dataLen_le
  have hcontents := rb.length_contents
  have hspace := rb.spaceLen_cases
  have hdata := rb.dataLen_cases
  have hroom : rb.spaceLen = size - rb.dataLen := rfl
  have hsrc : (if size < data.length then data.drop (data.length - size) else data)
      = newest size data := by
    unfold newest
    split
    · rfl
    · rw [Nat.sub_eq_zero_of_le (by omega), List.drop_zero]
  rw [← newest_append_newest, putForce]
  simp only [hsrc]
  have hlength : (newest size data).length = min data.length size := by
    rw [newest, List.length_drop]
    omega
  generalize newest size data = src at *
  -- either there is room, or the oldest bytes go
  have hgoal : ∀ rb' : RtRingbuffer size,
      rb'.buffer.data = ringWrite rb.buffer.data rb.writeIndex src →
      (src.length ≤ rb.spaceLen → rb'.readIndex = rb.readIndex ∧
        rb'.dataLen = rb.dataLen + src.length) →
      (rb.spaceLen < src.length →
        rb'.readIndex = ringNext size rb.readIndex (src.length - rb.spaceLen) ∧
          rb'.dataLen = size) →
      rb'.contents = newest size (rb.contents ++ src) := by
    intro rb' hbuffer hfits hover
    by_cases hlen : src.length ≤ rb.spaceLen
    · obtain ⟨hread, hgrown⟩ := hfits hlen
      rw [rb.contents_of_write hbuffer hread hgrown, newest_append_of_le]
      rw [List.length_append]
      omega
    · obtain ⟨hread, hfull⟩ := hover (by omega)
      rw [rb.contents_of_overwrite (by omega) (by omega) hbuffer hread hfull, newest,
        List.length_append, List.drop_append_of_le_length (by omega)]
      congr 2
      omega
  by_cases hfirst : size - rb.writeIndex > src.length
  · rw [dif_pos hfirst]
    refine ⟨hlength, hgoal _ ?_ ?_ ?_⟩
    · rw [ringWrite_ahead (by rw [hsize]; omega)]
      rfl
    · intro hlen
      refine ⟨if_neg (by omega), ?_⟩
      refine rb.dataLen_of_write hlen (if_neg (by omega)) rfl (Or.inl ⟨rfl, rfl⟩)
    · -- the reader is ahead in the same round, and is overtaken
      intro hlen
      have hmirror : rb.readMirror ≠ rb.writeMirror := by
        rcases hspace with ⟨-, -, h⟩ | ⟨h, -, -⟩
        · omega
        · exact h
      have hread : rb.writeIndex + src.length
          = ringNext size rb.readIndex (src.length - rb.spaceLen) := by
        unfold ringNext
        split <;> omega
      exact ⟨(if_pos hlen).trans hread, dataLen_full _ (if_pos hlen) hmirror⟩
  · rw [dif_neg hfirst]
    refine ⟨hlength, hgoal _ ?_ ?_ ?_⟩
    · rw [ringWrite, hsize]
      rfl
    · intro hlen
      have hindex : (if src.length > rb.spaceLen then src.length - (size - rb.writeIndex)
          else rb.readIndex) = rb.readIndex := if_neg (by omega)
      refine ⟨hindex, rb.dataLen_of_write hlen hindex (if_neg (by omega)) (Or.inr ⟨rfl, ?_⟩)⟩
      show src.length - (size - rb.writeIndex) + size = _
      omega
    · intro hlen
      have hread : src.length - (size - rb.writeIndex)
          = ringNext size rb.readIndex (src.length - rb.spaceLen) := by
        unfold ringNext
        split <;> omega
      refine ⟨(if_pos hlen).trans hread, dataLen_full _ (if_pos hlen) ?_⟩
      show (if src.length > rb.spaceLen ∧ src.length - (size - rb.writeIndex) ≤ rb.readIndex
        then !rb.readMirror else rb.readMirror) ≠ !rb.writeMirror
      rcases hspace with ⟨hm, hrw, h⟩ | ⟨hm, hrw, h⟩
      · rw [if_neg (by omega), hm]
        cases rb.writeMirror <;> decide
      · rw [if_pos (by omega)]
        simpa using hm

/-! ### Single bytes -/

theorem status_full : rb.status = .full ↔ rb.readIndex = rb.writeIndex ∧
    rb.readMirror ≠ rb.writeMirror := by
  unfold status
  split
  · split <;> simp_all
  · simp_all

theorem dataLen_lt_of_not_full (h : rb.status ≠ .full) : rb.dataLen < size := by
  have hr := rb.read_lt
  have hw := rb.write_lt
  rcases rb.dataLen_cases with ⟨-, hle, hlen⟩ | ⟨hm, hle, hlen⟩
  · omega
  · have hne : rb.readIndex ≠ rb.writeIndex := fun heq => h (rb.status_full.mpr ⟨heq, hm⟩)
    omega

theorem putchar_spec (ch : UInt8) :
    (rb.putchar ch).1 = min 1 rb.spaceLen ∧
    (rb.putchar ch).2.contents = rb.contents ++ [ch].take rb.spaceLen := by
  by_cases h0 : rb.spaceLen = 0
  · rw [putchar, dif_pos h0, h0]
    simp
  have hw := rb.write_lt
  have hone : 1 = min 1 rb.spaceLen := (Nat.min_eq_left (by omega)).symm
  have htake : [ch].take rb.spaceLen = [ch] := List.take_of_length_le (by
    rw [List.length_singleton]
    omega)
  have hbuffer : overwrite rb.buffer.data rb.writeIndex [ch]
      = ringWrite rb.buffer.data rb.writeIndex [ch] := by
    rw [ringWrite_ahead]
    rw [rb.buffer.size, List.length_singleton]
    omega
  rw [putchar, dif_neg h0, htake]
  split
  · rename_i hlast
    refine ⟨hone, rb.contents_of_write hbuffer rfl ?_⟩
    refine rb.dataLen_of_write (by rw [List.length_singleton]; omega) rfl rfl (Or.inr ⟨rfl, ?_⟩)
    show 0 + size = rb.writeIndex + 1
    omega
  · refine ⟨hone, rb.contents_of_write hbuffer rfl ?_⟩
    exact rb.dataLen_of_write (by rw [List.length_singleton]; omega) rfl rfl (Or.inl ⟨rfl, rfl⟩)

theorem putcharForce_spec (ch : UInt8) :
    (rb.putcharForce ch).1 = 1 ∧
    (rb.putcharForce ch).2.contents = newest size (rb.contents ++ [ch]) := by
  have hr := rb.read_lt
  have hw := rb.write_lt
  have hcontents := rb.length_contents
  have hroom : rb.spaceLen = size - rb.dataLen := rfl
  have hbuffer : overwrite rb.buffer.data rb.writeIndex [ch]
      = ringWrite rb.buffer.data rb.writeIndex [ch] := by
    rw [ringWrite_ahead]
    rw [rb.buffer.size, List.length_singleton]
    omega
  by_cases hfull : rb.status = .full
  · obtain ⟨hindex, hmirror⟩ := rb.status_full.mp hfull
    have hlen := rb.dataLen_full hindex hmirror
    have hover : ∀ rb' : RtRingbuffer size,
        rb'.buffer.data = ringWrite rb.buffer.data rb.writeIndex [ch] →
        rb'.readIndex = ringNext size rb.readIndex 1 → rb'.dataLen = size →
        rb'.contents = newest size (rb.contents ++ [ch]) := by
      intro rb' hdata hread hsize
      rw [rb.contents_of_overwrite (by omega) (by rw [List.length_singleton]; omega) hdata hread
        hsize, newest, List.length_append, List.drop_append_of_le_length (by simp; omega)]
      congr 2
      simp
      omega
    rw [putcharForce]
    simp only [hfull, if_true]
    split
    · rename_i hlast
      refine ⟨rfl, hover _ hbuffer ?_ (dataLen_full _ rfl ?_)⟩
      · show 0 = ringNext size rb.readIndex 1
        rw [ringNext, if_neg (by omega)]
        omega
      · show (!rb.readMirror) ≠ !rb.writeMirror
        simpa using hmirror
    · rename_i hlast
      refine ⟨rfl, hover _ hbuffer ?_ (dataLen_full _ rfl hmirror)⟩
      show rb.writeIndex + 1 = ringNext size rb.readIndex 1
      rw [ringNext, if_pos (by omega)]
      omega
  · have hlt := rb.dataLen_lt_of_not_full hfull
    have hnew : newest size (rb.contents ++ [ch]) = rb.contents ++ [ch] := by
      refine newest_append_of_le ?_
      rw [List.length_append, List.length_singleton]
      omega
    rw [putcharForce, hnew]
    simp only [hfull, if_false]
    split
    · rename_i hlast
      refine ⟨rfl, rb.contents_of_write hbuffer rfl ?_⟩
      refine rb.dataLen_of_write (by rw [List.length_singleton]; omega) rfl rfl (Or.inr ⟨rfl, ?_⟩)
      show 0 + size = rb.writeIndex + 1
      omega
    · refine ⟨rfl, rb.contents_of_write hbuffer rfl ?_⟩
      exact rb.dataLen_of_write (by rw [List.length_singleton]; omega) rfl rfl (Or.inl ⟨rfl, rfl⟩)

theorem getchar_spec :
    rb.getchar.1.toList = rb.contents.take 1 ∧ rb.getchar.2.contents = rb.contents.drop 1 := by
  have hsize := rb.buffer.size
  have hr := rb.read_lt
  have hcontents := rb.length_contents
  by_cases h0 : rb.dataLen = 0
  · have hnil : rb.contents = [] := List.length_eq_zero_iff.mp (by omega)
    rw [getchar, dif_pos h0, hnil]
    simp
  have hfirst : (rb.buffer.data[rb.readIndex]?).toList = rb.contents.take 1 := by
    rw [rb.take_contents (by omega), window_ahead (by omega) (by omega), List.take_one,
      List.head?_drop]
  rw [getchar, dif_neg h0]
  split
  · rename_i hlast
    refine ⟨hfirst, rb.contents_of_read rfl ?_ (rb.dataLen_of_read (by omega) rfl rfl
      (Or.inr ⟨rfl, ?_⟩))⟩
    · show 0 = ringNext size rb.readIndex 1
      rw [ringNext, if_neg (by omega)]
      omega
    · show 0 + size = rb.readIndex + 1
      omega
  · rename_i hlast
    refine ⟨hfirst, rb.contents_of_read rfl ?_ (rb.dataLen_of_read (by omega) rfl rfl
      (Or.inl ⟨rfl, rfl⟩))⟩
    show rb.readIndex + 1 = ringNext size rb.readIndex 1
    rw [ringNext, if_pos (by omega)]

/-! ### Peeking and resetting -/

/-- **`peek` takes bytes out**, up to the end of the memory. -/
theorem peek_spec : ∃ k ≤ rb.contents.length, (rb.contents ≠ [] → 0 < k) ∧
    rb.peek.1 = rb.contents.take k ∧ rb.peek.2.contents = rb.contents.drop k := by
  have hsize := rb.buffer.size
  have hr := rb.read_lt
  have hcontents := rb.length_contents
  by_cases h0 : rb.dataLen = 0
  · have hnil : rb.contents = [] := List.length_eq_zero_iff.mp (by omega)
    refine ⟨0, Nat.zero_le _, fun h => absurd hnil h, ?_⟩
    rw [peek, if_pos h0]
    simp
  rw [peek, if_neg h0]
  split
  · rename_i hahead
    refine ⟨rb.dataLen, by omega, fun _ => by omega, ?_, rb.contents_of_read rfl ?_
      (rb.dataLen_of_read (Nat.le_refl _) rfl rfl (Or.inl ⟨rfl, rfl⟩))⟩
    · rw [rb.take_contents (Nat.le_refl _), window_ahead (by omega) (by omega)]
    · show rb.readIndex + rb.dataLen = ringNext size rb.readIndex rb.dataLen
      rw [ringNext, if_pos (by omega)]
  · rename_i hround
    refine ⟨size - rb.readIndex, by omega, fun _ => by omega, ?_, rb.contents_of_read rfl ?_
      (rb.dataLen_of_read (by omega) rfl rfl (Or.inr ⟨rfl, ?_⟩))⟩
    · rw [rb.take_contents (by omega), window_ahead (by omega) (by omega)]
    · show 0 = ringNext size rb.readIndex (size - rb.readIndex)
      rw [ringNext, if_neg (by omega)]
      omega
    · show 0 + size = rb.readIndex + (size - rb.readIndex)
      omega

theorem reset_contents : rb.reset.contents = [] := by
  rw [← List.length_eq_zero_iff, length_contents]
  rfl

/-! ### Runs -/

/-- Every operation is a step of the queue. -/
theorem step_on (op : RingOp) :
    Queue.Step size rb.contents op (op.on rb).1 (op.on rb).2.contents := by
  cases op with
  | put data =>
      obtain ⟨hcount, hafter⟩ := rb.put_spec data
      rw [RingOp.on, hcount, hafter, spaceLen_eq]
      exact .put _ _
  | putForce data =>
      obtain ⟨hcount, hafter⟩ := rb.putForce_spec data
      rw [RingOp.on, hcount, hafter]
      exact .putForce _ _
  | get length =>
      obtain ⟨hbytes, hafter⟩ := rb.get_spec length
      rw [RingOp.on, hbytes, hafter]
      exact .get _ _
  | peek =>
      obtain ⟨k, hk, hpos, hbytes, hafter⟩ := rb.peek_spec
      rw [RingOp.on, hbytes, hafter]
      exact .peek hk hpos
  | putchar ch =>
      obtain ⟨hcount, hafter⟩ := rb.putchar_spec ch
      rw [RingOp.on, hcount, hafter, spaceLen_eq]
      exact .putchar _ _
  | putcharForce ch =>
      obtain ⟨hcount, hafter⟩ := rb.putcharForce_spec ch
      rw [RingOp.on, hcount, hafter]
      exact .putcharForce _ _
  | getchar =>
      obtain ⟨hbytes, hafter⟩ := rb.getchar_spec
      rw [RingOp.on, hbytes, hafter]
      exact .getchar _
  | dataLen =>
      rw [RingOp.on, ← rb.length_contents]
      exact .dataLen _
  | reset =>
      rw [RingOp.on, rb.reset_contents]
      exact .reset _

/-- **Whatever is done with a ring buffer is done with a bounded queue**, with the same
answers: nothing is lost, reordered or made up but what the operations say. -/
theorem runs_of_ring (ops : List RingOp) (rb : RtRingbuffer size) :
    Queue.Run size rb.contents ops (RingOp.run ops rb).1 (RingOp.run ops rb).2.contents := by
  induction ops generalizing rb with
  | nil => exact .nil _
  | cons op ops ih => exact .cons (rb.step_on op) (ih (op.on rb).2)

end RtRingbuffer

end EleDs
