/-
The ring buffer is a bounded queue.

What the two indices and their mirrors stand for is a list, `contents`, oldest byte
first.  `rt_ringbuffer_put` appends to it what there is room for and
`rt_ringbuffer_get` takes from its front, and nothing else about indices or mirrors is
needed from here on.
-/
import EleDs.Lib.Ring
import EleDs.Model.Ringbuffer

namespace EleDs

open CMem

namespace RtRingbuffer

variable {size : Nat} (rb : RtRingbuffer size)

/-- The bytes in the buffer, oldest first. -/
def contents : Bytes := window rb.buffer.data rb.readIndex rb.dataLen

theorem dataLen_le : rb.dataLen ≤ size := by
  have := rb.write_lt
  rcases rb.dataLen_cases with ⟨-, -, h⟩ | ⟨-, -, h⟩ <;> omega

theorem length_contents : rb.contents.length = rb.dataLen :=
  length_window (by rw [rb.buffer.size]; exact rb.read_lt)
    (by rw [rb.buffer.size]; exact rb.dataLen_le)

theorem contents_init (h : 0 < size) : (init size h).contents = [] := by
  rw [← List.length_eq_zero_iff, length_contents]
  rfl

/-- The writer stands right behind the bytes. -/
theorem writeIndex_eq : rb.writeIndex = ringNext size rb.readIndex rb.dataLen := by
  have := rb.read_lt
  have := rb.write_lt
  unfold ringNext
  rcases rb.dataLen_cases with ⟨-, hle, h⟩ | ⟨-, hle, h⟩ <;> split <;> omega

/-- Moving the writer on by `k` places, round the end or not, counts `k` more bytes. -/
theorem dataLen_of_write {rb' : RtRingbuffer size} {k : Nat} (hspace : k ≤ rb.spaceLen)
    (hread : rb'.readIndex = rb.readIndex) (hmirror : rb'.readMirror = rb.readMirror)
    (hwrite : rb'.writeMirror = rb.writeMirror ∧ rb'.writeIndex = rb.writeIndex + k ∨
      rb'.writeMirror = !rb.writeMirror ∧ rb'.writeIndex + size = rb.writeIndex + k) :
    rb'.dataLen = rb.dataLen + k := by
  have := rb.read_lt
  have := rb.write_lt
  have := rb'.write_lt
  grind [rb.dataLen_cases, rb.spaceLen_cases, rb'.dataLen_cases]

/-- Moving the reader on by `k` places counts `k` bytes less. -/
theorem dataLen_of_read {rb' : RtRingbuffer size} {k : Nat} (hdata : k ≤ rb.dataLen)
    (hwrite : rb'.writeIndex = rb.writeIndex) (hmirror : rb'.writeMirror = rb.writeMirror)
    (hread : rb'.readMirror = rb.readMirror ∧ rb'.readIndex = rb.readIndex + k ∨
      rb'.readMirror = !rb.readMirror ∧ rb'.readIndex + size = rb.readIndex + k) :
    rb'.dataLen + k = rb.dataLen := by
  have := rb.read_lt
  have := rb.write_lt
  have := rb'.read_lt
  grind [rb.dataLen_cases, rb'.dataLen_cases]

/-- A buffer that differs by a copy behind the bytes, and counts it, has grown by it. -/
theorem contents_of_write {rb' : RtRingbuffer size} {src : Bytes}
    (hbuffer : rb'.buffer.data = ringWrite rb.buffer.data rb.writeIndex src)
    (hread : rb'.readIndex = rb.readIndex) (hlen : rb'.dataLen = rb.dataLen + src.length) :
    rb'.contents = rb.contents ++ src := by
  have hsize := rb.buffer.size
  have hle := rb'.dataLen_le
  have hwindow := window_ringWrite (b := rb.buffer.data) (r := rb.readIndex) (k := rb.dataLen) src
    (by rw [hsize]; exact rb.read_lt) (by rw [hsize]; omega)
  rw [hsize, ← rb.writeIndex_eq, ← hbuffer] at hwindow
  rw [contents, hread, hlen, hwindow]
  rfl

theorem contents_split {j k : Nat} (h : j + k = rb.dataLen) :
    rb.contents = window rb.buffer.data rb.readIndex j ++
        window rb.buffer.data (ringNext size rb.readIndex j) k ∧
      (window rb.buffer.data rb.readIndex j).length = j := by
  have hsize := rb.buffer.size
  have hle := rb.dataLen_le
  have hr : rb.readIndex < rb.buffer.data.length := by rw [hsize]; exact rb.read_lt
  have hsplit := window_add (j := j) (k := k) hr (by omega)
  rw [h, hsize] at hsplit
  exact ⟨hsplit, length_window hr (by omega)⟩

theorem take_contents {k : Nat} (h : k ≤ rb.dataLen) :
    rb.contents.take k = window rb.buffer.data rb.readIndex k := by
  obtain ⟨hsplit, hlen⟩ := rb.contents_split (Nat.add_sub_cancel' h)
  rw [hsplit, List.take_left' hlen]

/-- A buffer that differs by a move of the reader has lost that much from its front. -/
theorem contents_of_read {rb' : RtRingbuffer size} {k : Nat} (hbuffer : rb'.buffer = rb.buffer)
    (hread : rb'.readIndex = ringNext size rb.readIndex k) (hlen : rb'.dataLen + k = rb.dataLen) :
    rb'.contents = rb.contents.drop k := by
  obtain ⟨hsplit, hk⟩ := rb.contents_split (Nat.add_comm _ _ ▸ hlen : k + rb'.dataLen = rb.dataLen)
  rw [hsplit, List.drop_left' hk, contents, hbuffer, hread]

/-- **`put` appends what there is room for.** -/
theorem put_spec (data : Bytes) :
    (rb.put data).1 = min data.length rb.spaceLen ∧
    (rb.put data).2.contents = rb.contents ++ data.take rb.spaceLen := by
  have hsize := rb.buffer.size
  by_cases h0 : rb.spaceLen = 0
  · rw [put, if_pos h0, h0]
    simp
  have hmin := clamp_eq_min rb.spaceLen data.length
  have htake : data.take rb.spaceLen = data.take (clamp rb.spaceLen data.length) := by
    rw [hmin, List.take_eq_take_iff]
    omega
  have hlen : (data.take rb.spaceLen).length = clamp rb.spaceLen data.length := by
    rw [List.length_take]
    omega
  have hr := rb.read_lt
  have hw := rb.write_lt
  have hspace := rb.spaceLen_cases
  have hdata := rb.dataLen_cases
  rw [put, if_neg h0]
  simp only
  by_cases hfirst : size - rb.writeIndex > clamp rb.spaceLen data.length
  · rw [dif_pos hfirst]
    refine ⟨hmin, rb.contents_of_write ?_ rfl ?_⟩
    · rw [ringWrite_ahead (by rw [hsize]; omega), htake]
      rfl
    · rw [hlen]
      exact rb.dataLen_of_write (by omega) rfl rfl (Or.inl ⟨rfl, rfl⟩)
  · rw [dif_neg hfirst]
    refine ⟨hmin, rb.contents_of_write ?_ rfl ?_⟩
    · rw [ringWrite, hsize, htake, List.take_take, List.drop_take, Nat.min_eq_left (by omega)]
      rfl
    · rw [hlen]
      refine rb.dataLen_of_write (by omega) rfl rfl (Or.inr ⟨rfl, ?_⟩)
      show clamp rb.spaceLen data.length - (size - rb.writeIndex) + size = _
      omega

/-- **`get` takes from the front.** -/
theorem get_spec (length : Nat) :
    (rb.get length).1 = rb.contents.take length ∧
    (rb.get length).2.contents = rb.contents.drop length := by
  have hsize := rb.buffer.size
  have hcontents := rb.length_contents
  by_cases h0 : rb.dataLen = 0
  · have hnil : rb.contents = [] := List.length_eq_zero_iff.mp (by omega)
    rw [get, if_pos h0, hnil]
    simp
  have hmin := clamp_eq_min rb.dataLen length
  have htake : rb.contents.take length = rb.contents.take (clamp rb.dataLen length) := by
    rw [List.take_eq_take_iff]
    omega
  have hdrop : rb.contents.drop length = rb.contents.drop (clamp rb.dataLen length) := by
    by_cases hle : length ≤ rb.dataLen
    · rw [hmin, Nat.min_eq_left hle]
    · rw [List.drop_of_length_le (by omega), List.drop_of_length_le (by omega)]
  have hr := rb.read_lt
  have hw := rb.write_lt
  rw [get, if_neg h0, htake, hdrop]
  simp only
  by_cases hfirst : size - rb.readIndex > clamp rb.dataLen length
  · rw [dif_pos hfirst]
    have hread : rb.readIndex + clamp rb.dataLen length
        = ringNext size rb.readIndex (clamp rb.dataLen length) := by
      rw [ringNext, if_pos (by omega)]
    refine ⟨?_, rb.contents_of_read rfl hread
      (rb.dataLen_of_read (by omega) rfl rfl (Or.inl ⟨rfl, rfl⟩))⟩
    rw [rb.take_contents (by omega), window_ahead (by omega) (by omega)]
  · rw [dif_neg hfirst]
    have hread : clamp rb.dataLen length - (size - rb.readIndex)
        = ringNext size rb.readIndex (clamp rb.dataLen length) := by
      rw [ringNext, if_neg (by omega)]
      omega
    have hmoved : clamp rb.dataLen length - (size - rb.readIndex) + size
        = rb.readIndex + clamp rb.dataLen length := by omega
    refine ⟨?_, rb.contents_of_read rfl hread
      (rb.dataLen_of_read (by omega) rfl rfl (Or.inr ⟨rfl, hmoved⟩))⟩
    rw [rb.take_contents (by omega), window_round (by omega) (by omega), hsize]

end RtRingbuffer

end EleDs
