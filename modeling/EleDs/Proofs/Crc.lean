/-
The CRC of a file does not depend on how it is read, and is the standard one.

`crcfile` reads in blocks and hands the state of one block to the next through
`soft_crc32`, which inverts it on the way in and on the way out.  The inversions
cancel, so the blocks can be glued together.  The table holds what eight shifts of the
register make of each byte (`crc32Table_entry`), so a byte of `soft_crc32` is a byte fed
to the register (`crc32Step_feed`), and what is known of the register holds of the code.
-/
import EleDs.Lib.Lfsr
import EleDs.Model.Common

namespace EleDs

open CMem

theorem softCrc32_append (a b : Bytes) (crc : UInt32) :
    softCrc32 (a ++ b) crc = softCrc32 b (softCrc32 a crc) := by
  simp only [softCrc32, List.foldl_append, UInt32.xor_assoc, UInt32.xor_self, UInt32.xor_zero]

theorem softCrc32_nil (crc : UInt32) : softCrc32 [] crc = crc := by
  rw [softCrc32, List.foldl_nil, UInt32.xor_assoc, UInt32.xor_self, UInt32.xor_zero]

theorem readSize_pos (plan : List ReadOutcome) : 0 < readSize plan := by
  unfold readSize crcBufferSize
  split <;> omega

/-- Reading to the end, in whatever pieces, gives the CRC of the whole. -/
theorem crcLoop_eq : ∀ (fuel : Nat) (plan : List ReadOutcome) (rest : Bytes) (crc : UInt32),
    .failed ∉ plan → rest.length < fuel →
    crcLoop fuel plan rest crc = .ok (softCrc32 rest crc) := by
  intro fuel
  induction fuel with
  | zero => intro plan rest crc _ h; omega
  | succ fuel ih =>
      intro plan rest crc hplan hlen
      have hhead : plan.head? ≠ some .failed := fun hc => hplan (List.mem_of_mem_head? hc)
      have hpos := readSize_pos plan
      rw [crcLoop, if_neg hhead]
      by_cases hrest : rest = []
      · rw [if_pos hrest, hrest, softCrc32_nil]
      · rw [if_neg hrest]
        have hrest' : 0 < rest.length := List.length_pos_iff.mpr hrest
        simp only
        rw [ih plan.tail _ _ (fun hc => hplan (List.mem_of_mem_tail hc))
          (by rw [List.length_drop]; omega), ← softCrc32_append, List.take_append_drop]

theorem crcfile_eq {fs : FileSystem} {name content : Bytes} {r : CrcReads}
    (hopens : r.opens = true) (hreads : .failed ∉ r.reads) (hfile : fs.get name = some content) :
    crcfile fs name r = .ok (softCrc32 content 0) := by
  simp only [crcfile, hopens, if_true, hfile]
  exact crcLoop_eq _ _ _ _ hreads (Nat.lt_succ_self _)

/-- The loop stops, failing reads or not. -/
theorem crcLoop_total : ∀ (fuel : Nat) (plan : List ReadOutcome) (rest : Bytes) (crc : UInt32),
    rest.length < fuel → ∃ result, crcLoop fuel plan rest crc = .ok result := by
  intro fuel
  induction fuel with
  | zero => intro plan rest crc h; omega
  | succ fuel ih =>
      intro plan rest crc hlen
      rw [crcLoop]
      split
      · exact ⟨crc, rfl⟩
      · split
        · exact ⟨crc, rfl⟩
        · rename_i hrest
          have hrest' : 0 < rest.length := List.length_pos_iff.mpr hrest
          exact ih plan.tail _ _ (by rw [List.length_drop]; have := readSize_pos plan; omega)

theorem crcfile_total (fs : FileSystem) (name : Bytes) (r : CrcReads) :
    ∃ result, crcfile fs name r = .ok result := by
  unfold crcfile
  split
  · split
    · exact ⟨0, rfl⟩
    · exact crcLoop_total _ _ _ _ (Nat.lt_succ_self _)
  · exact ⟨0, rfl⟩

/-! ### The standard CRC-32 -/

/-- The polynomial, with the term of highest degree in the lowest bit. -/
def crc32Poly : BitVec 32 := 0xEDB88320#32

/-- The reflected CRC-32, bit by bit. -/
def crc32 (data : Bytes) : UInt32 :=
  ⟨Lfsr.crc crc32Poly 0xFFFFFFFF#32 0xFFFFFFFF#32 (data.map UInt8.toBitVec)⟩

theorem crc32Table_entry : ∀ i : Fin 256,
    (crc32Table.getD i 0).toBitVec = (Lfsr.shift crc32Poly)^[8] (BitVec.ofNat 32 i) := by
  decide +kernel

/-- **A byte of `soft_crc32` is a byte fed to the register.** -/
theorem crc32Step_feed (crc : UInt32) (b : UInt8) :
    (crc32Step crc b).toBitVec = Lfsr.feed crc32Poly crc.toBitVec b.toBitVec := by
  have hlow : ((crc ^^^ b.toUInt32) &&& 0xFF).toNat < 256 := by
    rw [UInt32.toNat_and]
    exact Nat.lt_of_le_of_lt Nat.and_le_right (by decide)
  have hindex : BitVec.ofNat 32 ((crc ^^^ b.toUInt32) &&& 0xFF).toNat
      = (crc.toBitVec ^^^ b.toBitVec.setWidth 32) &&& 0xFF#32 := by
    rw [← UInt32.toNat_toBitVec, BitVec.ofNat_toNat, BitVec.setWidth_eq]
    rfl
  have hentry := crc32Table_entry ⟨_, hlow⟩
  rw [Lfsr.feed_eq, crc32Step, UInt32.toBitVec_xor, hentry, hindex]
  rfl

theorem softCrc32_crc (data : Bytes) (crcInit : UInt32) :
    (softCrc32 data crcInit).toBitVec
      = Lfsr.crc crc32Poly (crcInit ^^^ 0xFFFFFFFF).toBitVec 0xFFFFFFFF#32
          (data.map UInt8.toBitVec) := by
  have hfold : ∀ s : UInt32, (data.foldl crc32Step s).toBitVec
      = (data.map UInt8.toBitVec).foldl (Lfsr.feed crc32Poly) s.toBitVec := by
    induction data with
    | nil => intro s; rfl
    | cons b rest ih =>
        intro s
        rw [List.foldl_cons, List.map_cons, List.foldl_cons, ih, crc32Step_feed]
  rw [softCrc32, UInt32.toBitVec_xor, hfold]
  rfl

theorem softCrc32_eq_crc32 (data : Bytes) : softCrc32 data 0 = crc32 data :=
  UInt32.toBitVec_inj.mp (softCrc32_crc data 0)

/-- **`crcfile` computes the CRC-32 of the file**, in whatever pieces it is read. -/
theorem crcfile_crc32 (fs : FileSystem) (name content : Bytes) (r : CrcReads)
    (hopens : r.opens = true) (hreads : .failed ∉ r.reads) (hfile : fs.get name = some content) :
    crcfile fs name r = .ok (crc32 content) := by
  rw [crcfile_eq hopens hreads hfile, softCrc32_eq_crc32]

/-- The check value of the standard. -/
theorem crcfile_check : crcfile (FileSystem.put (fun _ => none) (ascii "/f") (ascii "123456789"))
    (ascii "/f") ⟨true, [.upTo 4]⟩ = .ok 0xCBF43926 := by
  rw [crcfile_crc32 _ _ (ascii "123456789") _ rfl (by decide) (FileSystem.get_put _ _ _)]
  decide +kernel

/-- **Damage to four bytes in a row always shows**, in `soft_crc32` and in what `crcfile`
says of two files that differ by it. -/
theorem burst_detected (p s a b : Bytes) (crcInit : UInt32) (ha : a.length = 4)
    (hb : b.length = 4) (hne : a ≠ b) :
    softCrc32 (p ++ a ++ s) crcInit ≠ softCrc32 (p ++ b ++ s) crcInit ∧
    ∀ (fs fs' : FileSystem) (name : Bytes) (r r' : CrcReads), r.opens = true → r'.opens = true →
      .failed ∉ r.reads → .failed ∉ r'.reads →
      fs.get name = some (p ++ a ++ s) → fs'.get name = some (p ++ b ++ s) →
      crcfile fs name r ≠ crcfile fs' name r' := by
  have hdiffer : ∀ init, softCrc32 (p ++ a ++ s) init ≠ softCrc32 (p ++ b ++ s) init := by
    intro init heq
    have hcrc := congrArg UInt32.toBitVec heq
    rw [softCrc32_crc, softCrc32_crc] at hcrc
    simp only [List.map_append] at hcrc
    refine Lfsr.crc_burst (by decide) _ _ ?_ ?_ ?_ hcrc
    · rw [List.length_map, List.length_map, ha, hb]
    · simp [ha]
    · intro hsame
      exact hne ((List.map_inj_right fun _ _ => UInt8.toBitVec_inj.mp).mp hsame)
  refine ⟨hdiffer crcInit, ?_⟩
  intro fs fs' name r r' hopens hopens' hreads hreads' hfile hfile'
  rw [crcfile_eq hopens hreads hfile, crcfile_eq hopens' hreads' hfile']
  intro heq
  exact hdiffer 0 (Except.ok.inj heq)

/-- One digit of the version in an image. -/
theorem burst_detected_image :
    softCrc32 (ascii "ele" ++ ascii "v1.0" ++ ascii "bin") 0
      ≠ softCrc32 (ascii "ele" ++ ascii "v1.1" ++ ascii "bin") 0 ∧
    crcfile (FileSystem.put (fun _ => none) (ascii "/f") (ascii "ele" ++ ascii "v1.0" ++ ascii "bin"))
        (ascii "/f") ⟨true, []⟩
      ≠ crcfile (FileSystem.put (fun _ => none) (ascii "/f")
          (ascii "ele" ++ ascii "v1.1" ++ ascii "bin")) (ascii "/f") ⟨true, [.upTo 3]⟩ := by
  obtain ⟨hcrc, hfile⟩ := burst_detected (ascii "ele") (ascii "bin") (ascii "v1.0") (ascii "v1.1") 0
    (by decide) (by decide) (by decide)
  exact ⟨hcrc, hfile _ _ _ _ _ rfl rfl (by simp) (by simp) (FileSystem.get_put _ _ _)
    (FileSystem.get_put _ _ _)⟩

end EleDs
