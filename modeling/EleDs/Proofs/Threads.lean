/-
What the two threads do to the stream.

Everything here is read off one list of what a step can do, `SysStep`, in terms of the
queue the ring buffer stands for.  The semaphore counts gets that are owed: there are
never more bytes in the buffer than the permits, the get under way and the release
under way can fetch.  Nothing gets lost but what a put found no room for, and a put
that finds room for a part only says nothing about the rest.
-/
import EleDs.Lib.Machine
import EleDs.Model.Threads
import EleDs.Proofs.Ringbuffer

namespace EleDs

open CMem Machine

/-- One step of the system. -/
def Steps (s : Sys) (a : Act) (s' : Sys) : Prop := s.step a = some s'

theorem steps_unique (s : Sys) (a : Act) (s₁ s₂ : Sys) (h₁ : Steps s a s₁) (h₂ : Steps s a s₂) :
    s₁ = s₂ := by
  unfold Steps at h₁ h₂
  rw [h₁] at h₂
  cases h₂
  rfl

/-! ### What a step can do -/

/-- Everything a step can do, with `q` and `q'` in the buffer before and after it. -/
inductive SysStep (s : Sys) (q : Bytes) : Act → Sys → Bytes → Prop where
  /-- There is no room, and the chunk is refused. -/
  | refused (chunk : Packet) (rb : RtRingbuffer recvBuffSize) (hspace : s.rb.spaceLen = 0) :
      SysStep s q (.recv chunk)
        { s with rb := rb, received := s.received ++ [chunk.data], putFailed := true } q
  | stored (chunk : Packet) (rb : RtRingbuffer recvBuffSize) (hspace : 0 < s.rb.spaceLen)
      (hp : s.producer = .receiving) :
      SysStep s q (.recv chunk)
        { s with rb := rb, received := s.received ++ [chunk.data], producer := .releasing }
        (q ++ chunk.data.take s.rb.spaceLen)
  | handed (hp : s.producer = .releasing) (hc : s.consumer = .suspended) :
      SysStep s q .release { s with producer := .receiving, consumer := .getting } q
  | counted (hp : s.producer = .releasing) (hc : s.consumer ≠ .suspended) :
      SysStep s q .release { s with producer := .receiving, sem := s.sem + 1 } q
  | saturated (hp : s.producer = .releasing) (hsem : semValueMax ≤ s.sem) :
      SysStep s q .release { s with producer := .receiving } q
  | took (hsem : 0 < s.sem) (hc : s.consumer = .running) :
      SysStep s q .take { s with sem := s.sem - 1, consumer := .getting } q
  | waits (hsem : s.sem = 0) (hc : s.consumer = .running) :
      SysStep s q .take { s with consumer := .suspended } q
  | gaveUp (hc : s.consumer = .suspended) :
      SysStep s q .timeout { s with consumer := .running } q
  | fetched (rb : RtRingbuffer recvBuffSize) (hc : s.consumer = .getting) :
      SysStep s q .get { s with rb := rb, got := s.got ++ [q.take packSize], consumer := .running }
        (q.drop packSize)

theorem step_cases {s s' : Sys} {a : Act} (h : Steps s a s') :
    SysStep s s.rb.contents a s' s'.rb.contents := by
  unfold Steps Sys.step at h
  cases a with
  | recv chunk =>
      simp only [Option.ite_none_right_eq_some, Option.some.injEq] at h
      obtain ⟨hp, rfl⟩ := h
      obtain ⟨hresult, hcontents⟩ := s.rb.put_spec chunk.data
      have hchunk := chunk.nonempty
      unfold recvPut
      by_cases hspace : s.rb.spaceLen = 0
      · rw [hspace, List.take_zero, List.append_nil] at hcontents
        simp only [hresult, hspace, Nat.min_zero, if_true, hcontents]
        exact .refused chunk _ hspace
      · simp only [hresult, show ¬ min chunk.data.length s.rb.spaceLen = 0 by omega, if_false,
          hcontents]
        exact .stored chunk _ (Nat.pos_of_ne_zero hspace) hp
  | release =>
      simp only [Option.ite_none_right_eq_some, Option.some.injEq] at h
      obtain ⟨hp, rfl⟩ := h
      unfold semRelease
      by_cases hc : s.consumer = .suspended
      · rw [if_pos hc]
        exact .handed hp hc
      · rw [if_neg hc]
        by_cases hsem : s.sem < semValueMax
        · rw [if_pos hsem]
          exact .counted hp hc
        · rw [if_neg hsem]
          exact .saturated hp (Nat.not_lt.mp hsem)
  | take =>
      simp only [Option.ite_none_right_eq_some, Option.some.injEq] at h
      obtain ⟨hc, rfl⟩ := h
      unfold semTake
      by_cases hsem : s.sem > 0
      · rw [if_pos hsem]
        exact .took hsem hc
      · rw [if_neg hsem]
        exact .waits (by omega) hc
  | timeout =>
      simp only [Option.ite_none_right_eq_some, Option.some.injEq] at h
      obtain ⟨hc, rfl⟩ := h
      exact .gaveUp hc
  | get =>
      simp only [Option.ite_none_right_eq_some, Option.some.injEq] at h
      obtain ⟨hc, rfl⟩ := h
      obtain ⟨hdata, hrest⟩ := s.rb.get_spec packSize
      have hstep := SysStep.fetched (q := s.rb.contents) (s.rb.get packSize).2 hc
      rw [← hdata, ← hrest] at hstep
      exact hstep

/-! ### The semaphore -/

/-- How many gets are owed besides the permits of the semaphore. -/
def Sys.owed (s : Sys) : Nat :=
  (if s.consumer = .getting then 1 else 0) + (if s.producer = .releasing then 1 else 0)

/-- The bytes in the buffer are accounted for, and nobody waits while there is a permit. -/
structure Accounted (s : Sys) : Prop where
  bytes : s.rb.contents.length ≤ packSize * (s.sem + s.owed)
  waiting : s.consumer = .suspended → s.sem = 0

theorem init_accounted : Accounted Sys.init := by
  refine ⟨?_, fun h => nomatch h⟩
  rw [Sys.init, RtRingbuffer.contents_init]
  exact Nat.zero_le _

theorem accounted_step (s : Sys) (a : Act) (s' : Sys) (h : Accounted s) (hstep : Steps s a s') :
    Accounted s' := by
  have hbytes := h.bytes
  have hwait := h.waiting
  have hcap : s.rb.contents.length ≤ recvBuffSize := by
    rw [s.rb.length_contents]
    exact s.rb.dataLen_le
  have hcases := step_cases hstep
  generalize s.rb.contents = q at hbytes hcap hcases
  generalize hq' : s'.rb.contents = q' at hcases
  simp only [Sys.owed, show packSize = 1500 from rfl, show recvBuffSize = 15000 from rfl]
    at hbytes hcap
  cases hcases with
  | refused chunk rb hspace => exact ⟨by rw [hq']; exact hbytes, hwait⟩
  | stored chunk rb hspace hp =>
      refine ⟨?_, hwait⟩
      have hfits : chunk.data.length ≤ 1500 := chunk.fits
      simp only [hp, reduceCtorEq, if_false] at hbytes
      simp only [hq', Sys.owed, if_true, packSize, List.length_append, List.length_take]
      omega
  | handed hp hc =>
      refine ⟨?_, fun h => nomatch h⟩
      simp only [hp, hc, reduceCtorEq, if_false, if_true] at hbytes
      simp only [hq', Sys.owed, reduceCtorEq, if_false, if_true, packSize]
      omega
  | counted hp hc =>
      refine ⟨?_, fun h => absurd h hc⟩
      simp only [hp, if_true] at hbytes
      simp only [hq', Sys.owed, reduceCtorEq, if_false, packSize]
      omega
  | saturated hp hsem =>
      -- the permits alone are good for more than the buffer holds
      refine ⟨?_, hwait⟩
      simp only [hq', packSize, semValueMax] at hsem ⊢
      omega
  | took hsem hc =>
      refine ⟨?_, fun h => nomatch h⟩
      simp only [hc, reduceCtorEq, if_false] at hbytes
      simp only [hq', Sys.owed, if_true, packSize]
      omega
  | waits hsem hc =>
      refine ⟨?_, fun _ => hsem⟩
      simp only [hc, reduceCtorEq, if_false] at hbytes
      simp only [hq', Sys.owed, reduceCtorEq, if_false, packSize]
      omega
  | gaveUp hc =>
      refine ⟨?_, fun h => nomatch h⟩
      simp only [hc, reduceCtorEq, if_false] at hbytes
      simp only [hq', Sys.owed, reduceCtorEq, if_false, packSize]
      omega
  | fetched rb hc =>
      refine ⟨?_, fun h => nomatch h⟩
      simp only [hc, if_true] at hbytes
      simp only [hq', Sys.owed, reduceCtorEq, if_false, packSize, List.length_drop]
      omega

/-- **Outside a release the buffer holds no more than the permits and the get under way can
fetch,** so nobody waits while there is data. -/
theorem no_stranded_bytes (acts : List Act) (s : Sys) (hrun : Run Steps Sys.init acts s)
    (hp : s.producer = .receiving) :
    s.rb.dataLen ≤ packSize * (s.sem + if s.consumer = .getting then 1 else 0) ∧
      (s.consumer ≠ .getting → s.sem = 0 → s.rb.dataLen = 0) ∧
      (s.consumer = .suspended → s.rb.dataLen = 0) := by
  have h := run_preserves accounted_step hrun init_accounted
  have hbytes := h.bytes
  rw [s.rb.length_contents, Sys.owed, if_neg (c := s.producer = .releasing) (by rw [hp]; decide),
    Nat.add_zero] at hbytes
  have hempty : s.consumer ≠ .getting → s.sem = 0 → s.rb.dataLen = 0 := by
    intro hc h0
    rw [h0, if_neg hc] at hbytes
    omega
  refine ⟨hbytes, hempty, ?_⟩
  intro hs
  exact hempty (by rw [hs]; decide) (h.waiting hs)

/-- A chunk of one byte. -/
def oneByte : Packet := ⟨[1], by decide, by decide⟩

/-- Run some steps, if they can be taken. -/
def Sys.runs (s : Sys) : List Act → Option Sys
  | [] => some s
  | a :: rest => (s.step a).bind fun s' => s'.runs rest

theorem run_of_runs {acts : List Act} : ∀ {s s' : Sys}, s.runs acts = some s' → Run Steps s acts s' := by
  induction acts with
  | nil => intro s s' h; cases h; exact Run.nil s
  | cons a rest ih =>
      intro s s' h
      obtain ⟨mid, hstep, hrest⟩ := Option.bind_eq_some_iff.mp h
      exact Run.cons hstep (ih hrest)

/-- One byte received and released. -/
def afterRelease : Sys := { semRelease (recvPut Sys.init oneByte) with producer := .receiving }

theorem run_afterRelease : Run Steps Sys.init [.recv oneByte, .release] afterRelease :=
  run_of_runs rfl

theorem no_stranded_bytes_released :
    afterRelease.sem = 1 ∧ afterRelease.rb.dataLen ≤ packSize * (afterRelease.sem + 0) :=
  ⟨rfl, (no_stranded_bytes [.recv oneByte, .release] afterRelease run_afterRelease rfl).1⟩

/-- With the permit taken and the byte not yet fetched, the count is 0 and the buffer is not
empty. -/
theorem stranded_refuted :
    ∃ s, Run Steps Sys.init [.recv oneByte, .release, .take] s ∧ s.producer = .receiving ∧
      s.sem = 0 ∧ ¬ s.rb.dataLen ≤ packSize * s.sem :=
  ⟨semTake afterRelease, run_of_runs rfl, rfl, rfl, by decide⟩

/-! ### The stream -/

/-- The put of this step, if it is one, is not cut short: it finds no room at all, or room
for the whole chunk. -/
def PutWhole (s : Sys) : Act → Prop
  | .recv chunk => s.rb.spaceLen = 0 ∨ chunk.data.length ≤ s.rb.spaceLen
  | _ => True

/-- What was handed over and what is in the buffer is all that was received. -/
def Lossless (s : Sys) : Prop := s.got.flatten ++ s.rb.contents = s.received.flatten

/-- The bytes that have gone. -/
def Sys.lost (s : Sys) : Int :=
  s.received.flatten.length - (s.got.flatten ++ s.rb.contents).length

/-- A put that is not cut short, and has not failed, loses nothing. -/
theorem lossless_step {s s' : Sys} {a : Act} (hok : PutWhole s a) (hstep : Steps s a s')
    (h : s.putFailed = false → Lossless s) : s'.putFailed = false → Lossless s' := by
  unfold Lossless at h ⊢
  have hcases := step_cases hstep
  generalize s.rb.contents = q at h hcases
  generalize s'.rb.contents = q' at hcases ⊢
  cases hcases with
  | refused chunk rb hspace => intro hf; cases hf
  | stored chunk rb hspace hp =>
      intro hf
      have hroom : chunk.data.length ≤ s.rb.spaceLen := by
        rcases hok with h0 | hle
        · omega
        · exact hle
      simp only [List.take_of_length_le hroom, List.flatten_append, List.flatten_singleton,
        ← h hf, List.append_assoc]
  | fetched rb hc =>
      intro hf
      simp only [List.flatten_append, List.flatten_singleton, List.append_assoc,
        List.take_append_drop]
      exact h hf
  | handed hp hc => exact h
  | counted hp hc => exact h
  | saturated hp hsem => exact h
  | took hsem hc => exact h
  | waits hsem hc => exact h
  | gaveUp hc => exact h

/-- No step brings a byte back, and a put that is cut short loses one. -/
theorem lost_step {s s' : Sys} {a : Act} (hstep : Steps s a s') :
    s.lost ≤ s'.lost ∧ (¬ PutWhole s a → s.lost < s'.lost) := by
  unfold Sys.lost
  have hcases := step_cases hstep
  generalize s.rb.contents = q at hcases ⊢
  generalize s'.rb.contents = q' at hcases ⊢
  cases hcases with
  | refused chunk rb hspace =>
      refine ⟨?_, fun hcut => absurd (Or.inl hspace) hcut⟩
      simp only [List.flatten_append, List.flatten_singleton, List.length_append]
      omega
  | stored chunk rb hspace hp =>
      simp only [List.flatten_append, List.flatten_singleton, List.length_append, List.length_take]
      refine ⟨by omega, ?_⟩
      intro hcut
      obtain ⟨-, hlt⟩ := not_or.mp hcut
      omega
  | fetched rb hc =>
      refine ⟨?_, fun hcut => absurd trivial hcut⟩
      simp only [List.flatten_append, List.flatten_singleton, List.length_append, List.length_take,
        List.length_drop]
      omega
  | handed hp hc => exact ⟨Int.le_refl _, fun hcut => absurd trivial hcut⟩
  | counted hp hc => exact ⟨Int.le_refl _, fun hcut => absurd trivial hcut⟩
  | saturated hp hsem => exact ⟨Int.le_refl _, fun hcut => absurd trivial hcut⟩
  | took hsem hc => exact ⟨Int.le_refl _, fun hcut => absurd trivial hcut⟩
  | waits hsem hc => exact ⟨Int.le_refl _, fun hcut => absurd trivial hcut⟩
  | gaveUp hc => exact ⟨Int.le_refl _, fun hcut => absurd trivial hcut⟩

theorem lost_run {s s' : Sys} {acts : List Act} (h : Run Steps s acts s') :
    s.lost ≤ s'.lost ∧ (¬ Along Steps PutWhole s acts → s.lost < s'.lost) := by
  induction h with
  | nil s => exact ⟨Int.le_refl _, fun hcut => absurd along_nil hcut⟩
  | @cons s mid final a rest hone _ ih =>
      obtain ⟨hle, hlt⟩ := lost_step hone
      refine ⟨Int.le_trans hle ih.1, ?_⟩
      intro hcut
      by_cases hok : PutWhole s a
      · have hrest : ¬ Along Steps PutWhole mid rest := by
          intro hrest
          refine hcut (along_cons hok fun mid' hmid' => ?_)
          rw [steps_unique _ _ _ _ hmid' hone]
          exact hrest
        exact Int.lt_of_le_of_lt hle (ih.2 hrest)
      · exact Int.lt_of_lt_of_le (hlt hok) ih.1

/-- **A run without a refused put keeps the stream just when no put is cut short.** -/
theorem lossless_iff (acts : List Act) (s : Sys) (hrun : Run Steps Sys.init acts s)
    (hput : s.putFailed = false) :
    Lossless s ↔ Along Steps PutWhole Sys.init acts := by
  have hinit : Lossless Sys.init := by
    rw [Lossless, Sys.init, RtRingbuffer.contents_init]
    rfl
  constructor
  · intro h
    by_contra hcut
    have hlost := (lost_run hrun).2 hcut
    have h0 : Sys.init.lost = 0 := by
      rw [Sys.lost, hinit]
      exact Int.sub_self _
    rw [h0, Sys.lost, h] at hlost
    omega
  · intro hok
    have hkeep : ∀ (past : List Act) s a s', (s.putFailed = false → Lossless s) → PutWhole s a →
        Steps s a s' → (s'.putFailed = false → Lossless s') :=
      fun _ _ _ _ h hok hstep => lossless_step hok hstep h
    exact run_invariant hkeep hrun [] (fun _ => hinit) hok hput

theorem lossless_released : Lossless afterRelease :=
  (lossless_iff [.recv oneByte, .release] afterRelease run_afterRelease rfl).mpr
    (along_cons (Or.inr (by decide)) fun _ _ => along_cons trivial fun _ _ => along_nil)

/-- A chunk as large as `recv` returns one. -/
def fullChunk : Packet := .full 1

/-- One byte and ten full chunks, for a buffer of ten full chunks. -/
def overfill : List Act :=
  [.recv oneByte, .release] ++ (List.replicate 10 [.recv fullChunk, .release]).flatten

/-- The last put drops a byte and reports no failure. -/
theorem lossless_refuted :
    ∃ s, Run Steps Sys.init overfill s ∧ s.putFailed = false ∧ ¬ Lossless s := by
  have hend : (Sys.init.runs overfill).map (fun s =>
      (s.putFailed, s.got.flatten.length + s.rb.dataLen, s.received.flatten.length))
        = some (false, 15000, 15001) := by decide +kernel
  obtain ⟨s, hs, hvalues⟩ := Option.map_eq_some_iff.mp hend
  simp only [Prod.mk.injEq] at hvalues
  refine ⟨s, run_of_runs hs, hvalues.1, ?_⟩
  intro h
  have hlen := congrArg List.length h
  rw [List.length_append, s.rb.length_contents, hvalues.2.1, hvalues.2.2] at hlen
  cases hlen

end EleDs
