/-
Who owns the update file.

The file is opened in one state and closed in another, by `clear_client_info`, which
every way out of a transfer ends in, some of them twice.  What tells it whether there
is anything to close is the sign of `update_file_fd`.  `Owned` says that the sign is
right: the descriptor is positive just while it is open, and every call made so far
was one that may be made.  Each of the things a turn can do keeps it.

The descriptor is also a word of memory, behind the arrays the memo and the weather are
copied into.  A copy that runs past its array leaves nothing of this, so the copies have
to stay inside, and `descriptorsKept_iff` says that nothing else is asked of the packets.
-/
import Mathlib.Data.List.Induction
import EleDs.Proofs.Runs

namespace EleDs

open CMem CJson Machine

/-! ### The calls made so far -/

/-- The open descriptors after one more call. -/
def openAfter (fds : List Int) : Event → List Int
  | .opened _ fd => if 0 ≤ fd then fd :: fds else fds
  | .wrote _ _ _ => fds
  | .closed fd => fds.erase fd
  | .savedCfg _ => fds
  | .comparedCrc _ _ => fds

/-- The descriptors `open` has returned and `close` has not been called on since. -/
def openNow (trace : List Event) : List Int := trace.foldl openAfter []

theorem openNow_snoc (trace : List Event) (e : Event) :
    openNow (trace ++ [e]) = openAfter (openNow trace) e := by
  rw [openNow, List.foldl_append]
  rfl

/-- What the next call may be: the file is opened, and its checksum computed, while nothing
is open, and closed while it is what is open. -/
def MayFollow (before : List Event) : Event → Prop
  | .opened _ _ => openNow before = []
  | .wrote _ _ _ => True
  | .closed fd => 0 < fd ∧ openNow before = [fd]
  | .savedCfg _ => True
  | .comparedCrc _ _ => openNow before = []

/-- How often `open` has returned `fd`. -/
def timesOpened (fd : Int) (trace : List Event) : Nat :=
  trace.countP fun
    | .opened _ fd' => fd' == fd
    | _ => false

/-- How often `fd` has been closed. -/
def timesClosed (fd : Int) (trace : List Event) : Nat := trace.count (.closed fd)

theorem openNow_length_le {trace : List Event} (h : Respects MayFollow trace) :
    (openNow trace).length ≤ 1 := by
  induction trace using List.reverseRecOn with
  | nil => decide
  | append_singleton trace e ih =>
      have hlen := ih h.left
      have hlast := h.last
      rw [openNow_snoc]
      cases e with
      | opened name fd =>
          have hnone : openNow trace = [] := hlast
          rw [hnone, openAfter]
          split <;> simp
      | closed fd => exact Nat.le_trans List.erase_sublist.length_le hlen
      | wrote fd data ret => exact hlen
      | savedCfg ret => exact hlen
      | comparedCrc a b => exact hlen

/-- A descriptor has been closed as often as it has been opened, but for being open now. -/
theorem timesOpened_eq {trace : List Event} (h : Respects MayFollow trace) {fd : Int} (hfd : 0 ≤ fd) :
    timesOpened fd trace = timesClosed fd trace + (openNow trace).count fd := by
  induction trace using List.reverseRecOn with
  | nil => rfl
  | append_singleton trace e ih =>
      have hcount := ih h.left
      have hlast := h.last
      simp only [timesOpened, timesClosed, List.countP_append, List.count_append] at hcount ⊢
      rw [openNow_snoc]
      cases e with
      | opened name fd' =>
          by_cases hsame : fd' = fd
          · subst hsame
            simp [openAfter, hfd]
            omega
          · have hother : (openAfter (openNow trace) (.opened name fd')).count fd
                = (openNow trace).count fd := by
              rw [openAfter]
              split
              · rw [List.count_cons_of_ne hsame]
              · rfl
            simp [hother, hsame]
            omega
      | closed fd' =>
          have hone : openNow trace = [fd'] := hlast.2
          by_cases hsame : fd' = fd
          · subst hsame
            rw [hone] at hcount ⊢
            simp [openAfter] at hcount ⊢
            omega
          · rw [hone] at hcount ⊢
            simp [openAfter, hsame] at hcount ⊢
            omega
      | wrote fd' data ret => simpa [openAfter] using hcount
      | savedCfg ret => simpa [openAfter] using hcount
      | comparedCrc a b => simpa [openAfter] using hcount

/-! ### The descriptor in the receive state -/

/-- The calls were in order, and the descriptor is positive just while it is open. -/
structure Owned (d : Device) : Prop where
  calls : Respects MayFollow d.trace
  current : openNow d.trace = if 0 < d.recvInfo.updateFileFd then [d.recvInfo.updateFileFd] else []

/-- What neither calls nor touches the descriptor keeps it. -/
theorem Owned.of_eq {d d' : Device} (h : Owned d) (htrace : d'.trace = d.trace)
    (hfd : d'.recvInfo.updateFileFd = d.recvInfo.updateFileFd) : Owned d' where
  calls := by rw [htrace]; exact h.calls
  current := by rw [htrace, hfd]; exact h.current

theorem Owned.clear {d : Device} (h : Owned d) : Owned (clearClientInfo d) := by
  have hcur := h.current
  by_cases hfd : 0 < d.recvInfo.updateFileFd
  · rw [if_pos hfd] at hcur
    have htrace : (clearClientInfo d).trace = d.trace ++ [.closed d.recvInfo.updateFileFd] := by
      simp [clearClientInfo, hfd, closeFd]
    have hnew : (clearClientInfo d).recvInfo.updateFileFd = -1 := by
      simp [clearClientInfo, hfd, closeFd]
    constructor
    · rw [htrace]
      exact h.calls.snoc ⟨hfd, hcur⟩
    · rw [htrace, hnew, openNow_snoc, hcur]
      simp [openAfter]
  · exact h.of_eq (by simp [clearClientInfo, hfd]) (by simp [clearClientInfo, hfd])

/-- After a clear nothing is open. -/
theorem Owned.openNow_clear {d : Device} (h : Owned d) : openNow (clearClientInfo d).trace = [] := by
  have hfd := (clearClientInfo_idle d).updateFileFd
  rw [h.clear.current, if_neg (by omega)]

theorem Owned.finish {d : Device} (h : Owned d) (o : Outcomes) : Owned (finish d o) := by
  unfold EleDs.finish
  split
  · constructor
    · exact h.clear.calls.snoc h.openNow_clear
    · rw [openNow_snoc, openAfter]
      exact h.clear.current
  · exact h.clear

theorem Owned.settle {d : Device} (h : Owned d) (len : Nat) (o : Outcomes) :
    Owned (settle d len o).2 := by
  have hcount : Owned (d.count len) := h.of_eq rfl rfl
  unfold EleDs.settle
  split
  · exact hcount.finish o
  · exact hcount

theorem Owned.storeWeather {d : Device} (h : Owned d) (cj : CJsonLib) (w : Buf weatherArraySize)
    (o : SaveOutcome) : Owned (d.storeWeather cj w o) where
  calls := h.calls.snoc trivial
  current := by
    show openNow (d.trace ++ [_]) = _
    rw [openNow_snoc, openAfter]
    exact h.current

theorem openUpdateFile_trace (d : Device) (fd : Int) :
    (openUpdateFile d fd).trace = d.trace ++ [.opened d.recvInfo.updateFileName.str fd] := by
  unfold openUpdateFile
  simp only
  split <;> rfl

theorem openUpdateFile_fd (d : Device) (fd : Int) :
    (openUpdateFile d fd).recvInfo.updateFileFd = fd := by
  unfold openUpdateFile
  simp only
  split <;> rfl

theorem writeFd_trace (d : Device) (fd : Int) (data : Bytes) (w : WriteOutcome) :
    ∃ ret, (writeFd d fd data w).2.trace = d.trace ++ [.wrote fd data ret] := by
  unfold writeFd
  split
  · exact ⟨_, rfl⟩
  · exact ⟨_, rfl⟩

theorem Owned.openUpdateFile {d : Device} (h : Owned d) (hfd : d.recvInfo.updateFileFd ≤ 0)
    {fd : Int} (hne : fd ≠ 0) : Owned (openUpdateFile d fd) := by
  have hnone : openNow d.trace = [] := by rw [h.current, if_neg (by omega)]
  constructor
  · rw [openUpdateFile_trace]
    exact h.calls.snoc hnone
  · rw [openUpdateFile_trace, openUpdateFile_fd, openNow_snoc, hnone, openAfter]
    by_cases hpos : 0 < fd
    · rw [if_pos hpos, if_pos (by omega)]
    · rw [if_neg hpos, if_neg (by omega)]

theorem Owned.writeFd {d : Device} (h : Owned d) (fd : Int) (data : Bytes) (w : WriteOutcome) :
    Owned (writeFd d fd data w).2 := by
  obtain ⟨ret, htrace⟩ := writeFd_trace d fd data w
  have hsame : (EleDs.writeFd d fd data w).2.recvInfo.updateFileFd = d.recvInfo.updateFileFd := by
    unfold EleDs.writeFd
    split <;> rfl
  constructor
  · rw [htrace]
    exact h.calls.snoc trivial
  · rw [htrace, hsame, openNow_snoc, openAfter]
    exact h.current

theorem Owned.storeUpdate {d : Device} (h : Owned d) (data : Bytes) {o : Outcomes}
    (hne : o.openRet ≠ 0) : Owned (d.storeUpdate data o).2 := by
  refine storeUpdate_rule data o h ?_ ?_
  · intro hfd
    exact h.openUpdateFile hfd hne
  · intro opened hopened
    exact hopened.writeFd _ _ _

/-- **Whatever a turn does, the descriptor stays the machine's own.** -/
theorem Turn.owned {cj : CJsonLib} {b : Bytes} {i : Input} {d d' : Device} (h : Turn cj b i d d')
    (hd : Owned d) (hne : i.outcomes.openRet ≠ 0) : Owned d' := by
  cases h with
  | refused hs => exact hd.clear
  | memo text memo hs hread hcopy =>
      have hmemo : Owned (d.withMemo memo) := hd.of_eq rfl rfl
      exact hmemo.clear
  | weather n hs hread => exact hd.of_eq rfl rfl
  | update info name hs hread => exact hd.of_eq rfl rfl
  | drained hs _ => exact hd.finish _
  | weatherData w hs hpos ht hcopy => exact (hd.storeWeather cj w _).settle _ _
  | updateData hs hpos ht => exact (hd.storeUpdate _ hne).settle _ _
  | updateFailed hs ht => exact (hd.storeUpdate _ hne).clear
  | otherType hs => exact hd.clear

/-! ### Copies that stay inside their arrays -/

/-- The copies made for the packet end inside the arrays they are for. -/
structure CopiesFit (cj : CJsonLib) (p : Parser) (i : Input) : Prop where
  memo : p.dev.recvInfo.recvState = .crsNone → 0 ∈ (receive p.buffer i.packet).data →
    ∀ text, readHeader cj (cstr (receive p.buffer i.packet).data) = .ok (.memo text) →
      text.length < memoSize
  weather : p.dev.recvInfo.recvState = .crsData →
    p.dev.recvInfo.curparseType = .servermsgWeather →
    0 < p.dev.recvInfo.datalen →
    p.dev.recvInfo.recvLen + i.packet.data.length ≤ weatherArraySize

theorem threadParseRecvData_error {cj : CJsonLib} {p : Parser} {i : Input} {e : Fault} :
    threadParseRecvData cj p i = .error e ↔
      parseRecvData cj p.dev (receive p.buffer i.packet).data i.packet.data.length i.outcomes
        = .error e := by
  cases hr : parseRecvData cj p.dev (receive p.buffer i.packet).data i.packet.data.length
      i.outcomes with
  | error e' =>
      unfold threadParseRecvData
      simp [hr, bind, Except.bind]
  | ok r =>
      rw [threadParseRecvData_of_ok hr]
      constructor
      · intro h; cases h
      · intro h; cases h

theorem onHeader_overrun_iff (d : Device) (h : Header) :
    d.onHeader h = .error .writeOverrun ↔ ∃ text, h = .memo text ∧ memoSize ≤ text.length := by
  constructor
  · intro herr
    by_contra hcon
    obtain ⟨r, hr⟩ := onHeader_total d (h := h) fun text ht => by
      by_contra hlong
      exact hcon ⟨text, ht, by omega⟩
    rw [hr] at herr
    cases herr
  · rintro ⟨text, rfl, hlong⟩
    have hover : memoSize < 0 + (text ++ [0]).length := by
      rw [List.length_append, List.length_singleton]
      omega
    rw [Device.onHeader, Buf.memcpy_overrun hover]
    rfl

theorem ok_ne_error_iff {ε α : Type} {a : α} {e : ε} {P : Prop} (h : P) :
    (.ok a : Except ε α) = .error e ↔ ¬ P := by
  constructor
  · intro heq
    cases heq
  · intro hno
    exact absurd h hno

/-- Between two messages only the text of a memo is copied. -/
theorem overrun_iff_idle {cj : CJsonLib} {p : Parser} {i : Input} (hidle : Idle p.dev) :
    parseRecvData cj p.dev (receive p.buffer i.packet).data i.packet.data.length i.outcomes
      = .error .writeOverrun ↔ ¬ CopiesFit cj p i := by
  have hs := hidle.recvState
  have hdata := hidle.not_receiving
  rw [parseRecvData_crsNone cj _ _ _ hs]
  by_cases h0 : 0 ∈ (receive p.buffer i.packet).data
  · rw [strlen_of_mem h0]
    show readHeader cj _ >>= p.dev.onHeader = _ ↔ _
    constructor
    · rintro herr hfit
      cases hread : readHeader cj (cstr (receive p.buffer i.packet).data) with
      | error e =>
          rw [hread] at herr
          cases herr
          exact absurd (readHeader_fault cj _ _ hread) (by decide)
      | ok header =>
          rw [hread] at herr
          obtain ⟨text, rfl, hlong⟩ := (onHeader_overrun_iff p.dev header).mp herr
          have := hfit.memo hs h0 text hread
          omega
    · intro hfit
      by_contra hno
      refine hfit ⟨?_, fun h => absurd h hdata⟩
      intro _ _ text hread
      by_contra hlong
      rw [hread] at hno
      exact hno ((onHeader_overrun_iff p.dev _).mpr ⟨text, rfl, by omega⟩)
  · rw [strlen_of_not_mem h0]
    constructor
    · intro h
      cases h
    · intro hfit
      exact absurd ⟨fun _ h => absurd h h0, fun h => absurd h hdata⟩ hfit

/-- Inside a message only weather data is copied. -/
theorem overrun_iff_busy {cj : CJsonLib} {p : Parser} {i : Input} {n : Int} {k : Nat}
    (hbusy : Busy p.dev n k) :
    parseRecvData cj p.dev (receive p.buffer i.packet).data i.packet.data.length i.outcomes
      = .error .writeOverrun ↔ ¬ CopiesFit cj p i := by
  have hs := hbusy.recvState
  have hnone : p.dev.recvInfo.recvState ≠ .crsNone := by rw [hs]; decide
  have hlen := hbusy.recvLen
  by_cases hpos : 0 < p.dev.recvInfo.datalen
  · rcases hbusy.curparseType with ht | ht
    · rw [parseRecvData_weather cj _ _ _ hs hpos ht (by omega), receive_take]
      constructor
      · rintro herr hfit
        have hfits := hfit.weather hs ht hpos
        have hroom : p.dev.recvInfo.recvLen.toNat + i.packet.data.length ≤ weatherArraySize := by
          omega
        obtain ⟨w, hcopy, -⟩ := Buf.memcpy_ok p.dev.deviceCfg.weatherInfo hroom
        rw [hcopy] at herr
        cases herr
      · intro hfit
        by_contra hno
        refine hfit ⟨fun h => absurd h hnone, ?_⟩
        intro _ _ _
        by_contra hover
        rw [Buf.memcpy_overrun (by omega)] at hno
        exact hno rfl
    · have hother : p.dev.recvInfo.curparseType ≠ .servermsgWeather := by rw [ht]; decide
      rw [parseRecvData_update cj _ _ _ hs hpos ht]
      exact ok_ne_error_iff ⟨fun h => absurd h hnone, fun _ h => absurd h hother⟩
  · rw [parseRecvData_drained cj _ _ _ hs (by omega)]
    exact ok_ne_error_iff ⟨fun h => absurd h hnone, fun _ _ h => absurd h hpos⟩

/-- **Nothing but a copy that does not fit is written outside its array.** -/
theorem overrun_iff {cj : CJsonLib} {p : Parser} {i : Input}
    (hd : Idle p.dev ∨ ∃ n k, Busy p.dev n k) :
    threadParseRecvData cj p i = .error .writeOverrun ↔ ¬ CopiesFit cj p i := by
  rw [threadParseRecvData_error]
  rcases hd with hidle | ⟨n, k, hbusy⟩
  · exact overrun_iff_idle hidle
  · exact overrun_iff_busy hbusy

/-! ### Whole runs -/

/-- What is promised of the update file: every call was one that may be made, no two
descriptors were ever open, and between two transfers every one that was opened has been
closed, once. -/
structure FileInOrder (d : Device) : Prop where
  calls : Respects MayFollow d.trace
  single : ∀ before after, d.trace = before ++ after → (openNow before).length ≤ 1
  idle : d.recvInfo.recvState = .crsNone → openNow d.trace = []
  balanced : d.recvInfo.recvState = .crsNone →
    ∀ fd, 0 ≤ fd → timesOpened fd d.trace = timesClosed fd d.trace

theorem Owned.fileInOrder {d : Device} (h : Owned d)
    (hidle : d.recvInfo.recvState = .crsNone → d.recvInfo.updateFileFd ≤ 0) : FileInOrder d := by
  have hnone : d.recvInfo.recvState = .crsNone → openNow d.trace = [] := by
    intro hs
    have := hidle hs
    rw [h.current, if_neg (by omega)]
  refine ⟨h.calls, ?_, hnone, ?_⟩
  · intro before after hsplit
    have hcalls := h.calls
    rw [hsplit] at hcalls
    exact openNow_length_le hcalls.left
  · intro hs fd hfd
    rw [timesOpened_eq h.calls hfd, hnone hs]
    rfl

/-- No packet makes the machine write outside an array, where the descriptor itself stands,
and after each the update file is in order. -/
def DescriptorsKept (cj : CJsonLib) (start : Parser) (inputs : List Input) : Prop :=
  Along (Turns cj) (fun p i => threadParseRecvData cj p i ≠ .error .writeOverrun) start inputs ∧
  ∀ before after, inputs = before ++ after →
    ∀ p, Run (Turns cj) start before p → FileInOrder p.dev

theorem owned_of_run {cj : CJsonLib} {cfg : EleDsCfg} {fs : FileSystem} {inputs : List Input}
    {p : Parser} (hrun : Run (Turns cj) (Parser.init cfg fs) inputs p)
    (hopen : ∀ i ∈ inputs, i.outcomes.openRet ≠ 0) : Owned p.dev := by
  have hinit : Owned (Parser.init cfg fs).dev := ⟨respects_nil, rfl⟩
  have hall : Along (Turns cj) (fun _ i => i.outcomes.openRet ≠ 0) (Parser.init cfg fs) inputs := by
    intro before i after hsplit mid _
    exact hopen i (by rw [hsplit]; simp)
  have hkeep : ∀ (past : List Input) (p : Parser) i p', Tracked cj (Parser.init cfg fs) past p →
      Owned p.dev → i.outcomes.openRet ≠ 0 → Turns cj p i p' → Owned p'.dev := by
    intro past p i p' htracked howned hne hstep
    exact (turn_cases htracked.receiveInv.state hstep).owned howned hne
  exact tracked_invariant hkeep hrun hinit hall

/-- A memo of two bytes fits. -/
theorem memoPacket_copiesFit :
    Along (Turns serverLib) (CopiesFit serverLib) freshParser [⟨memoPacket, .good⟩] := by
  have hstr : cstr (receive freshParser.buffer memoPacket).data = memoText := by decide +kernel
  refine along_cons ⟨?_, fun h => nomatch h⟩ fun _ _ => along_nil
  intro _ _ text hread
  rw [hstr] at hread
  have hmemo : readHeader serverLib memoText = .ok (.memo (ascii "hi")) := rfl
  rw [hmemo] at hread
  cases hread
  decide

end EleDs
