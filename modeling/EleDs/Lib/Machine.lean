/-
Runs of a machine.

A machine is a relation: from state `s`, input `i` can lead to `s'`.  A machine
that computes its successor, or fails, is the graph of that computation.  `Run`
strings steps together, and the rules at the end are the inductions over runs that
invariants need: what every step keeps holds wherever a run ends, and a machine that
can always take a step meeting its condition runs to the end of any list of inputs
that meet it.  What a machine leaves behind it is a history, and a rule for histories
says what may follow what.
-/
import Mathlib.Data.List.Basic

namespace Machine

variable {σ ι : Type}

/-- `Run R s is s'`: the inputs `is`, one after the other, lead from `s` to `s'`. -/
inductive Run (R : σ → ι → σ → Prop) : σ → List ι → σ → Prop where
  | nil (s : σ) : Run R s [] s
  | cons {s mid final : σ} {i : ι} {rest : List ι} :
      R s i mid → Run R mid rest final → Run R s (i :: rest) final

variable {R : σ → ι → σ → Prop}

theorem run_append {s mid final : σ} {l₁ l₂ : List ι} (h₁ : Run R s l₁ mid)
    (h₂ : Run R mid l₂ final) : Run R s (l₁ ++ l₂) final := by
  induction h₁ with
  | nil s => exact h₂
  | cons hstep _ ih => exact Run.cons hstep (ih h₂)

/-- A run can be taken apart where its inputs can. -/
theorem run_split {l₁ l₂ : List ι} : ∀ {s final : σ}, Run R s (l₁ ++ l₂) final →
    ∃ mid, Run R s l₁ mid ∧ Run R mid l₂ final := by
  induction l₁ with
  | nil => intro s final h; exact ⟨s, Run.nil s, h⟩
  | cons i rest ih =>
      intro s final h
      cases h with
      | cons hstep hrest =>
          obtain ⟨mid, hfirst, hsecond⟩ := ih hrest
          exact ⟨mid, Run.cons hstep hfirst, hsecond⟩

theorem run_singleton {s s' : σ} {i : ι} (h : R s i s') : Run R s [i] s' :=
  Run.cons h (Run.nil s')

/-- A machine whose steps are determined has at most one run on given inputs. -/
theorem run_unique (hdet : ∀ s i a b, R s i a → R s i b → a = b) {s a : σ} {l : List ι}
    (ha : Run R s l a) : ∀ {b : σ}, Run R s l b → a = b := by
  induction ha with
  | nil s => intro b hb; cases hb; rfl
  | cons hstep _ ih =>
      intro b hb
      cases hb with
      | cons hstep' hrest' =>
          cases hdet _ _ _ _ hstep hstep'
          exact ih hrest'

/-- Every step a run of `l` from `s` takes meets `Ok` in the state it is taken in. -/
def Along (R : σ → ι → σ → Prop) (Ok : σ → ι → Prop) (s : σ) (l : List ι) : Prop :=
  ∀ before i after, l = before ++ i :: after → ∀ mid, Run R s before mid → Ok mid i

theorem Along.head {Ok : σ → ι → Prop} {s : σ} {i : ι} {rest : List ι}
    (h : Along R Ok s (i :: rest)) : Ok s i := h [] i rest rfl s (Run.nil s)

theorem Along.tail {Ok : σ → ι → Prop} {s mid : σ} {i : ι} {rest : List ι}
    (h : Along R Ok s (i :: rest)) (hstep : R s i mid) : Along R Ok mid rest := by
  intro before j after hsplit m hrun
  exact h (i :: before) j after (by rw [hsplit]; rfl) m (Run.cons hstep hrun)

theorem Along.left {Ok : σ → ι → Prop} {s : σ} {l₁ l₂ : List ι} (h : Along R Ok s (l₁ ++ l₂)) :
    Along R Ok s l₁ := by
  intro before i after hsplit mid hrun
  exact h before i (after ++ l₂) (by rw [hsplit, List.append_assoc]; rfl) mid hrun

/-- The condition on the steps of a run is one on the first and one on the rest. -/
theorem along_cons {Ok : σ → ι → Prop} {s : σ} {i : ι} {rest : List ι} (hok : Ok s i)
    (hrest : ∀ mid, R s i mid → Along R Ok mid rest) : Along R Ok s (i :: rest) := by
  intro before j after hsplit m hrun
  cases hrun with
  | nil =>
      cases hsplit
      exact hok
  | @cons _ mid _ k before' hstep hbefore =>
      obtain ⟨rfl, hrest'⟩ := List.cons.inj hsplit
      exact hrest mid hstep before' j after hrest' m hbefore

theorem along_nil {Ok : σ → ι → Prop} {s : σ} : Along R Ok s [] := by
  intro before i after hsplit
  simp at hsplit

/-- What every step that meets the condition keeps holds wherever the run ends.  The
invariant may speak about the inputs so far. -/
theorem run_invariant {Inv : List ι → σ → Prop} {Ok : σ → ι → Prop}
    (hstep : ∀ past s i s', Inv past s → Ok s i → R s i s' → Inv (past ++ [i]) s') {s s' : σ}
    {l : List ι} (hrun : Run R s l s') :
    ∀ (past : List ι), Inv past s → Along R Ok s l → Inv (past ++ l) s' := by
  induction hrun with
  | nil s => intro past hs _; rwa [List.append_nil]
  | @cons s mid final i rest hone _ ih =>
      intro past hs hok
      have := ih (past ++ [i]) (hstep past s i mid hs hok.head hone) (hok.tail hone)
      rwa [List.append_assoc] at this

/-- The plain case: an invariant of the state that every step keeps. -/
theorem run_preserves {Inv : σ → Prop} (hstep : ∀ s i s', Inv s → R s i s' → Inv s') {s s' : σ}
    {l : List ι} (hrun : Run R s l s') (hs : Inv s) : Inv s' := by
  induction hrun with
  | nil s => exact hs
  | cons hone _ ih => exact ih (hstep _ _ _ hs hone)

/-- A machine that can take every step meeting the condition runs to the end. -/
theorem run_total {Inv : List ι → σ → Prop} {Ok : σ → ι → Prop}
    (hstep : ∀ past s i, Inv past s → Ok s i → ∃ s', R s i s' ∧ Inv (past ++ [i]) s') :
    ∀ (l past : List ι) (s : σ), Inv past s → Along R Ok s l →
      ∃ s', Run R s l s' ∧ Inv (past ++ l) s' := by
  intro l
  induction l with
  | nil => intro past s hs _; exact ⟨s, Run.nil s, by rwa [List.append_nil]⟩
  | cons i rest ih =>
      intro past s hs hok
      obtain ⟨mid, hone, hmid⟩ := hstep past s i hs hok.head
      obtain ⟨s', hrun, hs'⟩ := ih (past ++ [i]) mid hmid (hok.tail hone)
      exact ⟨s', Run.cons hone hrun, by rwa [List.append_assoc] at hs'⟩

/-! ### Histories -/

/-- Every entry of a history is one that may follow what stands before it. -/
def Respects (ok : List ι → ι → Prop) (history : List ι) : Prop :=
  ∀ before e after, history = before ++ e :: after → ok before e

theorem respects_nil {ok : List ι → ι → Prop} : Respects ok [] := by
  intro before e after hsplit
  simp at hsplit

theorem Respects.left {ok : List ι → ι → Prop} {l₁ l₂ : List ι} (h : Respects ok (l₁ ++ l₂)) :
    Respects ok l₁ := by
  intro before e after hsplit
  exact h before e (after ++ l₂) (by rw [hsplit, List.append_assoc]; rfl)

/-- A history that is kept to stays so while what is added to it may follow. -/
theorem Respects.snoc {ok : List ι → ι → Prop} {history : List ι} {e : ι}
    (h : Respects ok history) (he : ok history e) : Respects ok (history ++ [e]) := by
  intro before e' after hsplit
  rcases List.eq_nil_or_concat after with rfl | ⟨after', last, rfl⟩
  · obtain ⟨rfl, hlast⟩ := List.append_inj' hsplit rfl
    obtain ⟨rfl, -⟩ := List.cons.inj hlast
    exact he
  · have hsplit' : history ++ [e] = (before ++ e' :: after') ++ [last] := by simp [hsplit]
    exact h before e' after' (List.append_inj' hsplit' rfl).1

theorem Respects.last {ok : List ι → ι → Prop} {history : List ι} {e : ι}
    (h : Respects ok (history ++ [e])) : ok history e := h history e [] rfl

end Machine
