/-
Calls that return a value, report an error or break a rule of the language.

However a call ends, it has a state to leave behind, so what has happened before an error
or a fault can still be told.  A call is run by `on`, and the lemmas about `on` take a
sequence of calls apart by the way its first one ends.  A property of calls that sequences
have with their parts (`Compositional`) need only be shown of what a program is made of: that
they keep a fact about the state (`Keeps`) is one, that they do not break a rule another (`Never`).
-/
import Mathlib.Data.List.Basic

namespace Calls

/-- A call with faults in `φ`, error codes in `ε` and a state in `σ`. -/
abbrev Call (φ ε σ α : Type) := ExceptT ε (EStateM φ σ) α

/-- The state that is left behind. -/
def left {φ σ β : Type} : EStateM.Result φ σ β → σ
  | .ok _ s => s
  | .error _ s => s

namespace Call

variable {φ ε σ α β : Type}

/-- The call in a state: a value or an error code, or a fault. -/
def on (x : Call φ ε σ α) (s : σ) : EStateM.Result φ σ (Except ε α) := x.run.run s

/-- Break a rule. -/
def fault (f : φ) : Call φ ε σ α := ExceptT.mk (EStateM.throw f)

/-- A computation that may break a rule, as a call. -/
def lift : Except φ α → Call φ ε σ α
  | .ok a => pure a
  | .error f => fault f

/-- Make a call and go on with what it reports, error or not. -/
def attempt (x : Call φ ε σ α) : Call φ ε σ (Except ε α) := ExceptT.lift x.run

section On

variable {x : Call φ ε σ α} {f : α → Call φ ε σ β} {s s' : σ} {a : α} {e : ε} {b : φ}

@[simp] theorem on_pure (a : α) (s : σ) : (pure a : Call φ ε σ α).on s = .ok (.ok a) s := rfl

@[simp] theorem on_fault (b : φ) (s : σ) : (fault b : Call φ ε σ α).on s = .error b s := rfl

@[simp] theorem on_get (s : σ) : (get : Call φ ε σ σ).on s = .ok (.ok s) s := rfl

@[simp] theorem on_modify (g : σ → σ) (s : σ) :
    (modify g : Call φ ε σ PUnit).on s = .ok (.ok ⟨⟩) (g s) := rfl

theorem on_bind_ok (h : x.on s = .ok (.ok a) s') : (x >>= f).on s = (f a).on s' := by
  have hrun : (x >>= f).on s = match x.on s with
      | .ok (.ok a) s => (f a).on s
      | .ok (.error e) s => .ok (.error e) s
      | .error b s => .error b s := by
    simp only [on, ExceptT.run, bind, ExceptT.bind, ExceptT.mk, EStateM.run, EStateM.bind,
      ExceptT.bindCont]
    rcases x s with ⟨⟨⟩⟩ | _ <;> rfl
  rw [hrun, h]

theorem on_bind_error (h : x.on s = .ok (.error e) s') : (x >>= f).on s = .ok (.error e) s' := by
  have hx : x s = .ok (.error e) s' := h
  simp only [on, ExceptT.run, bind, ExceptT.bind, ExceptT.mk, EStateM.run, EStateM.bind, hx]
  rfl

theorem on_bind_fault (h : x.on s = .error b s') : (x >>= f).on s = .error b s' := by
  have hx : x s = .error b s' := h
  simp only [on, ExceptT.run, bind, ExceptT.bind, ExceptT.mk, EStateM.run, EStateM.bind, hx]

theorem on_attempt {r : Except ε α} (h : x.on s = .ok r s') :
    x.attempt.on s = .ok (.ok r) s' := by
  have hx : x s = .ok r s' := h
  simp only [on, attempt, ExceptT.lift, ExceptT.run, ExceptT.mk, EStateM.run, Functor.map,
    EStateM.map, hx]

theorem on_attempt_fault (h : x.on s = .error b s') : x.attempt.on s = .error b s' := by
  have hx : x s = .error b s' := h
  simp only [on, attempt, ExceptT.lift, ExceptT.run, ExceptT.mk, EStateM.run, Functor.map,
    EStateM.map, hx]

end On

/-- What a sequence returns comes from its last call, after all the others. -/
theorem bind_returns {x : Call φ ε σ α} {f : α → Call φ ε σ β} {s s' : σ} {b : β}
    (h : (x >>= f).on s = .ok (.ok b) s') :
    ∃ a mid, x.on s = .ok (.ok a) mid ∧ (f a).on mid = .ok (.ok b) s' := by
  cases hrun : x.on s with
  | error c t =>
      rw [on_bind_fault hrun] at h
      cases h
  | ok r t =>
      cases r with
      | error e =>
          rw [on_bind_error hrun] at h
          cases h
      | ok a =>
          rw [on_bind_ok hrun] at h
          exact ⟨a, t, rfl, h⟩

theorem attempt_returns {x : Call φ ε σ α} {s s' : σ} {r : Except ε α}
    (h : x.attempt.on s = .ok (.ok r) s') : x.on s = .ok r s' := by
  cases hrun : x.on s with
  | error c t =>
      rw [on_attempt_fault hrun] at h
      cases h
  | ok r' t =>
      rw [on_attempt hrun] at h
      cases h
      rfl

/-! ### Properties of sequences -/

/-- A property that a sequence of calls has when its parts have it.  The later parts must have
it for the values that can come to them. -/
structure Compositional (C : ∀ α : Type, Call φ ε σ α → Prop) : Prop where
  value : ∀ {α : Type} (a : α), C α (pure a)
  error : ∀ {α : Type} (e : ε), C α (throw e)
  read : C σ get
  attempt : ∀ {α : Type} {x : Call φ ε σ α}, C α x → C _ x.attempt
  bind_returned : ∀ {α β : Type} {x : Call φ ε σ α} {f : α → Call φ ε σ β}, C α x →
    (∀ s a s', x.on s = .ok (.ok a) s' → C β (f a)) → C β (x >>= f)

theorem Compositional.bind {C : ∀ α : Type, Call φ ε σ α → Prop} (hC : Compositional C)
    {x : Call φ ε σ α} {f : α → Call φ ε σ β} (hx : C α x) (hf : ∀ a, C β (f a)) :
    C β (x >>= f) :=
  hC.bind_returned hx fun _ a _ _ => hf a

/-- Whatever the call ends with, `P` holds after it if it held before. -/
def Keeps (P : σ → Prop) (x : Call φ ε σ α) : Prop := ∀ s, P s → P (left (x.on s))

/-- The call does not break this rule. -/
def Never (b : φ) (x : Call φ ε σ α) : Prop := ∀ s s', x.on s ≠ .error b s'

theorem Keeps.change {P : σ → Prop} {g : σ → σ} (h : ∀ s, P s → P (g s)) :
    Keeps P (modify g : Call φ ε σ PUnit) := h

theorem Keeps.broken {P : σ → Prop} (b : φ) : Keeps P (fault b : Call φ ε σ α) := fun _ h => h

theorem Keeps.lift {P : σ → Prop} (r : Except φ α) : Keeps P (Call.lift r : Call φ ε σ α) := by
  cases r with
  | ok a => exact fun _ h => h
  | error b => exact Keeps.broken b

/-- What holds after the first call of a sequence and is kept by the rest. -/
theorem Keeps.after {P : σ → Prop} {x : Call φ ε σ α} {f : α → Call φ ε σ β} {s : σ}
    (hx : P (left (x.on s))) (hf : ∀ a s', x.on s = .ok (.ok a) s' → Keeps P (f a)) :
    P (left ((x >>= f).on s)) := by
  cases hrun : x.on s with
  | error b t =>
      rw [on_bind_fault hrun]
      rwa [hrun] at hx
  | ok r t =>
      rw [hrun] at hx
      cases r with
      | error e =>
          rw [on_bind_error hrun]
          exact hx
      | ok a =>
          rw [on_bind_ok hrun]
          exact hf a t hrun t hx

theorem keeps_compositional (P : σ → Prop) :
    Compositional fun _ (x : Call φ ε σ _) => Keeps P x where
  value _ _ h := h
  error _ _ h := h
  read _ h := h
  attempt := by
    intro α x hx s hs
    have hmid := hx s hs
    cases hrun : x.on s with
    | error b t =>
        rw [on_attempt_fault hrun]
        rwa [hrun] at hmid
    | ok r t =>
        rw [on_attempt hrun]
        rwa [hrun] at hmid
  bind_returned hx hf s hs := Keeps.after (hx s hs) (hf s)

theorem never_compositional (b : φ) :
    Compositional fun _ (x : Call φ ε σ _) => Never b x where
  value _ _ _ h := by cases h
  error _ _ _ h := by cases h
  read _ _ h := by cases h
  attempt := by
    intro α x hx s s' h
    cases hrun : x.on s with
    | error c t =>
        rw [on_attempt_fault hrun] at h
        cases h
        exact hx s s' hrun
    | ok r t =>
        rw [on_attempt hrun] at h
        cases h
  bind_returned := by
    intro α β x f hx hf s s' h
    cases hrun : x.on s with
    | error c t =>
        rw [on_bind_fault hrun] at h
        cases h
        exact hx s s' hrun
    | ok r t =>
        cases r with
        | error e =>
            rw [on_bind_error hrun] at h
            cases h
        | ok a =>
            rw [on_bind_ok hrun] at h
            exact hf s a t hrun t s' h

end Call

end Calls
