/-
Bytes the way a C program sees them.

A block of memory is a list of bytes.  A C string is what stands in such a block
before its first NUL, and a block without a NUL holds no string at all: `strlen`
runs past its end.  `Buf n` is an array of exactly `n` bytes; the only way to
change one is `Buf.memcpy`, which refuses to write outside it, so an array never
grows or shrinks.  What C leaves undefined is a `Fault`.
-/
import Mathlib.Data.List.TakeWhile

namespace CMem

/-- A block of memory. -/
abbrev Bytes := List UInt8

/-- What a C program must not do. -/
inductive Fault where
  /-- Reading through a null pointer. -/
  | nullDeref
  /-- Reading past the end of a block. -/
  | readOverrun
  /-- Writing past the end of an array. -/
  | writeOverrun
  /-- A loop that used up the iterations its model allows. -/
  | diverged
  /-- Using a variable that nothing was stored in. -/
  | uninitialised
deriving DecidableEq, Repr

/-! ### Computations that may fault -/

/-- Whatever `x` comes to satisfies `P`, if it comes to anything. -/
def Ensures {ε α : Type} (P : α → Prop) (x : Except ε α) : Prop := ∀ a, x = .ok a → P a

theorem ensures_ok {ε α : Type} {P : α → Prop} {a : α} (h : P a) :
    Ensures P (.ok a : Except ε α) := by
  intro b hb
  cases hb
  exact h

theorem ensures_bind {ε α β : Type} {P : β → Prop} {x : Except ε α} {f : α → Except ε β}
    (h : ∀ a, x = .ok a → Ensures P (f a)) : Ensures P (x >>= f) := by
  intro b hb
  cases x with
  | error e => cases hb
  | ok a => exact h a rfl b hb

/-- A computation that came to something went through all its parts. -/
theorem except_bind_ok {ε α β : Type} {x : Except ε α} {f : α → Except ε β} {b : β}
    (h : x >>= f = .ok b) : ∃ a, x = .ok a ∧ f a = .ok b := by
  cases x with
  | error e => cases h
  | ok a => exact ⟨a, rfl, h⟩

/-- Every fault `x` can end in satisfies `P`. -/
def FaultsOnly {ε α : Type} (P : ε → Prop) (x : Except ε α) : Prop := ∀ e, x = .error e → P e

theorem faultsOnly_ok {ε α : Type} {P : ε → Prop} (a : α) :
    FaultsOnly P (.ok a : Except ε α) := by
  intro e he
  cases he

theorem faultsOnly_bind {ε α β : Type} {P : ε → Prop} {x : Except ε α} {f : α → Except ε β}
    (hx : FaultsOnly P x) (hf : ∀ a, x = .ok a → FaultsOnly P (f a)) :
    FaultsOnly P (x >>= f) := by
  intro e he
  cases x with
  | error e' =>
      cases he
      exact hx _ rfl
  | ok a => exact hf a rfl e he

/-- `x` comes to something, and that satisfies `P`. -/
def Yields {ε α : Type} (P : α → Prop) (x : Except ε α) : Prop := ∃ a, x = .ok a ∧ P a

theorem yields_ok {ε α : Type} {P : α → Prop} {a : α} (h : P a) :
    Yields P (.ok a : Except ε α) := ⟨a, rfl, h⟩

theorem yields_bind {ε α β : Type} {P : α → Prop} {Q : β → Prop} {x : Except ε α}
    {f : α → Except ε β} (hx : Yields P x) (hf : ∀ a, P a → Yields Q (f a)) :
    Yields Q (x >>= f) := by
  obtain ⟨a, rfl, ha⟩ := hx
  exact hf a ha

theorem Yields.mono {ε α : Type} {P Q : α → Prop} {x : Except ε α} (h : Yields P x)
    (hPQ : ∀ a, P a → Q a) : Yields Q x := by
  obtain ⟨a, rfl, ha⟩ := h
  exact ⟨a, rfl, hPQ a ha⟩

/-- The bytes of a string literal. -/
def ascii (s : String) : Bytes := s.toUTF8.data.toList

/-! ### Strings -/

/-- The C string a block starts with. -/
def cstr (m : Bytes) : Bytes := m.takeWhile (· != 0)

/-- `strlen` on a block: without a NUL in it the call reads past the end. -/
def strlen (m : Bytes) : Except Fault Nat :=
  if 0 ∈ m then .ok (cstr m).length else .error .readOverrun

theorem cstr_append_zero {s : Bytes} (h : 0 ∉ s) (rest : Bytes) :
    cstr (s ++ 0 :: rest) = s := by
  induction s with
  | nil => simp [cstr]
  | cons b s ih =>
      have hb : b ≠ 0 := fun hc => h (by simp [hc])
      have hs : (0 : UInt8) ∉ s := fun hc => h (by simp [hc])
      have := ih hs
      simp only [cstr] at this ⊢
      simp [hb, this]

theorem cstr_of_not_mem {s : Bytes} (h : 0 ∉ s) : cstr s = s := by
  refine List.takeWhile_eq_self_iff.mpr fun b hb => ?_
  have : b ≠ 0 := fun hc => h (hc ▸ hb)
  simpa using this

/-- A string that ends inside the first part of a block does not see the rest. -/
theorem cstr_append_of_mem {s : Bytes} (h : 0 ∈ s) (rest : Bytes) :
    cstr (s ++ rest) = cstr s := by
  induction s with
  | nil => simp at h
  | cons b s ih =>
      by_cases hb : b = 0
      · simp [cstr, hb]
      · have hs : (0 : UInt8) ∈ s := by
          rcases List.mem_cons.mp h with hc | hc
          · exact absurd hc.symm hb
          · exact hc
        have := ih hs
        simp only [cstr] at this ⊢
        simp [hb, this]

theorem zero_not_mem_cstr (m : Bytes) : 0 ∉ cstr m := by
  intro h
  have := List.mem_takeWhile_imp h
  simp at this

theorem take_length_cstr (m : Bytes) : m.take (cstr m).length = cstr m := by
  unfold cstr
  induction m with
  | nil => rfl
  | cons b m ih =>
      rw [List.takeWhile_cons]
      split
      · rw [List.length_cons, List.take_succ_cons, ih]
      · rfl

theorem strlen_of_mem {m : Bytes} (h : 0 ∈ m) : strlen m = .ok (cstr m).length := by
  rw [strlen, if_pos h]

theorem strlen_of_not_mem {m : Bytes} (h : 0 ∉ m) : strlen m = .error .readOverrun := by
  rw [strlen, if_neg h]

/-! ### Writing into a block -/

/-- The block with `src` copied over it from `off` on. -/
def overwrite {α : Type} (dst : List α) (off : Nat) (src : List α) : List α :=
  dst.take off ++ src ++ dst.drop (off + src.length)

theorem length_overwrite {α : Type} {dst : List α} {off : Nat} {src : List α}
    (h : off + src.length ≤ dst.length) : (overwrite dst off src).length = dst.length := by
  simp only [overwrite, List.length_append, List.length_take, List.length_drop]
  omega

/-- Two copies, the second where the first stopped, are one copy. -/
theorem overwrite_overwrite {α : Type} {dst : List α} {off : Nat} {a b : List α}
    (h : off + a.length ≤ dst.length) :
    overwrite (overwrite dst off a) (off + a.length) b = overwrite dst off (a ++ b) := by
  have hpre : (dst.take off ++ a).length = off + a.length := by
    simp only [List.length_append, List.length_take]
    omega
  have htake : (overwrite dst off a).take (off + a.length) = dst.take off ++ a := by
    rw [overwrite, ← hpre, List.take_left]
  have hdrop : (overwrite dst off a).drop (off + a.length + b.length)
      = dst.drop (off + a.length + b.length) := by
    rw [overwrite, ← List.drop_drop, ← hpre, List.drop_left, hpre, List.drop_drop]
  rw [overwrite, htake, hdrop, overwrite, List.length_append, ← Nat.add_assoc]
  simp

theorem getElem?_overwrite {α : Type} {dst : List α} {off : Nat} {src : List α}
    (h : off + src.length ≤ dst.length) (j : Nat) :
    (overwrite dst off src)[j]? =
      if off ≤ j ∧ j < off + src.length then src[j - off]? else dst[j]? := by
  have htake : (dst.take off).length = off := by
    rw [List.length_take]
    omega
  unfold overwrite
  rw [List.append_assoc, List.getElem?_append, htake]
  by_cases hlow : j < off
  · rw [if_pos hlow, if_neg (by omega), List.getElem?_take, if_pos hlow]
  · rw [if_neg hlow, List.getElem?_append]
    by_cases hmid : j - off < src.length
    · rw [if_pos hmid, if_pos (by omega)]
    · rw [if_neg hmid, if_neg (by omega), List.getElem?_drop]
      congr 1
      omega

theorem take_overwrite {α : Type} (dst : List α) (off : Nat) (src : List α) (h : off ≤ dst.length) :
    (overwrite dst off src).take (off + src.length) = dst.take off ++ src := by
  have hpre : (dst.take off ++ src).length = off + src.length := by
    rw [List.length_append, List.length_take]
    omega
  rw [overwrite, ← hpre, List.take_left]

/-! ### What stands in a block -/

/-- `s` stands in the block from `off` on. -/
def StandsAt {α : Type} (m : List α) (off : Nat) (s : List α) : Prop := s <+: m.drop off

theorem standsAt_iff {α : Type} {m s : List α} {off : Nat} :
    StandsAt m off s ↔ ∀ j (h : j < s.length), m[off + j]? = some s[j] := by
  rw [StandsAt, List.prefix_iff_getElem?]
  simp only [List.getElem?_drop]

theorem StandsAt.head {α : Type} {m s : List α} {off : Nat} {a : α} (h : StandsAt m off (a :: s)) :
    m[off]? = some a := standsAt_iff.mp h 0 (Nat.succ_pos _)

theorem StandsAt.tail {α : Type} {m s : List α} {off : Nat} {a : α} (h : StandsAt m off (a :: s)) :
    StandsAt m (off + 1) s := by
  obtain ⟨rest, hrest⟩ := h
  refine ⟨rest, ?_⟩
  rw [← List.drop_drop, ← hrest]
  rfl

theorem standsAt_overwrite {α : Type} {dst src : List α} {off : Nat}
    (h : off + src.length ≤ dst.length) : StandsAt (overwrite dst off src) off src := by
  rw [standsAt_iff]
  intro j hj
  rw [getElem?_overwrite h, if_pos (by omega), Nat.add_sub_cancel_left]
  exact List.getElem?_eq_getElem hj

/-- A copy leaves alone what stands next to it. -/
theorem StandsAt.overwrite {α : Type} {dst src s : List α} {off start : Nat}
    (hs : StandsAt dst start s) (h : off + src.length ≤ dst.length)
    (hapart : start + s.length ≤ off ∨ off + src.length ≤ start) :
    StandsAt (overwrite dst off src) start s := by
  rw [standsAt_iff] at hs ⊢
  intro j hj
  rw [getElem?_overwrite h, if_neg (by omega)]
  exact hs j hj

theorem StandsAt.cstr {m s : Bytes} {off : Nat} (h : StandsAt m off (s ++ [0])) (h0 : 0 ∉ s) :
    cstr (m.drop off) = s := by
  obtain ⟨rest, hrest⟩ := h
  rw [← hrest, List.append_assoc]
  exact cstr_append_zero h0 rest

theorem StandsAt.getD {m : Bytes} {off : Nat} {b : UInt8} (h : StandsAt m off [b]) :
    m.getD off 0 = b := by
  have hget := standsAt_iff.mp h 0 (by simp)
  rw [Nat.add_zero] at hget
  rw [List.getD_eq_getElem?_getD, hget]
  rfl

/-- An array of `n` bytes. -/
structure Buf (n : Nat) where
  data : Bytes
  size : data.length = n
deriving DecidableEq, Repr

namespace Buf

variable {n : Nat}

@[ext] theorem ext {a b : Buf n} (h : a.data = b.data) : a = b := by
  cases a
  cases b
  simp_all

/-- `memset(a, 0, sizeof(a))`. -/
def zero (n : Nat) : Buf n := ⟨List.replicate n 0, List.length_replicate⟩

@[simp] theorem zero_data (n : Nat) : (zero n).data = List.replicate n 0 := rfl

/-- The string the array holds. -/
def str (a : Buf n) : Bytes := cstr a.data

/-- A copy that is known to stay inside the array. -/
def write (a : Buf n) (off : Nat) (src : Bytes) (h : off + src.length ≤ n) : Buf n :=
  ⟨overwrite a.data off src, by rw [length_overwrite (by rw [a.size]; exact h), a.size]⟩

/-- `memcpy(a + off, src, len)`. -/
def memcpy (a : Buf n) (off : Nat) (src : Bytes) : Except Fault (Buf n) :=
  if h : off + src.length ≤ n then .ok (a.write off src h) else .error .writeOverrun

/-- `strcpy(a, s)`: the string and its NUL. -/
def strcpy (a : Buf n) (s : Bytes) : Except Fault (Buf n) := a.memcpy 0 (cstr s ++ [0])

/-- `strncpy(a, s, k)`: at most `k` bytes of the string, NULs up to `k` after it. -/
def strncpy (a : Buf n) (s : Bytes) (k : Nat) (hk : k ≤ n) : Buf n :=
  ⟨overwrite a.data 0 (((cstr s).take k).rightpad k 0), by
    rw [length_overwrite, a.size]
    simp only [List.length_rightpad, List.length_take, a.size]
    omega⟩

theorem memcpy_ok (a : Buf n) {off : Nat} {src : Bytes} (h : off + src.length ≤ n) :
    ∃ b : Buf n, a.memcpy off src = .ok b ∧ b.data = overwrite a.data off src := by
  rw [memcpy, dif_pos h]
  exact ⟨_, rfl, rfl⟩

theorem memcpy_overrun {a : Buf n} {off : Nat} {src : Bytes} (h : n < off + src.length) :
    a.memcpy off src = .error .writeOverrun := by
  rw [memcpy, dif_neg (Nat.not_le.mpr h)]

end Buf

/-! ### 32-bit integers -/

/-- The value a 32-bit signed variable holds after being assigned `x`. -/
def wrap32 (x : Int) : Int := (x + 2147483648) % 4294967296 - 2147483648

theorem wrap32_of_range {x : Int} (hlo : -2147483648 ≤ x) (hhi : x < 2147483648) : wrap32 x = x := by
  unfold wrap32
  omega

end CMem
