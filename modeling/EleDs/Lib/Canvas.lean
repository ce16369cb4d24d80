/-
Pictures in black and white, and what is left of them after some strokes.

A stroke gives one pixel a colour.  What a pixel is after many of them depends on what it
was and on nothing else of the picture (`strokes_congr`), so the picture may be kept
anywhere.
-/
import Mathlib.Data.List.Basic

namespace Canvas

/-- Which pixels are white. -/
abbrev Plane := Nat → Nat → Bool

structure Stroke where
  x : Nat
  y : Nat
  white : Bool
deriving DecidableEq

def stroke (c : Plane) (s : Stroke) : Plane :=
  fun x y => if x = s.x ∧ y = s.y then s.white else c x y

def strokes (c : Plane) (l : List Stroke) : Plane := l.foldl stroke c

variable {c c' : Plane} {x y : Nat}

theorem strokes_append (c : Plane) (l m : List Stroke) :
    strokes c (l ++ m) = strokes (strokes c l) m := List.foldl_append

theorem strokes_congr (l : List Stroke) (h : c x y = c' x y) :
    strokes c l x y = strokes c' l x y := by
  induction l generalizing c c' with
  | nil => exact h
  | cons s l ih =>
      refine ih ?_
      unfold stroke
      split
      · rfl
      · exact h

/-- Strokes of one colour need no order. -/
theorem strokes_of_color {white : Bool} {l : List Stroke} (hl : ∀ s ∈ l, s.white = white) :
    strokes c l x y = if ⟨x, y, white⟩ ∈ l then white else c x y := by
  induction l generalizing c with
  | nil => exact (if_neg List.not_mem_nil).symm
  | cons s l ih =>
      have hs := hl s List.mem_cons_self
      have hrest := ih (c := stroke c s) fun t ht => hl t (List.mem_cons_of_mem s ht)
      show strokes (stroke c s) l x y = _
      rw [hrest]
      by_cases hmem : ⟨x, y, white⟩ ∈ l
      · rw [if_pos hmem, if_pos (List.mem_cons_of_mem s hmem)]
      · rw [if_neg hmem, stroke]
        by_cases hhere : x = s.x ∧ y = s.y
        · rw [if_pos hhere, hs, hhere.1, hhere.2, ← hs]
          exact (if_pos List.mem_cons_self).symm
        · rw [if_neg hhere, if_neg]
          intro hc
          rcases List.mem_cons.mp hc with rfl | hc
          · exact hhere ⟨rfl, rfl⟩
          · exact hmem hc

end Canvas
