/-
Walks through a tree of directories.

A place is the list of names from the root down to it.  A move stays, goes up, which at
the root is to stay, or goes down into a name.  What a walk does can be told before it
is known where it starts: it comes to so many levels up and then some names down, its
`Route`.  `foldl_move` says that the route is all there is to know of it, and
`Route.lead_eq_iff` for which routes a walk ends below the place it starts from.
-/
import Mathlib.Data.List.Basic

namespace Paths

variable {α : Type}

inductive Move (α : Type) where
  | stay
  | up
  | down (name : α)
deriving DecidableEq, Repr

/-- Where a move leads. -/
def move (dir : List α) : Move α → List α
  | .stay => dir
  | .up => dir.dropLast
  | .down name => dir ++ [name]

/-- So many levels up, and then down along some names. -/
structure Route (α : Type) where
  ups : Nat
  names : List α
deriving DecidableEq, Repr

namespace Route

def nowhere : Route α := ⟨0, []⟩

/-- One more move at the end of a route. -/
def add (r : Route α) : Move α → Route α
  | .stay => r
  | .up => if r.names.isEmpty then ⟨r.ups + 1, []⟩ else ⟨r.ups, r.names.dropLast⟩
  | .down name => ⟨r.ups, r.names ++ [name]⟩

/-- Where the route leads from a place. -/
def lead (r : Route α) (dir : List α) : List α := dir.take (dir.length - r.ups) ++ r.names

@[simp] theorem nowhere_lead (dir : List α) : nowhere.lead dir = dir := by
  simp [lead, nowhere]

theorem move_lead (r : Route α) (dir : List α) (m : Move α) :
    move (r.lead dir) m = (r.add m).lead dir := by
  cases m with
  | stay => rfl
  | up =>
      simp only [move, add, lead]
      by_cases h : r.names = []
      · have hup : min (min (dir.length - r.ups) dir.length - 1) (dir.length - r.ups)
            = dir.length - (r.ups + 1) := by omega
        simp only [h, List.append_nil, List.isEmpty_nil, if_true]
        rw [List.dropLast_eq_take, List.length_take, List.take_take, hup]
      · rw [if_neg (by simpa using h), List.dropLast_append_of_ne_nil h]
  | down name => simp [move, add, lead]

/-- **A route leads to somewhere below the place it starts from just when it comes back down
the names it went up.** -/
theorem lead_eq_iff (r : Route α) (dir rest : List α) :
    r.lead dir = dir ++ rest ↔ r.names = dir.drop (dir.length - r.ups) ++ rest := by
  have hsplit : dir ++ rest = dir.take (dir.length - r.ups) ++
      (dir.drop (dir.length - r.ups) ++ rest) := by
    rw [← List.append_assoc, List.take_append_drop]
  rw [lead, hsplit]
  exact List.append_right_inj _

end Route

/-- **A walk leads where its route does.** -/
theorem foldl_move (moves : List (Move α)) (dir : List α) :
    moves.foldl move dir = (moves.foldl Route.add .nowhere).lead dir := by
  have hgen : ∀ r : Route α, moves.foldl move (r.lead dir) = (moves.foldl Route.add r).lead dir := by
    induction moves with
    | nil => intro r; rfl
    | cons m rest ih =>
        intro r
        rw [List.foldl_cons, List.foldl_cons, r.move_lead]
        exact ih (r.add m)
  have hstart := hgen .nowhere
  rwa [Route.nowhere_lead] at hstart

end Paths
