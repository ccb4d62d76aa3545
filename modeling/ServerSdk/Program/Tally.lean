import Mathlib.Algebra.BigOperators.Group.List.Basic
import Mathlib.Algebra.Ring.Rat
import Mathlib.Data.List.Nodup

namespace Program

variable {τ α : Type} [DecidableEq τ]

def tally (t : τ) (listing : List (τ × Rat)) : Rat :=
  (listing.map fun counter => if counter.1 = t then counter.2 else 0).sum

@[simp] theorem tally_nil (t : τ) : tally t [] = 0 := rfl

theorem tally_append (t : τ) (first second : List (τ × Rat)) :
    tally t (first ++ second) = tally t first + tally t second := by
  simp [tally]

theorem tally_flatMap (t : τ) (f : α → List (τ × Rat)) (l : List α) :
    tally t (l.flatMap f) = (l.map fun a => tally t (f a)).sum := by
  induction l with
  | nil => rfl
  | cons a l ih => rw [List.flatMap_cons, tally_append, ih, List.map_cons, List.sum_cons]

theorem tally_map (t : τ) (f : α → τ × Rat) (l : List α) :
    tally t (l.map f) = (l.map fun a => if (f a).1 = t then (f a).2 else 0).sum := by
  rw [tally, List.map_map]
  rfl

end Program
