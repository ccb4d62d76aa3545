import Mathlib.Algebra.BigOperators.Group.List.Basic

namespace Program

structure FirstHit (hits : ℕ → Prop) (length pos : ℕ) : Prop where
  inside : pos < length
  before : ∀ i < pos, ¬ hits i
  here : hits pos ∨ pos + 1 = length

variable {hits hits' : ℕ → Prop} {length pos pos' : ℕ}

theorem FirstHit.le_of_imp (h : FirstHit hits length pos) (h' : FirstHit hits' length pos')
    (himp : ∀ i < length, hits' i → hits i) : pos ≤ pos' := by
  by_contra hlt
  rcases h'.here with hhit | hlast
  · exact h.before pos' (by omega) (himp pos' h'.inside hhit)
  · have hinside := h.inside
    omega

theorem FirstHit.zero (h : hits 0) : FirstHit hits (length + 1) 0 :=
  ⟨by omega, fun i hi => absurd hi (by omega), .inl h⟩

theorem FirstHit.single : FirstHit hits 1 0 :=
  ⟨by omega, fun i hi => absurd hi (by omega), .inr rfl⟩

theorem FirstHit.succ (hmiss : ¬ hits 0) (h : FirstHit (fun i => hits (i + 1)) length pos) :
    FirstHit hits (length + 1) (pos + 1) := by
  have hinside := h.inside
  refine ⟨by omega, ?_, ?_⟩
  · intro i hi
    cases i with
    | zero => exact hmiss
    | succ i => exact h.before i (by omega)
  · rcases h.here with hhit | hlast
    · exact .inl hhit
    · exact .inr (by omega)

theorem FirstHit.congr (h : FirstHit hits length pos) (hiff : ∀ i, hits i ↔ hits' i) :
    FirstHit hits' length pos := by
  obtain rfl : hits = hits' := funext fun i => propext (hiff i)
  exact h

section Cumulative

variable {α : Type} [AddMonoid α]

def cumulative (weights : List α) (i : ℕ) : α := (weights.take (i + 1)).sum

@[simp] theorem cumulative_cons_zero (weight : α) (weights : List α) :
    cumulative (weight :: weights) 0 = weight := by
  simp [cumulative]

@[simp] theorem cumulative_cons_succ (weight : α) (weights : List α) (i : ℕ) :
    cumulative (weight :: weights) (i + 1) = weight + cumulative weights i := by
  simp [cumulative]

end Cumulative

end Program
