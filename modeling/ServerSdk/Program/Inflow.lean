import Mathlib.Algebra.BigOperators.Group.Finset.Basic
import Mathlib.Algebra.Order.BigOperators.Group.Finset
import Mathlib.Logic.Function.Basic
import ServerSdk.Program.Fuel

namespace Program

section Inflow

variable {α : Type} {nodes : Finset α} {links links' : α → List α} {weight weight' : α → ℕ} {a b : α}

def LinksTo (links : α → List α) (a b : α) : Prop := b ∈ links a

def LoopFree (links : α → List α) : Prop := ∀ a, ¬ Relation.TransGen (LinksTo links) a a

theorem loopFree_of_rank (rank : α → ℕ) (h : ∀ a, ∀ b ∈ links a, rank b < rank a) :
    LoopFree links := by
  have hpath : ∀ {a b}, Relation.TransGen (LinksTo links) a b → rank b < rank a := by
    intro a b hab
    induction hab with
    | single hlink => exact h _ _ hlink
    | tail _ hlink ih => exact (h _ _ hlink).trans ih
  exact fun a hloop => Nat.lt_irrefl _ (hpath hloop)

variable [DecidableEq α]

def inflow (nodes : Finset α) (links : α → List α) (weight : α → ℕ) (b : α) : ℕ :=
  ∑ a ∈ nodes, weight a * (links a).count b

theorem inflow_eq_add (ha : a ∈ nodes) (b : α) : inflow nodes links weight b =
    weight a * (links a).count b + inflow (nodes.erase a) links weight b :=
  (Finset.add_sum_erase nodes (fun a => weight a * (links a).count b) ha).symm

theorem inflow_congr (h : ∀ a ∈ nodes, weight a * (links a).count b = weight' a * (links' a).count b) :
    inflow nodes links weight b = inflow nodes links' weight' b :=
  Finset.sum_congr rfl h

theorem inflow_update (ha : a ∈ nodes) (n : ℕ) (targets : List α) (b : α) :
    inflow nodes (Function.update links a targets) (Function.update weight a n) b +
        weight a * (links a).count b = inflow nodes links weight b + n * targets.count b := by
  have hothers : inflow (nodes.erase a) (Function.update links a targets) (Function.update weight a n) b =
      inflow (nodes.erase a) links weight b := by
    refine inflow_congr fun c hc => ?_
    have hne : c ≠ a := Finset.ne_of_mem_erase hc
    rw [Function.update_of_ne hne, Function.update_of_ne hne]
  rw [inflow_eq_add ha, inflow_eq_add ha, hothers, Function.update_self, Function.update_self]
  omega

theorem le_inflow (ha : a ∈ nodes) (b : α) :
    weight a * (links a).count b ≤ inflow nodes links weight b := by
  rw [inflow_eq_add ha]
  exact Nat.le_add_right _ _

theorem inflow_mono (h : ∀ a, weight a ≤ weight' a) (b : α) :
    inflow nodes links weight b ≤ inflow nodes links weight' b :=
  Finset.sum_le_sum fun a _ => Nat.mul_le_mul_right _ (h a)

theorem inflow_eq_zero_iff :
    inflow nodes links weight b = 0 ↔ ∀ a ∈ nodes, weight a = 0 ∨ b ∉ links a := by
  rw [inflow, Finset.sum_eq_zero_iff]
  refine forall₂_congr fun a _ => ?_
  rw [Nat.mul_eq_zero, List.count_eq_zero]

def Weighs (nodes : Finset α) (links : α → List α) (base weight : α → ℕ) : Prop :=
  ∀ b, weight b = base b + inflow nodes links weight b

theorem Weighs.le_of_le {base : α → ℕ} (h : Weighs nodes links base weight) (hfree : LoopFree links)
    (hnodes : ∀ a b, b ∈ links a → a ∈ nodes)
    (hlow : ∀ b, weight' b ≤ base b + inflow nodes links weight' b) (b : α) :
    weight' b ≤ weight b := by
  have hparents : ∀ b, ¬ Relation.TransGen (Function.swap (LinksTo links)) b b := by
    intro b hloop
    exact hfree b (Relation.transGen_swap.mp hloop)
  obtain ⟨depth, hdepth, -⟩ := exists_rank_of_acyclic nodes (fun b a hlink => hnodes a b hlink) hparents
  induction hn : depth b using Nat.strong_induction_on generalizing b with
  | _ n ih =>
      subst hn
      rw [h b]
      refine (hlow b).trans (Nat.add_le_add_left (Finset.sum_le_sum fun a _ => ?_) _)
      by_cases hlink : b ∈ links a
      · exact Nat.mul_le_mul_right _ (ih (depth a) (hdepth b a hlink) a rfl)
      · rw [List.count_eq_zero.mpr hlink, Nat.mul_zero, Nat.mul_zero]

end Inflow

end Program
