import Mathlib.Data.Finset.Card
import Mathlib.Data.Finset.Filter
import ServerSdk.Program.Run

namespace Program

variable {σ α ι κ : Type}

namespace Run

def Below (m m' : Run σ α) : Prop := ∀ s, m s = .error .fuel ∨ m s = m' s

theorem Below.refl (m : Run σ α) : Below m m := fun _ => .inr rfl

theorem Below.trans {m m' m'' : Run σ α} (h : Below m m') (h' : Below m' m'') : Below m m'' := by
  intro s
  rcases h s with he | he
  · exact .inl he
  · rw [he]
    exact h' s

theorem exhausted_below (m : Run σ α) : Below exhausted m := fun _ => .inl rfl

def Halts (m : Run σ α) : Prop := ∀ s, m s ≠ .error .fuel

theorem Below.eq_of_halts {m m' : Run σ α} (h : Below m m') (hm : Halts m) : m' = m := by
  funext s
  rcases h s with he | he
  · exact absurd he (hm s)
  · exact he.symm

def unroll (F : (ι → Run σ α) → ι → Run σ α) : ℕ → ι → Run σ α
  | 0, _ => exhausted
  | n + 1, i => F (unroll F n) i

def MonotoneBody (F : (ι → Run σ α) → ι → Run σ α) : Prop :=
  ∀ f g : ι → Run σ α, (∀ i, Below (f i) (g i)) → ∀ i, Below (F f i) (F g i)

theorem unroll_below_succ {F : (ι → Run σ α) → ι → Run σ α} (hF : MonotoneBody F) (n : ℕ) :
    ∀ i, Below (unroll F n i) (unroll F (n + 1) i) := by
  induction n with
  | zero =>
      intro i
      exact exhausted_below _
  | succ n ih =>
      intro i
      exact hF _ _ ih i

theorem unroll_below {F : (ι → Run σ α) → ι → Run σ α} (hF : MonotoneBody F) {n m : ℕ}
    (h : n ≤ m) (i : ι) : Below (unroll F n i) (unroll F m i) := by
  induction h with
  | refl => exact .refl _
  | step _ ih => exact ih.trans (unroll_below_succ hF _ i)

theorem unroll_stable {F : (ι → Run σ α) → ι → Run σ α} (hF : MonotoneBody F) {n m : ℕ}
    (h : n ≤ m) {i : ι} (hn : Halts (unroll F n i)) : unroll F m i = unroll F n i :=
  (unroll_below hF h i).eq_of_halts hn

theorem unroll_halts_of_rank {F : (ι → Run σ α) → ι → Run σ α} {calls : ι → ι → Prop}
    (hF : ∀ f i, (∀ j, calls i j → Halts (f j)) → Halts (F f i))
    {P : ι → Prop} {rank : ι → ℕ} (hr : ∀ i j, P i → calls i j → P j ∧ rank j < rank i) :
    ∀ n i, P i → rank i < n → Halts (unroll F n i) := by
  intro n
  induction n with
  | zero =>
      intro i _ hi
      omega
  | succ n ih =>
      intro i hP hi
      refine hF _ i (fun j hj => ?_)
      obtain ⟨hPj, hlt⟩ := hr i j hP hj
      exact ih j hPj (by omega)

end Run

open Classical in
theorem exists_rank_of_acyclic {r : κ → κ → Prop} (S : Finset κ) (hS : ∀ a b, r a b → b ∈ S)
    (hr : ∀ a, ¬ Relation.TransGen r a a) :
    ∃ rank : κ → ℕ, (∀ a b, r a b → rank b < rank a) ∧ ∀ a, rank a ≤ S.card := by
  refine ⟨fun a => (S.filter (Relation.TransGen r a)).card, ?_, ?_⟩
  · intro a b hab
    apply Finset.card_lt_card
    refine Finset.ssubset_iff_of_subset ?_ |>.mpr ⟨b, ?_, ?_⟩
    · intro c hc
      obtain ⟨hcS, hbc⟩ := Finset.mem_filter.mp hc
      exact Finset.mem_filter.mpr ⟨hcS, .head hab hbc⟩
    · exact Finset.mem_filter.mpr ⟨hS a b hab, .single hab⟩
    · intro hb
      exact hr b (Finset.mem_filter.mp hb).2
  · intro a
    exact Finset.card_le_card (Finset.filter_subset _ _)

end Program
