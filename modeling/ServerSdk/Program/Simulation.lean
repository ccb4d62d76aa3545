import Mathlib.Data.List.Forall2
import ServerSdk.Program.Fuel

namespace Program

variable {σ τ α β γ δ ι : Type}

structure Policy where
  left : Halt → Prop
  both : Halt → Halt → Prop

namespace Policy

def exact : Policy := ⟨fun _ => False, Eq⟩

def approximating : Policy := ⟨fun e => e = .fuel, Eq⟩

def halting : Policy := ⟨fun _ => False, fun e e' => e ≠ .fuel ∧ e = e'⟩

def Fair (P : Policy) : Prop := ∀ f : Fault, P.both (.fault f) (.fault f)

theorem exact_fair : exact.Fair := fun _ => rfl

theorem approximating_fair : approximating.Fair := fun _ => rfl

theorem halting_fair : halting.Fair := fun _ => ⟨by simp, rfl⟩

end Policy

def Related (P : Policy) (R : σ → τ → Prop) (Q : α → β → Prop) :
    Except Halt (α × σ) → Except Halt (β × τ) → Prop
  | .ok p, .ok q => Q p.1 q.1 ∧ R p.2 q.2
  | .error e, .error e' => P.left e ∨ P.both e e'
  | .error e, .ok _ => P.left e
  | .ok _, .error _ => False

namespace Checked

inductive Alike (Q : α → β → Prop) : Checked α → Checked β → Prop
  | ok {a : α} {b : β} (h : Q a b) : Alike Q (.ok a) (.ok b)
  | error (e : Fault) : Alike Q (.error e) (.error e)

theorem alike_pure {Q : α → β → Prop} {a : α} {b : β} (h : Q a b) : Alike Q (pure a) (pure b) :=
  .ok h

theorem alike_self (m : Checked α) : Alike Eq m m := by
  cases m with
  | ok a => exact .ok rfl
  | error e => exact .error e

theorem alike_option_self {Q : α → α → Prop} {m : Checked (Option α)}
    (h : ∀ a, m = .ok (some a) → Q a a) : Alike (Option.Rel Q) m m := by
  cases m with
  | error e => exact .error e
  | ok o =>
      refine .ok ?_
      cases o with
      | none => exact .none
      | some a => exact .some (h a rfl)

theorem Alike.bind {Q : α → β → Prop} {Q' : γ → δ → Prop} {m : Checked α} {m' : Checked β}
    {f : α → Checked γ} {f' : β → Checked δ} (hm : Alike Q m m')
    (hf : ∀ a b, Q a b → Alike Q' (f a) (f' b)) : Alike Q' (m >>= f) (m' >>= f') := by
  cases hm with
  | ok h => exact hf _ _ h
  | error e => exact .error e

theorem Alike.bind_eq {Q' : γ → δ → Prop} {m : Checked α} {f : α → Checked γ}
    {f' : α → Checked δ} (hf : ∀ a, Alike Q' (f a) (f' a)) : Alike Q' (m >>= f) (m >>= f') := by
  refine (alike_self m).bind (fun a b hab => ?_)
  subst hab
  exact hf a

end Checked

namespace Run

def Sim (P : Policy) (R : σ → τ → Prop) (Q : α → β → Prop) (m : Run σ α) (m' : Run τ β) : Prop :=
  ∀ s t, R s t → Related P R Q (m s) (m' t)

variable {P : Policy} {R : σ → τ → Prop} {Q : α → β → Prop}

theorem sim_pure {a : α} {b : β} (h : Q a b) : Sim P R Q (pure a) (pure b) :=
  fun _ _ hR => ⟨h, hR⟩

theorem sim_ask {f : σ → α × σ} {g : τ → β × τ}
    (h : ∀ s t, R s t → Q (f s).1 (g t).1 ∧ R (f s).2 (g t).2) : Sim P R Q (ask f) (ask g) :=
  fun s t hR => h s t hR

theorem sim_ask_self (f : σ → α × σ) : Sim P Eq Eq (ask f) (ask f) := by
  refine sim_ask ?_
  rintro s t rfl
  exact ⟨rfl, rfl⟩

theorem sim_lift {m : Checked α} {m' : Checked β} (hP : P.Fair) (h : Checked.Alike Q m m') :
    Sim P R Q (lift m) (lift m') := by
  intro s t hR
  cases h with
  | ok hQ => exact ⟨hQ, hR⟩
  | error e => exact .inr (hP e)

theorem sim_lift_self (hP : P.Fair) (m : Checked α) : Sim P R Eq (lift m) (lift m) :=
  sim_lift hP (Checked.alike_self m)

theorem Sim.bind_yields {Q' : γ → δ → Prop} {m : Run σ α} {m' : Run τ β} {f : α → Run σ γ}
    {f' : β → Run τ δ} (hm : Sim P R Q m m')
    (hf : ∀ a b, Yields m a → Yields m' b → Q a b → Sim P R Q' (f a) (f' b)) :
    Sim P R Q' (m >>= f) (m' >>= f') := by
  intro s t hR
  have h := hm s t hR
  rw [bind_run, bind_run]
  cases hs : m s with
  | error e =>
      cases ht : m' t with
      | error e' =>
          rw [hs, ht] at h
          exact h
      | ok q =>
          rw [hs, ht] at h
          have he : P.left e := h
          change Related P R Q' (.error e) (f' q.1 q.2)
          cases f' q.1 q.2 with
          | error e' => exact .inl he
          | ok r => exact he
  | ok p =>
      cases ht : m' t with
      | error e' =>
          rw [hs, ht] at h
          exact h.elim
      | ok q =>
          rw [hs, ht] at h
          exact hf p.1 q.1 ⟨s, p.2, hs⟩ ⟨t, q.2, ht⟩ h.1 p.2 q.2 h.2

theorem Sim.bind {Q' : γ → δ → Prop} {m : Run σ α} {m' : Run τ β} {f : α → Run σ γ}
    {f' : β → Run τ δ} (hm : Sim P R Q m m') (hf : ∀ a b, Q a b → Sim P R Q' (f a) (f' b)) :
    Sim P R Q' (m >>= f) (m' >>= f') :=
  hm.bind_yields fun a b _ _ => hf a b

theorem Sim.bind_eq {Q' : γ → δ → Prop} {m : Run σ α} {m' : Run τ α} {f : α → Run σ γ}
    {f' : α → Run τ δ} (hm : Sim P R Eq m m') (hf : ∀ a, Sim P R Q' (f a) (f' a)) :
    Sim P R Q' (m >>= f) (m' >>= f') := by
  refine hm.bind (fun a b hab => ?_)
  subst hab
  exact hf a

theorem below_iff_sim {m m' : Run σ α} :
    Below m m' ↔ Sim Policy.approximating Eq Eq m m' := by
  constructor
  · rintro h s t rfl
    rcases h s with he | he
    · rw [he]
      cases m' s with
      | error e => exact .inl rfl
      | ok p => exact rfl
    · rw [he]
      cases m' s with
      | error e => exact .inr rfl
      | ok p => exact ⟨rfl, rfl⟩
  · intro h s
    have hs := h s s rfl
    cases hm : m s with
    | error e =>
        cases hm' : m' s with
        | error e' =>
            rw [hm, hm'] at hs
            rcases hs with he | he
            · exact .inl (by rw [he])
            · exact .inr (by rw [he])
        | ok q =>
            rw [hm, hm'] at hs
            exact .inl (by rw [show e = .fuel from hs])
    | ok p =>
        cases hm' : m' s with
        | error e' =>
            rw [hm, hm'] at hs
            exact hs.elim
        | ok q =>
            rw [hm, hm'] at hs
            exact .inr (by rw [Prod.ext hs.1 hs.2])

theorem halts_iff_sim {m : Run σ α} : Halts m ↔ Sim Policy.halting Eq Eq m m := by
  constructor
  · rintro h s t rfl
    cases hm : m s with
    | error e => exact .inr ⟨fun he => h s (by rw [hm, he]), rfl⟩
    | ok p => exact ⟨rfl, rfl⟩
  · intro h s hs
    have hs' := h s s rfl
    rw [hs] at hs'
    rcases hs' with he | he
    · exact he
    · exact he.1 rfl

theorem unroll_sim {F : (ι → Run σ α) → ι → Run σ α} {G : (ι → Run τ β) → ι → Run τ β}
    {I : ι → ι → Prop}
    (hFG : ∀ f g, (∀ i j, I i j → Sim P R Q (f i) (g j)) → ∀ i j, I i j → Sim P R Q (F f i) (G g j))
    (hfuel : P.left .fuel ∨ P.both .fuel .fuel) :
    ∀ n i j, I i j → Sim P R Q (unroll F n i) (unroll G n j) := by
  intro n
  induction n with
  | zero => exact fun _ _ _ _ _ _ => hfuel
  | succ n ih => exact hFG _ _ ih

end Run

end Program
