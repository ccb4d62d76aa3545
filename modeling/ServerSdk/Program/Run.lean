import Mathlib.Logic.Basic
import Mathlib.Order.Basic

namespace Program

inductive Fault where
  | assertion
  | nullText
  | doubleFree
  deriving DecidableEq, Repr

inductive Halt where
  | fault (fault : Fault)
  | fuel
  deriving DecidableEq, Repr

abbrev Checked := Except Fault

abbrev Run (σ : Type) := StateT σ (Except Halt)

variable {σ τ α β γ δ ι : Type}

namespace Checked

def Returns (m : Checked α) : Prop := ∃ a, m = .ok a

@[simp] theorem returns_ok (a : α) : Returns (.ok a : Checked α) := ⟨a, rfl⟩

@[simp] theorem returns_pure (a : α) : Returns (pure a : Checked α) := ⟨a, rfl⟩

@[simp] theorem not_returns_error (e : Fault) : ¬ Returns (.error e : Checked α) := by
  rintro ⟨a, h⟩
  cases h

instance (m : Checked α) : Decidable (Returns m) :=
  match m with
  | .ok a => isTrue ⟨a, rfl⟩
  | .error e => isFalse (not_returns_error e)

def value : Checked (α × σ) → Option α
  | .ok (a, _) => some a
  | .error _ => none

theorem exists_of_value {m : Checked (α × σ)} {a : α} (h : value m = some a) :
    ∃ s, m = .ok (a, s) := by
  cases m with
  | error e => cases h
  | ok r =>
      cases h
      exact ⟨r.2, rfl⟩

@[simp] theorem ok_bind (a : α) (f : α → Checked β) : (Except.ok a : Checked α) >>= f = f a := rfl

@[simp] theorem error_bind (e : Fault) (f : α → Checked β) :
    (Except.error e : Checked α) >>= f = .error e := rfl

theorem bind_eq_ok {m : Checked α} {f : α → Checked β} {b : β} :
    (m >>= f) = .ok b ↔ ∃ a, m = .ok a ∧ f a = .ok b := by
  constructor
  · intro h
    cases m with
    | error e => cases h
    | ok a => exact ⟨a, rfl, h⟩
  · rintro ⟨a, rfl, h⟩
    exact h

theorem returns_bind {m : Checked α} {f : α → Checked β} :
    Returns (m >>= f) ↔ ∃ a, m = .ok a ∧ Returns (f a) := by
  constructor
  · rintro ⟨b, h⟩
    obtain ⟨a, hm, hf⟩ := bind_eq_ok.mp h
    exact ⟨a, hm, b, hf⟩
  · rintro ⟨a, hm, b, hf⟩
    exact ⟨b, bind_eq_ok.mpr ⟨a, hm, hf⟩⟩

theorem returns_bind_iff {m : Checked α} {f : α → Checked β} :
    Returns (m >>= f) ↔ Returns m ∧ ∀ a, m = .ok a → Returns (f a) := by
  rw [returns_bind]
  constructor
  · rintro ⟨a, rfl, h⟩
    refine ⟨⟨a, rfl⟩, ?_⟩
    intro b hb
    cases hb
    exact h
  · rintro ⟨⟨a, ha⟩, h⟩
    exact ⟨a, ha, h a ha⟩

def Ensures (m : Checked α) (Q : α → Prop) : Prop := ∀ a, m = .ok a → Q a

theorem ensures_pure {Q : α → Prop} {a : α} (h : Q a) : Ensures (pure a) Q := by
  intro b hb
  cases hb
  exact h

theorem Ensures.bind {m : Checked α} {f : α → Checked β} {P : α → Prop} {Q : β → Prop}
    (hm : Ensures m P) (hf : ∀ a, P a → Ensures (f a) Q) : Ensures (m >>= f) Q := by
  intro b hb
  obtain ⟨a, ha, hfa⟩ := bind_eq_ok.mp hb
  exact hf a (hm a ha) b hfa

theorem ensures_bind {m : Checked α} {f : α → Checked β} {Q : β → Prop}
    (hf : ∀ a, Ensures (f a) Q) : Ensures (m >>= f) Q := by
  intro b hb
  obtain ⟨a, -, hfa⟩ := bind_eq_ok.mp hb
  exact hf a b hfa

def check (p : Bool) : Checked Unit := if p then .ok () else .error .assertion

@[simp] theorem check_true : check true = .ok () := rfl

@[simp] theorem check_false : check false = .error .assertion := rfl

end Checked

namespace Run

def lift (m : Checked α) : Run σ α := fun s =>
  match m with
  | .ok a => .ok (a, s)
  | .error e => .error (.fault e)

def exhausted : Run σ α := fun _ => .error .fuel

def ask (f : σ → α × σ) : Run σ α := fun s => .ok (f s)

@[simp] theorem pure_run (a : α) (s : σ) : (pure a : Run σ α) s = .ok (a, s) := rfl

theorem bind_run (m : Run σ α) (f : α → Run σ β) (s : σ) :
    (m >>= f) s = match m s with
      | .ok (a, t) => f a t
      | .error e => .error e := by
  change (m s >>= fun p => f p.1 p.2) = _
  cases m s <;> rfl

@[simp] theorem lift_ok (a : α) : (lift (.ok a) : Run σ α) = pure a := rfl

@[simp] theorem lift_error_run (e : Fault) (s : σ) :
    (lift (.error e) : Run σ α) s = .error (.fault e) := rfl

@[simp] theorem ask_run (f : σ → α × σ) (s : σ) : ask f s = .ok (f s) := rfl

theorem lift_eq_ok {m : Checked α} {s : σ} {r : α × σ} :
    lift m s = .ok r ↔ m = .ok r.1 ∧ r.2 = s := by
  obtain ⟨a, t⟩ := r
  cases m with
  | error e => simp
  | ok b =>
      simp only [lift_ok, pure_run, Except.ok.injEq, Prod.mk.injEq]
      exact ⟨fun h => ⟨h.1, h.2.symm⟩, fun h => ⟨h.1, h.2.symm⟩⟩

theorem bind_eq_ok {m : Run σ α} {f : α → Run σ β} {s : σ} {r : β × σ} :
    (m >>= f) s = .ok r ↔ ∃ a t, m s = .ok (a, t) ∧ f a t = .ok r := by
  rw [bind_run]
  cases hm : m s with
  | error e => simp
  | ok p =>
      obtain ⟨a, t⟩ := p
      constructor
      · intro h
        exact ⟨a, t, rfl, h⟩
      · rintro ⟨a', t', he, h⟩
        cases he
        exact h

theorem bind_of_ok {m : Run σ α} {f : α → Run σ β} {s t : σ} {a : α} (h : m s = .ok (a, t)) :
    (m >>= f) s = f a t := by
  rw [bind_run, h]

theorem lift_bind_of_ok {m : Checked α} {a : α} (h : m = .ok a) (f : α → Run σ β) :
    lift m >>= f = f a := by
  rw [h, lift_ok, pure_bind]

theorem bind_of_error {m : Run σ α} {f : α → Run σ β} {s : σ} {e : Halt} (h : m s = .error e) :
    (m >>= f) s = .error e := by
  rw [bind_run, h]

theorem lift_map (m : Checked α) (f : α → β) :
    (lift (m.map f) : Run σ β) = f <$> lift m := by
  funext s
  cases m <;> rfl

theorem exists_ok_iff {a : α} {t : σ} {Q : α → Prop} :
    (∃ b u, (.ok (a, t) : Except Halt (α × σ)) = .ok (b, u) ∧ Q b) ↔ Q a := by
  constructor
  · rintro ⟨b, u, hb, hQ⟩
    cases hb
    exact hQ
  · intro hQ
    exact ⟨a, t, rfl, hQ⟩

theorem ask_bind_run (f : σ → α × σ) (k : α → Run σ β) (s : σ) :
    (ask f >>= k) s = k (f s).1 (f s).2 := rfl

def Returns (m : Run σ α) (s : σ) : Prop := ∃ a t, m s = .ok (a, t)

theorem returns_pure (a : α) (s : σ) : Returns (pure a : Run σ α) s := ⟨a, s, rfl⟩

theorem returns_ask (f : σ → α × σ) (s : σ) : Returns (ask f) s := ⟨_, _, rfl⟩

theorem returns_lift {m : Checked α} {s : σ} : Returns (lift m) s ↔ Checked.Returns m := by
  constructor
  · rintro ⟨a, t, h⟩
    exact ⟨a, (lift_eq_ok.mp h).1⟩
  · rintro ⟨a, rfl⟩
    exact returns_pure a s

theorem returns_bind {m : Run σ α} {f : α → Run σ β} {s : σ} :
    Returns (m >>= f) s ↔ ∃ a t, m s = .ok (a, t) ∧ Returns (f a) t := by
  constructor
  · rintro ⟨b, u, h⟩
    obtain ⟨a, t, hm, hf⟩ := bind_eq_ok.mp h
    exact ⟨a, t, hm, b, u, hf⟩
  · rintro ⟨a, t, hm, b, u, hf⟩
    exact ⟨b, u, bind_eq_ok.mpr ⟨a, t, hm, hf⟩⟩

theorem Returns.bind {m : Run σ α} {f : α → Run σ β} {s : σ} (hm : Returns m s)
    (hf : ∀ a t, Returns (f a) t) : Returns (m >>= f) s := by
  obtain ⟨a, t, ha⟩ := hm
  exact returns_bind.mpr ⟨a, t, ha, hf a t⟩

theorem Returns.bind_iff {m : Run σ α} {f : α → Run σ β} {s : σ} {p : Prop} (hm : Returns m s)
    (hf : ∀ a t, (Returns (f a) t ↔ p)) : Returns (m >>= f) s ↔ p := by
  obtain ⟨a, t, ha⟩ := hm
  rw [Returns, bind_of_ok ha]
  exact hf a t

def Yields (m : Run σ α) (a : α) : Prop := ∃ s t, m s = .ok (a, t)

def Ensures (m : Run σ α) (s : σ) (Q : α → σ → Prop) : Prop := ∀ a t, m s = .ok (a, t) → Q a t

theorem ensures_pure {Q : α → σ → Prop} {a : α} {s : σ} (h : Q a s) :
    Ensures (pure a : Run σ α) s Q := by
  intro b t hb
  cases hb
  exact h

theorem ensures_lift {m : Checked α} {s : σ} {Q : α → σ → Prop}
    (h : Checked.Ensures m fun a => Q a s) : Ensures (lift m) s Q := by
  intro a t ha
  obtain ⟨hm, ht⟩ := lift_eq_ok.mp ha
  cases ht
  exact h a hm

theorem Ensures.bind {m : Run σ α} {f : α → Run σ β} {s : σ} {P : α → σ → Prop}
    {Q : β → σ → Prop} (hm : Ensures m s P) (hf : ∀ a t, P a t → Ensures (f a) t Q) :
    Ensures (m >>= f) s Q := by
  intro b u hb
  obtain ⟨a, t, ha, hfa⟩ := bind_eq_ok.mp hb
  exact hf a t (hm a t ha) b u hfa

theorem ensures_bind {m : Run σ α} {f : α → Run σ β} {s : σ} {Q : β → σ → Prop}
    (hf : ∀ a t, Ensures (f a) t Q) : Ensures (m >>= f) s Q := by
  intro b u hb
  obtain ⟨a, t, -, hfa⟩ := bind_eq_ok.mp hb
  exact hf a t b u hfa

theorem ensures_ask_bind {f : σ → α × σ} {k : α → Run σ β} {s : σ} {Q : β → σ → Prop} :
    Ensures (ask f >>= k) s Q ↔ Ensures (k (f s).1) (f s).2 Q := Iff.rfl

theorem ensures_lift_bind {m : Checked α} {f : α → Run σ β} {s : σ} {Q : β → σ → Prop}
    (hf : ∀ a, m = .ok a → Ensures (f a) s Q) : Ensures (lift m >>= f) s Q := by
  refine Ensures.bind (P := fun a t => m = .ok a ∧ t = s) ?_ ?_
  · intro a t ha
    obtain ⟨hm, ht⟩ := lift_eq_ok.mp ha
    exact ⟨hm, ht⟩
  · rintro a t ⟨hm, rfl⟩
    exact hf a hm

def Unfaulted (m : Run σ α) (s : σ) : Prop := ∀ e, m s ≠ .error (.fault e)

@[simp] theorem unfaulted_pure (a : α) (s : σ) : Unfaulted (pure a : Run σ α) s := by
  intro e h
  cases h

@[simp] theorem unfaulted_exhausted (s : σ) : Unfaulted (exhausted : Run σ α) s := by
  intro e h
  cases h

theorem unfaulted_lift {m : Checked α} {s : σ} : Unfaulted (lift m) s ↔ Checked.Returns m := by
  cases m with
  | ok a => simp
  | error e =>
      constructor
      · intro h
        exact absurd rfl (h e)
      · rintro ⟨a, ha⟩
        cases ha

theorem unfaulted_bind {m : Run σ α} {f : α → Run σ β} {s : σ} :
    Unfaulted (m >>= f) s ↔ Unfaulted m s ∧ ∀ a t, m s = .ok (a, t) → Unfaulted (f a) t := by
  constructor
  · intro h
    constructor
    · intro e he
      exact h e (bind_of_error he)
    · intro a t ha e he
      exact h e ((bind_of_ok ha).trans he)
  · rintro ⟨hm, hf⟩ e he
    cases hs : m s with
    | error e' =>
        rw [bind_of_error hs] at he
        cases he
        exact hm e hs
    | ok p =>
        obtain ⟨a, t⟩ := p
        rw [bind_of_ok hs] at he
        exact hf a t hs e he

theorem unfaulted_ask_bind {f : σ → α × σ} {k : α → Run σ β} {s : σ} :
    Unfaulted (ask f >>= k) s ↔ Unfaulted (k (f s).1) (f s).2 := Iff.rfl

theorem unfaulted_lift_bind {m : Checked α} {f : α → Run σ β} {s : σ} :
    Unfaulted (lift m >>= f) s ↔ Checked.Returns m ∧ ∀ a, m = .ok a → Unfaulted (f a) s := by
  rw [unfaulted_bind, unfaulted_lift]
  constructor
  · rintro ⟨hm, hf⟩
    exact ⟨hm, fun a ha => hf a s (lift_eq_ok.mpr ⟨ha, rfl⟩)⟩
  · rintro ⟨hm, hf⟩
    refine ⟨hm, fun a t ha => ?_⟩
    obtain ⟨hok, ht⟩ := lift_eq_ok.mp ha
    cases ht
    exact hf a hok

end Run

end Program
