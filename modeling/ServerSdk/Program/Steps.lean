import Mathlib.Logic.Relation

namespace Program

variable {σ ι ε : Type}

def Takes (step : σ → ι → Except ε σ) (allowed : σ → ι → Prop) (s next : σ) : Prop :=
  ∃ event, allowed s event ∧ step s event = .ok next

abbrev Steps (step : σ → ι → Except ε σ) (allowed : σ → ι → Prop) : σ → σ → Prop :=
  Relation.ReflTransGen (Takes step allowed)

def Succeeds (P : σ → Prop) : Except ε σ → Prop
  | .ok s => P s
  | .error _ => False

instance (P : σ → Prop) [DecidablePred P] : DecidablePred (Succeeds (ε := ε) P)
  | .ok s => inferInstanceAs (Decidable (P s))
  | .error _ => isFalse id

theorem exists_of_succeeds {P : σ → Prop} {m : Except ε σ} (h : Succeeds P m) :
    ∃ s, m = .ok s ∧ P s := by
  cases m with
  | ok s => exact ⟨s, rfl, h⟩
  | error fault => exact h.elim

def Along (step : σ → ι → Except ε σ) (allowed : σ → ι → Prop) (P : σ → Prop) : List ι → σ → Prop
  | [], s => P s
  | event :: events, s =>
      allowed s event ∧ Succeeds (Along step allowed P events) (step s event)

variable {step : σ → ι → Except ε σ} {allowed : σ → ι → Prop} {P : σ → Prop} {start s : σ}

instance decidableAlong [∀ s event, Decidable (allowed s event)] [DecidablePred P] :
    ∀ events, DecidablePred (Along step allowed P events)
  | [] => fun s => inferInstanceAs (Decidable (P s))
  | event :: events => fun s =>
      have := decidableAlong events
      inferInstanceAs (Decidable
        (allowed s event ∧ Succeeds (Along step allowed P events) (step s event)))

theorem Steps.invariant (hstart : P start)
    (hstep : ∀ {s next : σ} {event : ι}, P s → allowed s event → step s event = .ok next → P next)
    (h : Steps step allowed start s) : P s := by
  induction h with
  | refl => exact hstart
  | tail _ htakes ih =>
      obtain ⟨event, hallowed, hnext⟩ := htakes
      exact hstep ih hallowed hnext

theorem Steps.of_along {events : List ι} (h : Along step allowed P events start) :
    ∃ s, Steps step allowed start s ∧ P s := by
  induction events generalizing start with
  | nil => exact ⟨start, .refl, h⟩
  | cons event events ih =>
      obtain ⟨hallowed, h⟩ := h
      obtain ⟨next, hnext, h⟩ := exists_of_succeeds h
      obtain ⟨s, hsteps, hs⟩ := ih h
      exact ⟨s, .head ⟨event, hallowed, hnext⟩ hsteps, hs⟩

theorem Along.allow {events : List ι} (h : Along step (fun _ _ => True) P events start)
    (hallowed : ∀ event ∈ events, ∀ s, allowed s event) : Along step allowed P events start := by
  induction events generalizing start with
  | nil => exact h
  | cons event events ih =>
      obtain ⟨next, hnext, h⟩ := exists_of_succeeds h.2
      refine ⟨hallowed event List.mem_cons_self start, ?_⟩
      rw [hnext]
      exact ih h fun event hevent => hallowed event (List.mem_cons_of_mem _ hevent)

theorem Steps.mono {allowed' : σ → ι → Prop}
    (hallowed : ∀ s event, allowed s event → allowed' s event) (h : Steps step allowed start s) :
    Steps step allowed' start s := by
  induction h with
  | refl => exact .refl
  | tail _ htakes ih =>
      obtain ⟨event, hevent, hnext⟩ := htakes
      exact ih.tail ⟨event, hallowed _ event hevent, hnext⟩

theorem forall_append_paired {α β : Type} {pairs : List (α × β)} {pending : Option α} {b : β}
    {p : α × β → Prop} (h : ∀ pair ∈ pairs, p pair) (hpending : ∀ a, pending = some a → p (a, b)) :
    ∀ pair ∈ pairs ++ pending.toList.map fun a => (a, b), p pair := by
  intro pair hpair
  rcases List.mem_append.mp hpair with hpair | hpair
  · exact h pair hpair
  · obtain ⟨a, ha, rfl⟩ := List.mem_map.mp hpair
    exact hpending a (Option.mem_toList.mp ha)

end Program
