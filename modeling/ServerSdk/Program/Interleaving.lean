import Mathlib.Logic.Function.Basic
import ServerSdk.Program.Run

namespace Program

structure Machine (σ τ γ ε : Type) where
  begin : γ → τ
  step : τ → σ → Checked (τ × σ)
  environment : ε → σ → σ

structure Pool (σ τ : Type) where
  shared : σ
  tasks : ℕ → Option τ

inductive PoolEvent (γ ε : Type) where
  | start (id : ℕ) (call : γ)
  | step (id : ℕ)
  | environment (event : ε)

def PoolEvent.named {γ ε : Type} : PoolEvent γ ε → Option ℕ
  | .start id _ => some id
  | .step id => some id
  | .environment _ => none

namespace Pool

variable {σ τ γ ε : Type}

def idle (shared : σ) : Pool σ τ := ⟨shared, fun _ => none⟩

def put (pool : Pool σ τ) (id : ℕ) (task : τ) : Pool σ τ :=
  { pool with tasks := Function.update pool.tasks id (some task) }

def perform (machine : Machine σ τ γ ε) (pool : Pool σ τ) : PoolEvent γ ε → Checked (Pool σ τ)
  | .start id call =>
      match pool.tasks id with
      | none => .ok (pool.put id (machine.begin call))
      | some _ => .ok pool
  | .step id =>
      match pool.tasks id with
      | none => .ok pool
      | some task => do
          let (task, shared) ← machine.step task pool.shared
          pure ({ pool with shared }.put id task)
  | .environment event => .ok { pool with shared := machine.environment event pool.shared }

def performAll (machine : Machine σ τ γ ε) : List (PoolEvent γ ε) → Pool σ τ → Checked (Pool σ τ)
  | [], pool => .ok pool
  | event :: events, pool => do
      let pool ← pool.perform machine event
      performAll machine events pool

def after (machine : Machine σ τ γ ε) (events : List (PoolEvent γ ε)) (pool : Pool σ τ) :
    Pool σ τ :=
  match performAll machine events pool with
  | .ok result => result
  | .error _ => pool

inductive Reaches (machine : Machine σ τ γ ε) (allowed : Pool σ τ → PoolEvent γ ε → Prop)
    (start : Pool σ τ) : Pool σ τ → Prop
  | refl : Reaches machine allowed start start
  | tail {pool next : Pool σ τ} {event : PoolEvent γ ε} : Reaches machine allowed start pool →
      allowed pool event → pool.perform machine event = .ok next →
      Reaches machine allowed start next

variable {machine : Machine σ τ γ ε} {allowed : Pool σ τ → PoolEvent γ ε → Prop}
  {pool next start : Pool σ τ}

@[simp] theorem shared_put (pool : Pool σ τ) (id : ℕ) (task : τ) :
    (pool.put id task).shared = pool.shared := rfl

@[simp] theorem tasks_put_self (pool : Pool σ τ) (id : ℕ) (task : τ) :
    (pool.put id task).tasks id = some task := Function.update_self _ _ _

theorem tasks_put_of_ne {id other : ℕ} {task : τ} (h : other ≠ id) :
    (pool.put id task).tasks other = pool.tasks other := Function.update_of_ne h _ _

theorem put_of_tasks {id : ℕ} {task : τ} (h : pool.tasks id = some task) :
    pool.put id task = pool := by
  rw [put, ← h, Function.update_eq_self]

theorem tasks_put_eq_some {id other : ℕ} {task task' : τ}
    (h : (pool.put id task').tasks other = some task) :
    (other = id ∧ task = task') ∨ (other ≠ id ∧ pool.tasks other = some task) := by
  by_cases heq : other = id
  · subst heq
    rw [tasks_put_self] at h
    cases h
    exact .inl ⟨rfl, rfl⟩
  · rw [tasks_put_of_ne heq] at h
    exact .inr ⟨heq, h⟩

theorem forall_tasks_put {id : ℕ} {task' : τ} {p : τ → Prop}
    (h : ∀ other task, pool.tasks other = some task → p task) (htask : p task') :
    ∀ other task, (pool.put id task').tasks other = some task → p task := by
  intro other task hother
  rcases tasks_put_eq_some hother with ⟨_, rfl⟩ | ⟨_, hother⟩
  · exact htask
  · exact h other task hother

inductive Performed (machine : Machine σ τ γ ε) (pool : Pool σ τ) :
    PoolEvent γ ε → Pool σ τ → Prop
  | started {id : ℕ} {call : γ} : pool.tasks id = none →
      Performed machine pool (.start id call) (pool.put id (machine.begin call))
  | stepped {id : ℕ} {task task' : τ} {shared : σ} : pool.tasks id = some task →
      machine.step task pool.shared = .ok (task', shared) →
      Performed machine pool (.step id) ({ pool with shared }.put id task')
  | moved (event : ε) : Performed machine pool (.environment event)
      { pool with shared := machine.environment event pool.shared }
  | ignored (event : PoolEvent γ ε) : Performed machine pool event pool

theorem performed_of_perform {event : PoolEvent γ ε}
    (h : pool.perform machine event = .ok next) : Performed machine pool event next := by
  cases event with
  | start id call =>
      rw [perform] at h
      cases hid : pool.tasks id with
      | none =>
          rw [hid] at h
          cases h
          exact .started hid
      | some task =>
          rw [hid] at h
          cases h
          exact .ignored _
  | step id =>
      rw [perform] at h
      cases hid : pool.tasks id with
      | none =>
          rw [hid] at h
          cases h
          exact .ignored _
      | some task =>
          rw [hid] at h
          obtain ⟨⟨task', shared⟩, hstep, h⟩ := Checked.bind_eq_ok.mp h
          cases h
          exact .stepped hid hstep
  | environment event =>
      cases h
      exact .moved event

theorem Performed.tasks_of_final {event : PoolEvent γ ε} (h : Performed machine pool event next)
    {id : ℕ} {task : τ} (htask : pool.tasks id = some task)
    (hfinal : ∀ shared, machine.step task shared = .ok (task, shared)) :
    next.tasks id = some task := by
  cases h with
  | @started other call hother =>
      rw [tasks_put_of_ne ?_]
      · exact htask
      · rintro rfl
        cases hother.symm.trans htask
  | @stepped other before after shared hother hstep =>
      by_cases heq : id = other
      · subst heq
        cases hother.symm.trans htask
        cases (hfinal pool.shared).symm.trans hstep
        exact tasks_put_self _ _ _
      · rw [tasks_put_of_ne heq]
        exact htask
  | moved => exact htask
  | ignored => exact htask

theorem Performed.tasks_of_unnamed {event : PoolEvent γ ε} (h : Performed machine pool event next)
    {id : ℕ} (hid : event.named ≠ some id) : next.tasks id = pool.tasks id := by
  cases h with
  | started =>
      apply tasks_put_of_ne
      rintro rfl
      exact hid rfl
  | stepped =>
      apply tasks_put_of_ne
      rintro rfl
      exact hid rfl
  | moved => rfl
  | ignored => rfl

theorem tasks_of_performAll {events : List (PoolEvent γ ε)}
    (h : performAll machine events pool = .ok next) {id : ℕ}
    (hid : ∀ event ∈ events, event.named ≠ some id) : next.tasks id = pool.tasks id := by
  induction events generalizing pool with
  | nil =>
      cases h
      rfl
  | cons event events ih =>
      obtain ⟨middle, hmiddle, hrest⟩ := Checked.bind_eq_ok.mp h
      have hfirst := (performed_of_perform hmiddle).tasks_of_unnamed (hid event (by simp))
      rw [ih hrest fun other hother => hid other (by simp [hother]), hfirst]

theorem tasks_after (events : List (PoolEvent γ ε)) (pool : Pool σ τ) {id : ℕ}
    (hid : ∀ event ∈ events, event.named ≠ some id) :
    (pool.after machine events).tasks id = pool.tasks id := by
  rw [after]
  cases hresult : performAll machine events pool with
  | ok result => exact tasks_of_performAll hresult hid
  | error fault => rfl

theorem Reaches.invariant {I : Pool σ τ → Prop} (h : Reaches machine allowed start pool)
    (hstart : I start)
    (hstep : ∀ pool event next, I pool → allowed pool event →
      Performed machine pool event next → I next) : I pool := by
  induction h with
  | refl => exact hstart
  | tail _ hallowed hperform ih => exact hstep _ _ _ ih hallowed (performed_of_perform hperform)

theorem Reaches.trans {middle : Pool σ τ} (h : Reaches machine allowed start middle)
    (h' : Reaches machine allowed middle pool) : Reaches machine allowed start pool := by
  induction h' with
  | refl => exact h
  | tail _ hallowed hperform ih => exact .tail ih hallowed hperform

theorem Reaches.mono {allowed' : Pool σ τ → PoolEvent γ ε → Prop}
    (hallowed : ∀ pool event, allowed pool event → allowed' pool event)
    (h : Reaches machine allowed start pool) : Reaches machine allowed' start pool := by
  induction h with
  | refl => exact .refl
  | tail _ hevent hperform ih => exact .tail ih (hallowed _ _ hevent) hperform

def AllowedAlong (machine : Machine σ τ γ ε) (allowed : Pool σ τ → PoolEvent γ ε → Prop) :
    List (PoolEvent γ ε) → Pool σ τ → Prop
  | [], _ => True
  | event :: events, pool => allowed pool event ∧
      AllowedAlong machine allowed events (pool.after machine [event])

def decidableAllowedAlong [∀ pool event, Decidable (allowed pool event)] :
    ∀ events pool, Decidable (AllowedAlong machine allowed events pool)
  | [], _ => isTrue trivial
  | event :: events, pool =>
      match decidableAllowedAlong events (pool.after machine [event]) with
      | isTrue h => decidable_of_iff (allowed pool event) ⟨fun h' => ⟨h', h⟩, fun h' => h'.1⟩
      | isFalse h => isFalse fun h' => h h'.2

instance [∀ pool event, Decidable (allowed pool event)] (events : List (PoolEvent γ ε))
    (pool : Pool σ τ) : Decidable (AllowedAlong machine allowed events pool) :=
  decidableAllowedAlong events pool

theorem reaches_of_performAll {events : List (PoolEvent γ ε)}
    (hallowed : AllowedAlong machine allowed events pool)
    (h : performAll machine events pool = .ok next) : Reaches machine allowed pool next := by
  induction events generalizing pool with
  | nil =>
      cases h
      exact .refl
  | cons event events ih =>
      obtain ⟨middle, hmiddle, hrest⟩ := Checked.bind_eq_ok.mp h
      have hafter : pool.after machine [event] = middle := by
        rw [after, performAll, hmiddle]
        rfl
      have hfirst : Reaches machine allowed pool middle := .tail .refl hallowed.1 hmiddle
      exact hfirst.trans (ih (hafter ▸ hallowed.2) hrest)

theorem reaches_after {events : List (PoolEvent γ ε)}
    (hallowed : AllowedAlong machine allowed events pool)
    (h : Checked.Returns (performAll machine events pool)) :
    Reaches machine allowed pool (pool.after machine events) := by
  obtain ⟨result, hresult⟩ := h
  have hafter : pool.after machine events = result := by
    rw [after, hresult]
  rw [hafter]
  exact reaches_of_performAll hallowed hresult

theorem reaches_of_total (htotal : ∀ task shared, Checked.Returns (machine.step task shared))
    (events : List (PoolEvent γ ε)) (pool : Pool σ τ) :
    ∃ next, performAll machine events pool = .ok next ∧
      Reaches machine (fun _ _ => True) pool next := by
  induction events generalizing pool with
  | nil => exact ⟨pool, rfl, .refl⟩
  | cons event events ih =>
      obtain ⟨middle, hmiddle⟩ : Checked.Returns (pool.perform machine event) := by
        cases event with
        | start id call =>
            rw [perform]
            cases pool.tasks id <;> exact ⟨_, rfl⟩
        | environment event => exact ⟨_, rfl⟩
        | step id =>
            rw [perform]
            cases pool.tasks id with
            | none => exact ⟨_, rfl⟩
            | some task =>
                obtain ⟨result, hresult⟩ := htotal task pool.shared
                exact ⟨_, Checked.bind_eq_ok.mpr ⟨result, hresult, rfl⟩⟩
      obtain ⟨next, hnext, hreaches⟩ := ih middle
      have hfirst : Reaches machine (fun _ _ => True) pool middle := .tail .refl trivial hmiddle
      exact ⟨next, Checked.bind_eq_ok.mpr ⟨middle, hmiddle, hnext⟩, hfirst.trans hreaches⟩

end Pool

end Program
