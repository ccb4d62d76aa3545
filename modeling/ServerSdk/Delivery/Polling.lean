import ServerSdk.Delivery.Put
import ServerSdk.Program.Steps

namespace ServerSdk

open Program

structure PollConfig where
  stream : Bool
  dataSource : Bool
  pollInterval : ℕ
  deriving DecidableEq, Repr

def constructPollContext : PollContext := ⟨none, 0, false, 0⟩

def PollContext.poll (config : PollConfig) (context : PollContext) (now : Rat) (prepared : Bool) :
    Checked (Bool × PollContext) :=
  if context.active ∨ config.stream ∨ config.dataSource then .ok (false, context)
  else do
    Checked.check (now ≥ context.lastpoll)
    if now - context.lastpoll < config.pollInterval then pure (false, context)
    else if prepared then pure (true, { context with active := true })
    else pure (false, context)

structure PollRun (σ : Type) where
  store : Store σ
  context : PollContext
  clock : Rat
  inFlight : ℕ
  completedOn : Option Rat
  spacings : List (Rat × Rat)

inductive PollingCall where
  | poll (now : Rat) (prepared : Bool)
  | write (contents : String)
  | done (responseCode : Int) (now : Rat)
  deriving DecidableEq, Repr

theorem poll_cases {config : PollConfig} {context : PollContext} {now : Rat} {prepared : Bool}
    {result : Bool × PollContext} (h : context.poll config now prepared = .ok result) :
    result = (false, context) ∨ (result = (true, { context with active := true }) ∧
      context.active = false ∧ context.lastpoll + config.pollInterval ≤ now) := by
  rw [PollContext.poll] at h
  split_ifs at h with hidle hinterval hprepared
  · cases h
    exact .inl rfl
  · obtain ⟨_, _, h⟩ := Checked.bind_eq_ok.mp h
    cases h
    exact .inl rfl
  · obtain ⟨_, _, h⟩ := Checked.bind_eq_ok.mp h
    cases h
    refine .inr ⟨rfl, ?_, by linarith⟩
    simpa using (not_or.mp hidle).1
  · obtain ⟨_, _, h⟩ := Checked.bind_eq_ok.mp h
    cases h
    exact .inl rfl

namespace PollRun

variable {σ : Type}

def begin (store : Store σ) (clock : Rat) : PollRun σ :=
  ⟨store, constructPollContext, clock, 0, none, []⟩

def polled (run : PollRun σ) (now : Rat) : Bool × PollContext → PollRun σ
  | (true, context) =>
      { run with
        context
        clock := now
        inFlight := run.inFlight + 1
        completedOn := none
        spacings := run.spacings ++ run.completedOn.toList.map fun ended => (ended, now) }
  | (false, context) => { run with context, clock := now }

def completed (run : PollRun σ) (now : Rat) (result : Store σ × PollContext) : PollRun σ :=
  { run with
    store := result.1
    context := result.2
    clock := now
    inFlight := run.inFlight - 1
    completedOn := some now }

def InOrder (run : PollRun σ) : PollingCall → Prop
  | .poll now prepared => run.clock ≤ now ∧ prepared = true
  | .write _ => 0 < run.inFlight
  | .done _ now => run.clock ≤ now ∧ 0 < run.inFlight

def RespectsInterval (config : PollConfig) (run : PollRun σ) : Prop :=
  run.inFlight ≤ 1 ∧ ∀ pair ∈ run.spacings, pair.1 + config.pollInterval ≤ pair.2

def Recorded (config : PollConfig) : PollingCall → Prop
  | .done responseCode _ => responseCode = 200 ∨ config.pollInterval = 0
  | _ => True

instance (run : PollRun σ) : DecidablePred run.InOrder
  | .poll _ _ => inferInstanceAs (Decidable (_ ∧ _))
  | .write _ => inferInstanceAs (Decidable (0 < run.inFlight))
  | .done _ _ => inferInstanceAs (Decidable (_ ∧ _))

instance (config : PollConfig) : DecidablePred (Recorded config)
  | .done _ _ => inferInstanceAs (Decidable (_ ∨ _))
  | .poll _ _ => inferInstanceAs (Decidable True)
  | .write _ => inferInstanceAs (Decidable True)

instance (config : PollConfig) (run : PollRun σ) : Decidable (run.RespectsInterval config) :=
  inferInstanceAs (Decidable (_ ∧ ∀ pair ∈ run.spacings, _))

structure Paced (config : PollConfig) (run : PollRun σ) : Prop where
  single : run.inFlight = run.context.active.toNat
  pending : ∀ ended ∈ run.completedOn, ended ≤ run.clock ∧
    (ended = run.context.lastpoll ∨ config.pollInterval = 0)
  apart : ∀ pair ∈ run.spacings, pair.1 + config.pollInterval ≤ pair.2

variable {config : PollConfig} {run next : PollRun σ}

theorem Paced.respectsInterval (h : run.Paced config) : run.RespectsInterval config := by
  refine ⟨?_, h.apart⟩
  rw [h.single]
  exact Bool.toNat_le _

theorem paced_begin (store : Store σ) (clock : Rat) : (begin store clock).Paced config :=
  ⟨rfl, nofun, nofun⟩

theorem Paced.later {now : Rat} (h : run.Paced config) (hclock : run.clock ≤ now) :
    (run.polled now (false, run.context)).Paced config := by
  refine ⟨h.single, ?_, h.apart⟩
  intro ended hended
  obtain ⟨hle, hrecorded⟩ := h.pending ended hended
  exact ⟨hle.trans hclock, hrecorded⟩

theorem Paced.starting {now : Rat} (h : run.Paced config) (hclock : run.clock ≤ now)
    (hactive : run.context.active = false)
    (hinterval : run.context.lastpoll + config.pollInterval ≤ now) :
    (run.polled now (true, { run.context with active := true })).Paced config := by
  refine ⟨?_, nofun, ?_⟩
  · change run.inFlight + 1 = 1
    rw [h.single, hactive]
    rfl
  · refine forall_append_paired h.apart fun ended hended => ?_
    obtain ⟨hle, hrecorded | hzero⟩ := h.pending ended hended
    · rwa [hrecorded]
    · simpa [hzero] using hle.trans hclock

variable [Parsing]

def step (config : PollConfig) (run : PollRun σ) : PollingCall → Checked (PollRun σ)
  | .poll now prepared => do
      let result ← run.context.poll config now prepared
      pure (run.polled now result)
  | .write contents => pure { run with context := run.context.writeCallback contents }
  | .done responseCode now => do
      let result ← done run.store run.context responseCode now
      pure (run.completed now result)

theorem done_context {store : Store σ} {context : PollContext} {responseCode : Int} {now : Rat}
    {result : Store σ × PollContext} (h : done store context responseCode now = .ok result) :
    result.2.active = false ∧ (responseCode = 200 → result.2.lastpoll = now) := by
  rw [done] at h
  split_ifs at h with hok
  · obtain ⟨_, _, h⟩ := Checked.bind_eq_ok.mp h
    cases h
    exact ⟨rfl, fun _ => rfl⟩
  · cases h
    exact ⟨rfl, fun h => absurd h hok⟩

theorem Paced.step {call : PollingCall} (h : run.Paced config) (horder : run.InOrder call)
    (hrecorded : Recorded config call) (hstep : run.step config call = .ok next) :
    next.Paced config := by
  cases call with
  | poll now prepared =>
      obtain ⟨result, hpoll, hnext⟩ := Checked.bind_eq_ok.mp hstep
      cases hnext
      obtain rfl | ⟨rfl, hactive, hinterval⟩ := poll_cases hpoll
      · exact h.later horder.1
      · exact h.starting horder.1 hactive hinterval
  | write contents =>
      cases hstep
      exact ⟨h.single, h.pending, h.apart⟩
  | done responseCode now =>
      obtain ⟨result, hdone, hnext⟩ := Checked.bind_eq_ok.mp hstep
      cases hnext
      obtain ⟨hactive, hlastpoll⟩ := done_context hdone
      refine ⟨?_, ?_, h.apart⟩
      · change run.inFlight - 1 = result.2.active.toNat
        have hsingle : run.inFlight ≤ 1 := h.respectsInterval.1
        rw [hactive, Bool.toNat_false]
        omega
      · intro ended hended
        cases hended
        exact ⟨le_rfl, hrecorded.imp (fun hok => (hlastpoll hok).symm) id⟩

end PollRun

section Polling

variable [Parsing] {σ : Type}

theorem polling_respects_interval (config : PollConfig) (store : Store σ) (clock : Rat)
    {run : PollRun σ} (h : Steps (PollRun.step config)
      (fun run call => run.InOrder call ∧ PollRun.Recorded config call) (.begin store clock) run) :
    run.RespectsInterval config := by
  refine PollRun.Paced.respectsInterval ?_
  refine h.invariant (PollRun.paced_begin store clock) ?_
  intro run next call hpaced hallowed hstep
  exact hpaced.step hallowed.1 hallowed.2 hstep

end Polling

def pollConfig : PollConfig := ⟨false, false, 30000⟩

@[reducible] def noParsing : Parsing := literalParsing []

def freshPolling (clock : Rat) : PollRun MemoryStoreContext :=
  .begin ⟨storeMemoryNew.1, storeMemoryNew.2⟩ clock

theorem undecodable_poll_paced : ∃ run, Steps (@PollRun.step MemoryStoreContext noParsing pollConfig)
      (fun run call => run.InOrder call ∧ PollRun.Recorded pollConfig call)
      (freshPolling 40000) run ∧
    run.spacings = [(41000, 71000)] ∧ run.RespectsInterval pollConfig := by
  have halong : Along (@PollRun.step MemoryStoreContext noParsing pollConfig)
      (fun run call => run.InOrder call ∧ PollRun.Recorded pollConfig call)
      (fun run => run.spacings = [(41000, 71000)])
      [.poll 40000 true, .write "x", .done 200 41000, .poll 60000 true, .poll 71000 true]
      (freshPolling 40000) := by
    decide +kernel
  obtain ⟨run, hsteps, hspacings⟩ := Steps.of_along halong
  exact ⟨run, hsteps, hspacings, @polling_respects_interval noParsing _ _ _ _ _ hsteps⟩

theorem failed_poll_repeated_at_once : ¬ ∀ [Parsing] (σ : Type) (config : PollConfig)
    (store : Store σ) (clock : Rat) (run : PollRun σ),
    Steps (PollRun.step config) PollRun.InOrder (.begin store clock) run →
      run.RespectsInterval config := by
  intro hclaim
  have halong : Along (@PollRun.step MemoryStoreContext noParsing pollConfig) PollRun.InOrder
      (fun run => ¬ run.RespectsInterval pollConfig)
      [.poll 40000 true, .done 500 41000, .poll 41000 true] (freshPolling 40000) := by
    decide +kernel
  obtain ⟨run, hsteps, hrun⟩ := Steps.of_along halong
  exact hrun (@hclaim noParsing _ pollConfig _ _ run hsteps)

end ServerSdk
