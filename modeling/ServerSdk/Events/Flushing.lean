import ServerSdk.Events.RetryDelay

namespace ServerSdk

open Program

structure Bundling where
  awaited : Bool
  now : Rat
  delivered : Rat
  deriving DecidableEq, Repr

structure FlushRun where
  context : AnalyticsContext
  processor : EventProcessor
  shouldFlush : Bool
  pending : List Bool
  delivered : Rat
  bundlings : List Bundling

inductive FlushCall where
  | poll (call : AnalyticsPoll)
  | done (responseCode : Int) (now : Rat)
  | flush
  | record (processor : EventProcessor)

def AnalyticsContext.Bundles (flushInterval : ℕ) (shouldFlush : Bool) (now : Rat)
    (context : AnalyticsContext) : Prop :=
  context.active = false ∧ context.failureTime = 0 ∧
    (shouldFlush = true ∨ flushInterval ≤ now - context.lastFlush)

instance (flushInterval : ℕ) (shouldFlush : Bool) (now : Rat) (context : AnalyticsContext) :
    Decidable (context.Bundles flushInterval shouldFlush now) :=
  inferInstanceAs (Decidable (_ ∧ _ ∧ (_ ∨ _)))

def EventProcessor.NothingToSend (processor : EventProcessor) : Prop :=
  processor.events.length = 0 ∧ processor.summaryCounters.length = 0

instance (processor : EventProcessor) : Decidable processor.NothingToSend :=
  inferInstanceAs (Decidable (_ ∧ _))

namespace FlushRun

def begin (processor : EventProcessor) (clock : Rat) : FlushRun :=
  ⟨.construct clock, processor, false, [], clock, []⟩

def clientFlush (run : FlushRun) : FlushRun :=
  { run with shouldFlush := true, pending := false :: run.pending }

def polled (run : FlushRun) (flushInterval : ℕ) (now : Rat) (result : AnalyticsPolled) : FlushRun :=
  let run' := { run with context := result.context, processor := result.processor }
  if run.context.Bundles flushInterval run.shouldFlush now then
    if result.taken.isSome then
      { run' with
        pending := run.pending.map fun _ => true
        bundlings := ⟨!run.pending.isEmpty, now, run.delivered⟩ :: run.bundlings }
    else { run' with pending := [] }
  else run'

def completed (run : FlushRun) (responseCode : Int) (now : Rat) : FlushRun :=
  let (shouldFlush, context) := run.context.done responseCode now run.shouldFlush
  let run' := { run with context, shouldFlush }
  if Failed responseCode then run'
  else { run' with pending := run.pending.filter (!·), delivered := now }

variable [Externals]

def step (flushInterval : ℕ) (run : FlushRun) : FlushCall → Except Halt FlushRun
  | .poll call => do
      let (result, _) ← run.context.poll flushInterval run.shouldFlush run.processor call
      pure (run.polled flushInterval call.now result)
  | .done responseCode now => pure (run.completed responseCode now)
  | .flush => pure run.clientFlush
  | .record processor => pure { run with processor }

def SetUp (run : FlushRun) : FlushCall → Prop
  | .poll call => call.uuid.isSome = true ∧ call.serialized = true ∧ call.prepared = true
  | .done _ _ => run.context.active = true
  | .flush => True
  | .record _ => True

def Harmless (flushInterval : ℕ) (run : FlushRun) : FlushCall → Prop
  | .poll call => run.shouldFlush = true →
      run.context.Bundles flushInterval run.shouldFlush call.now → ¬ run.processor.NothingToSend
  | .done responseCode _ => ¬ Failed responseCode → false ∉ run.pending
  | .flush => True
  | .record _ => True

structure FlushesKept (flushInterval : ℕ) (run : FlushRun) : Prop where
  kept : run.pending ≠ [] → run.shouldFlush = true
  unhurried : ∀ bundling ∈ run.bundlings, bundling.awaited = false →
    flushInterval ≤ bundling.now - bundling.delivered

end FlushRun

section Polling

variable [Externals] {flushInterval : ℕ} {shouldFlush : Bool} {processor : EventProcessor}
  {context : AnalyticsContext} {call call' : AnalyticsPoll} {result : AnalyticsPolled}

omit [Externals] in
theorem send_lastFlush {taken : Option (List Json)}
    (h : context.send taken processor call = .ok (result, call')) :
    result.taken = taken ∧ result.context.lastFlush = context.lastFlush := by
  rw [AnalyticsContext.send, Run.ask_bind_run] at h
  split at h <;> cases h <;> exact ⟨rfl, rfl⟩

theorem bundle_lastFlush {events : List Json}
    (h : context.bundle events processor call = .ok (result, call')) :
    result.taken = some events ∧ result.context.lastFlush = context.lastFlush := by
  rw [AnalyticsContext.bundle, Run.ask_bind_run] at h
  split at h
  · rw [Run.ask_bind_run] at h
    cases huuid : call.uuid with
    | none =>
        rw [huuid] at h
        cases h
        exact ⟨rfl, rfl⟩
    | some uuid =>
        rw [huuid] at h
        have hsent := send_lastFlush h
        exact hsent
  · cases h
    exact ⟨rfl, rfl⟩

omit [Externals] in
theorem createEventPayload_none_iff {payload : EventPayload}
    (h : createEventPayloadAndResetState pollWorld processor call = .ok (payload, call')) :
    payload.result = none ↔ processor.NothingToSend := by
  rw [createEventPayloadAndResetState, Run.ask_bind_run] at h
  rw [EventProcessor.NothingToSend]
  split_ifs at h with hempty hcounters
  · cases h
    exact iff_of_true rfl hempty
  · obtain ⟨summary, call₁, -, hpure⟩ := Run.bind_eq_ok.mp h
    cases hpure
    exact iff_of_false (by simp) hempty
  · cases h
    exact iff_of_false (by simp) hempty

theorem takePayload_taken (h : context.takePayload processor call = .ok (result, call')) :
    (result.taken = none ↔ processor.NothingToSend) ∧
      result.context.lastFlush = context.lastFlush := by
  obtain ⟨payload, call₁, hpayload, hrest⟩ := Run.bind_eq_ok.mp h
  rw [← createEventPayload_none_iff hpayload]
  cases hresult : payload.result with
  | none =>
      rw [hresult] at hrest
      cases hrest
      exact ⟨by simp [AnalyticsContext.idle], rfl⟩
  | some events =>
      rw [hresult] at hrest
      obtain ⟨htaken, hlast⟩ := bundle_lastFlush hrest
      exact ⟨by simp [htaken], hlast⟩

theorem poll_taken (h : context.poll flushInterval shouldFlush processor call = .ok (result, call')) :
    result.context.lastFlush = context.lastFlush ∧
      (context.Bundles flushInterval shouldFlush call.now →
        (result.taken = none ↔ processor.NothingToSend)) := by
  rw [AnalyticsContext.poll] at h
  rw [AnalyticsContext.Bundles]
  split_ifs at h with hactive hfailure hflush
  · cases h
    exact ⟨rfl, by simp [hactive]⟩
  · rw [Run.ask_bind_run] at h
    split_ifs at h with hwait
    · cases h
      exact ⟨rfl, fun hbundles => absurd hbundles.2.1 hfailure⟩
    · obtain ⟨-, hlast⟩ := send_lastFlush h
      exact ⟨hlast, fun hbundles => absurd hbundles.2.1 hfailure⟩
  · obtain ⟨htaken, hlast⟩ := takePayload_taken h
    exact ⟨hlast, fun _ => htaken⟩
  · rw [Run.ask_bind_run] at h
    obtain ⟨_, call₁, hcheck, h⟩ := Run.bind_eq_ok.mp h
    obtain ⟨-, hcall⟩ := Run.lift_eq_ok.mp hcheck
    obtain rfl : call₁ = call := hcall
    split_ifs at h with hearly
    · cases h
      refine ⟨rfl, fun hbundles => ?_⟩
      rcases hbundles.2.2 with hset | hdue
      · exact absurd hset hflush
      · exact absurd hearly (not_lt.mpr hdue)
    · obtain ⟨htaken, hlast⟩ := takePayload_taken h
      exact ⟨hlast, fun _ => htaken⟩

end Polling

namespace FlushRun

structure Flushed (flushInterval : ℕ) (run : FlushRun) : Prop where
  waiting : run.shouldFlush = true ↔ run.pending ≠ []
  delivered : run.context.lastFlush = run.delivered
  unhurried : ∀ bundling ∈ run.bundlings, bundling.awaited = false →
    flushInterval ≤ bundling.now - bundling.delivered

variable {flushInterval : ℕ} {run next : FlushRun}

theorem Flushed.kept (h : run.Flushed flushInterval) : run.FlushesKept flushInterval :=
  ⟨h.waiting.mpr, h.unhurried⟩

theorem flushed_begin (processor : EventProcessor) (clock : Rat) :
    (begin processor clock).Flushed flushInterval :=
  ⟨by simp [begin], rfl, nofun⟩

theorem Flushed.clientFlush (h : run.Flushed flushInterval) : run.clientFlush.Flushed flushInterval :=
  ⟨by simp [FlushRun.clientFlush], h.delivered, h.unhurried⟩

theorem Flushed.polled {now : Rat} {result : AnalyticsPolled} (h : run.Flushed flushInterval)
    (hlast : result.context.lastFlush = run.context.lastFlush)
    (htaken : run.context.Bundles flushInterval run.shouldFlush now →
      (result.taken = none ↔ run.processor.NothingToSend))
    (hharmless : run.shouldFlush = true →
      run.context.Bundles flushInterval run.shouldFlush now → ¬ run.processor.NothingToSend) :
    (run.polled flushInterval now result).Flushed flushInterval := by
  obtain ⟨hwaiting, hdelivered, hunhurried⟩ := h
  rw [FlushRun.polled]
  split_ifs with hbundles hsome
  · refine ⟨by simp [hwaiting], hlast.trans hdelivered, List.forall_mem_cons.mpr ⟨?_, hunhurried⟩⟩
    intro hunawaited
    have hnone : run.pending = [] := by simpa using hunawaited
    have hunset : run.shouldFlush ≠ true := by simp [hwaiting, hnone]
    rw [← hdelivered]
    exact hbundles.2.2.resolve_left hunset
  · have hnothing : run.processor.NothingToSend := (htaken hbundles).mp (by simpa using hsome)
    have hunset : run.shouldFlush ≠ true := fun hset => hharmless hset hbundles hnothing
    exact ⟨by simp [hunset], hlast.trans hdelivered, hunhurried⟩
  · exact ⟨hwaiting, hlast.trans hdelivered, hunhurried⟩

theorem Flushed.completed {responseCode : Int} (h : run.Flushed flushInterval)
    (hharmless : ¬ Failed responseCode → false ∉ run.pending) (now : Rat) :
    (run.completed responseCode now).Flushed flushInterval := by
  obtain ⟨hwaiting, hdelivered, hunhurried⟩ := h
  rw [FlushRun.completed, AnalyticsContext.done]
  by_cases hfailed : Failed responseCode
  · have hcode : ¬ (responseCode = 200 ∨ responseCode = 202) := hfailed
    simp only [if_pos hfailed, if_neg hcode]
    split_ifs <;> exact ⟨hwaiting, hdelivered, hunhurried⟩
  · have hcode : responseCode = 200 ∨ responseCode = 202 := not_not.mp hfailed
    have hanswered : run.pending.filter (!·) = [] := by
      rw [List.filter_eq_nil_iff]
      intro covered hcovered
      have hne : covered ≠ false := fun heq => hharmless hfailed (heq ▸ hcovered)
      simpa using hne
    simp only [if_neg hfailed, if_pos hcode, hanswered]
    exact ⟨by simp, rfl, hunhurried⟩

variable [Externals]

theorem Flushed.step {call : FlushCall} (h : run.Flushed flushInterval)
    (hharmless : run.Harmless flushInterval call) (hstep : run.step flushInterval call = .ok next) :
    next.Flushed flushInterval := by
  cases call with
  | poll call =>
      rw [FlushRun.step] at hstep
      cases hpoll : run.context.poll flushInterval run.shouldFlush run.processor call with
      | error halt =>
          rw [hpoll] at hstep
          cases hstep
      | ok polled =>
          rw [hpoll] at hstep
          cases hstep
          obtain ⟨hlast, htaken⟩ := poll_taken hpoll
          exact h.polled hlast htaken hharmless
  | done responseCode now =>
      cases hstep
      exact h.completed hharmless now
  | flush =>
      cases hstep
      exact h.clientFlush
  | record processor =>
      cases hstep
      exact ⟨h.waiting, h.delivered, h.unhurried⟩

end FlushRun

instance (run : FlushRun) : DecidablePred run.SetUp
  | .poll _ => inferInstanceAs (Decidable (_ ∧ _ ∧ _))
  | .done _ _ => inferInstanceAs (Decidable (_ = true))
  | .flush => inferInstanceAs (Decidable True)
  | .record _ => inferInstanceAs (Decidable True)

instance (flushInterval : ℕ) (run : FlushRun) : DecidablePred (run.Harmless flushInterval)
  | .poll _ => inferInstanceAs (Decidable (_ → _ → ¬ _))
  | .done _ _ => inferInstanceAs (Decidable (_ → _ ∉ _))
  | .flush => inferInstanceAs (Decidable True)
  | .record _ => inferInstanceAs (Decidable True)

def flushPollAt (now : Rat) : FlushCall := .poll ⟨now, now, some "id", true, true⟩

end ServerSdk
