import ServerSdk.Delivery.Polling
import ServerSdk.Events.Sending
import ServerSdk.Network.Cleanup
import ServerSdk.Stream.Backoff

namespace ServerSdk

open Program

structure NetworkConfig where
  useLDD : Bool
  sendEvents : Bool
  stream : Bool
  dataSource : Bool
  pollInterval : ℕ
  flushInterval : ℕ
  randMax : ℕ
  deriving DecidableEq, Repr

def NetworkConfig.polling (config : NetworkConfig) : PollConfig :=
  ⟨config.stream, config.dataSource, config.pollInterval⟩

def NetworkConfig.streaming (config : NetworkConfig) : StreamConfig :=
  ⟨config.stream, config.dataSource, config.randMax⟩

inductive Interface (σ : Type) where
  | polling (run : PollRun σ)
  | streaming (run : StreamRun)
  | analytics (run : AnalyticsRun)

structure NetworkInput (σ : Type) where
  call : PollCall
  unixNow : Rat
  uuid : Option String
  serialized : Bool
  text : String
  chunk : SseChunk
  store : Store σ
  processor : EventProcessor
  shouldFlush : Bool

namespace NetworkInput

def now {σ : Type} (input : NetworkInput σ) : ℕ := input.call.now

def analytics {σ : Type} (input : NetworkInput σ) : AnalyticsPoll :=
  ⟨input.now, input.unixNow, input.uuid, input.serialized, input.call.prepared⟩

end NetworkInput

def halting {α : Type} (m : Checked α) : Except Halt α := m.mapError Halt.fault

namespace Interface

variable {σ : Type}

def active : Interface σ → Bool
  | .polling run => run.context.active
  | .streaming run => run.context.active
  | .analytics run => run.context.active

def requestResult (requested : Bool) : PollResult := if requested then .created else .nothing

variable [Parsing] (config : NetworkConfig) (dispatch : SseDispatch)

def poll : Interface σ → NetworkInput σ → Except Halt (PollResult × Interface σ)
  | .polling run, input => do
      let result ← halting (run.context.poll config.polling input.now input.call.prepared)
      pure (requestResult result.1, .polling (run.polled input.now result))
  | .streaming run, input => do
      let (requested, context) := run.context.poll config.streaming input.call
      let next ← halting (run.step config.streaming dispatch (.poll input.call))
      pure (if run.context.active ∧ context.active = false then .killed else requestResult requested,
        .streaming next)
  | .analytics run, input => do
      let (result, _) ← run.context.poll config.flushInterval run.shouldFlush run.processor input.analytics
      pure (requestResult result.request.isSome, .analytics (run.polled input.now result))

def write : Interface σ → NetworkInput σ → Except Halt (Interface σ)
  | .polling run, input => do
      return .polling (← halting (run.step config.polling (.write input.text)))
  | .streaming run, input => do
      return .streaming (← halting (run.step config.streaming dispatch (.read input.chunk input.now)))
  | .analytics run, _ => pure (.analytics run)

def done : Interface σ → Int → NetworkInput σ → Except Halt (Interface σ)
  | .polling run, responseCode, input => do
      return .polling (← halting (run.step config.polling (.done responseCode input.now)))
  | .streaming run, responseCode, input => do
      return .streaming (← halting (run.step config.streaming dispatch (.done responseCode input.now)))
  | .analytics run, responseCode, input => do
      return .analytics (← run.step config.flushInterval (.done responseCode input.now))

def record : Interface σ → NetworkInput σ → Except Halt (Interface σ)
  | .polling run, input => pure (.polling { run with store := input.store })
  | .streaming run, _ => pure (.streaming run)
  | .analytics run, input => do
      return .analytics (← run.step config.flushInterval (.record input.processor input.shouldFlush))

def calls : InterfaceCalls (Interface σ) (NetworkInput σ) where
  poll := poll config dispatch
  write := write config dispatch
  done := done config dispatch
  record := record config

end Interface

section Requests

variable {σ : Type} {config : NetworkConfig} {dispatch : SseDispatch}

theorem halting_eq_ok {α : Type} {m : Checked α} {a : α} : halting m = .ok a ↔ m = .ok a := by
  cases m with
  | error fault => exact iff_of_false (fun h => by cases h) (fun h => by cases h)
  | ok b => exact ⟨fun h => by cases h; rfl, fun h => by cases h; rfl⟩

def Turned (before after : Bool) (requested : Bool) : Prop :=
  (requested = false ∧ after = before) ∨ (requested = true ∧ before = false ∧ after = true)

theorem send_turned {context : AnalyticsContext} {taken : Option (List Json)} {processor : EventProcessor}
    {call call' : AnalyticsPoll} {result : AnalyticsPolled} (hactive : context.active = false)
    (h : context.send taken processor call = .ok (result, call')) :
    Turned context.active result.context.active result.request.isSome := by
  rw [AnalyticsContext.send, Run.ask_bind_run] at h
  simp only at h
  split_ifs at h
  · cases h
    exact .inr ⟨rfl, hactive, rfl⟩
  · cases h
    exact .inl ⟨rfl, rfl⟩

theorem active_analytics_done (context : AnalyticsContext) (responseCode : Int) (now : Rat)
    (shouldFlush : Bool) : (context.done responseCode now shouldFlush).2.active = false := by
  rw [AnalyticsContext.done]
  split_ifs <;> rfl

variable [Externals]

theorem bundle_turned {context : AnalyticsContext} {events : List Json} {processor : EventProcessor}
    {call call' : AnalyticsPoll} {result : AnalyticsPolled} (hactive : context.active = false)
    (h : context.bundle events processor call = .ok (result, call')) :
    Turned context.active result.context.active result.request.isSome := by
  rw [AnalyticsContext.bundle, Run.ask_bind_run] at h
  simp only at h
  split_ifs at h
  · rw [Run.ask_bind_run] at h
    cases huuid : call.uuid with
    | none =>
        simp only [huuid] at h
        cases h
        exact .inl ⟨rfl, rfl⟩
    | some uuid =>
        simp only [huuid] at h
        exact @send_turned ⟨context.active, context.lastFlush, _, context.failureTime, uuid⟩ _ _ _ _ _
          hactive h
  · cases h
    exact .inl ⟨rfl, rfl⟩

theorem takePayload_turned {context : AnalyticsContext} {processor : EventProcessor}
    {call call' : AnalyticsPoll} {result : AnalyticsPolled} (hactive : context.active = false)
    (h : context.takePayload processor call = .ok (result, call')) :
    Turned context.active result.context.active result.request.isSome := by
  obtain ⟨payload, call₁, -, hrest⟩ := Run.bind_eq_ok.mp h
  cases hresult : payload.result with
  | none =>
      rw [hresult] at hrest
      cases hrest
      exact .inl ⟨rfl, rfl⟩
  | some events =>
      rw [hresult] at hrest
      exact bundle_turned hactive hrest

theorem analytics_turned {context : AnalyticsContext} {flushInterval : ℕ} {shouldFlush : Bool}
    {processor : EventProcessor} {call call' : AnalyticsPoll} {result : AnalyticsPolled}
    (h : context.poll flushInterval shouldFlush processor call = .ok (result, call')) :
    Turned context.active result.context.active result.request.isSome := by
  rw [AnalyticsContext.poll] at h
  split_ifs at h with hactive hfailure hflush
  · cases h
    exact .inl ⟨rfl, rfl⟩
  · rw [Run.ask_bind_run] at h
    split_ifs at h
    · cases h
      exact .inl ⟨rfl, rfl⟩
    · exact send_turned (by simpa using hactive) h
  · exact takePayload_turned (by simpa using hactive) h
  · rw [Run.ask_bind_run] at h
    obtain ⟨_, call₁, -, h⟩ := Run.bind_eq_ok.mp h
    split_ifs at h
    · cases h
      exact .inl ⟨rfl, rfl⟩
    · exact takePayload_turned (by simpa using hactive) h

end Requests

namespace Interface

variable {σ : Type} {config : NetworkConfig} {dispatch : SseDispatch}
  {interface next : Interface σ} {input : NetworkInput σ} {result : PollResult}

inductive Answers (interface next : Interface σ) : PollResult → Prop
  | nothing : next.active = interface.active → Answers interface next .nothing
  | killed : interface.active = true → next.active = false → Answers interface next .killed
  | created : interface.active = false → next.active = true → Answers interface next .created

theorem Answers.of_turned {requested : Bool} (h : Turned interface.active next.active requested) :
    Answers interface next (requestResult requested) := by
  rcases h with ⟨rfl, hsame⟩ | ⟨rfl, hbefore, hafter⟩
  · exact .nothing hsame
  · exact .created hbefore hafter

theorem context_step_poll {run next : StreamRun} {streaming : StreamConfig} {call : PollCall}
    (h : run.step streaming dispatch (.poll call) = .ok next) :
    next.context = (run.context.poll streaming call).2 := by
  rw [StreamRun.step] at h
  generalize run.context.poll streaming call = polled at h ⊢
  obtain ⟨requested, context⟩ := polled
  cases requested <;> cases h <;> rfl

theorem streaming_answers {run : StreamRun} {call : PollCall} {polled : Bool × StreamContext}
    {next : Interface σ} (hpolled : run.context.Polled config.streaming call polled)
    (hnext : next.active = polled.2.active) :
    Answers (.streaming run) next
      (if run.context.active ∧ polled.2.active = false then .killed else requestResult polled.1) := by
  have hconnect {context : StreamContext} (hcontext : context.active = false)
      (hinactive : run.context.active = false)
      (hnext : next.active = (context.connect call).2.active) : Answers (.streaming run) next
        (if run.context.active ∧ (context.connect call).2.active = false then .killed
          else requestResult (context.connect call).1) := by
    rw [if_neg (by simp [hinactive])]
    refine Answers.of_turned ?_
    rw [StreamContext.connect] at hnext ⊢
    split_ifs at hnext ⊢ with hprepared
    · exact .inr ⟨rfl, hinactive, hnext⟩
    · exact .inl ⟨rfl, (hnext.trans hcontext).trans hinactive.symm⟩
  cases hpolled with
  | idle =>
      rw [if_neg (by simp)]
      exact .nothing hnext
  | timedOut hactive =>
      rw [if_pos ⟨hactive, by simp⟩]
      exact .killed hactive (hnext.trans (by simp))
  | waits hactive hattempts hwait hdelay =>
      rw [if_neg (by simp)]
      exact .nothing hnext
  | waited hactive hattempts hwait hnow => exact hconnect hactive hactive hnext
  | opened hactive hattempts => exact hconnect hactive hactive hnext

variable [Parsing]

theorem poll_answers (h : poll config dispatch interface input = .ok (result, next)) :
    Answers interface next result := by
  cases interface with
  | polling run =>
      obtain ⟨polled, hpoll, hnext⟩ := halting_bind_eq_ok.mp h
      cases hnext
      obtain rfl | ⟨rfl, hactive, -⟩ := poll_cases (halting_eq_ok.mp hpoll)
      · exact .nothing rfl
      · exact .created hactive rfl
  | streaming run =>
      obtain ⟨next, hstep, hnext⟩ := halting_bind_eq_ok.mp h
      cases hnext
      have hcontext := context_step_poll (halting_eq_ok.mp hstep)
      exact streaming_answers (run.context.polled config.streaming input.call) (congrArg StreamContext.active hcontext)
  | analytics run =>
      obtain ⟨⟨polled, call⟩, hpoll, hnext⟩ := halting_bind_eq_ok.mp h
      cases hnext
      have hturned := analytics_turned hpoll
      exact Answers.of_turned hturned

theorem active_write (h : write config dispatch interface input = .ok next) :
    next.active = interface.active := by
  cases interface with
  | polling run | streaming run =>
      obtain ⟨run', hstep, hnext⟩ := halting_bind_eq_ok.mp h
      cases hnext
      cases halting_eq_ok.mp hstep
      rfl
  | analytics run =>
      cases h
      rfl

theorem active_done {responseCode : Int} (h : done config dispatch interface responseCode input = .ok next) :
    next.active = false := by
  cases interface with
  | polling run =>
      obtain ⟨run', hstep, hnext⟩ := halting_bind_eq_ok.mp h
      cases hnext
      obtain ⟨result, hdone, hcompleted⟩ := Checked.bind_eq_ok.mp (halting_eq_ok.mp hstep)
      cases hcompleted
      exact (PollRun.done_context hdone).1
  | streaming run =>
      obtain ⟨run', hstep, hnext⟩ := halting_bind_eq_ok.mp h
      cases hnext
      cases halting_eq_ok.mp hstep
      exact StreamContext.active_done run.context responseCode input.now
  | analytics run =>
      obtain ⟨run', hstep, hnext⟩ := halting_bind_eq_ok.mp h
      cases hnext
      cases hstep
      exact active_analytics_done run.context responseCode input.now run.shouldFlush

theorem active_record (h : record config interface input = .ok next) :
    next.active = interface.active := by
  cases interface with
  | polling run | streaming run =>
      cases h
      rfl
  | analytics run =>
      obtain ⟨run', hstep, hnext⟩ := halting_bind_eq_ok.mp h
      cases hnext
      cases hstep
      rfl

theorem oneAtATime (config : NetworkConfig) (dispatch : SseDispatch) :
    (calls config dispatch : InterfaceCalls (Interface σ) (NetworkInput σ)).OneAtATime active where
  nothing h := by
    cases poll_answers h with
    | nothing hsame => exact hsame
  killed h := by
    cases poll_answers h with
    | killed hbefore hafter => exact ⟨hbefore, hafter⟩
  created h := by
    cases poll_answers h with
    | created hbefore hafter => exact ⟨hbefore, hafter⟩
  write := active_write
  done := active_done
  record := active_record

end Interface

section Thread

variable {σ : Type} [Parsing] (config : NetworkConfig) (dispatch : SseDispatch)

def constructed (store : Store σ) (processor : EventProcessor) (shouldFlush : Bool) (clock : ℕ) :
    List (Interface σ) :=
  (if config.useLDD then [] else [.polling (.begin store clock), .streaming (.begin clock)]) ++
    if config.sendEvents then [.analytics (.begin processor shouldFlush clock)] else []

def networkthread (store : Store σ) (processor : EventProcessor) (shouldFlush : Bool) (clock : ℕ) :
    NetworkThread (Interface σ) :=
  let interfaces := constructed config store processor shouldFlush clock
  .start (fun index => interfaces.getD index (.streaming (.begin clock))) interfaces.length

end Thread

end ServerSdk
