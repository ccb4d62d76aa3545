import Mathlib.Tactic.Linarith
import ServerSdk.Events.Payload
import ServerSdk.Program.Steps

namespace ServerSdk

open Program Externals

structure AnalyticsContext where
  active : Bool
  lastFlush : Rat
  buffer : Option String
  failureTime : ℕ
  payloadId : String
  deriving DecidableEq, Repr

structure AnalyticsPoll where
  now : Rat
  unixNow : Rat
  uuid : Option String
  serialized : Bool
  prepared : Bool

structure BulkRequest where
  body : Option String
  payloadId : String
  deriving DecidableEq, Repr

structure AnalyticsPolled where
  request : Option BulkRequest
  taken : Option (List Json)
  context : AnalyticsContext
  processor : EventProcessor

def pollWorld : World AnalyticsPoll where
  storeInitialized call := (true, call)
  storeGet _ _ call := (none, call)
  storeAll _ call := (none, call)
  unixMilliseconds call := (call.unixNow, call)
  monotonicMilliseconds call := (call.now, call)

namespace AnalyticsContext

def construct (now : Rat) : AnalyticsContext := ⟨false, now, none, 0, ""⟩

def resetMemory (context : AnalyticsContext) : AnalyticsContext :=
  { context with buffer := none, failureTime := 0 }

def done (responseCode : Int) (now : Rat) (shouldFlush : Bool) (context : AnalyticsContext) :
    Bool × AnalyticsContext :=
  let context := { context with active := false }
  if responseCode = 200 ∨ responseCode = 202 then
    (false, { context with lastFlush := now }.resetMemory)
  else if context.failureTime ≠ 0 then (shouldFlush, context.resetMemory)
  else (shouldFlush, { context with failureTime := toUnsignedInt now })

def idle (context : AnalyticsContext) (processor : EventProcessor) : AnalyticsPolled :=
  ⟨none, none, context, processor⟩

def send (context : AnalyticsContext) (taken : Option (List Json)) (processor : EventProcessor) :
    Run AnalyticsPoll AnalyticsPolled := do
  if ← Run.ask fun call => (call.prepared, call) then
    pure ⟨some ⟨context.buffer, context.payloadId⟩, taken, { context with active := true }, processor⟩
  else pure ⟨none, taken, context, processor⟩

variable [Externals]

def bundle (context : AnalyticsContext) (events : List Json) (processor : EventProcessor) :
    Run AnalyticsPoll AnalyticsPolled := do
  if ← Run.ask fun call => (call.serialized, call) then do
    let context := { context with buffer := some (serialize (.array events)) }
    match ← Run.ask fun call => (call.uuid, call) with
    | none => pure ⟨none, some events, context, processor⟩
    | some uuid => send { context with payloadId := uuid } (some events) processor
  else pure ⟨none, some events, { context with buffer := none }, processor⟩

def takePayload (context : AnalyticsContext) (processor : EventProcessor) :
    Run AnalyticsPoll AnalyticsPolled := do
  let payload ← createEventPayloadAndResetState pollWorld processor
  match payload.result with
  | none => pure (context.idle payload.processor)
  | some events => context.bundle events payload.processor

def poll (flushInterval : ℕ) (shouldFlush : Bool) (processor : EventProcessor)
    (context : AnalyticsContext) : Run AnalyticsPoll AnalyticsPolled :=
  if context.active then pure (context.idle processor)
  else if context.failureTime ≠ 0 then do
    let now ← Run.ask pollWorld.monotonicMilliseconds
    if now ≤ ((context.failureTime + 1000) % 2 ^ 32 : ℕ) then pure (context.idle processor)
    else context.send none processor
  else if shouldFlush then context.takePayload processor
  else do
    let now ← Run.ask pollWorld.monotonicMilliseconds
    Run.lift (Checked.check (now ≥ context.lastFlush))
    if now - context.lastFlush < flushInterval then pure (context.idle processor)
    else context.takePayload processor

end AnalyticsContext

structure SentPayload where
  events : Option (List Json)
  requests : List BulkRequest
  outcomes : List Bool

namespace SentPayload

def submitted (request : BulkRequest) : List SentPayload → List SentPayload
  | [] => [⟨none, [request], []⟩]
  | delivery :: earlier => { delivery with requests := delivery.requests ++ [request] } :: earlier

def ended (success : Bool) : List SentPayload → List SentPayload
  | [] => [⟨none, [], [success]⟩]
  | delivery :: earlier => { delivery with outcomes := delivery.outcomes ++ [success] } :: earlier

def Settled (delivery : SentPayload) : Prop :=
  true ∈ delivery.outcomes ∨ delivery.outcomes.count false = 2

end SentPayload

structure AnalyticsRun where
  context : AnalyticsContext
  processor : EventProcessor
  shouldFlush : Bool
  clock : Rat
  inFlight : ℕ
  deliveries : List SentPayload

inductive AnalyticsCall where
  | poll (call : AnalyticsPoll)
  | done (responseCode : Int) (now : Rat)
  | record (processor : EventProcessor) (shouldFlush : Bool)

namespace AnalyticsRun

def begin (processor : EventProcessor) (shouldFlush : Bool) (clock : Rat) : AnalyticsRun :=
  ⟨.construct clock, processor, shouldFlush, clock, 0, []⟩

def polled (run : AnalyticsRun) (now : Rat) (result : AnalyticsPolled) : AnalyticsRun :=
  let deliveries := (result.taken.map fun events => ⟨some events, [], []⟩).toList ++ run.deliveries
  { run with
    context := result.context
    processor := result.processor
    clock := now
    inFlight := run.inFlight + result.request.toList.length
    deliveries := result.request.elim deliveries fun request => SentPayload.submitted request deliveries }

def completed (run : AnalyticsRun) (responseCode : Int) (now : Rat) : AnalyticsRun :=
  let (shouldFlush, context) := run.context.done responseCode now run.shouldFlush
  { run with
    context
    shouldFlush
    clock := now
    inFlight := run.inFlight - 1
    deliveries := SentPayload.ended (responseCode = 200 ∨ responseCode = 202) run.deliveries }

variable [Externals]

def step (flushInterval : ℕ) (run : AnalyticsRun) : AnalyticsCall → Except Halt AnalyticsRun
  | .poll call => do
      let (result, _) ← run.context.poll flushInterval run.shouldFlush run.processor call
      pure (run.polled call.now result)
  | .done responseCode now => pure (run.completed responseCode now)
  | .record processor shouldFlush => pure { run with processor, shouldFlush }

def InClock (run : AnalyticsRun) (now : Rat) : Prop :=
  run.clock ≤ now ∧ 1 ≤ now ∧ now ≤ 2 ^ 32 - 1001

def InOrder (run : AnalyticsRun) : AnalyticsCall → Prop
  | .poll call => run.InClock call.now ∧ call.uuid.isSome = true ∧ call.serialized = true ∧
      call.prepared = true
  | .done _ now => run.InClock now ∧ 0 < run.inFlight
  | .record _ _ => True

end AnalyticsRun

section Sending

variable {flushInterval : ℕ} {shouldFlush : Bool} {processor : EventProcessor}
  {context : AnalyticsContext} {call call' : AnalyticsPoll} {result : AnalyticsPolled}

theorem send_of_prepared (hprepared : call.prepared = true) {taken : Option (List Json)}
    (h : context.send taken processor call = .ok (result, call')) :
    result = ⟨some ⟨context.buffer, context.payloadId⟩, taken, { context with active := true },
      processor⟩ := by
  rw [AnalyticsContext.send, Run.ask_bind_run] at h
  simp only [hprepared, if_true] at h
  cases h
  rfl

variable [Externals]

def bulkRequest (events : List Json) (payloadId : String) : BulkRequest :=
  ⟨some (serialize (.array events)), payloadId⟩

theorem bundle_of_ready {uuid : String} {events : List Json} (huuid : call.uuid = some uuid)
    (hserialized : call.serialized = true) (hprepared : call.prepared = true)
    (h : context.bundle events processor call = .ok (result, call')) :
    result = ⟨some (bulkRequest events uuid), some events,
      { context with active := true, buffer := some (serialize (.array events)), payloadId := uuid },
      processor⟩ := by
  rw [AnalyticsContext.bundle, Run.ask_bind_run] at h
  simp only [hserialized, if_true, Run.ask_bind_run, huuid] at h
  exact send_of_prepared hprepared h

inductive PollOutcome (context : AnalyticsContext) (uuid : String) (result : AnalyticsPolled) : Prop
  | idle (request : result.request = none) (taken : result.taken = none)
      (context : result.context = context)
  | again (inactive : context.active = false) (failed : context.failureTime ≠ 0)
      (request : result.request = some ⟨context.buffer, context.payloadId⟩)
      (taken : result.taken = none) (context : result.context = { context with active := true })
  | first (events : List Json) (inactive : context.active = false)
      (fresh : context.failureTime = 0) (request : result.request = some (bulkRequest events uuid))
      (taken : result.taken = some events)
      (context : result.context = { context with
        active := true, buffer := some (serialize (.array events)), payloadId := uuid })

omit [Externals] in
theorem createEventPayload_call {payload : EventPayload}
    (h : createEventPayloadAndResetState pollWorld processor call = .ok (payload, call')) :
    call' = call := by
  rw [createEventPayloadAndResetState, Run.ask_bind_run] at h
  split_ifs at h with hempty hcounters
  · cases h
    rfl
  · obtain ⟨summary, call₁, hsummary, hpure⟩ := Run.bind_eq_ok.mp h
    cases hpure
    exact (Run.lift_eq_ok.mp hsummary).2
  · cases h
    rfl

theorem polled_of_takePayload {uuid : String} (huuid : call.uuid = some uuid)
    (hserialized : call.serialized = true) (hprepared : call.prepared = true)
    (hactive : context.active = false) (hfailure : context.failureTime = 0)
    (h : context.takePayload processor call = .ok (result, call')) :
    PollOutcome context uuid result := by
  obtain ⟨payload, call₁, hpayload, hrest⟩ := Run.bind_eq_ok.mp h
  obtain rfl := createEventPayload_call hpayload
  cases hresult : payload.result with
  | none =>
      rw [hresult] at hrest
      cases hrest
      exact .idle rfl rfl rfl
  | some events =>
      rw [hresult] at hrest
      obtain rfl := bundle_of_ready huuid hserialized hprepared hrest
      exact .first events hactive hfailure rfl rfl rfl

theorem polled_of_poll {uuid : String} (huuid : call.uuid = some uuid)
    (hserialized : call.serialized = true) (hprepared : call.prepared = true)
    (h : context.poll flushInterval shouldFlush processor call = .ok (result, call')) :
    PollOutcome context uuid result := by
  rw [AnalyticsContext.poll] at h
  split_ifs at h with hactive hfailure hflush
  · cases h
    exact .idle rfl rfl rfl
  · rw [Run.ask_bind_run] at h
    split_ifs at h with hwait
    · cases h
      exact .idle rfl rfl rfl
    · obtain rfl := send_of_prepared hprepared h
      exact .again (by simpa using hactive) hfailure rfl rfl rfl
  · exact polled_of_takePayload huuid hserialized hprepared (by simpa using hactive)
      (not_not.mp hfailure) h
  · rw [Run.ask_bind_run] at h
    obtain ⟨_, call₁, hcheck, h⟩ := Run.bind_eq_ok.mp h
    obtain ⟨-, hcall⟩ := Run.lift_eq_ok.mp hcheck
    obtain rfl : call₁ = call := hcall
    split_ifs at h with hearly
    · cases h
      exact .idle rfl rfl rfl
    · exact polled_of_takePayload huuid hserialized hprepared (by simpa using hactive)
        (not_not.mp hfailure) h

def SentPayload.WellSent (delivery : SentPayload) : Prop :=
  ∃ events payloadId, delivery.events = some events ∧
    (delivery.requests.length = 1 ∨ delivery.requests.length = 2) ∧
    ∀ request ∈ delivery.requests, request = bulkRequest events payloadId

def SentPayload.Kept (context : AnalyticsContext) (delivery : SentPayload) : Prop :=
  delivery.Settled ∨ ∀ request ∈ delivery.requests,
    request = ⟨context.buffer, context.payloadId⟩

structure AtMostTwice (run : AnalyticsRun) : Prop where
  submitted : ∀ delivery ∈ run.deliveries, delivery.WellSent
  settled : ∀ delivery ∈ run.deliveries.tail, delivery.Settled
  single : run.inFlight ≤ 1
  kept : ∀ delivery ∈ run.deliveries.head?, delivery.Kept run.context

def firstSent (events : List Json) (payloadId : String) : SentPayload :=
  ⟨some events, [bulkRequest events payloadId], []⟩

def failedOnce (events : List Json) (payloadId : String) : SentPayload :=
  ⟨some events, [bulkRequest events payloadId], [false]⟩

def sentAgain (events : List Json) (payloadId : String) : SentPayload :=
  ⟨some events, [bulkRequest events payloadId, bulkRequest events payloadId], [false]⟩

inductive Phase (context : AnalyticsContext) : ℕ → List SentPayload → Prop
  | resting {deliveries : List SentPayload} (active : context.active = false)
      (failureTime : context.failureTime = 0) : Phase context 0 deliveries
  | sending {events : List Json} {earlier : List SentPayload} (active : context.active = true)
      (failureTime : context.failureTime = 0)
      (buffer : context.buffer = some (serialize (.array events))) :
      Phase context 1 (firstSent events context.payloadId :: earlier)
  | waiting {events : List Json} {earlier : List SentPayload} (active : context.active = false)
      (failureTime : context.failureTime ≠ 0)
      (buffer : context.buffer = some (serialize (.array events))) :
      Phase context 0 (failedOnce events context.payloadId :: earlier)
  | resending {events : List Json} {earlier : List SentPayload} (active : context.active = true)
      (failureTime : context.failureTime ≠ 0)
      (buffer : context.buffer = some (serialize (.array events))) :
      Phase context 1 (sentAgain events context.payloadId :: earlier)

structure Sent (context : AnalyticsContext) (inFlight : ℕ) (deliveries : List SentPayload) :
    Prop where
  phase : Phase context inFlight deliveries
  submitted : ∀ delivery ∈ deliveries, delivery.WellSent
  settled : ∀ delivery ∈ deliveries.tail, delivery.Settled
  rested : context.active = false → context.failureTime = 0 →
    ∀ delivery ∈ deliveries, delivery.Settled

variable {run next : AnalyticsRun} {inFlight : ℕ} {deliveries : List SentPayload}

theorem sent_construct (clock : Rat) : Sent (.construct clock) 0 [] :=
  ⟨.resting rfl rfl, nofun, nofun, nofun⟩

theorem Sent.single (h : Sent context inFlight deliveries) : inFlight ≤ 1 := by
  cases h.phase with
  | resting active failureTime => exact Nat.zero_le 1
  | sending active failureTime buffer => exact Nat.le_refl 1
  | waiting active failureTime buffer => exact Nat.zero_le 1
  | resending active failureTime buffer => exact Nat.le_refl 1

theorem Sent.kept (h : Sent context inFlight deliveries) :
    ∀ delivery ∈ deliveries.head?, delivery.Kept context := by
  intro delivery hdelivery
  cases h.phase with
  | resting active failureTime =>
      exact .inl (h.rested active failureTime delivery (List.mem_of_mem_head? hdelivery))
  | sending active failureTime buffer =>
      cases hdelivery
      exact .inr (by simp [firstSent, bulkRequest, buffer])
  | waiting active failureTime buffer =>
      cases hdelivery
      exact .inr (by simp [failedOnce, bulkRequest, buffer])
  | resending active failureTime buffer =>
      cases hdelivery
      exact .inr (by simp [sentAgain, bulkRequest, buffer])

theorem Sent.polled {uuid : String} (h : Sent context inFlight deliveries)
    (hpolled : PollOutcome context uuid result) :
    Sent result.context (inFlight + result.request.toList.length)
      (result.request.elim
        ((result.taken.map fun events => ⟨some events, [], []⟩).toList ++ deliveries)
        fun request => SentPayload.submitted request
          ((result.taken.map fun events => ⟨some events, [], []⟩).toList ++ deliveries)) := by
  cases hpolled with
  | idle request taken same =>
      rw [request, taken, same]
      exact h
  | again inactive failed request taken same =>
      rw [request, taken, same]
      obtain ⟨phase, submitted, settled, rested⟩ := h
      cases phase with
      | resting active failureTime => exact absurd failureTime failed
      | sending active failureTime buffer => exact absurd failureTime failed
      | @waiting events earlier active failureTime buffer =>
          have hrequest : (⟨context.buffer, context.payloadId⟩ : BulkRequest) =
              bulkRequest events context.payloadId := by
            rw [bulkRequest, buffer]
          rw [hrequest]
          refine ⟨.resending rfl failed buffer, ?_, settled, nofun⟩
          have hagain : (sentAgain events context.payloadId).WellSent :=
            ⟨events, context.payloadId, rfl, .inr rfl, by simp [sentAgain]⟩
          exact List.forall_mem_cons.mpr ⟨hagain, (List.forall_mem_cons.mp submitted).2⟩
      | resending active failureTime buffer => simp [inactive] at active
  | first events inactive fresh request taken same =>
      rw [request, taken, same]
      obtain ⟨phase, submitted, settled, rested⟩ := h
      cases phase with
      | resting active failureTime =>
          refine ⟨.sending rfl fresh rfl, ?_, rested active failureTime, nofun⟩
          have hfirst : (firstSent events uuid).WellSent :=
            ⟨events, uuid, rfl, .inl rfl, by simp [firstSent]⟩
          exact List.forall_mem_cons.mpr ⟨hfirst, submitted⟩
      | sending active failureTime buffer => simp [inactive] at active
      | waiting active failureTime buffer => exact absurd fresh failureTime
      | resending active failureTime buffer => simp [inactive] at active

omit [Externals] in
theorem toUnsignedInt_ne_zero {now : Rat} (hlow : 1 ≤ now) (hhigh : now ≤ 2 ^ 32 - 1001) :
    toUnsignedInt now ≠ 0 := by
  have hone : 1 ≤ ⌊now⌋ := Int.le_floor.mpr (by exact_mod_cast hlow)
  have hbound : ⌊now⌋ < 2 ^ 32 := by
    refine Int.floor_lt.mpr ?_
    push_cast
    linarith
  rw [toUnsignedInt_of_lt (by linarith) (by linarith), Int.emod_eq_of_lt (by omega) hbound]
  omega

theorem Sent.completed {now : Rat} (h : Sent context inFlight deliveries) (hflight : 0 < inFlight)
    (hlow : 1 ≤ now) (hhigh : now ≤ 2 ^ 32 - 1001) (responseCode : Int) :
    Sent (context.done responseCode now shouldFlush).2 (inFlight - 1)
      (SentPayload.ended (responseCode = 200 ∨ responseCode = 202) deliveries) := by
  obtain ⟨phase, submitted, settled, rested⟩ := h
  have hkept : ∀ {delivery : SentPayload} {earlier : List SentPayload} {success : Bool},
      (∀ d ∈ delivery :: earlier, d.WellSent) →
        ∀ d ∈ SentPayload.ended success (delivery :: earlier), d.WellSent := by
    intro delivery earlier success hall
    obtain ⟨hnewest, hearlier⟩ := List.forall_mem_cons.mp hall
    exact List.forall_mem_cons.mpr ⟨hnewest, hearlier⟩
  have hfailureTime := toUnsignedInt_ne_zero hlow hhigh
  cases phase with
  | resting active failureTime => exact absurd hflight (Nat.lt_irrefl 0)
  | waiting active failureTime buffer => exact absurd hflight (Nat.lt_irrefl 0)
  | sending active failureTime buffer =>
      by_cases hsuccess : responseCode = 200 ∨ responseCode = 202
      · simp only [AnalyticsContext.done, hsuccess, if_true]
        refine ⟨.resting rfl rfl, hkept submitted, settled, fun _ _ => ?_⟩
        exact List.forall_mem_cons.mpr ⟨.inl (by simp [firstSent]), settled⟩
      · simp only [AnalyticsContext.done, hsuccess, failureTime, ne_eq, not_true_eq_false, if_false]
        refine ⟨.waiting rfl hfailureTime buffer, hkept submitted, settled, ?_⟩
        exact fun _ hzero => absurd hzero hfailureTime
  | resending active failureTime buffer =>
      by_cases hsuccess : responseCode = 200 ∨ responseCode = 202
      · simp only [AnalyticsContext.done, hsuccess, if_true]
        refine ⟨.resting rfl rfl, hkept submitted, settled, fun _ _ => ?_⟩
        exact List.forall_mem_cons.mpr ⟨.inl (by simp [sentAgain]), settled⟩
      · simp only [AnalyticsContext.done, hsuccess, failureTime, ne_eq, not_false_eq_true, if_true,
          if_false]
        refine ⟨.resting rfl rfl, hkept submitted, settled, fun _ _ => ?_⟩
        exact List.forall_mem_cons.mpr ⟨.inr (by simp [sentAgain]), settled⟩

theorem Sent.step {call : AnalyticsCall} (h : Sent run.context run.inFlight run.deliveries)
    (horder : run.InOrder call) (hstep : run.step flushInterval call = .ok next) :
    Sent next.context next.inFlight next.deliveries := by
  cases call with
  | poll call =>
      obtain ⟨-, huuid, hserialized, hprepared⟩ := horder
      obtain ⟨uuid, huuid⟩ := Option.isSome_iff_exists.mp huuid
      rw [AnalyticsRun.step] at hstep
      cases hpoll : run.context.poll flushInterval run.shouldFlush run.processor call with
      | error halt =>
          rw [hpoll] at hstep
          cases hstep
      | ok polled =>
          rw [hpoll] at hstep
          cases hstep
          exact h.polled (polled_of_poll huuid hserialized hprepared hpoll)
  | done responseCode now =>
      cases hstep
      exact h.completed horder.2 horder.1.2.1 horder.1.2.2 responseCode
  | record processor shouldFlush =>
      cases hstep
      exact h

theorem payload_sent_at_most_twice (flushInterval : ℕ) (processor : EventProcessor)
    (shouldFlush : Bool) (clock : Rat) {run : AnalyticsRun}
    (h : Steps (AnalyticsRun.step flushInterval) AnalyticsRun.InOrder
      (.begin processor shouldFlush clock) run) : AtMostTwice run := by
  have hsent : Sent run.context run.inFlight run.deliveries := by
    refine h.invariant (P := fun run => Sent run.context run.inFlight run.deliveries)
      (sent_construct clock) ?_
    intro run next call hsent horder hstep
    exact hsent.step horder hstep
  exact ⟨hsent.submitted, hsent.settled, hsent.single, hsent.kept⟩

end Sending

instance (run : AnalyticsRun) : DecidablePred run.InOrder
  | .poll _ => inferInstanceAs (Decidable ((_ ∧ _ ∧ _) ∧ _ ∧ _ ∧ _))
  | .done _ _ => inferInstanceAs (Decidable ((_ ∧ _ ∧ _) ∧ _))
  | .record _ _ => inferInstanceAs (Decidable True)

def recordedProcessor : EventProcessor where
  __ := EventProcessor.create configNew 1
  events := [.object [("kind", .text "identify")]]

def analyticsPollAt (now : Rat) : AnalyticsCall := .poll ⟨now, now, some "id", true, true⟩

theorem payload_sent_twice : ∃ run, Steps (@AnalyticsRun.step literalExternals 5000)
      AnalyticsRun.InOrder (.begin recordedProcessor true 1) run ∧
    run.deliveries.map (fun delivery => delivery.requests.length) = [2] ∧
      @AtMostTwice literalExternals run := by
  have halong : Along (@AnalyticsRun.step literalExternals 5000) AnalyticsRun.InOrder
      (fun run => run.deliveries.map (fun delivery => delivery.requests.length) = [2])
      [analyticsPollAt 2, .done 500 3, analyticsPollAt 1000, analyticsPollAt 1004, .done 500 1005, analyticsPollAt 1006]
      (.begin recordedProcessor true 1) := by
    decide +kernel
  obtain ⟨run, hsteps, hlengths⟩ := Steps.of_along halong
  exact ⟨run, hsteps, hlengths, @payload_sent_at_most_twice literalExternals _ _ _ _ _ hsteps⟩

end ServerSdk
