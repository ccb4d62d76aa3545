import ServerSdk.Events.Indexing
import ServerSdk.Program.Steps

namespace ServerSdk

open Program

inductive RecordCall where
  | evaluation (result : EvaluationResult)
  | track (user : User) (args : Measured)
  | identify (user : User)
  | aliasUsers (currentUser previousUser : User)

inductive QueueCall where
  | record (call : RecordCall)
  | createPayload

structure CallOffers where
  returned : Bool
  events : List Json
  processor : EventProcessor

def CallOffers.queued (config : Config) (offers : CallOffers) : Bool × EventProcessor :=
  (offers.returned, offers.processor.offered config offers.events)

def isSummary (event : Json) : Bool := decide (event.objectLookup "kind" = some (.text "summary"))

theorem isSummary_of_kind {event : Json} {kind : String}
    (h : event.objectLookup "kind" = some (.text kind)) (hne : kind ≠ "summary") :
    isSummary event = false := by
  simp [isSummary, h, hne]

section Calls

variable {σ : Type}

def offerTrack (client : Client σ) (user : User) (args : Measured) (processor : EventProcessor) :
    Run σ CallOffers := do
  let timestamp ← Run.ask client.world.unixMilliseconds
  let (indexEvent, processor) ←
    maybeMakeIndexEvent client.world client.config user timestamp processor
  let event ← Run.lift (newCustomEvent client.config user args timestamp)
  pure ⟨true, event :: indexEvent.toList, processor⟩

def offerIdentify (client : Client σ) (user : User) (processor : EventProcessor) :
    Run σ CallOffers :=
  if user.key = "" then pure ⟨true, [], processor⟩
  else do
    let timestamp ← Run.ask client.world.unixMilliseconds
    let event ← Run.lift (newIdentifyEvent client.config user timestamp)
    pure ⟨true, [event], { processor with userKeys := (processor.userKeys.insert user.key).2 }⟩

def offerAlias (client : Client σ) (currentUser previousUser : User) (processor : EventProcessor) :
    Run σ CallOffers := do
  let timestamp ← Run.ask client.world.unixMilliseconds
  pure ⟨true, [newAliasEvent currentUser previousUser timestamp], processor⟩

theorem track_offers (client : Client σ) (user : User) (args : Measured)
    (processor : EventProcessor) :
    track client user args processor =
      (CallOffers.queued client.config) <$> offerTrack client user args processor := by
  simp only [track, offerTrack, map_bind, map_pure, CallOffers.queued, addEvent_eq_offered,
    addIndexEvent_eq_offered, ← EventProcessor.offered_append, List.singleton_append]

theorem identify_offers (client : Client σ) (user : User) (processor : EventProcessor) :
    identify client user processor =
      (CallOffers.queued client.config) <$> offerIdentify client user processor := by
  rw [identify, offerIdentify]
  split
  · rfl
  · simp only [map_bind, map_pure, CallOffers.queued, addEvent_eq_offered]

theorem alias_offers (client : Client σ) (currentUser previousUser : User)
    (processor : EventProcessor) :
    eventProcessorAlias client currentUser previousUser processor =
      (CallOffers.queued client.config) <$>
        offerAlias client currentUser previousUser processor := by
  simp only [eventProcessorAlias, offerAlias, map_bind, map_pure, CallOffers.queued,
    addEvent_eq_offered]

variable [Externals]

namespace RecordCall

def run (client : Client σ) : RecordCall → EventProcessor → Run σ (Bool × EventProcessor)
  | .evaluation result, processor => processEvaluation client result processor
  | .track user args, processor => ServerSdk.track client user args processor
  | .identify user, processor => ServerSdk.identify client user processor
  | .aliasUsers currentUser previousUser, processor =>
      eventProcessorAlias client currentUser previousUser processor

def offers (client : Client σ) : RecordCall → EventProcessor → Run σ CallOffers
  | .evaluation result, processor =>
      (fun offering => ⟨offering.returned, offering.events, offering.processor⟩) <$>
        offerEvaluation client result processor
  | .track user args, processor => offerTrack client user args processor
  | .identify user, processor => offerIdentify client user processor
  | .aliasUsers currentUser previousUser, processor =>
      offerAlias client currentUser previousUser processor

theorem run_eq_offers (client : Client σ) (call : RecordCall) (processor : EventProcessor) :
    call.run client processor =
      (CallOffers.queued client.config) <$> call.offers client processor := by
  cases call with
  | evaluation result =>
      rw [run, offers, processEvaluation_offers, Functor.map_map]
      rfl
  | track user args => exact track_offers client user args processor
  | identify user => exact identify_offers client user processor
  | aliasUsers currentUser previousUser => exact alias_offers client currentUser previousUser processor

theorem run_eq_ok {client : Client σ} {call : RecordCall} {processor next : EventProcessor}
    {returned : Bool} {s t : σ} (h : call.run client processor s = .ok ((returned, next), t)) :
    ∃ offers, call.offers client processor s = .ok (offers, t) ∧ returned = offers.returned ∧
      next = offers.processor.offered client.config offers.events := by
  rw [run_eq_offers, ← bind_pure_comp] at h
  obtain ⟨offers, u, hoffers, hpure⟩ := Run.bind_eq_ok.mp h
  cases hpure
  exact ⟨offers, hoffers, rfl, rfl⟩

def summarizes : RecordCall → Bool → Bool
  | .evaluation _, returned => returned
  | .track _ _, _ | .identify _, _ | .aliasUsers _ _, _ => false

def Built (client : Client σ) : RecordCall → Prop
  | .evaluation result =>
      ∀ event ∈ result.subEvents.getD [], SubEventBuilt client.config result.user event
  | .track _ _ | .identify _ | .aliasUsers _ _ => True

end RecordCall

structure CallRecorded (call : RecordCall) (processor : EventProcessor) (offers : CallOffers) : Prop where
  events : ∀ event ∈ offers.events, isSummary event = false
  queue : offers.processor.events = processor.events
  counters : offers.processor.summaryCounters ≠ [] ↔
    processor.summaryCounters ≠ [] ∨ call.summarizes offers.returned = true

omit [Externals] in
theorem alterEntry_ne_nil {α : Type} (key : String) (f : Option α → α)
    (entries : List (String × α)) : alterEntry key f entries ≠ [] := by
  cases entries with
  | nil => simp [alterEntry]
  | cons entry entries =>
      rw [alterEntry]
      split <;> simp

theorem summarizeEvent_counters (w : World σ) (event : Json) (unknown : Bool)
    (processor : EventProcessor) (s : σ) :
    Run.Ensures (summarizeEvent w event unknown processor) s fun next _ =>
      next.summaryCounters ≠ [] := by
  rw [summarizeEvent]
  refine Run.ensures_lift_bind fun flagKey _ => Run.ensures_lift_bind fun keytext _ => ?_
  exact Run.ensures_bind fun start t => Run.ensures_pure (alterEntry_ne_nil _ _ _)

theorem summarizeEvents_counters (w : World σ) (events : List Json) {processor : EventProcessor}
    (h : processor.summaryCounters ≠ []) (s : σ) :
    Run.Ensures (summarizeEvents w events processor) s fun next _ => next.summaryCounters ≠ [] := by
  induction events generalizing processor s with
  | nil => exact Run.ensures_pure h
  | cons event events ih =>
      exact (summarizeEvent_counters w event false processor s).bind fun first t hfirst =>
        ih hfirst t

omit [Externals] in
theorem offersOfEach_kinds {config : Config} {user : User} {detailed : Bool}
    {now lastServerTime : Rat} {events : List Json} {others : List (List Json)}
    (hbuilt : ∀ event ∈ events, SubEventBuilt config user event)
    (h : offersOfEach config user detailed now lastServerTime events = .ok others) :
    ∀ event ∈ others.flatten, isSummary event = false := by
  induction events generalizing others with
  | nil =>
      cases h
      exact nofun
  | cons event events ih =>
      obtain ⟨offers, hoffers, h⟩ := Checked.bind_eq_ok.mp h
      obtain ⟨rest, hrest, hpure⟩ := Checked.bind_eq_ok.mp h
      cases hpure
      obtain ⟨prerequisite, hflag, hnew⟩ := hbuilt event (by simp)
      intro offered hoffered
      rw [List.flatten_cons] at hoffered
      rcases List.mem_append.mp hoffered with hown | hother
      · rcases offersOf_kinds hflag (builtEvent_of_new hflag hnew) hoffers offered hown with
          hdebug | hfeature
        · exact isSummary_of_kind hdebug (by decide)
        · exact isSummary_of_kind hfeature (by decide)
      · exact ih (fun other hmem => hbuilt other (by simp [hmem])) hrest offered hother

omit [Externals] in
theorem ownOffers_kinds {client : Client σ} {result : EvaluationResult} {now lastServerTime : Rat}
    {event : Json} {own : List Json}
    (hnew : newFeatureEvent (result.featureEvent now) result.user client.config = .ok (some event))
    (h : ownOffers client result now lastServerTime event = .ok own) :
    ∀ offered ∈ own, isSummary offered = false := by
  rw [ownOffers] at h
  cases hflag : result.flag with
  | none =>
      rw [hflag] at h
      cases h
      exact List.forall_mem_nil _
  | some flag =>
      rw [hflag] at h
      intro offered hoffered
      rcases offersOf_kinds hflag (builtEvent_of_new hflag hnew) h offered hoffered with
        hdebug | hfeature
      · exact isSummary_of_kind hdebug (by decide)
      · exact isSummary_of_kind hfeature (by decide)

theorem offerSubEvents_records {client : Client σ} {result : EvaluationResult}
    (hbuilt : ∀ event ∈ result.subEvents.getD [], SubEventBuilt client.config result.user event)
    (now : Rat) {processor : EventProcessor} (h : processor.summaryCounters ≠ []) (s : σ) :
    Run.Ensures (offerSubEvents client result now processor) s fun offered _ =>
      (∀ event ∈ offered.1.flatten, isSummary event = false) ∧
        offered.2.events = processor.events ∧ offered.2.summaryCounters ≠ [] := by
  rw [offerSubEvents]
  cases hsub : result.subEvents with
  | none => exact Run.ensures_pure ⟨List.forall_mem_nil _, rfl, h⟩
  | some subEvents =>
      rw [hsub] at hbuilt
      intro offered u hoffered
      obtain ⟨summed, t, hsummed, hoffered⟩ := Run.bind_eq_ok.mp hoffered
      obtain ⟨others, v, hothers, hpure⟩ := Run.bind_eq_ok.mp hoffered
      obtain ⟨heach, -⟩ := Run.lift_eq_ok.mp hothers
      cases hpure
      exact ⟨offersOfEach_kinds hbuilt heach,
        (summarizeEvents_sameQueue client.world subEvents processor s summed t hsummed).events,
        summarizeEvents_counters client.world subEvents h s summed t hsummed⟩

theorem offerEvaluation_records {client : Client σ} {result : EvaluationResult}
    (hbuilt : ∀ event ∈ result.subEvents.getD [], SubEventBuilt client.config result.user event)
    (processor : EventProcessor) (s : σ) :
    Run.Ensures (offerEvaluation client result processor) s fun offering _ =>
      CallRecorded (.evaluation result) processor
        ⟨offering.returned, offering.events, offering.processor⟩ := by
  rw [offerEvaluation, Run.ensures_ask_bind]
  refine Run.ensures_lift_bind fun event hnew => ?_
  cases event with
  | none => exact Run.ensures_pure ⟨by simp [Offering.events], rfl, by simp [RecordCall.summarizes]⟩
  | some event =>
      refine (maybeMakeIndexEvent_sameQueue client.world client.config result.user
        (client.world.unixMilliseconds s).1 processor _).bind fun made t hmade => ?_
      intro offering u hoffering
      obtain ⟨summed, v, hsummed, hoffering⟩ := Run.bind_eq_ok.mp hoffering
      obtain ⟨own, v', hown, hoffering⟩ := Run.bind_eq_ok.mp hoffering
      obtain ⟨others, v'', hothers, hpure⟩ := Run.bind_eq_ok.mp hoffering
      obtain ⟨hownOffers, -⟩ := Run.lift_eq_ok.mp hown
      have hcounters := summarizeEvent_counters client.world event result.flag.isNone made.2 t
        summed v hsummed
      have hqueue := summarizeEvent_sameQueue client.world event result.flag.isNone made.2 t summed v
        hsummed
      obtain ⟨hsub, hsubQueue, hsubCounters⟩ :=
        offerSubEvents_records hbuilt _ hcounters v' others v'' hothers
      cases hpure
      refine ⟨?_, hsubQueue.trans (hqueue.events.trans hmade.1.events), ?_⟩
      · intro offered hoffered
        rw [Offering.events, List.mem_append, List.mem_append] at hoffered
        rcases hoffered with (hindex | hmem) | hother
        · exact isSummary_of_kind (hmade.2 offered (Option.mem_toList.mp hindex)).1 (by decide)
        · exact ownOffers_kinds hnew hownOffers offered hmem
        · exact hsub offered hother
      · simp [hsubCounters, RecordCall.summarizes]

theorem RecordCall.offers_record {client : Client σ} {call : RecordCall} (hbuilt : call.Built client)
    (processor : EventProcessor) (s : σ) :
    Run.Ensures (call.offers client processor) s fun offers _ => CallRecorded call processor offers := by
  cases call with
  | evaluation result =>
      rw [RecordCall.offers, ← bind_pure_comp]
      exact (offerEvaluation_records hbuilt processor s).bind fun offering t hoffering =>
        Run.ensures_pure hoffering
  | track user args =>
      rw [RecordCall.offers, offerTrack, Run.ensures_ask_bind]
      have hcounters := @summaryCounters_maybeMakeIndexEvent client.config processor σ client.world
        user (client.world.unixMilliseconds s).1 (client.world.unixMilliseconds s).2
      intro offers u hoffers
      obtain ⟨made, t, hmake, hoffers⟩ := Run.bind_eq_ok.mp hoffers
      obtain ⟨event, v, hevent, hpure⟩ := Run.bind_eq_ok.mp hoffers
      obtain ⟨hcustom, -⟩ := Run.lift_eq_ok.mp hevent
      obtain ⟨hqueue, hindex⟩ := maybeMakeIndexEvent_sameQueue client.world client.config user _
        processor _ made t hmake
      cases hpure
      refine ⟨?_, hqueue.events, by simp [hcounters made t hmake, RecordCall.summarizes]⟩
      intro offered hoffered
      rcases List.mem_cons.mp hoffered with rfl | hmade
      · exact isSummary_of_kind (newCustomEvent_kind hcustom) (by decide)
      · exact isSummary_of_kind (hindex offered (Option.mem_toList.mp hmade)).1 (by decide)
  | identify user =>
      rw [RecordCall.offers, offerIdentify]
      split
      · exact Run.ensures_pure ⟨nofun, rfl, by simp [RecordCall.summarizes]⟩
      · rw [Run.ensures_ask_bind]
        refine Run.ensures_lift_bind fun event hevent => Run.ensures_pure ?_
        refine ⟨?_, rfl, by simp [RecordCall.summarizes]⟩
        rw [List.forall_mem_singleton]
        exact isSummary_of_kind (newIdentifyEvent_kind hevent) (by decide)
  | aliasUsers currentUser previousUser =>
      rw [RecordCall.offers, offerAlias, Run.ensures_ask_bind]
      refine Run.ensures_pure ⟨?_, rfl, by simp [RecordCall.summarizes]⟩
      rw [List.forall_mem_singleton]
      exact isSummary_of_kind rfl (by decide)

end Calls

section Runs

structure CreatedPayload where
  events : List Json
  summarized : Bool

structure QueueRun (σ : Type) where
  world : σ
  processor : EventProcessor
  offered : List (Json × Bool)
  payloads : List CreatedPayload
  summarized : Bool

def CreatedPayload.ownEvents (payload : CreatedPayload) : List Json :=
  payload.events.filter fun event => !isSummary event

structure CreatedPayload.SummaryLast (payload : CreatedPayload) : Prop where
  before : ∀ event ∈ payload.events.dropLast, isSummary event = false
  last : (∃ event ∈ payload.events.getLast?, isSummary event = true) ↔ payload.summarized = true

structure NothingLost {σ : Type} (config : Config) (run : QueueRun σ) : Prop where
  bounded : run.processor.events.length ≤ config.eventsCapacity
  kept : run.payloads.flatMap CreatedPayload.ownEvents ++ run.processor.events = admitted run.offered
  summaries : ∀ payload ∈ run.payloads, payload.SummaryLast

variable {σ : Type}

namespace QueueRun

def begin (config : Config) (now : Rat) (world : σ) : QueueRun σ :=
  ⟨world, .create config now, [], [], false⟩

def created (run : QueueRun σ) (payload : EventPayload) (world : σ) : QueueRun σ :=
  match payload.result with
  | none => { run with world, processor := payload.processor }
  | some events =>
      { run with
        world
        processor := payload.processor
        payloads := run.payloads ++ [⟨events, run.summarized⟩]
        summarized := false }

variable [Externals]

def offeredBy (client : Client σ) (run : QueueRun σ) (call : RecordCall) : List Json :=
  match call.offers client run.processor run.world with
  | .ok (offers, _) => offers.events
  | .error _ => []

def recorded (client : Client σ) (run : QueueRun σ) (call : RecordCall)
    (answer : Bool × EventProcessor) (world : σ) : QueueRun σ :=
  { run with
    world
    processor := answer.2
    offered := run.offered ++ offerLog client.config.eventsCapacity run.processor.events
      (run.offeredBy client call)
    summarized := run.summarized || call.summarizes answer.1 }

def step (client : Client σ) (run : QueueRun σ) : QueueCall → Except Halt (QueueRun σ)
  | .record call =>
      match call.run client run.processor run.world with
      | .ok (answer, world) => .ok (run.recorded client call answer world)
      | .error halt => .error halt
  | .createPayload =>
      match createEventPayloadAndResetState client.world run.processor run.world with
      | .ok (payload, world) => .ok (run.created payload world)
      | .error halt => .error halt

end QueueRun

def QueueCall.Built (client : Client σ) : QueueCall → Prop
  | .record call => call.Built client
  | .createPayload => True

structure Accounted (config : Config) (run : QueueRun σ) : Prop where
  nothingLost : NothingLost config run
  pending : ∀ event ∈ run.processor.events, isSummary event = false
  summarized : run.processor.summaryCounters ≠ [] ↔ run.summarized = true

theorem accounted_begin (config : Config) (now : Rat) (world : σ) :
    Accounted config (.begin config now world) :=
  ⟨⟨Nat.zero_le _, rfl, nofun⟩, nofun, by simp [QueueRun.begin, EventProcessor.create]⟩

theorem ownEvents_of_pending {events : List Json} (h : ∀ event ∈ events, isSummary event = false) :
    events.filter (fun event => !isSummary event) = events :=
  List.filter_eq_self.mpr fun event hevent => by simp [h event hevent]

inductive Created (run : QueueRun σ) (payload : EventPayload) : Prop
  | none (result : payload.result = none) (processor : payload.processor = run.processor)
  | events (result : payload.result = some run.processor.events)
      (counters : run.processor.summaryCounters = [])
      (processor : payload.processor = { run.processor with events := [] })
  | summary (summary : Json) (kind : isSummary summary = true)
      (result : payload.result = some (run.processor.events ++ [summary]))
      (counters : run.processor.summaryCounters ≠ [])
      (emptied : payload.processor.events = [] ∧ payload.processor.summaryCounters = [])

theorem prepareSummaryEvent_kind {processor : EventProcessor} {now : Rat} {summary : Json}
    (h : prepareSummaryEvent processor now = .ok summary) : isSummary summary = true := by
  obtain ⟨counters, -, hpure⟩ := Checked.bind_eq_ok.mp h
  cases hpure
  rfl

theorem createEventPayload_created (w : World σ) (run : QueueRun σ) (s : σ) :
    Run.Ensures (createEventPayloadAndResetState w run.processor) s fun payload _ =>
      Created run payload := by
  rw [createEventPayloadAndResetState, Run.ensures_ask_bind]
  split_ifs with hempty hcounters
  · exact Run.ensures_pure (.none rfl rfl)
  · refine Run.ensures_lift_bind fun summary hsummary => Run.ensures_pure ?_
    exact .summary summary (prepareSummaryEvent_kind hsummary) rfl (by simpa using hcounters)
      ⟨rfl, rfl⟩
  · exact Run.ensures_pure (.events rfl (by simpa using hcounters) rfl)

theorem Accounted.created {config : Config} {run : QueueRun σ} {payload : EventPayload}
    (h : Accounted config run) (hpayload : Created run payload) (world : σ) :
    Accounted config (run.created payload world) := by
  obtain ⟨⟨hbounded, hkept, hsummaries⟩, hpending, hsummarized⟩ := h
  have hown := ownEvents_of_pending hpending
  cases hpayload with
  | none result processor =>
      rw [QueueRun.created, result, processor]
      exact ⟨⟨hbounded, hkept, hsummaries⟩, hpending, hsummarized⟩
  | events result counters processor =>
      rw [QueueRun.created, result, processor]
      have hunsummarized : run.summarized = false := by
        rw [← Bool.not_eq_true, ← hsummarized]
        simp [counters]
      have hlast : CreatedPayload.SummaryLast ⟨run.processor.events, run.summarized⟩ := by
        refine ⟨fun event hevent => hpending event (List.mem_of_mem_dropLast hevent), ?_⟩
        simp only [hunsummarized, Bool.false_eq_true, iff_false, not_exists, not_and]
        intro event hevent
        simp [hpending event (List.mem_of_mem_getLast? hevent)]
      refine ⟨⟨Nat.zero_le _, ?_, ?_⟩, nofun, by simp [counters]⟩
      · simp [List.flatMap_append, CreatedPayload.ownEvents, hown, ← hkept]
      · exact List.forall_mem_append.mpr ⟨hsummaries, List.forall_mem_singleton.mpr hlast⟩
  | summary summary kind result counters emptied =>
      rw [QueueRun.created, result]
      have hwas : run.summarized = true := hsummarized.mp counters
      have hlast : CreatedPayload.SummaryLast ⟨run.processor.events ++ [summary], run.summarized⟩ := by
        refine ⟨?_, ?_⟩
        · rw [List.dropLast_concat]
          exact hpending
        · simp [hwas, kind]
      refine ⟨⟨by simp [emptied.1], ?_, ?_⟩, by simp [emptied.1], by simp [emptied.2]⟩
      · simp [List.flatMap_append, CreatedPayload.ownEvents, hown, kind, emptied.1, ← hkept]
      · exact List.forall_mem_append.mpr ⟨hsummaries, List.forall_mem_singleton.mpr hlast⟩

variable [Externals]

theorem Accounted.recorded {client : Client σ} {run : QueueRun σ} {call : RecordCall}
    {answer : Bool × EventProcessor} {world : σ} (h : Accounted client.config run)
    (hbuilt : call.Built client)
    (hrun : call.run client run.processor run.world = .ok (answer, world)) :
    Accounted client.config (run.recorded client call answer world) := by
  obtain ⟨returned, next⟩ := answer
  obtain ⟨⟨hbounded, hkept, hsummaries⟩, hpending, hsummarized⟩ := h
  obtain ⟨offers, hoffers, rfl, rfl⟩ := RecordCall.run_eq_ok hrun
  obtain ⟨hevents, hqueue, hcounters⟩ :=
    RecordCall.offers_record hbuilt run.processor run.world offers world hoffers
  have hoffered : run.offeredBy client call = offers.events := by
    rw [QueueRun.offeredBy, hoffers]
  refine ⟨⟨?_, ?_, hsummaries⟩, ?_, ?_⟩
  · exact length_offerAll (hqueue ▸ hbounded) offers.events
  · simp only [QueueRun.recorded, EventProcessor.offered, hoffered, hqueue, offerAll_eq_admitted,
      admitted_append, ← hkept, List.append_assoc]
  · simp only [QueueRun.recorded, EventProcessor.offered, hqueue, offerAll_eq]
    refine List.forall_mem_append.mpr ⟨hpending, fun event hevent => ?_⟩
    exact hevents event (List.mem_of_mem_take hevent)
  · simp only [QueueRun.recorded, EventProcessor.offered, Bool.or_eq_true]
    rw [hcounters, hsummarized]

theorem Accounted.step {client : Client σ} {run next : QueueRun σ} {call : QueueCall}
    (h : Accounted client.config run) (hbuilt : call.Built client)
    (hstep : run.step client call = .ok next) : Accounted client.config next := by
  cases call with
  | record call =>
      rw [QueueRun.step] at hstep
      cases hrun : call.run client run.processor run.world with
      | error halt =>
          rw [hrun] at hstep
          cases hstep
      | ok answered =>
          rw [hrun] at hstep
          cases hstep
          exact h.recorded hbuilt hrun
  | createPayload =>
      rw [QueueRun.step] at hstep
      cases hpayload : createEventPayloadAndResetState client.world run.processor run.world with
      | error halt =>
          rw [hpayload] at hstep
          cases hstep
      | ok created =>
          rw [hpayload] at hstep
          cases hstep
          exact h.created (createEventPayload_created client.world run run.world _ _ hpayload) _

theorem event_queue_loses_nothing (client : Client σ) (now : Rat) (world : σ) {run : QueueRun σ}
    (h : Steps (QueueRun.step client) (fun _ call => call.Built client)
      (.begin client.config now world) run) : NothingLost client.config run := by
  refine Accounted.nothingLost (h.invariant (accounted_begin client.config now world) ?_)
  intro run next call haccounted hbuilt hstep
  exact haccounted.step hbuilt hstep

end Runs

def crowdedClient : Client Unit := ⟨{ configNew with eventsCapacity := 2 }, sampleWorld⟩

def trackedResult : EvaluationResult where
  __ := sampleResult
  subEvents := none
  flag := some (.object [("version", .number 7), ("trackEvents", .bool true)])

def QueueCall.Unprepared : QueueCall → Prop
  | .record (.evaluation result) => result.subEvents.isNone = true
  | .record _ | .createPayload => True

instance : DecidablePred QueueCall.Unprepared
  | .record (.evaluation result) => inferInstanceAs (Decidable (result.subEvents.isNone = true))
  | .record (.track _ _) | .record (.identify _) | .record (.aliasUsers _ _) | .createPayload =>
      .isTrue trivial

theorem QueueCall.Unprepared.built {σ : Type} {call : QueueCall} (h : call.Unprepared)
    (client : Client σ) : call.Built client := by
  cases call with
  | createPayload => exact trivial
  | record call =>
      cases call with
      | evaluation result =>
          intro event hevent
          rw [Option.isNone_iff_eq_none.mp h] at hevent
          cases hevent
      | _ => exact trivial

theorem crowded_queue_loses_nothing : ∃ run,
    Steps (@QueueRun.step Unit sampleExternals crowdedClient) (fun _ call => call.Built crowdedClient)
      (.begin crowdedClient.config 0 ()) run ∧
    (run.offered.map Prod.snd = [false, false, true, false] ∧
      run.payloads.map (fun payload => payload.events.length) = [3]) ∧
    NothingLost crowdedClient.config run := by
  have halong : Along (@QueueRun.step Unit sampleExternals crowdedClient)
      (fun _ call => call.Unprepared)
      (fun run => run.offered.map Prod.snd = [false, false, true, false] ∧
        run.payloads.map (fun payload => payload.events.length) = [3])
      [.record (.identify (userNew "v")), .record (.evaluation trackedResult), .createPayload,
        .record (.aliasUsers (userNew "u") (userNew "v"))]
      (.begin crowdedClient.config 0 ()) := by
    decide +kernel
  obtain ⟨run, hsteps, hrun⟩ := Steps.of_along halong
  have hbuilt := hsteps.mono fun _ call hcall => QueueCall.Unprepared.built hcall crowdedClient
  exact ⟨run, hbuilt, hrun, @event_queue_loses_nothing Unit sampleExternals crowdedClient 0 () run
    hbuilt⟩

end ServerSdk
