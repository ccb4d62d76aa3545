import ServerSdk.Events.Identify
import ServerSdk.Program.BoundedQueue

namespace ServerSdk

open Program

def EventProcessor.offered (config : Config) (processor : EventProcessor) (events : List Json) :
    EventProcessor :=
  { processor with events := offerAll config.eventsCapacity processor.events events }

def debugOffer (config : Config) (user : User) (event : Json) (now debugUntil lastServerTime : Rat) :
    Checked (List Json) :=
  if now < debugUntil ∧ lastServerTime < debugUntil then do
    let debugEvent ← convertToDebug config user event
    pure [debugEvent]
  else pure []

def offersOf (config : Config) (user : User) (detailedEvaluation : Bool) (now lastServerTime : Rat)
    (event : Json) : Checked (List Json) :=
  let (shouldTrack, event) :=
    takeTracking (dropReason event detailedEvaluation) (reasonInExperiment event)
  match Json.meaningful (event.objectLookup "debugEventsUntilDate") with
  | none => pure (if shouldTrack then [event] else [])
  | some tmp => do
      let debugUntil ← timestampInitUnixMillis tmp.getNumber
      let event := event.objectDeleteKey "debugEventsUntilDate"
      let debug ← debugOffer config user event now debugUntil lastServerTime
      pure (debug ++ if shouldTrack then [event] else [])

def offersOfEach (config : Config) (user : User) (detailedEvaluation : Bool)
    (now lastServerTime : Rat) : List Json → Checked (List (List Json))
  | [] => pure []
  | event :: events => do
      let offers ← offersOf config user detailedEvaluation now lastServerTime event
      let others ← offersOfEach config user detailedEvaluation now lastServerTime events
      pure (offers :: others)

structure Offering where
  returned : Bool
  index : Option Json
  own : List Json
  others : List (List Json)
  processor : EventProcessor

def Offering.events (offering : Offering) : List Json :=
  offering.index.toList ++ offering.own ++ offering.others.flatten

theorem addEvent_eq_offered (config : Config) (event : Json) (processor : EventProcessor) :
    addEvent config event processor = processor.offered config [event] := by
  rw [addEvent, EventProcessor.offered, offerAll, List.foldl_cons, List.foldl_nil, offer]
  split <;> rfl

namespace EventProcessor

variable (config : Config) (processor : EventProcessor)

theorem offered_nil : processor.offered config [] = processor := by
  rw [offered, offerAll, List.foldl_nil]

theorem offered_append (events events' : List Json) :
    processor.offered config (events ++ events') =
      (processor.offered config events).offered config events' := by
  rw [offered, offerAll, List.foldl_append]
  rfl

@[simp] theorem lastServerTime_offered (events : List Json) :
    (processor.offered config events).lastServerTime = processor.lastServerTime := by
  rw [offered]

end EventProcessor

theorem queueIf_eq_offered (config : Config) (shouldTrack : Bool) (event : Json)
    (processor : EventProcessor) :
    queueIf config shouldTrack event processor =
      processor.offered config (if shouldTrack then [event] else []) := by
  cases shouldTrack with
  | false => rfl
  | true => exact addEvent_eq_offered config event processor

theorem addIndexEvent_eq_offered (config : Config) (indexEvent : Option Json)
    (processor : EventProcessor) :
    addIndexEvent config indexEvent processor = processor.offered config indexEvent.toList := by
  cases indexEvent with
  | none => rfl
  | some event => exact addEvent_eq_offered config event processor

section Queueing

variable (config : Config) (user : User) (detailed : Bool) (now : Rat)

theorem queueDebug_offers (event : Json) (debugUntil : Rat) (processor : EventProcessor) :
    queueDebug config user event now debugUntil processor =
      (debugOffer config user event now debugUntil processor.lastServerTime).map
        (processor.offered config) := by
  rw [queueDebug, debugOffer]
  split
  · cases convertToDebug config user event with
    | error fault => rfl
    | ok debugEvent => exact congrArg Except.ok (addEvent_eq_offered config debugEvent processor)
  · rfl

theorem possiblyQueueEvent_offers (event : Json) (processor : EventProcessor) :
    possiblyQueueEvent config user detailed now event processor =
      (offersOf config user detailed now processor.lastServerTime event).map
        (processor.offered config) := by
  rw [possiblyQueueEvent, offersOf]
  generalize takeTracking (dropReason event detailed) (reasonInExperiment event) = taken
  obtain ⟨shouldTrack, event⟩ := taken
  simp only
  cases Json.meaningful (event.objectLookup "debugEventsUntilDate") with
  | none => exact congrArg Except.ok (queueIf_eq_offered config shouldTrack event processor)
  | some tmp =>
      simp only [queueDebug_offers]
      cases timestampInitUnixMillis tmp.getNumber with
      | error fault => rfl
      | ok debugUntil =>
          simp only [Checked.ok_bind]
          cases debugOffer config user (event.objectDeleteKey "debugEventsUntilDate") now debugUntil
            processor.lastServerTime with
          | error fault => rfl
          | ok debug =>
              refine congrArg Except.ok ?_
              rw [queueIf_eq_offered, EventProcessor.offered_append]

theorem possiblyQueueEvents_offers (events : List Json) (processor : EventProcessor) :
    possiblyQueueEvents config user detailed now events processor =
      (offersOfEach config user detailed now processor.lastServerTime events).map fun others =>
        processor.offered config others.flatten := by
  induction events generalizing processor with
  | nil => rfl
  | cons event events ih =>
      rw [possiblyQueueEvents, offersOfEach, possiblyQueueEvent_offers]
      cases offersOf config user detailed now processor.lastServerTime event with
      | error fault => rfl
      | ok offers =>
          simp only [Except.map, Checked.ok_bind, ih, EventProcessor.lastServerTime_offered]
          cases offersOfEach config user detailed now processor.lastServerTime events with
          | error fault => rfl
          | ok others =>
              refine congrArg Except.ok ?_
              rw [List.flatten_cons, EventProcessor.offered_append]

end Queueing

section Evaluating

variable {σ : Type}

def ownOffers (client : Client σ) (result : EvaluationResult) (now lastServerTime : Rat)
    (featureEvent : Json) : Checked (List Json) :=
  match result.flag with
  | some _ => offersOf client.config result.user result.detailedEvaluation now lastServerTime
      featureEvent
  | none => pure []

theorem queueFeatureEvent_offers (client : Client σ) (result : EvaluationResult) (now : Rat)
    (featureEvent : Json) (processor : EventProcessor) :
    queueFeatureEvent client result now featureEvent processor =
      (ownOffers client result now processor.lastServerTime featureEvent).map
        (processor.offered client.config) := by
  rw [queueFeatureEvent, ownOffers]
  cases result.flag with
  | none => rfl
  | some flag => exact possiblyQueueEvent_offers client.config _ _ _ _ _

variable [Externals]

def offerSubEvents (client : Client σ) (result : EvaluationResult) (now : Rat)
    (processor : EventProcessor) : Run σ (List (List Json) × EventProcessor) :=
  match result.subEvents with
  | none => pure ([], processor)
  | some subEvents => do
      let processor ← summarizeEvents client.world subEvents processor
      let others ← Run.lift (offersOfEach client.config result.user result.detailedEvaluation now
        processor.lastServerTime subEvents)
      pure (others, processor)

def offerEvaluation (client : Client σ) (result : EvaluationResult) (processor : EventProcessor) :
    Run σ Offering := do
  let now ← Run.ask client.world.unixMilliseconds
  match ← Run.lift (newFeatureEvent (result.featureEvent now) result.user client.config) with
  | none => pure ⟨false, none, [], [], processor⟩
  | some featureEvent => do
      let (indexEvent, processor) ←
        maybeMakeIndexEvent client.world client.config result.user now processor
      let processor ← summarizeEvent client.world featureEvent result.flag.isNone processor
      let own ← Run.lift (ownOffers client result now processor.lastServerTime featureEvent)
      let (others, processor) ← offerSubEvents client result now processor
      pure ⟨true, indexEvent, own, others, processor⟩

theorem summarizeEvent_offered (config : Config) (w : World σ) (event : Json) (unknown : Bool)
    (processor : EventProcessor) (events : List Json) :
    summarizeEvent w event unknown (processor.offered config events) =
      (·.offered config events) <$> summarizeEvent w event unknown processor := by
  simp only [summarizeEvent, map_bind, map_pure]
  rfl

theorem summarizeEvents_offered (config : Config) (w : World σ) (summarized : List Json)
    (processor : EventProcessor) (events : List Json) :
    summarizeEvents w summarized (processor.offered config events) =
      (·.offered config events) <$> summarizeEvents w summarized processor := by
  induction summarized generalizing processor with
  | nil => rfl
  | cons event summarized ih =>
      simp only [summarizeEvents, summarizeEvent_offered, bind_map_left, map_bind, ih]

theorem recordSubEvents_offers (client : Client σ) (result : EvaluationResult) (now : Rat)
    (processor : EventProcessor) (events : List Json) :
    recordSubEvents client result now (processor.offered client.config events) =
      (fun offered => offered.2.offered client.config (events ++ offered.1.flatten)) <$>
        offerSubEvents client result now processor := by
  rw [recordSubEvents, offerSubEvents]
  cases result.subEvents with
  | none =>
      simp only [map_pure, List.flatten_nil, List.append_nil]
  | some subEvents =>
      simp only [summarizeEvents_offered, bind_map_left, map_bind, possiblyQueueEvents_offers,
        EventProcessor.lastServerTime_offered, Run.lift_map, EventProcessor.offered_append,
        bind_pure_comp, Functor.map_map]

theorem processEvaluation_offers (client : Client σ) (result : EvaluationResult)
    (processor : EventProcessor) :
    processEvaluation client result processor =
      (fun offering => (offering.returned, offering.processor.offered client.config offering.events))
        <$> offerEvaluation client result processor := by
  simp only [processEvaluation, offerEvaluation, recordEvaluation, map_bind]
  congr 1
  funext now
  congr 1
  funext event
  cases event with
  | none => simp only [map_pure]; rfl
  | some featureEvent =>
      simp only [map_bind, bind_assoc, map_pure]
      congr 1
      funext made
      congr 1
      funext summed
      simp only [addIndexEvent_eq_offered, queueFeatureEvent_offers, Run.lift_map, bind_map_left,
        EventProcessor.lastServerTime_offered]
      congr 1
      funext own
      rw [← EventProcessor.offered_append, recordSubEvents_offers]
      simp only [Offering.events, bind_pure_comp, Functor.map_map]

end Evaluating

end ServerSdk
