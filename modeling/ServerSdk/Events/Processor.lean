import ServerSdk.Events.Feature

namespace ServerSdk

open Program

inductive LruStatus where
  | new
  | existed
  deriving DecidableEq, Repr

structure Lru where
  elements : Nat
  capacity : Nat
  list : List String
  hash : List String
  deriving DecidableEq, Repr

namespace Lru

def init (capacity : Nat) : Lru := ⟨0, capacity, [], []⟩

def clear (lru : Lru) : Lru := { lru with elements := 0, list := [], hash := [] }

-- A full cache reuses the node at the end of the list for the new key.
def makeRoom (lru : Lru) : Lru :=
  if lru.elements = lru.capacity then
    match lru.list.getLast? with
    | some last => { lru with list := lru.list.dropLast, hash := lru.hash.erase last }
    | none => lru
  else { lru with elements := lru.elements + 1 }

def insert (lru : Lru) (key : String) : LruStatus × Lru :=
  if lru.capacity = 0 then (.new, lru)
  else if key ∈ lru.hash then (.existed, { lru with list := key :: lru.list.erase key })
  else
    let lru := lru.makeRoom
    (.new, { lru with list := key :: lru.list, hash := lru.hash ++ [key] })

end Lru

structure SummaryEntry where
  count : Nat
  value : Option Json
  version : Option Json
  variation : Option Json
  unknown : Bool
  deriving Repr

structure FlagSummary where
  default : Option Json
  counters : List (String × SummaryEntry)
  deriving Repr

structure EventProcessor where
  events : List Json
  summaryCounters : List (String × FlagSummary)
  summaryStart : Rat
  userKeys : Lru
  lastUserKeyFlush : Rat
  lastServerTime : Rat
  deriving Repr

def EventProcessor.create (config : Config) (now : Rat) : EventProcessor where
  events := []
  summaryCounters := []
  summaryStart := 0
  userKeys := Lru.init config.userKeysCapacity
  lastUserKeyFlush := now
  lastServerTime := 0

def alterEntry {α : Type} (key : String) (f : Option α → α) :
    List (String × α) → List (String × α)
  | [] => [(key, f none)]
  | (k, a) :: entries => if k = key then (k, f (some a)) :: entries
      else (k, a) :: alterEntry key f entries

def Json.meaningful (json : Option Json) : Option Json :=
  if Json.notNull json then json else none

def addEvent (config : Config) (event : Json) (processor : EventProcessor) : EventProcessor :=
  if config.eventsCapacity ≤ processor.events.length then processor
  else { processor with events := processor.events ++ [event] }

def addNumberTo (key event : Json) (name : String) : Checked Json :=
  match Json.meaningful (event.objectLookup name) with
  | none => pure key
  | some tmp => do
      Checked.check (tmp.getType == .number)
      pure (key.objectSetKey name tmp)

def SummaryEntry.counted (event : Json) (unknown : Bool) : Option SummaryEntry → SummaryEntry
  | some entry => { entry with count := entry.count + 1 }
  | none =>
      { count := 1
        value := Json.meaningful (event.objectLookup "value")
        version := Json.meaningful (event.objectLookup "version")
        variation := Json.meaningful (event.objectLookup "variation")
        unknown := unknown }

def FlagSummary.counted (event : Json) (keytext : String) (unknown : Bool)
    (summary : Option FlagSummary) : FlagSummary :=
  let summary := summary.getD ⟨Json.meaningful (event.objectLookup "default"), []⟩
  { summary with counters := alterEntry keytext (SummaryEntry.counted event unknown) summary.counters }

def eventKey (event : Json) : Checked String :=
  match (event.objectLookup "key").bind Json.getText with
  | none => .error .assertion
  | some key => .ok key

variable [Externals]

open Externals

def makeSummaryKey (event : Json) : Checked String := do
  let key ← addNumberTo (.object []) event "variation"
  let key ← addNumberTo key event "version"
  pure (serialize key)

variable {σ : Type}

def startSummary (w : World σ) (processor : EventProcessor) : Run σ Rat :=
  if processor.summaryStart = 0 then Run.ask w.unixMilliseconds else pure processor.summaryStart

def summarizeEvent (w : World σ) (event : Json) (unknown : Bool) (processor : EventProcessor) :
    Run σ EventProcessor := do
  let flagKey ← Run.lift (eventKey event)
  let keytext ← Run.lift (makeSummaryKey event)
  let summaryStart ← startSummary w processor
  pure { processor with
    summaryStart := summaryStart
    summaryCounters :=
      alterEntry flagKey (FlagSummary.counted event keytext unknown) processor.summaryCounters }

def summarizeEvents (w : World σ) : List Json → EventProcessor → Run σ EventProcessor
  | [], processor => pure processor
  | event :: events, processor => do
      let processor ← summarizeEvent w event false processor
      summarizeEvents w events processor

def convertToDebug (config : Config) (user : User) (event : Json) : Checked Json := do
  let event := (event.objectDeleteKey "kind").objectDeleteKey "userKey"
  let event := event.objectSetKey "kind" (.text "debug")
  let inlineUser ← userToJSON user true config.allAttributesPrivate config.privateNames
  pure (event.objectSetKey "user" inlineUser)

def timestampInitUnixMillis (unixMilliseconds : Rat) : Checked Rat := do
  Checked.check (0 ≤ unixMilliseconds)
  pure unixMilliseconds

def isTrue (json : Option Json) : Bool := json.elim false Json.getBool

def reasonInExperiment (event : Json) : Bool :=
  isTrue ((event.objectLookup "reason").bind (·.objectLookup "inExperiment"))

def dropReason (event : Json) (detailedEvaluation : Bool) : Json :=
  match Json.meaningful (event.objectLookup "shouldAlwaysTrackDetails") with
  | some tmp =>
      (if tmp.getBool then event else event.objectDeleteKey "reason").objectDeleteKey
        "shouldAlwaysTrackDetails"
  | none => if detailedEvaluation then event else event.objectDeleteKey "reason"

def takeTracking (event : Json) (inExperiment : Bool) : Bool × Json :=
  match Json.meaningful (event.objectLookup "trackEvents") with
  | some tmp => (inExperiment || tmp.getBool, event.objectDeleteKey "trackEvents")
  | none => (inExperiment, event)

def queueIf (config : Config) (shouldTrack : Bool) (event : Json) (processor : EventProcessor) :
    EventProcessor :=
  if shouldTrack then addEvent config event processor else processor

def queueDebug (config : Config) (user : User) (event : Json) (now debugUntil : Rat)
    (processor : EventProcessor) : Checked EventProcessor :=
  if now < debugUntil ∧ processor.lastServerTime < debugUntil then do
    let debugEvent ← convertToDebug config user event
    pure (addEvent config debugEvent processor)
  else pure processor

def possiblyQueueEvent (config : Config) (user : User) (detailedEvaluation : Bool) (now : Rat)
    (event : Json) (processor : EventProcessor) : Checked EventProcessor :=
  let (shouldTrack, event) :=
    takeTracking (dropReason event detailedEvaluation) (reasonInExperiment event)
  match Json.meaningful (event.objectLookup "debugEventsUntilDate") with
  | none => pure (queueIf config shouldTrack event processor)
  | some tmp => do
      let debugUntil ← timestampInitUnixMillis tmp.getNumber
      let event := event.objectDeleteKey "debugEventsUntilDate"
      let processor ← queueDebug config user event now debugUntil processor
      pure (queueIf config shouldTrack event processor)

def possiblyQueueEvents (config : Config) (user : User) (detailedEvaluation : Bool) (now : Rat) :
    List Json → EventProcessor → Checked EventProcessor
  | [], processor => pure processor
  | event :: events, processor => do
      let processor ← possiblyQueueEvent config user detailedEvaluation now event processor
      possiblyQueueEvents config user detailedEvaluation now events processor

def newIndexEvent (config : Config) (user : User) (timestamp : Rat) : Checked Json := do
  let tmp ← userToJSON user true config.allAttributesPrivate config.privateNames
  pure ((newBaseEvent "index" timestamp).objectSetKey "user" tmp)

def flushUserKeys (w : World σ) (config : Config) (processor : EventProcessor) :
    Run σ EventProcessor := do
  let now ← Run.ask w.monotonicMilliseconds
  if now - processor.lastUserKeyFlush > config.userKeysFlushInterval then do
    let reset ← Run.ask w.monotonicMilliseconds
    pure { processor with userKeys := processor.userKeys.clear, lastUserKeyFlush := reset }
  else pure processor

def maybeMakeIndexEvent (w : World σ) (config : Config) (user : User) (timestamp : Rat)
    (processor : EventProcessor) : Run σ (Option Json × EventProcessor) :=
  if config.inlineUsersInEvents then pure (none, processor)
  else do
    let processor ← flushUserKeys w config processor
    let (status, userKeys) := processor.userKeys.insert user.key
    let processor := { processor with userKeys := userKeys }
    match status with
    | .existed => pure (none, processor)
    | .new => do
        let event ← Run.lift (newIndexEvent config user timestamp)
        pure (some event, processor)

structure EvaluationResult where
  user : User
  subEvents : Option (List Json)
  flagKey : String
  actualValue : Option Json
  fallbackValue : Json
  flag : Option Json
  details : Details
  detailedEvaluation : Bool

def EvaluationResult.featureEvent (result : EvaluationResult) (now : Rat) : FeatureEventArgs where
  key := result.flagKey
  variation := if result.details.hasVariation then some result.details.variationIndex else none
  value := if Json.notNull result.actualValue then result.actualValue else some result.fallbackValue
  defaultValue := some result.fallbackValue
  prereqOf := none
  flag := result.flag
  details := result.details
  timestamp := now

def addIndexEvent (config : Config) (indexEvent : Option Json) (processor : EventProcessor) :
    EventProcessor :=
  match indexEvent with
  | some event => addEvent config event processor
  | none => processor

def queueFeatureEvent (client : Client σ) (result : EvaluationResult) (now : Rat)
    (featureEvent : Json) (processor : EventProcessor) : Checked EventProcessor :=
  match result.flag with
  | some _ => possiblyQueueEvent client.config result.user result.detailedEvaluation now featureEvent
      processor
  | none => pure processor

def recordSubEvents (client : Client σ) (result : EvaluationResult) (now : Rat)
    (processor : EventProcessor) : Run σ EventProcessor :=
  match result.subEvents with
  | none => pure processor
  | some subEvents => do
      let processor ← summarizeEvents client.world subEvents processor
      Run.lift (possiblyQueueEvents client.config result.user result.detailedEvaluation now
        subEvents processor)

def recordEvaluation (client : Client σ) (result : EvaluationResult) (now : Rat)
    (featureEvent : Json) (processor : EventProcessor) : Run σ EventProcessor := do
  let (indexEvent, processor) ←
    maybeMakeIndexEvent client.world client.config result.user now processor
  let processor ← summarizeEvent client.world featureEvent result.flag.isNone processor
  let processor := addIndexEvent client.config indexEvent processor
  let processor ← Run.lift (queueFeatureEvent client result now featureEvent processor)
  recordSubEvents client result now processor

def processEvaluation (client : Client σ) (result : EvaluationResult) (processor : EventProcessor) :
    Run σ (Bool × EventProcessor) := do
  let now ← Run.ask client.world.unixMilliseconds
  match ← Run.lift (newFeatureEvent (result.featureEvent now) result.user client.config) with
  | none => pure (false, processor)
  | some featureEvent => do
      let processor ← recordEvaluation client result now featureEvent processor
      pure (true, processor)

end ServerSdk
