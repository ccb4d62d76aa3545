import ServerSdk.Events.Processor

namespace ServerSdk

open Program

def newIdentifyEvent (config : Config) (user : User) (timestamp : Rat) : Checked Json := do
  let event := (newBaseEvent "identify" timestamp).objectSetKey "key" (.text user.key)
  let tmp ← userToJSON user true config.allAttributesPrivate config.privateNames
  pure (event.objectSetKey "user" tmp)

structure Measured where
  key : String
  data : Option Json
  metric : Rat
  hasMetric : Bool

def newCustomEvent (config : Config) (user : User) (args : Measured) (timestamp : Rat) :
    Checked Json := do
  let event ← addUserInfoToEvent (newBaseEvent "custom" timestamp) user config
  let event := event.objectSetKey "key" (.text args.key)
  let event := event.setOptional "data" args.data
  let event := if args.hasMetric then event.objectSetKey "metricValue" (.number args.metric)
    else event
  pure (if user.anonymous then event.objectSetKey "contextKind" (.text "anonymousUser") else event)

def contextKindString (user : User) : Json :=
  if user.anonymous then .text "anonymousUser" else .text "user"

def newAliasEvent (currentUser previousUser : User) (timestamp : Rat) : Json :=
  let event := (newBaseEvent "alias" timestamp).objectSetKey "key" (.text currentUser.key)
  let event := event.objectSetKey "previousKey" (.text previousUser.key)
  let event := event.objectSetKey "contextKind" (contextKindString currentUser)
  event.objectSetKey "previousContextKind" (contextKindString previousUser)

variable {σ : Type}

def identify (client : Client σ) (user : User) (processor : EventProcessor) :
    Run σ (Bool × EventProcessor) :=
  if user.key = "" then pure (true, processor)
  else do
    let timestamp ← Run.ask client.world.unixMilliseconds
    let event ← Run.lift (newIdentifyEvent client.config user timestamp)
    let processor := { processor with userKeys := (processor.userKeys.insert user.key).2 }
    pure (true, addEvent client.config event processor)

def track (client : Client σ) (user : User) (args : Measured) (processor : EventProcessor) :
    Run σ (Bool × EventProcessor) := do
  let timestamp ← Run.ask client.world.unixMilliseconds
  let (indexEvent, processor) ←
    maybeMakeIndexEvent client.world client.config user timestamp processor
  let event ← Run.lift (newCustomEvent client.config user args timestamp)
  let processor := addEvent client.config event processor
  pure (true, addIndexEvent client.config indexEvent processor)

def eventProcessorAlias (client : Client σ) (currentUser previousUser : User) (processor : EventProcessor) :
    Run σ (Bool × EventProcessor) := do
  let timestamp ← Run.ask client.world.unixMilliseconds
  let event := newAliasEvent currentUser previousUser timestamp
  pure (true, addEvent client.config event processor)

end ServerSdk
