import ServerSdk.Evaluate.Evaluate
import ServerSdk.Events.Recording

namespace ServerSdk

open Program

inductive Served where
  | fallback
  | value (json : Json)
  deriving Repr

def Served.json (served : Served) (fallback : Json) : Json :=
  match served with
  | .fallback => fallback
  | .value json => json

structure VariationResult where
  served : Served
  details : Details
  processor : EventProcessor
  deriving Repr

structure VariationCall where
  user : User
  key : String
  fallback : Json
  checkType : JsonType → Bool
  detailed : Bool

def chooseValue (checkType : JsonType → Bool) (details : Details) (value : Option Json)
    (processor : EventProcessor) : VariationResult :=
  match value with
  | none | some .null => ⟨.fallback, details, processor⟩
  | some value =>
      if checkType value.getType then ⟨.value value, details, processor⟩
      else ⟨.fallback, { details.setError .wrongType with hasVariation := false }, processor⟩

-- Freeing the events of a failed evaluation a second time, at the error label.
def freeAgain : Option (List Json) → Checked Unit
  | none => .ok ()
  | some _ => .error .doubleFree

def resultOf (call : VariationCall) (flag : Option Json) (details : Details)
    (subEvents : Option (List Json)) (value : Option Json) : EvaluationResult where
  user := call.user
  subEvents := subEvents
  flagKey := call.key
  actualValue := value
  fallbackValue := call.fallback
  flag := flag
  details := details
  detailedEvaluation := call.detailed

section Variation

variable [Externals] {σ : Type}

def recordAndChoose (client : Client σ) (call : VariationCall) (flag : Option Json)
    (details : Details) (subEvents : Option (List Json)) (value : Option Json)
    (processor : EventProcessor) : Run σ VariationResult :=
  if client.config.sendEvents then do
    let (recorded, processor) ←
      processEvaluation client (resultOf call flag details subEvents value) processor
    pure (if recorded then chooseValue call.checkType details value processor
      else ⟨.fallback, details, processor⟩)
  else pure (chooseValue call.checkType details value processor)

def settleEvaluation (client : Client σ) (call : VariationCall) (flag : Json)
    (processor : EventProcessor) : Evaluation → Run σ VariationResult
  | (.mem, out) => do
      Run.lift (freeAgain out.events)
      pure ⟨.fallback, out.details.setError .oom, processor⟩
  | (.schema, out) =>
      recordAndChoose client call (some flag) (out.details.setError .malformedFlag) none out.value
        processor
  | (_, out) => recordAndChoose client call (some flag) out.details out.events out.value processor

def variation (client : Client σ) (fuel : Nat) (call : VariationCall)
    (processor : EventProcessor) : Run σ VariationResult := do
  if ← Run.ask client.world.storeInitialized then
    match ← storeGet client.world .flag call.key with
    | none => pure ⟨.fallback, detailsInit.setError .storeError, processor⟩
    | some none =>
        recordAndChoose client call none (detailsInit.setError .flagNotFound) none none processor
    | some (some flag) => do
        let result ← evaluate client call.user fuel flag freshOutputs
        settleEvaluation client call flag processor result
  else pure ⟨.fallback, detailsInit.setError .clientNotReady, processor⟩

end Variation

structure Request (α : Type) where
  fallback : α
  fallbackJSON : Json
  checkType : JsonType → Bool
  read : Served → α

def isBool (type : JsonType) : Bool := type = .bool

def isNumber (type : JsonType) : Bool := type = .number

def isText (type : JsonType) : Bool := type = .text

def isAnyType (_ : JsonType) : Bool := true

def boolRequest (fallback : Bool) : Request Bool :=
  ⟨fallback, .bool fallback, isBool, fun served => (served.json (.bool fallback)).getBool⟩

def intRequest (fallback : Int32) : Request Int :=
  ⟨fallback.toInt, .number fallback.toInt, isNumber, fun served =>
    toInt (served.json (.number fallback.toInt)).getNumber⟩

def doubleRequest (fallback : Rat) : Request Rat :=
  ⟨fallback, .number fallback, isNumber, fun served => (served.json (.number fallback)).getNumber⟩

def textOrNull (text : Option String) : Json := text.elim .null Json.text

def stringRequest (fallback : Option String) : Request (Option String) :=
  ⟨fallback, textOrNull fallback, isText, fun served =>
    match fallback, served with
    | none, .fallback => none
    | _, served => (served.json (textOrNull fallback)).getText⟩

def jsonRequest (fallback : Option Json) : Request (Option Json) :=
  ⟨fallback, fallback.getD .null, isAnyType, fun served =>
    match fallback, served with
    | none, .fallback => none
    | _, served => some (served.json (fallback.getD .null))⟩

inductive TypedRequest : (α : Type) → Request α → Prop
  | bool (fallback : Bool) : TypedRequest Bool (boolRequest fallback)
  | int (fallback : Int32) : TypedRequest Int (intRequest fallback)
  | double (fallback : Rat) : TypedRequest Rat (doubleRequest fallback)
  | string (fallback : Option String) : TypedRequest (Option String) (stringRequest fallback)
  | json (fallback : Option Json) : TypedRequest (Option Json) (jsonRequest fallback)

structure TypedResult (α : Type) where
  value : α
  details : Details
  processor : EventProcessor

structure Evaluatee where
  user : User
  key : String
  detailed : Bool

section Typed

variable [Externals] {σ α : Type} (client : Client σ) (fuel : Nat)

def Request.call (request : Request α) (of : Evaluatee) : VariationCall :=
  ⟨of.user, of.key, request.fallbackJSON, request.checkType, of.detailed⟩

def typedVariation (request : Request α) (of : Evaluatee) (processor : EventProcessor) :
    Run σ (TypedResult α) := do
  let result ← variation client fuel (request.call of) processor
  pure ⟨request.read result.served, result.details, result.processor⟩

def boolVariation (fallback : Bool) (of : Evaluatee) (processor : EventProcessor) :
    Run σ (TypedResult Bool) :=
  typedVariation client fuel (boolRequest fallback) of processor

def intVariation (fallback : Int32) (of : Evaluatee) (processor : EventProcessor) :
    Run σ (TypedResult Int) :=
  typedVariation client fuel (intRequest fallback) of processor

def doubleVariation (fallback : Rat) (of : Evaluatee) (processor : EventProcessor) :
    Run σ (TypedResult Rat) :=
  typedVariation client fuel (doubleRequest fallback) of processor

def stringVariation (fallback : Option String) (of : Evaluatee) (processor : EventProcessor) :
    Run σ (TypedResult (Option String)) :=
  typedVariation client fuel (stringRequest fallback) of processor

def jsonVariation (fallback : Option Json) (of : Evaluatee) (processor : EventProcessor) :
    Run σ (TypedResult (Option Json)) :=
  typedVariation client fuel (jsonRequest fallback) of processor

end Typed

theorem toInt_ofInt32 (n : Int32) : toInt (n.toInt : Rat) = n.toInt :=
  toInt_intCast n.le_toInt n.toInt_lt

theorem TypedRequest.read_fallback {α : Type} {request : Request α} (h : TypedRequest α request) :
    request.read .fallback = request.fallback := by
  cases h with
  | bool fallback => rfl
  | int fallback => exact toInt_ofInt32 fallback
  | double fallback => rfl
  | string fallback => cases fallback <;> rfl
  | json fallback => cases fallback <;> rfl

section Settle

variable [Externals] {σ : Type} {client : Client σ} {call : VariationCall} {s t : σ}

theorem variation_found {fuel : Nat} {flag : Json} {r : Evaluation}
    (hinit : (client.world.storeInitialized s).1 = true)
    (hget : (client.world.storeGet .flag call.key (client.world.storeInitialized s).2).1 =
      some (some flag))
    (heval : evaluate client call.user fuel flag freshOutputs
      (client.world.storeGet .flag call.key (client.world.storeInitialized s).2).2 = .ok (r, t))
    (processor : EventProcessor) :
    variation client fuel call processor s = settleEvaluation client call flag processor r t := by
  rw [variation, Run.ask_bind_run, hinit, if_pos rfl, storeGet, Run.ask_bind_run, hget]
  exact Run.bind_of_ok heval

theorem settleEvaluation_of_ne {status : EvalStatus} (hmem : status ≠ .mem)
    (hschema : status ≠ .schema) (flag : Json) (out : Outputs) (processor : EventProcessor) :
    settleEvaluation client call flag processor (status, out) =
      recordAndChoose client call (some flag) out.details out.events out.value processor := by
  cases status with
  | mem => exact absurd rfl hmem
  | schema => exact absurd rfl hschema
  | store => rfl
  | matched => rfl
  | miss => rfl

theorem recordAndChoose_silent (h : client.config.sendEvents = false) (flag : Option Json)
    (details : Details) (subEvents : Option (List Json)) (value : Option Json)
    (processor : EventProcessor) :
    recordAndChoose client call flag details subEvents value processor =
      pure (chooseValue call.checkType details value processor) := by
  rw [recordAndChoose, h]
  rfl

variable {flag : Option Json} {details : Details} {subEvents : Option (List Json)}
  {value : Option Json}

theorem recordAndChoose_unrecorded (h : client.config.sendEvents = true)
    (hrecorded : ¬ Recorded (resultOf call flag details subEvents value))
    (processor : EventProcessor) (s : σ) :
    recordAndChoose client call flag details subEvents value processor s =
      .ok (⟨.fallback, details, processor⟩, (client.world.unixMilliseconds s).2) := by
  rw [recordAndChoose, if_pos h]
  exact Run.bind_of_ok (processEvaluation_unrecorded hrecorded processor s)

theorem recordAndChoose_recorded (h : client.config.sendEvents = true)
    (hrecorded : Recorded (resultOf call flag details subEvents value))
    (hsub : ∀ event ∈ subEvents.getD [], Summarizable event)
    (hqueue : Queueable (resultOf call flag details subEvents value))
    (processor : EventProcessor) (s : σ) :
    ∃ next t, recordAndChoose client call flag details subEvents value processor s =
      .ok (chooseValue call.checkType details value next, t) := by
  obtain ⟨next, t, hnext⟩ := (processEvaluation_recorded hrecorded hsub processor s).1 hqueue
  refine ⟨next, t, ?_⟩
  rw [recordAndChoose, if_pos h]
  exact Run.bind_of_ok hnext

theorem recordAndChoose_queueable (h : client.config.sendEvents = true)
    (hrecorded : Recorded (resultOf call flag details subEvents value))
    (hsub : ∀ event ∈ subEvents.getD [], Summarizable event) {processor : EventProcessor} {s : σ}
    (hreturns : Run.Returns (recordAndChoose client call flag details subEvents value processor) s) :
    Queueable (resultOf call flag details subEvents value) := by
  rw [recordAndChoose, if_pos h, Run.returns_bind] at hreturns
  obtain ⟨recorded, t, hrecord, -⟩ := hreturns
  exact (processEvaluation_recorded hrecorded hsub processor s).2 ⟨recorded, t, hrecord⟩

end Settle

end ServerSdk
