import ServerSdk.Platform

namespace ServerSdk

inductive EvalReason where
  | unknown
  | error
  | off
  | prerequisiteFailed
  | targetMatch
  | ruleMatch
  | fallthrough
  deriving DecidableEq, Repr

inductive EvalErrorKind where
  | clientNotReady
  | nullKey
  | storeError
  | flagNotFound
  | userNotSpecified
  | clientNotSpecified
  | malformedFlag
  | wrongType
  | oom
  deriving DecidableEq, Repr

structure DetailsRule where
  ruleIndex : Nat
  id : Option String
  inExperiment : Bool
  deriving DecidableEq, Repr

inductive DetailsExtra where
  | none
  | errorKind (kind : EvalErrorKind)
  | prerequisiteKey (key : String)
  | rule (rule : DetailsRule)
  | fallthrough (inExperiment : Bool)
  deriving DecidableEq, Repr

structure Details where
  variationIndex : Nat
  hasVariation : Bool
  reason : EvalReason
  extra : DetailsExtra
  deriving DecidableEq, Repr

def detailsInit : Details := ⟨0, false, .unknown, .none⟩

def detailsClear (details : Details) : Details :=
  { details with variationIndex := 0, hasVariation := false, reason := .unknown }

def Details.setError (details : Details) (kind : EvalErrorKind) : Details :=
  { details with reason := .error, extra := .errorKind kind }

def evalReasonKindToString : EvalReason → Option String
  | .error => some "ERROR"
  | .off => some "OFF"
  | .prerequisiteFailed => some "PREREQUISITE_FAILED"
  | .targetMatch => some "TARGET_MATCH"
  | .ruleMatch => some "RULE_MATCH"
  | .fallthrough => some "FALLTHROUGH"
  | .unknown => none

def evalErrorKindToString : EvalErrorKind → Option String
  | .clientNotReady => some "CLIENT_NOT_READY"
  | .nullKey => some "NULL_KEY"
  | .storeError => some "STORE_ERROR"
  | .flagNotFound => some "FLAG_NOT_FOUND"
  | .userNotSpecified => some "USER_NOT_SPECIFIED"
  | .clientNotSpecified => some "CLIENT_NOT_SPECIFIED"
  | .malformedFlag => some "MALFORMED_FLAG"
  | .wrongType => some "WRONG_TYPE"
  | .oom => none

def Json.setInExperiment (json : Json) (inExperiment : Bool) : Json :=
  if inExperiment then json.objectSetKey "inExperiment" (.bool true) else json

def reasonToJSON (details : Details) : Option Json := do
  let kind ← evalReasonKindToString details.reason
  let result := (Json.object []).objectSetKey "kind" (.text kind)
  match details.reason, details.extra with
  | .error, .errorKind errorKind =>
      let text ← evalErrorKindToString errorKind
      pure (result.objectSetKey "errorKind" (.text text))
  | .prerequisiteFailed, .prerequisiteKey key =>
      pure (result.objectSetKey "prerequisiteKey" (.text key))
  | .ruleMatch, .rule rule =>
      let result := match rule.id with
        | some id => result.objectSetKey "ruleId" (.text id)
        | none => result
      let result := result.objectSetKey "ruleIndex" (.number rule.ruleIndex)
      pure (result.setInExperiment rule.inExperiment)
  | .fallthrough, .fallthrough inExperiment => pure (result.setInExperiment inExperiment)
  | _, _ => pure result

inductive EvalStatus where
  | mem
  | schema
  | store
  | matched
  | miss
  deriving DecidableEq, Repr

def isEvalError : EvalStatus → Bool
  | .mem | .schema | .store => true
  | .matched | .miss => false

end ServerSdk
