import ServerSdk.Evaluate.Segment
import ServerSdk.Events.Feature
import ServerSdk.Program.Fuel

namespace ServerSdk

open Program

structure Outputs where
  details : Details
  events : Option (List Json)
  value : Option Json
  deriving Repr

def freshOutputs : Outputs := ⟨detailsInit, none, none⟩

abbrev Evaluation := EvalStatus × Outputs

def getValue (flag : Json) (index : Option Json) : Checked (Option (Json × Nat)) :=
  match index with
  | some (.number unvalidatedVariationIndex) =>
      if unvalidatedVariationIndex < 0 then pure none
      else do
        let validatedVariationIndex := toUnsignedInt unvalidatedVariationIndex
        match ← lookupRequiredValueOfType flag "variations" .array with
        | none => pure none
        | some variations =>
          match variations.arrayLookup validatedVariationIndex with
          | none => pure none
          | some variation => pure (some (variation, validatedVariationIndex))
  | _ => pure none

def Outputs.malformed (out : Outputs) : Outputs :=
  { out with value := none, details := (detailsClear out.details).setError .malformedFlag }

def Outputs.serve (out : Outputs) (variation : Json) (variationIndex : Nat) : Outputs :=
  { out with
    value := some variation
    details := { out.details with hasVariation := true, variationIndex := variationIndex } }

def addValue (flag : Json) (index : Option Json) (out : Outputs) : Checked (Bool × Outputs) := do
  match ← getValue flag index with
  | none => pure (false, out.malformed)
  | some (variation, validatedVariationIndex) =>
      pure (true, out.serve variation validatedVariationIndex)

def addValueAs (status : EvalStatus) (flag : Json) (index : Option Json) (out : Outputs) :
    Checked Evaluation := do
  let (added, out) ← addValue flag index out
  pure (if added then status else .schema, out)

def Outputs.setReason (out : Outputs) (reason : EvalReason) : Outputs :=
  { out with details := { out.details with reason := reason } }

def Outputs.setExtra (out : Outputs) (extra : DetailsExtra) : Outputs :=
  { out with details := { out.details with extra := extra } }

def evaluateOff (flag : Json) (out : Outputs) : Checked Evaluation :=
  let out := out.setReason .off
  match flag.objectLookup "offVariation" with
  | none | some .null => pure (.miss, { out with value := none })
  | offVariation => addValueAs .miss flag offVariation out

def evaluatePrerequisiteFailed (flag : Json) (failedKey : String) (out : Outputs) :
    Checked Evaluation :=
  let out := (out.setReason .prerequisiteFailed).setExtra (.prerequisiteKey failedKey)
  addValueAs .miss flag (flag.objectLookup "offVariation") out

def evaluateTargets (flag : Json) (user : User) (out : Outputs) :
    List Json → Checked (Option Evaluation)
  | [] => pure none
  | target :: targets =>
      if target.getType ≠ .object then pure (some (.schema, out))
      else do
        match ← lookupOptionalValueOfType target "values" .array with
        | .mistyped => pure (some (.schema, out))
        | values =>
          if ← listsUser values user then
            match ← lookupRequiredValueOfType target "variation" .number with
            | none => pure (some (.schema, out))
            | some variation => do
                let result ← addValueAs .matched flag (some variation) (out.setReason .targetMatch)
                pure (some result)
          else evaluateTargets flag user out targets

variable [Externals]

def serveRule (flag rule : Json) (index : Nat) (user : User) (out : Outputs) :
    Checked Evaluation := do
  let out := (out.setReason .ruleMatch).setExtra (.rule ⟨index, none, false⟩)
  match ← getIndexForVariationOrRollout flag (some rule) user with
  | none => pure (.schema, out)
  | some (inExperiment, variation) => do
      let out := out.setExtra (.rule ⟨index, none, inExperiment⟩)
      let (added, out) ← addValue flag variation out
      if added then
        match ← lookupOptionalValueOfType rule "id" .text with
        | .mistyped => pure (.schema, out)
        | .absent => pure (.matched, out)
        | .present ruleId =>
            pure (.matched, out.setExtra (.rule ⟨index, ruleId.getText, inExperiment⟩))
      else pure (.schema, out)

def evaluateFallthrough (flag : Json) (user : User) (out : Outputs) : Checked Evaluation := do
  let out := out.setReason .fallthrough
  match ← getIndexForVariationOrRollout flag (flag.objectLookup "fallthrough") user with
  | none => pure (.schema, out)
  | some (inExperiment, index) =>
      addValueAs .matched flag index (out.setExtra (.fallthrough inExperiment))

variable {σ : Type}

def storeGet (w : World σ) (kind : FeatureKind) (key : String) : Run σ (Option (Option Json)) :=
  Run.ask (w.storeGet kind key)

def segmentListMatchesUser (w : World σ) (clause : Json) (user : User) :
    List Json → Run σ EvalStatus
  | [] => Run.lift (maybeNegate clause .miss)
  | .text key :: values => do
      match ← storeGet w .segment key with
      | none => pure .store
      | some none => segmentListMatchesUser w clause user values
      | some (some segment) =>
        match ← Run.lift (segmentMatchesUser segment user) with
        | .matched => Run.lift (maybeNegate clause .matched)
        | .miss => segmentListMatchesUser w clause user values
        | status => pure status
  | _ :: values => segmentListMatchesUser w clause user values

def clauseMatchesUser (w : World σ) (clause : Json) (user : User) : Run σ EvalStatus :=
  if clause.getType ≠ .object then pure .schema
  else do
    match ← Run.lift (lookupRequiredValueOfType clause "op" .text) with
    | none => pure .schema
    | some op =>
      if op.getText = some "segmentMatch" then
        match ← Run.lift (lookupOptionalValueOfType clause "values" .array) with
        | .mistyped => pure .schema
        | values => segmentListMatchesUser w clause user values.items
      else Run.lift (clauseMatchesUserNoSegments clause user)

def clausesMatchUser (w : World σ) (user : User) : List Json → Run σ EvalStatus
  | [] => pure .matched
  | clause :: clauses =>
      if clause.getType ≠ .object then pure .schema
      else do
        match ← clauseMatchesUser w clause user with
        | .matched => clausesMatchUser w user clauses
        | status => pure status

def ruleMatchesUser (w : World σ) (rule : Json) (user : User) : Run σ EvalStatus := do
  match ← Run.lift (lookupOptionalValueOfType rule "clauses" .array) with
  | .mistyped => pure .schema
  | clauses => clausesMatchUser w user clauses.items

def evaluateRules (w : World σ) (flag : Json) (user : User) (out : Outputs) :
    Nat → List Json → Run σ (Option Evaluation)
  | _, [] => pure none
  | index, rule :: rules =>
      if rule.getType ≠ .object then pure (some (.schema, out))
      else do
        match ← ruleMatchesUser w rule user with
        | .matched => do
            let result ← Run.lift (serveRule flag rule index user out)
            pure (some result)
        | .miss => evaluateRules w flag user out (index + 1) rules
        | substatus => pure (some (substatus, out))

structure Prerequisites where
  status : EvalStatus
  failedKey : Option String
  events : Option (List Json)
  deriving Repr

def prerequisiteEvent (client : Client σ) (user : User) (flag : Json) (keyText : String)
    (preflag : Json) (timestamp : Rat) (sub : Outputs) : Checked (Option Json) :=
  newFeatureEvent
    { key := keyText
      variation := if sub.details.hasVariation then some sub.details.variationIndex else none
      value := sub.value
      defaultValue := none
      prereqOf := (flag.objectLookup "key").bind Json.getText
      flag := some preflag
      details := sub.details
      timestamp := timestamp } user client.config

def prerequisiteServes (preflag : Json) (details : Details) (variation : Json) :
    Checked EvalStatus := do
  match ← lookupOptionalValueOfType preflag "on" .bool with
  | .mistyped => pure .schema
  | on =>
    if on.isTrue ∧ details.hasVariation ∧ (details.variationIndex : Rat) = variation.getNumber
    then pure .matched
    else pure .miss

def prerequisiteOutcome (client : Client σ) (user : User) (flag preflag variation : Json)
    (keyText : String) (timestamp : Rat) (acc : Prerequisites) (result : Evaluation) :
    Checked Prerequisites := do
  let (status, sub) := result
  if isEvalError status then pure { acc with status := status }
  else
    match ← prerequisiteEvent client user flag keyText preflag timestamp sub with
    | none => pure { acc with status := .mem }
    | some event =>
      let events := acc.events.getD [] ++ sub.events.getD [] ++ [event]
      let acc := { acc with events := some events }
      if status = .miss then pure { acc with status := .miss }
      else do
        let status ← prerequisiteServes preflag sub.details variation
        pure { acc with status := status }

def checkPrerequisite (client : Client σ) (user : User)
    (evaluate : Json → Run σ Evaluation) (flag iter : Json) (acc : Prerequisites) :
    Run σ Prerequisites := do
  let timestamp ← Run.ask client.world.unixMilliseconds
  if iter.getType ≠ .object then pure { acc with status := .schema }
  else
    match ← Run.lift (lookupRequiredValueOfType iter "key" .text) with
    | none => pure { acc with status := .schema }
    | some key =>
      match ← Run.lift (lookupRequiredValueOfType iter "variation" .number) with
      | none => pure { acc with status := .schema }
      | some variation =>
        let keyText := key.getText.getD ""
        let acc := { acc with failedKey := some keyText }
        match ← storeGet client.world .flag keyText with
        | none => pure { acc with status := .store }
        | some none => pure { acc with status := .miss }
        | some (some preflag) => do
          let result ← evaluate preflag
          Run.lift
            (prerequisiteOutcome client user flag preflag variation keyText timestamp acc result)

def checkPrerequisiteList (client : Client σ) (user : User)
    (evaluate : Json → Run σ Evaluation) (flag : Json) :
    List Json → Prerequisites → Run σ Prerequisites
  | [], acc => pure { acc with status := .matched }
  | iter :: rest, acc => do
      let acc ← checkPrerequisite client user evaluate flag iter acc
      if acc.status = .matched then checkPrerequisiteList client user evaluate flag rest acc
      else pure acc

def checkPrerequisitesWith (client : Client σ) (user : User)
    (evaluate : Json → Run σ Evaluation) (flag : Json) (events : Option (List Json)) :
    Run σ Prerequisites := do
  match ← Run.lift (lookupOptionalValueOfType flag "prerequisites" .array) with
  | .mistyped => pure ⟨.schema, none, events⟩
  | .absent => pure ⟨.matched, none, events⟩
  | .present prerequisites =>
      checkPrerequisiteList client user evaluate flag prerequisites.getIter
        ⟨.matched, none, events⟩

def evaluateFromRules (client : Client σ) (user : User) (flag : Json) (out : Outputs) :
    Run σ Evaluation := do
  match ← Run.lift (lookupOptionalValueOfType flag "rules" .array) with
  | .mistyped => pure (.schema, out)
  | rules =>
    match ← evaluateRules client.world flag user out 0 rules.items with
    | some result => pure result
    | none => Run.lift (evaluateFallthrough flag user out)

def evaluateTargeting (client : Client σ) (user : User) (flag : Json) (out : Outputs) :
    Run σ Evaluation := do
  match ← Run.lift (lookupOptionalValueOfType flag "targets" .array) with
  | .mistyped => pure (.schema, out)
  | targets =>
    match ← Run.lift (evaluateTargets flag user out targets.items) with
    | some result => pure result
    | none => evaluateFromRules client user flag out

def evaluateAfterPrerequisites (client : Client σ) (user : User) (flag : Json) (out : Outputs)
    (pre : Prerequisites) : Run σ Evaluation :=
  let out := { out with events := pre.events }
  match pre.status with
  | .miss => Run.lift (evaluatePrerequisiteFailed flag (pre.failedKey.getD "") out)
  | .matched => evaluateTargeting client user flag out
  | substatus => pure (substatus, out)

def evaluateWith (client : Client σ) (user : User) (evaluate : Json → Run σ Evaluation)
    (flag : Json) (out : Outputs) : Run σ Evaluation :=
  if flag.getType ≠ .object then pure (.schema, out)
  else do
    match ← Run.lift (lookupOptionalValueOfType flag "on" .bool) with
    | .mistyped => pure (.schema, out)
    | on =>
      if on.isTrue then do
        let pre ← checkPrerequisitesWith client user evaluate flag out.events
        evaluateAfterPrerequisites client user flag out pre
      else Run.lift (evaluateOff flag out)

def evaluateBody (client : Client σ) (user : User) (evaluate : Json → Run σ Evaluation)
    (flag : Json) : Run σ Evaluation :=
  evaluateWith client user evaluate flag freshOutputs

def evaluateNested (client : Client σ) (user : User) : Nat → Json → Run σ Evaluation :=
  Run.unroll (evaluateBody client user)

def evaluate (client : Client σ) (user : User) (fuel : Nat) (flag : Json) (out : Outputs) :
    Run σ Evaluation :=
  evaluateWith client user (evaluateNested client user fuel) flag out

def checkPrerequisites (client : Client σ) (user : User) (fuel : Nat) (flag : Json)
    (events : Option (List Json)) : Run σ Prerequisites :=
  checkPrerequisitesWith client user (evaluateNested client user fuel) flag events

end ServerSdk
