import ServerSdk.Evaluate.Bucket

namespace ServerSdk

open Program

variable [Externals]

open Externals

def segmentClausesMatchUser (user : User) : List Json → Checked EvalStatus
  | [] => pure .matched
  | clause :: clauses => do
      match ← clauseMatchesUserNoSegments clause user with
      | .matched => segmentClausesMatchUser user clauses
      | status => pure status

def segmentWeightMatchUser (segmentRule : Json) (segmentKey : String) (user : User)
    (salt : String) : Checked EvalStatus := do
  match ← lookupOptionalValueOfType segmentRule "weight" .number with
  | .mistyped => pure .schema
  | .absent => pure .matched
  | .present weight =>
    match ← getBucketAttribute segmentRule with
    | none => pure .schema
    | some attr => do
        let (_, bucket) ← bucketUser user segmentKey attr salt none
        pure (if bucket < roundDouble (weight.getNumber / 100000) then .matched else .miss)

def segmentRuleMatchUser (segmentRule : Json) (segmentKey : String) (user : User)
    (salt : String) : Checked EvalStatus := do
  match ← lookupOptionalValueOfType segmentRule "clauses" .array with
  | .mistyped => pure .schema
  | clauses =>
    match ← segmentClausesMatchUser user clauses.items with
    | .matched => segmentWeightMatchUser segmentRule segmentKey user salt
    | status => pure status

def segmentRulesMatchUser (segmentKey : String) (user : User) (salt : String) :
    List Json → Checked EvalStatus
  | [] => pure .miss
  | rule :: rules =>
      if rule.getType ≠ .object then pure .schema
      else do
        match ← segmentRuleMatchUser rule segmentKey user salt with
        | .miss => segmentRulesMatchUser segmentKey user salt rules
        | status => pure status

def listsUser (field : Field) (user : User) : Checked Bool :=
  match field with
  | .present values => textInArray values user.key
  | _ => pure false

def segmentRules (segment : Json) (user : User) : Checked EvalStatus := do
  match ← lookupOptionalValueOfType segment "rules" .array with
  | .mistyped => pure .schema
  | .absent => pure .miss
  | .present rules =>
    match ← lookupRequiredValueOfType segment "key" .text with
    | none => pure .schema
    | some key =>
      match ← lookupRequiredValueOfType segment "salt" .text with
      | none => pure .schema
      | some salt =>
          segmentRulesMatchUser (key.getText.getD "") user (salt.getText.getD "") rules.getIter

def excludedStage (segment : Json) (user : User) : Checked EvalStatus := do
  match ← lookupOptionalValueOfType segment "excluded" .array with
  | .mistyped => pure .schema
  | excluded =>
    if ← listsUser excluded user then pure .miss
    else segmentRules segment user

def segmentMatchesUser (segment : Json) (user : User) : Checked EvalStatus := do
  match ← lookupOptionalValueOfType segment "included" .array with
  | .mistyped => pure .schema
  | included =>
    if ← listsUser included user then pure .matched
    else excludedStage segment user

end ServerSdk
