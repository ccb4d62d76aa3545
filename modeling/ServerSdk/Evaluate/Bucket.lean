import ServerSdk.Evaluate.Clause

namespace ServerSdk

open Program

variable [Externals]

open Externals

def hexDigit (c : Char) : Option Nat :=
  if 48 ≤ c.toNat ∧ c.toNat ≤ 57 then some (c.toNat - 48)
  else if 97 ≤ c.toNat ∧ c.toNat ≤ 102 then some (c.toNat - 87)
  else none

def hexToDecimalFrom (acc : Rat) : List Char → Rat
  | [] => acc
  | c :: cs =>
      match hexDigit c with
      | none => 0
      | some offset => hexToDecimalFrom (roundFloat (roundFloat (acc * 16) + offset)) cs

def hexToDecimal (input : String) : Rat := hexToDecimalFrom 0 input.toList

def longScale : Rat := roundFloat 1152921504606846975

def getBucketAttribute (obj : Json) : Checked (Option String) := do
  match ← lookupOptionalValueOfType obj "bucketBy" .text with
  | .mistyped => pure none
  | .absent => pure (some "key")
  | .present bucketBy => pure bucketBy.getText

def bucketableOf : Json → Option String
  | .text text => some text
  | .number n => some (String.ofList ((formatFixed n).toList.take 255))
  | _ => none

def rawIdentity (user : User) (segmentKey salt : String) (seed : Option Int)
    (bucketable : String) : String :=
  let base := match seed with
    | some seed => toString seed ++ "." ++ bucketable
    | none => segmentKey ++ "." ++ salt ++ "." ++ bucketable
  match user.secondary with
  | some secondary => base ++ "." ++ secondary
  | none => base

def bucketOf (raw : String) : Checked Rat := do
  let (status, encoded) := hexify (sha1 raw) 17
  Checked.check (status == 16)
  pure (roundFloat (hexToDecimal (String.ofList (encoded.toList.take 15)) / longScale))

def bucketUser (user : User) (segmentKey attr salt : String) (seed : Option Int) :
    Checked (Bool × Rat) := do
  match ← valueOfAttribute user attr with
  | none => pure (false, 0)
  | some attributeValue =>
    match bucketableOf attributeValue with
    | none => pure (false, 0)
    | some bucketable =>
      let raw := rawIdentity user segmentKey salt seed bucketable
      if raw.utf8ByteSize < 256 then do
        let bucket ← bucketOf raw
        pure (true, bucket)
      else pure (false, 0)

def selectVariation (userBucket : Rat) (inExperiment : Bool) (sum : Rat)
    (last : Option Json × Bool) : List Json → Checked (Option (Bool × Option Json))
  | [] => pure (some (inExperiment && !last.2, last.1))
  | variation :: variations => do
      match ← lookupRequiredValueOfType variation "weight" .number with
      | none => pure none
      | some weight =>
        let sum := roundFloat (roundDouble (sum + roundDouble (weight.getNumber / 100000)))
        match ← lookupRequiredValueOfType variation "variation" .number with
        | none => pure none
        | some subVariation =>
          match ← lookupOptionalValueOfType variation "untracked" .bool with
          | .mistyped => pure none
          | untracked =>
            if userBucket < sum then
              pure (some (inExperiment && !untracked.isTrue, some subVariation))
            else
              let last := (some subVariation, untracked.isTrue)
              selectVariation userBucket inExperiment sum last variations

def isExperiment : Field → Bool
  | .present kind => decide (kind.getText = some "experiment")
  | _ => false

def seedOf : Field → Option Int
  | .present seed => some (toInt seed.getNumber)
  | _ => none

def bucketVariations (user : User) (key attr salt : String) (seed : Option Int)
    (inExperiment : Bool) (variations : List Json) : Checked (Option (Bool × Option Json)) := do
  let (_, userBucket) ← bucketUser user key attr salt seed
  selectVariation userBucket inExperiment 0 (none, false) variations

def rolloutVariation (rollout : Json) (user : User) (key salt : String) :
    Checked (Option (Bool × Option Json)) := do
  match ← lookupOptionalValueOfType rollout "kind" .text with
  | .mistyped => pure none
  | rolloutKind =>
    match ← lookupRequiredValueOfType rollout "variations" .array with
    | none => pure none
    | some variations =>
      if variations.collectionGetSize = 0 then pure none
      else
        match ← getBucketAttribute rollout with
        | none => pure none
        | some attr =>
          match ← lookupOptionalValueOfType rollout "seed" .number with
          | .mistyped => pure none
          | seedJSON =>
              bucketVariations user key attr salt (seedOf seedJSON) (isExperiment rolloutKind)
                variations.getIter

def variationIndexForUser (varOrRoll : Json) (user : User) (key salt : String) :
    Checked (Option (Bool × Option Json)) := do
  match ← lookupOptionalValueOfType varOrRoll "variation" .number with
  | .mistyped => pure none
  | .present variation => pure (some (false, some variation))
  | .absent =>
    match ← lookupRequiredValueOfType varOrRoll "rollout" .object with
    | none => pure none
    | some rollout => rolloutVariation rollout user key salt

def getIndexForVariationOrRollout (flag : Json) (varOrRoll : Option Json) (user : User) :
    Checked (Option (Bool × Option Json)) := do
  match varOrRoll with
  | none => .error .assertion
  | some varOrRoll =>
    match ← lookupRequiredValueOfType flag "key" .text with
    | none => pure none
    | some key =>
      match ← lookupRequiredValueOfType flag "salt" .text with
      | none => pure none
      | some salt =>
          variationIndexForUser varOrRoll user (key.getText.getD "") (salt.getText.getD "")

end ServerSdk
