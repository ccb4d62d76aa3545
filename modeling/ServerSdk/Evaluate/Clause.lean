import ServerSdk.Details
import ServerSdk.Operator
import ServerSdk.User

namespace ServerSdk

open Program

inductive Field where
  | mistyped
  | absent
  | present (value : Json)
  deriving Repr

def Field.items : Field → List Json
  | .present value => value.getIter
  | _ => []

def Field.isTrue : Field → Bool
  | .present value => value.getBool
  | _ => false

def requiredField (obj : Json) (key : String) (expectedType : JsonType) : Option Json :=
  match obj.objectLookup key with
  | none => none
  | some value => if value.getType = expectedType then some value else none

def optionalField (obj : Json) (key : String) (expectedType : JsonType) : Field :=
  match obj.objectLookup key with
  | none => .absent
  | some value =>
      if value.getType = .null then .absent
      else if value.getType = expectedType then .present value
      else .mistyped

def lookupRequiredValueOfType (obj : Json) (key : String) (expectedType : JsonType) :
    Checked (Option Json) := do
  Checked.check (obj.getType == .object)
  pure (requiredField obj key expectedType)

def lookupOptionalValueOfType (obj : Json) (key : String) (expectedType : JsonType) :
    Checked Field := do
  Checked.check (obj.getType == .object)
  pure (optionalField obj key expectedType)

theorem lookupRequired_of_object {obj : Json} (h : obj.getType = .object) (key : String)
    (ty : JsonType) : lookupRequiredValueOfType obj key ty = .ok (requiredField obj key ty) := by
  rw [lookupRequiredValueOfType, beq_iff_eq.mpr h]
  rfl

theorem lookupOptional_of_object {obj : Json} (h : obj.getType = .object) (key : String)
    (ty : JsonType) : lookupOptionalValueOfType obj key ty = .ok (optionalField obj key ty) := by
  rw [lookupOptionalValueOfType, beq_iff_eq.mpr h]
  rfl

theorem lookupRequired_of_not_object {obj : Json} (h : obj.getType ≠ .object) (key : String)
    (ty : JsonType) : lookupRequiredValueOfType obj key ty = .error .assertion := by
  rw [lookupRequiredValueOfType, beq_false_of_ne h]
  rfl

theorem lookupOptional_of_not_object {obj : Json} (h : obj.getType ≠ .object) (key : String)
    (ty : JsonType) : lookupOptionalValueOfType obj key ty = .error .assertion := by
  rw [lookupOptionalValueOfType, beq_false_of_ne h]
  rfl

theorem requiredField_eq_some {obj v : Json} {key : String} {ty : JsonType} :
    requiredField obj key ty = some v ↔ obj.objectLookup key = some v ∧ v.getType = ty := by
  simp only [requiredField]
  cases obj.objectLookup key with
  | none => simp
  | some u =>
      simp only [Option.some.injEq]
      split_ifs with hu
      · constructor
        · intro hv
          cases hv
          exact ⟨rfl, hu⟩
        · rintro ⟨rfl, -⟩
          rfl
      · constructor
        · intro hv
          cases hv
        · rintro ⟨rfl, hv⟩
          exact absurd hv hu

theorem optionalField_eq_present {obj v : Json} {key : String} {ty : JsonType} :
    optionalField obj key ty = .present v ↔
      obj.objectLookup key = some v ∧ v.getType ≠ .null ∧ v.getType = ty := by
  simp only [optionalField]
  cases obj.objectLookup key with
  | none => simp
  | some u =>
      simp only [Option.some.injEq]
      split_ifs with hn hu
      · constructor
        · intro hv
          cases hv
        · rintro ⟨rfl, hv, -⟩
          exact absurd hn hv
      · constructor
        · intro hv
          cases hv
          exact ⟨rfl, hn, hu⟩
        · rintro ⟨rfl, -, -⟩
          rfl
      · constructor
        · intro hv
          cases hv
        · rintro ⟨rfl, -, hv⟩
          exact absurd hv hu

def negated : EvalStatus → EvalStatus
  | .matched => .miss
  | .miss => .matched
  | status => status

def maybeNegate (clause : Json) (status : EvalStatus) : Checked EvalStatus :=
  if isEvalError status then pure status
  else do
    match ← lookupOptionalValueOfType clause "negate" .bool with
    | .mistyped => pure .schema
    | .absent => pure status
    | .present negate => pure (if negate.getBool then negated status else status)

def matchAny (f : OpFn) (value : Json) (values : List Json) : EvalStatus :=
  if values.any (f value) then .matched else .miss

def matchElements (f : OpFn) (clause : Json) (values : List Json) :
    List Json → Checked EvalStatus
  | [] => maybeNegate clause .miss
  | element :: elements =>
      if element.getType = .object ∨ element.getType = .array then pure .miss
      else match matchAny f element values with
        | .matched => maybeNegate clause .matched
        | _ => matchElements f clause values elements

def matchAttribute (f : OpFn) (clause : Json) (values : List Json) (attributeValue : Json) :
    Checked EvalStatus :=
  match attributeValue with
  | .null => pure .miss
  | .array elements => matchElements f clause values elements
  | value => maybeNegate clause (matchAny f value values)

def matchUserAttribute (f : OpFn) (clause : Json) (user : User) (attr : String)
    (values : List Json) : Checked EvalStatus := do
  match ← valueOfAttribute user attr with
  | none => pure .miss
  | some attributeValue => matchAttribute f clause values attributeValue

def clauseMatchesUserNoSegments [Externals] (clause : Json) (user : User) : Checked EvalStatus := do
  match ← lookupRequiredValueOfType clause "op" .text with
  | none => pure .schema
  | some op =>
    match lookupOperation (op.getText.getD "") with
    | none => pure .miss
    | some fn =>
      match ← lookupRequiredValueOfType clause "attribute" .text with
      | none => pure .schema
      | some attr =>
        match ← lookupOptionalValueOfType clause "values" .array with
        | .mistyped => pure .schema
        | values =>
          matchUserAttribute fn clause user (attr.getText.getD "") values.items

end ServerSdk
