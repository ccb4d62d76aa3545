import ServerSdk.TestData.Flags

namespace ServerSdk

def asJSONArray (value : Json) : Json := if value.getType = .array then value else .array [value]

inductive RuleCall where
  | ifMatch (attr : String) (values : Json)
  | ifNotMatch (attr : String) (values : Json)
  | andMatch (rule : ℕ) (attr : String) (values : Json)
  | andNotMatch (rule : ℕ) (attr : String) (values : Json)
  | thenReturn (rule : ℕ) (variationIndex : Int)

def definedClause (attr : String) (values : Json) (negate : Bool) : FlagRuleBuilderClause :=
  ⟨attr, asJSONArray values, negate⟩

def FlagRuleBuilder.and (rule : FlagRuleBuilder) (clause : FlagRuleBuilderClause) : FlagRuleBuilder :=
  { rule with clauses := clause :: rule.clauses }

def RuleCall.define (rules : List FlagRuleBuilder) : RuleCall → List FlagRuleBuilder
  | .ifMatch attr values => rules ++ [⟨0, [definedClause attr values false]⟩]
  | .ifNotMatch attr values => rules ++ [⟨0, [definedClause attr values true]⟩]
  | .andMatch rule attr values =>
      rules.modify rule fun builder => builder.and (definedClause attr values false)
  | .andNotMatch rule attr values =>
      rules.modify rule fun builder => builder.and (definedClause attr values true)
  | .thenReturn rule variationIndex =>
      rules.modify rule fun builder => { builder with variation := variationIndex }

def definedRules (earlier : List FlagRuleBuilder) (calls : List RuleCall) : List FlagRuleBuilder :=
  calls.foldl RuleCall.define earlier

end ServerSdk
