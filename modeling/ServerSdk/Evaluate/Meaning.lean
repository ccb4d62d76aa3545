import ServerSdk.Evaluate.Membership
import ServerSdk.Evaluate.Rollout
import ServerSdk.Program.FirstSplit

namespace ServerSdk

open Program

def IsOn (flag : Json) : Prop := (optionalField flag "on" .bool).isTrue = true

def prerequisitesOf (flag : Json) : List Json := (optionalField flag "prerequisites" .array).items

def targetsOf (flag : Json) : List Json := (optionalField flag "targets" .array).items

def rulesOf (flag : Json) : List Json := (optionalField flag "rules" .array).items

def clausesOf (rule : Json) : List Json := (optionalField rule "clauses" .array).items

inductive Verdict where
  | off
  | prerequisiteFailed (key : String)
  | target
  | rule (rule : DetailsRule)
  | fallthrough (inExperiment : Bool)
  deriving DecidableEq, Repr

namespace Verdict

def status : Verdict → EvalStatus
  | .off | .prerequisiteFailed _ => .miss
  | .target | .rule _ | .fallthrough _ => .matched

def reason : Verdict → EvalReason
  | .off => .off
  | .prerequisiteFailed _ => .prerequisiteFailed
  | .target => .targetMatch
  | .rule _ => .ruleMatch
  | .fallthrough _ => .fallthrough

def extra : Verdict → DetailsExtra
  | .off | .target => .none
  | .prerequisiteFailed key => .prerequisiteKey key
  | .rule details => .rule details
  | .fallthrough inExperiment => .fallthrough inExperiment

end Verdict

structure Serving where
  verdict : Verdict
  variation : Option (Json × ℕ)

namespace Serving

def details (serving : Serving) : Details where
  variationIndex := (serving.variation.map Prod.snd).getD 0
  hasVariation := serving.variation.isSome
  reason := serving.verdict.reason
  extra := serving.verdict.extra

def outputs (serving : Serving) (events : Option (List Json)) : Outputs :=
  ⟨serving.details, events, serving.variation.map Prod.fst⟩

def Satisfies (serving : Serving) (variation : Rat) : Prop :=
  serving.verdict.status = .matched ∧ ∃ value index, serving.variation = some (value, index) ∧
    (index : Rat) = variation

end Serving

def InSegments (clause : Json) : Prop :=
  requiredField clause "op" .text = some (.text "segmentMatch")

section Semantics

variable [Externals] (c : Content) (user : User)

def ClauseApplies (clause : Json) : Prop :=
  (InSegments clause → SomeSegmentHolds user (c.get .segment)
      ((optionalField clause "values" .array).items.filterMap Json.getText) ≠
    ((optionalField clause "negate" .bool).isTrue = true)) ∧
  (¬ InSegments clause → ClauseHolds user clause)

def RuleApplies (rule : Json) : Prop := ∀ clause ∈ clausesOf rule, ClauseApplies c user clause

def ruleId (rule : Json) : Option String :=
  match optionalField rule "id" .text with
  | .present id => id.getText
  | _ => none

def Targeted (flag : Json) : Prop := ∃ target ∈ targetsOf flag, NamesUser target "values" user

inductive DecidesServing (flag : Json) : Serving → Prop
  | target {before : List Json} {target : Json}
      (hfirst : FirstSplit (fun target => NamesUser target "values" user) (targetsOf flag) before
        target) :
      DecidesServing flag ⟨.target, valueAt flag (requiredField target "variation" .number)⟩
  | rule {before : List Json} {rule : Json} {inExperiment : Bool} {index : Option Json}
      (huntargeted : ¬ Targeted user flag)
      (hfirst : FirstSplit (RuleApplies c user) (rulesOf flag) before rule)
      (hindex : getIndexForVariationOrRollout flag (some rule) user = .ok (some (inExperiment, index))) :
      DecidesServing flag ⟨.rule ⟨before.length, ruleId rule, inExperiment⟩, valueAt flag index⟩
  | fallthrough {inExperiment : Bool} {index : Option Json} (huntargeted : ¬ Targeted user flag)
      (hnone : ∀ rule ∈ rulesOf flag, ¬ RuleApplies c user rule)
      (hindex : getIndexForVariationOrRollout flag (flag.objectLookup "fallthrough") user =
        .ok (some (inExperiment, index))) :
      DecidesServing flag ⟨.fallthrough inExperiment, valueAt flag index⟩

mutual

inductive Means : Json → Serving → Prop
  | off {flag : Json} (hoff : ¬ IsOn flag) :
      Means flag ⟨.off, valueAt flag (flag.objectLookup "offVariation")⟩
  | prerequisite {flag : Json} {key : String} (hon : IsOn flag)
      (hfailed : FirstUnmet (prerequisitesOf flag) (some key)) :
      Means flag ⟨.prerequisiteFailed key, valueAt flag (flag.objectLookup "offVariation")⟩
  | on {flag : Json} {serving : Serving} (hon : IsOn flag)
      (hmet : FirstUnmet (prerequisitesOf flag) none) (hdecides : DecidesServing c user flag serving) :
      Means flag serving

inductive FirstUnmet : List Json → Option String → Prop
  | nil : FirstUnmet [] none
  | absent {iter : Json} {rest : List Json} {key : String} {variation : Rat}
      (hlisted : Listed iter key variation) (hnone : c.get .flag key = none) :
      FirstUnmet (iter :: rest) (some key)
  | unmet {iter g : Json} {rest : List Json} {key : String} {variation : Rat} {serving : Serving}
      (hlisted : Listed iter key variation) (hfound : c.get .flag key = some g)
      (hmeans : Means g serving) (hunmet : ¬ serving.Satisfies variation) :
      FirstUnmet (iter :: rest) (some key)
  | met {iter g : Json} {rest : List Json} {key : String} {variation : Rat} {serving : Serving}
      {failed : Option String} (hlisted : Listed iter key variation)
      (hfound : c.get .flag key = some g) (hmeans : Means g serving)
      (hmet : serving.Satisfies variation) (hrest : FirstUnmet rest failed) : FirstUnmet (iter :: rest) failed

end

end Semantics

section Unique

theorem targeted_of_firstSplit {user : User} {flag : Json} {before : List Json} {target : Json}
    (h : FirstSplit (fun target => NamesUser target "values" user) (targetsOf flag) before target) :
    Targeted user flag := ⟨target, h.mem, h.here⟩

variable [Externals] {c : Content} {user : User} {flag : Json} {serving serving' : Serving}

theorem DecidesServing.unique (h : DecidesServing c user flag serving) (h' : DecidesServing c user flag serving') :
    serving = serving' := by
  cases h with
  | target hfirst =>
      cases h' with
      | target hfirst' =>
          obtain ⟨-, rfl⟩ := hfirst.unique hfirst'
          rfl
      | rule huntargeted | fallthrough huntargeted =>
          exact absurd (targeted_of_firstSplit hfirst) huntargeted
  | rule huntargeted hfirst hindex =>
      cases h' with
      | target hfirst' => exact absurd (targeted_of_firstSplit hfirst') huntargeted
      | rule _ hfirst' hindex' =>
          obtain ⟨rfl, rfl⟩ := hfirst.unique hfirst'
          cases hindex.symm.trans hindex'
          rfl
      | fallthrough _ hnone => exact absurd hnone hfirst.not_forall
  | fallthrough huntargeted hnone hindex =>
      cases h' with
      | target hfirst' => exact absurd (targeted_of_firstSplit hfirst') huntargeted
      | rule _ hfirst' => exact absurd hnone hfirst'.not_forall
      | fallthrough _ _ hindex' =>
          cases hindex.symm.trans hindex'
          rfl

mutual

theorem Means.unique {flag : Json} {serving serving' : Serving} :
    Means c user flag serving → Means c user flag serving' → serving = serving'
  | .off hoff, h' => by
      cases h' with
      | off => rfl
      | prerequisite hon | on hon => exact absurd hon hoff
  | .prerequisite hon hfailed, h' => by
      cases h' with
      | off hoff => exact absurd hon hoff
      | prerequisite _ hfailed' =>
          cases hfailed.unique hfailed'
          rfl
      | on _ hmet => cases hfailed.unique hmet
  | .on hon hmet hdecides, h' => by
      cases h' with
      | off hoff => exact absurd hon hoff
      | prerequisite _ hfailed => cases hmet.unique hfailed
      | on _ _ hdecides' => exact hdecides.unique hdecides'

theorem FirstUnmet.unique {items : List Json} {failed failed' : Option String} :
    FirstUnmet c user items failed → FirstUnmet c user items failed' → failed = failed'
  | .nil, h' => by
      cases h'
      rfl
  | .absent hlisted hnone, h' => by
      cases h' with
      | absent hlisted' | unmet hlisted' => rw [(hlisted.unique hlisted').1]
      | met hlisted' hfound =>
          obtain ⟨rfl, -⟩ := hlisted.unique hlisted'
          cases hnone.symm.trans hfound
  | .unmet hlisted hfound hmeans hunmet, h' => by
      cases h' with
      | absent hlisted' | unmet hlisted' => rw [(hlisted.unique hlisted').1]
      | met hlisted' hfound' hmeans' hmet =>
          obtain ⟨rfl, rfl⟩ := hlisted.unique hlisted'
          cases hfound.symm.trans hfound'
          exact absurd (hmeans.unique hmeans' ▸ hmet) hunmet
  | .met hlisted hfound hmeans hmet hrest, h' => by
      cases h' with
      | absent hlisted' hnone =>
          obtain ⟨rfl, -⟩ := hlisted.unique hlisted'
          cases hnone.symm.trans hfound
      | unmet hlisted' hfound' hmeans' hunmet =>
          obtain ⟨rfl, rfl⟩ := hlisted.unique hlisted'
          cases hfound.symm.trans hfound'
          exact absurd (hmeans.unique hmeans' ▸ hmet) hunmet
      | met _ _ _ _ hrest' => exact hrest.unique hrest'

end

end Unique

end ServerSdk
