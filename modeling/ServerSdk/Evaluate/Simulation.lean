import Mathlib.Data.Option.Basic
import ServerSdk.Evaluate.Stages
import ServerSdk.Program.Simulation

namespace ServerSdk

open Program

def analyticsFields : List String :=
  ["trackEvents", "trackEventsFallthrough", "debugEventsUntilDate"]

structure SameRule (r r' : Json) : Prop where
  type : r.getType = r'.getType
  lookup : ∀ key, key ≠ "trackEvents" → r.objectLookup key = r'.objectLookup key

theorem SameRule.refl (r : Json) : SameRule r r := ⟨rfl, fun _ _ => rfl⟩

inductive SameRules : Option Json → Option Json → Prop
  | same (o : Option Json) : SameRules o o
  | arrays {rules rules' : List Json} (h : List.Forall₂ SameRule rules rules') :
      SameRules (some (.array rules)) (some (.array rules'))

structure SameFlag (f f' : Json) : Prop where
  type : f.getType = f'.getType
  lookup : ∀ key, key ∉ "rules" :: analyticsFields → f.objectLookup key = f'.objectLookup key
  rules : SameRules (f.objectLookup "rules") (f'.objectLookup "rules")

theorem SameFlag.refl (f : Json) : SameFlag f f := ⟨rfl, fun _ _ => rfl, .same _⟩

theorem lookupOptional_congr {f f' : Json} {key : String} (ty : JsonType)
    (ht : f.getType = f'.getType) (hl : f.objectLookup key = f'.objectLookup key) :
    lookupOptionalValueOfType f key ty = lookupOptionalValueOfType f' key ty := by
  simp only [lookupOptionalValueOfType, optionalField, ht, hl]

theorem lookupRequired_congr {f f' : Json} {key : String} (ty : JsonType)
    (ht : f.getType = f'.getType) (hl : f.objectLookup key = f'.objectLookup key) :
    lookupRequiredValueOfType f key ty = lookupRequiredValueOfType f' key ty := by
  simp only [lookupRequiredValueOfType, requiredField, ht, hl]

section Stages

variable {f f' : Json} (h : SameFlag f f')
include h

theorem SameFlag.optional (key : String) (hk : key ∉ "rules" :: analyticsFields) (ty : JsonType) :
    lookupOptionalValueOfType f key ty = lookupOptionalValueOfType f' key ty :=
  lookupOptional_congr ty h.type (h.lookup key hk)

theorem SameFlag.required (key : String) (hk : key ∉ "rules" :: analyticsFields) (ty : JsonType) :
    lookupRequiredValueOfType f key ty = lookupRequiredValueOfType f' key ty :=
  lookupRequired_congr ty h.type (h.lookup key hk)

theorem SameFlag.getValue (index : Option Json) : getValue f index = getValue f' index := by
  simp only [ServerSdk.getValue, h.required "variations" (by decide)]

theorem SameFlag.addValue (index : Option Json) (out : Outputs) :
    addValue f index out = addValue f' index out := by
  simp only [ServerSdk.addValue, h.getValue]

theorem SameFlag.addValueAs (status : EvalStatus) (index : Option Json) (out : Outputs) :
    addValueAs status f index out = addValueAs status f' index out := by
  simp only [ServerSdk.addValueAs, h.addValue]

theorem SameFlag.evaluateOff (out : Outputs) : evaluateOff f out = evaluateOff f' out := by
  simp only [ServerSdk.evaluateOff, h.addValueAs, h.lookup "offVariation" (by decide)]

theorem SameFlag.evaluatePrerequisiteFailed (failedKey : String) (out : Outputs) :
    evaluatePrerequisiteFailed f failedKey out = evaluatePrerequisiteFailed f' failedKey out := by
  simp only [ServerSdk.evaluatePrerequisiteFailed, h.addValueAs,
    h.lookup "offVariation" (by decide)]

theorem SameFlag.evaluateTargets (user : User) (out : Outputs) (targets : List Json) :
    evaluateTargets f user out targets = evaluateTargets f' user out targets := by
  induction targets with
  | nil => rfl
  | cons target targets ih => simp only [ServerSdk.evaluateTargets, h.addValueAs, ih]

theorem SameFlag.getIndex [Externals] (varOrRoll : Option Json) (user : User) :
    getIndexForVariationOrRollout f varOrRoll user =
      getIndexForVariationOrRollout f' varOrRoll user := by
  simp only [getIndexForVariationOrRollout, h.required "key" (by decide),
    h.required "salt" (by decide)]

theorem SameFlag.evaluateFallthrough [Externals] (user : User) (out : Outputs) :
    evaluateFallthrough f user out = evaluateFallthrough f' user out := by
  simp only [ServerSdk.evaluateFallthrough, h.getIndex, h.addValueAs,
    h.lookup "fallthrough" (by decide)]

end Stages

theorem SameRule.variationIndex [Externals] {r r' : Json} (h : SameRule r r') (user : User)
    (key salt : String) :
    variationIndexForUser r user key salt = variationIndexForUser r' user key salt := by
  simp only [variationIndexForUser,
    lookupOptional_congr .number h.type (h.lookup "variation" (by decide)),
    lookupRequired_congr .object h.type (h.lookup "rollout" (by decide))]

theorem serveRule_congr [Externals] {f f' r r' : Json} (h : SameFlag f f') (hr : SameRule r r')
    (index : Nat) (user : User) (out : Outputs) :
    serveRule f r index user out = serveRule f' r' index user out := by
  have hi : getIndexForVariationOrRollout f' (some r) user =
      getIndexForVariationOrRollout f' (some r') user := by
    simp only [getIndexForVariationOrRollout, hr.variationIndex]
  simp only [serveRule, h.getIndex, hi, h.addValue,
    lookupOptional_congr .text hr.type (hr.lookup "id" (by decide))]

theorem SameFlag.rules_field {f f' : Json} (h : SameFlag f f') :
    (optionalField f "rules" .array = .mistyped ∧ optionalField f' "rules" .array = .mistyped) ∨
    (optionalField f "rules" .array ≠ .mistyped ∧ optionalField f' "rules" .array ≠ .mistyped ∧
      List.Forall₂ SameRule (optionalField f "rules" .array).items
        (optionalField f' "rules" .array).items) := by
  have hr := h.rules
  generalize ho : f.objectLookup "rules" = o at hr
  generalize ho' : f'.objectLookup "rules" = o' at hr
  cases hr with
  | same =>
      have heq : optionalField f "rules" .array = optionalField f' "rules" .array := by
        simp only [optionalField, ho, ho']
      rw [heq]
      cases hf : optionalField f' "rules" .array with
      | mistyped => exact .inl ⟨rfl, rfl⟩
      | absent => exact .inr ⟨by simp, by simp, List.forall₂_same.mpr fun r _ => .refl r⟩
      | present v => exact .inr ⟨by simp, by simp, List.forall₂_same.mpr fun r _ => .refl r⟩
  | arrays hrules =>
      refine .inr ?_
      simp only [optionalField, ho, ho', Json.getType]
      exact ⟨by simp, by simp, hrules⟩

structure SameOutputs (Ev : Json → Json → Prop) (o o' : Outputs) : Prop where
  details : o.details = o'.details
  value : o.value = o'.value
  events : Option.Rel (List.Forall₂ Ev) o.events o'.events

def SameEvaluation (Ev : Json → Json → Prop) (e e' : Evaluation) : Prop :=
  e.1 = e'.1 ∧ SameOutputs Ev e.2 e'.2

section Frame

variable {Ev : Json → Json → Prop} {o o' : Outputs} (h : SameOutputs Ev o o')
include h

theorem SameOutputs.setReason (reason : EvalReason) :
    SameOutputs Ev (o.setReason reason) (o'.setReason reason) :=
  ⟨by simp only [Outputs.setReason, h.details], h.value, h.events⟩

theorem SameOutputs.setExtra (extra : DetailsExtra) :
    SameOutputs Ev (o.setExtra extra) (o'.setExtra extra) :=
  ⟨by simp only [Outputs.setExtra, h.details], h.value, h.events⟩

theorem SameOutputs.addValue (f : Json) (index : Option Json) :
    Checked.Alike (fun a b => a.1 = b.1 ∧ SameOutputs Ev a.2 b.2) (addValue f index o)
      (addValue f index o') := by
  refine Checked.Alike.bind_eq (fun r => ?_)
  cases r with
  | none =>
      exact Checked.alike_pure ⟨rfl, by simp only [Outputs.malformed, h.details], rfl, h.events⟩
  | some r =>
      exact Checked.alike_pure ⟨rfl, by simp only [Outputs.serve, h.details], rfl, h.events⟩

theorem SameOutputs.addValueAs (status : EvalStatus) (f : Json) (index : Option Json) :
    Checked.Alike (SameEvaluation Ev) (addValueAs status f index o)
      (addValueAs status f index o') := by
  refine (h.addValue f index).bind (fun a b hab => ?_)
  obtain ⟨added, out⟩ := a
  obtain ⟨added', out'⟩ := b
  obtain ⟨ha, hout⟩ := hab
  cases ha
  exact Checked.alike_pure ⟨rfl, hout⟩

theorem SameOutputs.evaluateOff (f : Json) :
    Checked.Alike (SameEvaluation Ev) (evaluateOff f o) (evaluateOff f o') := by
  have ho := h.setReason .off
  simp only [ServerSdk.evaluateOff]
  split
  · exact Checked.alike_pure ⟨rfl, ho.details, rfl, ho.events⟩
  · exact Checked.alike_pure ⟨rfl, ho.details, rfl, ho.events⟩
  · exact ho.addValueAs _ _ _

theorem SameOutputs.evaluatePrerequisiteFailed (f : Json) (failedKey : String) :
    Checked.Alike (SameEvaluation Ev) (evaluatePrerequisiteFailed f failedKey o)
      (evaluatePrerequisiteFailed f failedKey o') :=
  ((h.setReason _).setExtra _).addValueAs _ _ _

theorem SameOutputs.evaluateTargets (f : Json) (user : User) (targets : List Json) :
    Checked.Alike (Option.Rel (SameEvaluation Ev)) (evaluateTargets f user o targets)
      (evaluateTargets f user o' targets) := by
  induction targets with
  | nil => exact Checked.alike_pure .none
  | cons target targets ih =>
      simp only [ServerSdk.evaluateTargets]
      split
      · exact Checked.alike_pure (.some ⟨rfl, h⟩)
      · refine Checked.Alike.bind_eq (fun values => ?_)
        split
        · exact Checked.alike_pure (.some ⟨rfl, h⟩)
        · refine Checked.Alike.bind_eq (fun listed => ?_)
          split
          · refine Checked.Alike.bind_eq (fun variation => ?_)
            cases variation with
            | none => exact Checked.alike_pure (.some ⟨rfl, h⟩)
            | some variation =>
                exact ((h.setReason _).addValueAs _ _ _).bind
                  (fun a b hab => Checked.alike_pure (.some hab))
          · exact ih

theorem SameOutputs.serveRule [Externals] (f rule : Json) (index : Nat) (user : User) :
    Checked.Alike (SameEvaluation Ev) (serveRule f rule index user o)
      (serveRule f rule index user o') := by
  refine Checked.Alike.bind_eq (fun r => ?_)
  have ho := (h.setReason .ruleMatch).setExtra (.rule ⟨index, none, false⟩)
  cases r with
  | none => exact Checked.alike_pure ⟨rfl, ho⟩
  | some r =>
      obtain ⟨inExperiment, variation⟩ := r
      refine ((ho.setExtra _).addValue f variation).bind (fun a b hab => ?_)
      obtain ⟨added, out⟩ := a
      obtain ⟨added', out'⟩ := b
      obtain ⟨ha, hout⟩ := hab
      cases ha
      cases added with
      | false => exact Checked.alike_pure ⟨rfl, hout⟩
      | true =>
          refine Checked.Alike.bind_eq (fun id => ?_)
          cases id with
          | mistyped => exact Checked.alike_pure ⟨rfl, hout⟩
          | absent => exact Checked.alike_pure ⟨rfl, hout⟩
          | present ruleId => exact Checked.alike_pure ⟨rfl, hout.setExtra _⟩

theorem SameOutputs.evaluateFallthrough [Externals] (f : Json) (user : User) :
    Checked.Alike (SameEvaluation Ev) (evaluateFallthrough f user o)
      (evaluateFallthrough f user o') := by
  refine Checked.Alike.bind_eq (fun r => ?_)
  have ho := h.setReason .fallthrough
  cases r with
  | none => exact Checked.alike_pure ⟨rfl, ho⟩
  | some r => exact (ho.setExtra _).addValueAs _ _ _

end Frame

def clauseSegmentKeys (clause : Json) : List String :=
  if clause.objectLookup "op" = some (.text "segmentMatch") then
    (optionalField clause "values" .array).items.filterMap Json.getText
  else []

def ruleSegmentKeys (rule : Json) : List String :=
  (optionalField rule "clauses" .array).items.flatMap clauseSegmentKeys

def segmentKeys (flag : Json) : List String :=
  (optionalField flag "rules" .array).items.flatMap ruleSegmentKeys

def prerequisiteKeys (flag : Json) : List String :=
  if (optionalField flag "on" .bool).isTrue then
    (optionalField flag "prerequisites" .array).items.filterMap
      fun iter => (iter.objectLookup "key").bind Json.getText
  else []

section Runs

variable [Externals] {σ τ : Type} {P : Policy} {R : σ → τ → Prop} {w : World σ} {w' : World τ}

def SegmentSim (P : Policy) (R : σ → τ → Prop) (w : World σ) (w' : World τ) (key : String) : Prop :=
  Run.Sim P R Eq (storeGet w .segment key) (storeGet w' .segment key)

variable (hP : P.Fair) (user : User)
include hP

theorem segmentListMatchesUser_sim (clause : Json) (values : List Json)
    (h : ∀ key, .text key ∈ values → SegmentSim P R w w' key) :
    Run.Sim P R Eq (segmentListMatchesUser w clause user values)
      (segmentListMatchesUser w' clause user values) := by
  induction values with
  | nil => exact Run.sim_lift_self hP _
  | cons value values ih =>
      have hrest := ih (fun key hk => h key (List.mem_cons_of_mem _ hk))
      cases value with
      | text key =>
          simp only [segmentListMatchesUser]
          refine (h key (by simp)).bind_eq (fun found => ?_)
          match found with
          | none => exact Run.sim_pure rfl
          | some none => exact hrest
          | some (some segment) =>
              refine (Run.sim_lift_self hP _).bind_eq (fun status => ?_)
              cases status with
              | matched => exact Run.sim_lift_self hP _
              | miss => exact hrest
              | mem => exact Run.sim_pure rfl
              | schema => exact Run.sim_pure rfl
              | store => exact Run.sim_pure rfl
      | null => exact hrest
      | bool b => exact hrest
      | number n => exact hrest
      | array items => exact hrest
      | object fields => exact hrest

theorem clauseMatchesUser_sim (clause : Json)
    (h : ∀ key ∈ clauseSegmentKeys clause, SegmentSim P R w w' key) :
    Run.Sim P R Eq (clauseMatchesUser w clause user) (clauseMatchesUser w' clause user) := by
  simp only [clauseMatchesUser]
  split
  · exact Run.sim_pure rfl
  · next ht =>
      have ho : clause.getType = .object := not_not.mp ht
      simp only [lookupRequired_of_object ho, lookupOptional_of_object ho, Run.lift_ok, pure_bind]
      cases hop : requiredField clause "op" .text with
      | none => exact Run.sim_pure rfl
      | some op =>
          obtain ⟨hlookup, -⟩ := requiredField_eq_some.mp hop
          simp only
          split
          · next hsm =>
              rw [Json.getText_eq_some] at hsm
              subst hsm
              split
              · exact Run.sim_pure rfl
              · refine segmentListMatchesUser_sim hP user clause _ (fun key hk => h key ?_)
                simp only [clauseSegmentKeys, hlookup, if_true, List.mem_filterMap]
                exact ⟨.text key, hk, rfl⟩
          · exact Run.sim_lift_self hP _

theorem clausesMatchUser_sim (clauses : List Json)
    (h : ∀ clause ∈ clauses, ∀ key ∈ clauseSegmentKeys clause, SegmentSim P R w w' key) :
    Run.Sim P R Eq (clausesMatchUser w user clauses) (clausesMatchUser w' user clauses) := by
  induction clauses with
  | nil => exact Run.sim_pure rfl
  | cons clause clauses ih =>
      simp only [clausesMatchUser]
      split
      · exact Run.sim_pure rfl
      · refine (clauseMatchesUser_sim hP user clause (h clause (by simp))).bind_eq
          (fun status => ?_)
        cases status with
        | matched => exact ih (fun c hc => h c (List.mem_cons_of_mem _ hc))
        | miss => exact Run.sim_pure rfl
        | mem => exact Run.sim_pure rfl
        | schema => exact Run.sim_pure rfl
        | store => exact Run.sim_pure rfl

theorem ruleMatchesUser_sim {rule rule' : Json} (hr : SameRule rule rule')
    (h : ∀ key ∈ ruleSegmentKeys rule, SegmentSim P R w w' key) :
    Run.Sim P R Eq (ruleMatchesUser w rule user) (ruleMatchesUser w' rule' user) := by
  simp only [ruleMatchesUser,
    ← lookupOptional_congr .array hr.type (hr.lookup "clauses" (by decide))]
  by_cases ho : rule.getType = .object
  · simp only [lookupOptional_of_object ho, Run.lift_ok, pure_bind]
    split
    · exact Run.sim_pure rfl
    · refine clausesMatchUser_sim hP user _ (fun clause hc key hk => h key ?_)
      exact List.mem_flatMap.mpr ⟨clause, hc, hk⟩
  · rw [lookupOptional_of_not_object ho]
    exact fun s t _ => .inr (hP .assertion)

theorem evaluateRules_sim {Ev : Json → Json → Prop} {f f' : Json} (hf : SameFlag f f')
    {o o' : Outputs} (ho : SameOutputs Ev o o') {rules rules' : List Json}
    (hr : List.Forall₂ SameRule rules rules')
    (h : ∀ rule ∈ rules, ∀ key ∈ ruleSegmentKeys rule, SegmentSim P R w w' key) (index : Nat) :
    Run.Sim P R (Option.Rel (SameEvaluation Ev)) (evaluateRules w f user o index rules)
      (evaluateRules w' f' user o' index rules') := by
  induction hr generalizing index with
  | nil => exact Run.sim_pure .none
  | @cons rule rule' rules rules' hrule hrules ih =>
      simp only [evaluateRules, ← hrule.type]
      split
      · exact Run.sim_pure (.some ⟨rfl, ho⟩)
      · refine (ruleMatchesUser_sim hP user hrule (h rule (by simp))).bind_eq (fun status => ?_)
        cases status with
        | matched =>
            rw [← serveRule_congr hf hrule]
            exact (Run.sim_lift hP (ho.serveRule f rule index user)).bind
              (fun a b hab => Run.sim_pure (.some hab))
        | miss => exact ih (fun r hr => h r (List.mem_cons_of_mem _ hr)) (index + 1)
        | mem => exact Run.sim_pure (.some ⟨rfl, ho⟩)
        | schema => exact Run.sim_pure (.some ⟨rfl, ho⟩)
        | store => exact Run.sim_pure (.some ⟨rfl, ho⟩)

theorem evaluateFromRules_sim {Ev : Json → Json → Prop} {client : Client σ} {client' : Client τ}
    {f f' : Json} (hf : SameFlag f f') (hobj : f.getType = .object) {o o' : Outputs}
    (ho : SameOutputs Ev o o')
    (h : ∀ key ∈ segmentKeys f, SegmentSim P R client.world client'.world key) :
    Run.Sim P R (SameEvaluation Ev) (evaluateFromRules client user f o)
      (evaluateFromRules client' user f' o') := by
  have hobj' : f'.getType = .object := hf.type ▸ hobj
  simp only [evaluateFromRules, lookupOptional_of_object hobj, lookupOptional_of_object hobj',
    Run.lift_ok, pure_bind]
  rcases hf.rules_field with ⟨hm, hm'⟩ | ⟨hm, hm', hrules⟩
  · simp only [hm, hm']
    exact Run.sim_pure ⟨rfl, ho⟩
  · have hsim := evaluateRules_sim hP user hf ho hrules
      (fun rule hr key hk => h key (List.mem_flatMap.mpr ⟨rule, hr, hk⟩)) 0
    split
    · next heq => exact absurd heq hm
    · refine hsim.bind (fun a b hab => ?_)
      cases hab with
      | some hab => exact Run.sim_pure hab
      | none =>
          rw [← hf.evaluateFallthrough]
          exact Run.sim_lift hP (ho.evaluateFallthrough f user)

theorem evaluateTargeting_sim {Ev : Json → Json → Prop} {client : Client σ} {client' : Client τ}
    {f f' : Json} (hf : SameFlag f f') (hobj : f.getType = .object) {o o' : Outputs}
    (ho : SameOutputs Ev o o')
    (h : ∀ key ∈ segmentKeys f, SegmentSim P R client.world client'.world key) :
    Run.Sim P R (SameEvaluation Ev) (evaluateTargeting client user f o)
      (evaluateTargeting client' user f' o') := by
  simp only [evaluateTargeting, ← hf.optional "targets" (by decide),
    lookupOptional_of_object hobj, Run.lift_ok, pure_bind]
  split
  · exact Run.sim_pure ⟨rfl, ho⟩
  · rw [← hf.evaluateTargets]
    refine (Run.sim_lift hP (ho.evaluateTargets f user _)).bind (fun a b hab => ?_)
    cases hab with
    | some hab => exact Run.sim_pure hab
    | none => exact evaluateFromRules_sim hP user hf hobj ho h

end Runs

structure SamePrerequisites (Ev : Json → Json → Prop) (p p' : Prerequisites) : Prop where
  status : p.status = p'.status
  failedKey : p.failedKey = p'.failedKey
  events : Option.Rel (List.Forall₂ Ev) p.events p'.events

theorem SamePrerequisites.setStatus {Ev : Json → Json → Prop} {p p' : Prerequisites}
    (h : SamePrerequisites Ev p p') (status : EvalStatus) :
    SamePrerequisites Ev { p with status := status } { p' with status := status } :=
  ⟨rfl, h.failedKey, h.events⟩

theorem forall₂_getD {Ev : Json → Json → Prop} {x y : Option (List Json)}
    (h : Option.Rel (List.Forall₂ Ev) x y) : List.Forall₂ Ev (x.getD []) (y.getD []) := by
  cases h with
  | some h => exact h
  | none => exact .nil

section Recursion

variable {σ τ : Type} (P : Policy) (R : σ → τ → Prop) (T : Rat → Rat → Prop)
  (Ev : Json → Json → Prop) (client : Client σ) (client' : Client τ) (user : User)
  (ev : Json → Run σ Evaluation) (ev' : Json → Run τ Evaluation)

structure Nested (f f' : Json) (key : String) (g g' : Json) : Prop where
  same : SameFlag g g'
  sim : Run.Sim P R (SameEvaluation Ev) (ev g) (ev' g')
  event : ∀ t t' e e', T t t' → Run.Yields (ev g) e → Run.Yields (ev' g') e' →
    isEvalError e.1 = false → SameEvaluation Ev e e' →
    Checked.Alike (Option.Rel Ev) (prerequisiteEvent client user f key g t e.2)
      (prerequisiteEvent client' user f' key g' t' e'.2)

def PrerequisiteSim (f f' : Json) (key : String) : Prop :=
  Run.Sim P R (Option.Rel (Option.Rel (Nested P R T Ev client client' user ev ev' f f' key)))
    (storeGet client.world .flag key) (storeGet client'.world .flag key)

def Clears (f iter : Json) : Prop :=
  ∃ acc next, Run.Yields (checkPrerequisite client user ev f iter acc) next ∧
    next.status = .matched

structure LooksUp (f : Json) (key : String) : Prop where
  on : (optionalField f "on" .bool).isTrue = true
  listed : ∃ before iter after,
    (optionalField f "prerequisites" .array).items = before ++ iter :: after ∧
    (∀ i ∈ before, Clears client user ev f i) ∧ iter.objectLookup "key" = some (.text key)

variable {P R T Ev client client' user ev ev'}

theorem LooksUp.mem {f : Json} {key : String} (h : LooksUp client user ev f key) :
    key ∈ prerequisiteKeys f := by
  obtain ⟨before, iter, after, hitems, -, hkey⟩ := h.listed
  rw [prerequisiteKeys, if_pos h.on, List.mem_filterMap]
  refine ⟨iter, ?_, by rw [hkey]; rfl⟩
  rw [hitems]
  simp

theorem Nested.outcome {f f' g g' : Json} {key : String}
    (hg : Nested P R T Ev client client' user ev ev' f f' key g g') (variation : Json)
    {t t' : Rat} (ht : T t t') {p p' : Prerequisites} (hp : SamePrerequisites Ev p p')
    {e e' : Evaluation} (hy : Run.Yields (ev g) e) (hy' : Run.Yields (ev' g') e')
    (he : SameEvaluation Ev e e') :
    Checked.Alike (SamePrerequisites Ev)
      (prerequisiteOutcome client user f g variation key t p e)
      (prerequisiteOutcome client' user f' g' variation key t' p' e') := by
  obtain ⟨status, sub⟩ := e
  obtain ⟨status', sub'⟩ := e'
  obtain ⟨hs, hsub⟩ := he
  cases hs
  have hsub : SameOutputs Ev sub sub' := hsub
  simp only [prerequisiteOutcome]
  cases herr : isEvalError status with
  | true => exact Checked.alike_pure (hp.setStatus _)
  | false =>
    have hevent := hg.event t t' (status, sub) (status, sub') ht hy hy' herr ⟨rfl, hsub⟩
    refine hevent.bind (fun a b hab => ?_)
    cases hab with
    | none => exact Checked.alike_pure (hp.setStatus _)
    | some hevent =>
        have hevents := List.rel_append
          (List.rel_append (forall₂_getD hp.events) (forall₂_getD hsub.events))
          (List.Forall₂.cons hevent .nil)
        simp only
        split
        · exact Checked.alike_pure ⟨rfl, hp.failedKey, .some hevents⟩
        · have hd : sub.details = sub'.details := hsub.details
          have hserve : prerequisiteServes g sub.details variation =
              prerequisiteServes g' sub'.details variation := by
            simp only [prerequisiteServes, hg.same.optional "on" (by decide), hd]
          rw [hserve]
          exact Checked.Alike.bind_eq
            (fun status => Checked.alike_pure ⟨rfl, hp.failedKey, .some hevents⟩)

theorem checkPrerequisite_sim (hP : P.Fair)
    (hclock : Run.Sim P R T (Run.ask client.world.unixMilliseconds)
      (Run.ask client'.world.unixMilliseconds))
    {f f' iter : Json} {p p' : Prerequisites} (hp : SamePrerequisites Ev p p')
    (h : ∀ key, iter.objectLookup "key" = some (.text key) →
      PrerequisiteSim P R T Ev client client' user ev ev' f f' key) :
    Run.Sim P R (SamePrerequisites Ev) (checkPrerequisite client user ev f iter p)
      (checkPrerequisite client' user ev' f' iter p') := by
  refine hclock.bind (fun t t' ht => ?_)
  split
  · exact Run.sim_pure (hp.setStatus _)
  · next htype =>
      have hobj : iter.getType = .object := not_not.mp htype
      simp only [lookupRequired_of_object hobj, Run.lift_ok, pure_bind]
      cases hkey : requiredField iter "key" .text with
      | none => exact Run.sim_pure (hp.setStatus _)
      | some key =>
          cases hvar : requiredField iter "variation" .number with
          | none => exact Run.sim_pure (hp.setStatus _)
          | some variation =>
              obtain ⟨hlookup, htext⟩ := requiredField_eq_some.mp hkey
              obtain ⟨keyText, rfl⟩ := Json.getType_eq_text.mp htext
              have hacc : SamePrerequisites Ev { p with failedKey := some keyText }
                  { p' with failedKey := some keyText } := ⟨hp.status, rfl, hp.events⟩
              refine (h keyText hlookup).bind (fun a b hab => ?_)
              cases hab with
              | none => exact Run.sim_pure (hacc.setStatus _)
              | some hab =>
                  cases hab with
                  | none => exact Run.sim_pure (hacc.setStatus _)
                  | @some g g' hg =>
                      exact hg.sim.bind_yields (fun a b ha hb hab =>
                        Run.sim_lift hP (hg.outcome variation ht hacc ha hb hab))

theorem checkPrerequisiteList_sim (hP : P.Fair)
    (hclock : Run.Sim P R T (Run.ask client.world.unixMilliseconds)
      (Run.ask client'.world.unixMilliseconds))
    {f f' : Json} (hon : (optionalField f "on" .bool).isTrue = true)
    (hon' : (optionalField f' "on" .bool).isTrue = true) {before list : List Json}
    (hitems : (optionalField f "prerequisites" .array).items = before ++ list)
    (hitems' : (optionalField f' "prerequisites" .array).items = before ++ list)
    (hbefore : ∀ i ∈ before, Clears client user ev f i)
    (hbefore' : ∀ i ∈ before, Clears client' user ev' f' i)
    {p p' : Prerequisites} (hp : SamePrerequisites Ev p p')
    (h : ∀ key, LooksUp client user ev f key → LooksUp client' user ev' f' key →
      PrerequisiteSim P R T Ev client client' user ev ev' f f' key) :
    Run.Sim P R (SamePrerequisites Ev) (checkPrerequisiteList client user ev f list p)
      (checkPrerequisiteList client' user ev' f' list p') := by
  induction list generalizing before p p' with
  | nil => exact Run.sim_pure (hp.setStatus _)
  | cons iter list ih =>
      have hiter : ∀ key, iter.objectLookup "key" = some (.text key) →
          PrerequisiteSim P R T Ev client client' user ev ev' f f' key := by
        intro key hkey
        exact h key ⟨hon, before, iter, list, hitems, hbefore, hkey⟩
          ⟨hon', before, iter, list, hitems', hbefore', hkey⟩
      refine (checkPrerequisite_sim hP hclock hp hiter).bind_yields (fun q q' hy hy' hq => ?_)
      rw [← hq.status]
      split
      · next hmatched =>
          have hclear : Clears client user ev f iter := ⟨p, q, hy, hmatched⟩
          have hclear' : Clears client' user ev' f' iter := ⟨p', q', hy', hq.status ▸ hmatched⟩
          have hnext : (optionalField f "prerequisites" .array).items = (before ++ [iter]) ++ list := by
            simpa using hitems
          refine ih hnext ?_ ?_ ?_ hq
          · simpa using hitems'
          · simpa [or_imp, forall_and] using And.intro hbefore hclear
          · simpa [or_imp, forall_and] using And.intro hbefore' hclear'
      · exact Run.sim_pure hq

theorem checkPrerequisitesWith_sim (hP : P.Fair)
    (hclock : Run.Sim P R T (Run.ask client.world.unixMilliseconds)
      (Run.ask client'.world.unixMilliseconds))
    {f f' : Json} (hf : SameFlag f f') (hobj : f.getType = .object)
    (hon : (optionalField f "on" .bool).isTrue) {events events' : Option (List Json)}
    (he : Option.Rel (List.Forall₂ Ev) events events')
    (h : ∀ key, LooksUp client user ev f key → LooksUp client' user ev' f' key →
      PrerequisiteSim P R T Ev client client' user ev ev' f f' key) :
    Run.Sim P R (SamePrerequisites Ev) (checkPrerequisitesWith client user ev f events)
      (checkPrerequisitesWith client' user ev' f' events') := by
  have hon' : (optionalField f' "on" .bool).isTrue = true := by
    rw [← hon, optionalField, optionalField, hf.lookup "on" (by decide)]
  have hsame : optionalField f' "prerequisites" .array = optionalField f "prerequisites" .array := by
    rw [optionalField, optionalField, hf.lookup "prerequisites" (by decide)]
  simp only [checkPrerequisitesWith, ← hf.optional "prerequisites" (by decide),
    lookupOptional_of_object hobj, Run.lift_ok, pure_bind]
  cases hpre : optionalField f "prerequisites" .array with
  | mistyped => exact Run.sim_pure ⟨rfl, rfl, he⟩
  | absent => exact Run.sim_pure ⟨rfl, rfl, he⟩
  | present prerequisites =>
      have hitems : (optionalField f "prerequisites" .array).items = [] ++ prerequisites.getIter := by
        rw [hpre]
        rfl
      have hitems' : (optionalField f' "prerequisites" .array).items = [] ++ prerequisites.getIter := by
        rw [hsame, hitems]
      exact checkPrerequisiteList_sim hP hclock hon hon' hitems hitems' (by simp) (by simp)
        ⟨rfl, rfl, he⟩ h

theorem evaluateWith_sim [Externals] (hP : P.Fair)
    (hclock : Run.Sim P R T (Run.ask client.world.unixMilliseconds)
      (Run.ask client'.world.unixMilliseconds))
    {f f' : Json} (hf : SameFlag f f') {o o' : Outputs} (ho : SameOutputs Ev o o')
    (hpre : ∀ key, LooksUp client user ev f key → LooksUp client' user ev' f' key →
      PrerequisiteSim P R T Ev client client' user ev ev' f f' key)
    (hseg : ∀ key ∈ segmentKeys f, SegmentSim P R client.world client'.world key) :
    Run.Sim P R (SameEvaluation Ev) (evaluateWith client user ev f o)
      (evaluateWith client' user ev' f' o') := by
  simp only [evaluateWith, ← hf.type, ← hf.optional "on" (by decide)]
  split
  · exact Run.sim_pure ⟨rfl, ho⟩
  · next htype =>
      have hobj : f.getType = .object := not_not.mp htype
      simp only [lookupOptional_of_object hobj, Run.lift_ok, pure_bind]
      split
      · exact Run.sim_pure ⟨rfl, ho⟩
      · split
        · next hon =>
            refine (checkPrerequisitesWith_sim hP hclock hf hobj hon ho.events hpre).bind
              (fun q q' hq => ?_)
            have ho' : SameOutputs Ev { o with events := q.events } { o' with events := q'.events } :=
              ⟨ho.details, ho.value, hq.events⟩
            simp only [evaluateAfterPrerequisites, ← hq.status, ← hq.failedKey]
            split
            · rw [← hf.evaluatePrerequisiteFailed]
              exact Run.sim_lift hP (ho'.evaluatePrerequisiteFailed f _)
            · exact evaluateTargeting_sim hP user hf hobj ho' hseg
            · exact Run.sim_pure ⟨rfl, ho'⟩
        · rw [← hf.evaluateOff]
          exact Run.sim_lift hP (ho.evaluateOff f)

end Recursion

end ServerSdk
