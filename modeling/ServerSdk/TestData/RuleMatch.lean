import ServerSdk.Evaluate.Matching
import ServerSdk.Evaluate.Membership
import ServerSdk.TestData.TargetMatch

namespace ServerSdk

open Program

section Status

variable [Externals]

def clauseStatus (user : User) (clause : FlagRuleBuilderClause) : Checked EvalStatus :=
  clauseMatchesUserNoSegments (buildClauseJSON clause) user

def clausesStatus (user : User) : List FlagRuleBuilderClause → Checked EvalStatus
  | [] => pure .matched
  | clause :: clauses => do
      match ← clauseStatus user clause with
      | .matched => clausesStatus user clauses
      | status => pure status

def RuleMatches (user : User) (rule : FlagRuleBuilder) : Prop :=
  ∀ clause ∈ rule.clauses, clauseStatus user clause = .ok .matched

def RuleMisses (user : User) (rule : FlagRuleBuilder) : Prop :=
  clausesStatus user rule.clauses = .ok .miss

variable {user : User}

theorem clausesStatus_eq_matched {clauses : List FlagRuleBuilderClause} :
    clausesStatus user clauses = .ok .matched ↔
      ∀ clause ∈ clauses, clauseStatus user clause = .ok .matched := by
  induction clauses with
  | nil => exact ⟨fun _ => nofun, fun _ => rfl⟩
  | cons clause clauses ih =>
      rw [clausesStatus, List.forall_mem_cons, ← ih]
      constructor
      · intro h
        obtain ⟨status, hstatus, hrest⟩ := Checked.bind_eq_ok.mp h
        cases status with
        | matched => exact ⟨hstatus, hrest⟩
        | _ => cases hrest
      · rintro ⟨hstatus, hrest⟩
        exact Checked.bind_eq_ok.mpr ⟨.matched, hstatus, hrest⟩

theorem ruleMatches_iff {rule : FlagRuleBuilder} :
    RuleMatches user rule ↔ clausesStatus user rule.clauses = .ok .matched :=
  clausesStatus_eq_matched.symm

theorem RuleMisses.not_matches {rule : FlagRuleBuilder} (h : RuleMisses user rule) :
    ¬ RuleMatches user rule := by
  intro hmatches
  cases h.symm.trans (ruleMatches_iff.mp hmatches)

variable {σ : Type} {w : World σ}

theorem clauseMatchesUser_build (clause : FlagRuleBuilderClause) :
    clauseMatchesUser w (buildClauseJSON clause) user = Run.lift (clauseStatus user clause) := rfl

theorem clausesMatchUser_build (clauses : List FlagRuleBuilderClause) :
    clausesMatchUser w user (clauses.map buildClauseJSON) = Run.lift (clausesStatus user clauses) := by
  induction clauses with
  | nil => rfl
  | cons clause clauses ih =>
      have hobj : ¬ (buildClauseJSON clause).getType ≠ .object := not_not_intro rfl
      rw [List.map_cons, clausesMatchUser, if_neg hobj, clauseMatchesUser_build, ih, clausesStatus]
      cases clauseStatus user clause with
      | error fault => rfl
      | ok status => cases status <;> rfl

theorem ruleMatchesUser_build (rule : FlagRuleBuilder) (id : String) :
    ruleMatchesUser w (buildRuleJSON rule id) user = Run.lift (clausesStatus user rule.clauses) := by
  rw [← clausesMatchUser_build]
  rfl

end Status

def BuiltRule (rule : FlagRuleBuilder) (json : Json) : Prop := ∃ id, json = buildRuleJSON rule id

theorem forall₂_mapIdx {α β : Type} {R : α → β → Prop} {f : ℕ → α → β} (h : ∀ index a, R a (f index a))
    (l : List α) : List.Forall₂ R l (l.mapIdx f) := by
  induction l generalizing f with
  | nil => exact .nil
  | cons a l ih =>
      rw [List.mapIdx_cons]
      exact .cons (h 0 a) (ih fun index a => h (index + 1) a)

section Search

variable [Externals] {user : User} {σ : Type} {w : World σ} {rules : List FlagRuleBuilder}
  {jsons : List Json} {s t : σ}

structure StopsAt (user : User) (rules : List FlagRuleBuilder) (index : ℕ) (rule : FlagRuleBuilder) :
    Prop where
  found : rules[index]? = some rule
  matching : RuleMatches user rule
  before : ∀ earlier < index, ∀ other, rules[earlier]? = some other → RuleMisses user other

theorem StopsAt.later {rule other : FlagRuleBuilder} {index : ℕ} (h : StopsAt user rules index rule)
    (hmiss : RuleMisses user other) : StopsAt user (other :: rules) (index + 1) rule := by
  refine ⟨h.found, h.matching, ?_⟩
  intro earlier hlt skipped hskipped
  cases earlier with
  | zero =>
      cases hskipped
      exact hmiss
  | succ earlier => exact h.before earlier (by omega) skipped hskipped

theorem StopsAt.of_later {rule other : FlagRuleBuilder} {index : ℕ}
    (h : StopsAt user (other :: rules) (index + 1) rule) :
    RuleMisses user other ∧ StopsAt user rules index rule := by
  refine ⟨h.before 0 (by omega) other rfl, h.found, h.matching, ?_⟩
  intro earlier hlt skipped hskipped
  exact h.before (earlier + 1) (by omega) skipped hskipped

theorem stopsAt_of_firstMatch (hbuilt : List.Forall₂ BuiltRule rules jsons) {index : ℕ} {json : Json}
    (h : FirstMatch w user jsons s index json t) :
    ∃ rule id, json = buildRuleJSON rule id ∧ StopsAt user rules index rule := by
  induction h generalizing rules with
  | here _ hmatch =>
      obtain ⟨rule, rest, ⟨id, rfl⟩, -, rfl⟩ := List.forall₂_cons_right_iff.mp hbuilt
      rw [ruleMatchesUser_build, Run.lift_eq_ok] at hmatch
      exact ⟨rule, id, rfl, rfl, ruleMatches_iff.mpr hmatch.1, nofun⟩
  | later _ hmiss _ ih =>
      obtain ⟨other, rest, ⟨id, rfl⟩, hrest, rfl⟩ := List.forall₂_cons_right_iff.mp hbuilt
      rw [ruleMatchesUser_build, Run.lift_eq_ok] at hmiss
      obtain ⟨rule, id, hjson, hstops⟩ := ih hrest
      exact ⟨rule, id, hjson, hstops.later hmiss.1⟩

theorem misses_of_noMatch (hbuilt : List.Forall₂ BuiltRule rules jsons) (h : NoMatch w user jsons s t) :
    ∀ rule ∈ rules, RuleMisses user rule := by
  induction h generalizing rules with
  | nil =>
      rw [List.forall₂_nil_right_iff.mp hbuilt]
      nofun
  | cons _ hmiss _ ih =>
      obtain ⟨other, rest, ⟨id, rfl⟩, hrest, rfl⟩ := List.forall₂_cons_right_iff.mp hbuilt
      rw [ruleMatchesUser_build, Run.lift_eq_ok] at hmiss
      exact List.forall_mem_cons.mpr ⟨hmiss.1, ih hrest⟩

theorem ruleMatchesUser_of_matches {rule : FlagRuleBuilder} (h : RuleMatches user rule) (id : String)
    (s : σ) : ruleMatchesUser w (buildRuleJSON rule id) user s = .ok (.matched, s) := by
  rw [ruleMatchesUser_build, ruleMatches_iff.mp h]
  rfl

theorem ruleMatchesUser_of_misses {rule : FlagRuleBuilder} (h : RuleMisses user rule) (id : String)
    (s : σ) : ruleMatchesUser w (buildRuleJSON rule id) user s = .ok (.miss, s) := by
  rw [ruleMatchesUser_build, show clausesStatus user rule.clauses = .ok .miss from h]
  rfl

theorem firstMatch_of_stopsAt (hbuilt : List.Forall₂ BuiltRule rules jsons) {index : ℕ}
    {rule : FlagRuleBuilder} (h : StopsAt user rules index rule) (s : σ) :
    ∃ id, FirstMatch w user jsons s index (buildRuleJSON rule id) s := by
  induction hbuilt generalizing index with
  | nil => cases h.found
  | cons hrule hrest ih =>
      obtain ⟨id, rfl⟩ := hrule
      cases index with
      | zero =>
          cases h.found
          exact ⟨id, .here rfl (ruleMatchesUser_of_matches h.matching id s)⟩
      | succ index =>
          obtain ⟨hmiss, hlater⟩ := h.of_later
          obtain ⟨found, hfirst⟩ := ih hlater
          exact ⟨found, .later rfl (ruleMatchesUser_of_misses hmiss id s) hfirst⟩

theorem noMatch_of_misses (hbuilt : List.Forall₂ BuiltRule rules jsons)
    (h : ∀ rule ∈ rules, RuleMisses user rule) (s : σ) : NoMatch w user jsons s s := by
  induction hbuilt with
  | nil => exact .nil s
  | cons hrule hrest ih =>
      obtain ⟨id, rfl⟩ := hrule
      rw [List.forall_mem_cons] at h
      exact .cons rfl (ruleMatchesUser_of_misses h.1 id s) (ih h.2)

end Search

theorem rules_build (flagBuilder : FlagBuilder) (version : Int) :
    optionalField (flagBuilderBuild flagBuilder version) "rules" .array ≠ .mistyped ∧
      List.Forall₂ BuiltRule flagBuilder.rules
        (optionalField (flagBuilderBuild flagBuilder version) "rules" .array).items := by
  have hlookup : (flagBuilderBuild flagBuilder version).objectLookup "rules" =
      if flagBuilder.rules = [] then none else some (buildRulesJSON flagBuilder.rules) :=
    lookup_build flagBuilder version (by simp [flagBuilderFields])
  rw [optionalField, hlookup]
  split_ifs with hrules
  · rw [hrules]
    refine ⟨fun hmistyped => ?_, .nil⟩
    cases hmistyped
  · refine ⟨fun hmistyped => ?_, ?_⟩
    · cases hmistyped
    · exact forall₂_mapIdx (fun index rule => ⟨_, rfl⟩) flagBuilder.rules

section Evaluated

variable [Externals] {flagBuilder : FlagBuilder} {version : Int} {user : User} {rule : FlagRuleBuilder}
  {index : ℕ} {σ : Type} {client : Client σ} {fuel : ℕ} {out : Outputs} {s t : σ}

theorem getIndex_build {varOrRoll : Json} {variation : Int} (hobj : varOrRoll.getType = .object)
    (hvariation : varOrRoll.objectLookup "variation" = some (.number variation)) :
    getIndexForVariationOrRollout (flagBuilderBuild flagBuilder version) (some varOrRoll) user =
      .ok (some (false, some (.number variation))) := by
  have hkey : requiredField (flagBuilderBuild flagBuilder version) "key" .text =
      some (.text flagBuilder.key) := requiredField_eq_some.mpr
    ⟨lookup_build flagBuilder version (by simp [flagBuilderFields]), rfl⟩
  have hsalt : requiredField (flagBuilderBuild flagBuilder version) "salt" .text =
      some (.text "salt") := requiredField_eq_some.mpr
    ⟨lookup_build flagBuilder version (by simp [flagBuilderFields]), rfl⟩
  have hfield : optionalField varOrRoll "variation" .number = .present (.number variation) := by
    refine optionalField_eq_present.mpr ⟨hvariation, fun hnull => ?_, rfl⟩
    cases hnull
  have hbuilt := getType_build flagBuilder version
  simp only [getIndexForVariationOrRollout, lookupRequired_of_object hbuilt, hkey, hsalt,
    Checked.ok_bind, variationIndexForUser, lookupOptional_of_object hobj, hfield]
  rfl

theorem serveRule_build (hrange : InRange flagBuilder rule.variation) (version : Int) (index : ℕ)
    (user : User) (out : Outputs) (id : String) :
    ∃ value, flagBuilder.variations.arrayLookup rule.variation.toNat = some value ∧
      serveRule (flagBuilderBuild flagBuilder version) (buildRuleJSON rule id) index user out =
        .ok (.matched, ((out.setReason .ruleMatch).serve value rule.variation.toNat).setExtra
          (.rule ⟨index, some id, false⟩)) := by
  obtain ⟨value, hvalue, hserved⟩ := hrange.valueAt_build version
  refine ⟨value, hvalue, ?_⟩
  have hindex : getIndexForVariationOrRollout (flagBuilderBuild flagBuilder version)
      (some (buildRuleJSON rule id)) user = .ok (some (false, some (.number rule.variation))) :=
    getIndex_build rfl rfl
  have hid : optionalField (buildRuleJSON rule id) "id" .text = .present (.text id) := rfl
  have hobj : (buildRuleJSON rule id).getType = .object := rfl
  simp only [serveRule, hindex, Checked.ok_bind, addValue_of_object (getType_build flagBuilder version),
    hserved, Option.isSome_some, if_true, lookupOptional_of_object hobj, hid]
  rfl

theorem evaluateFallthrough_build (hrange : InRange flagBuilder flagBuilder.fallthroughVariation)
    (version : Int) (user : User) (out : Outputs) :
    ∃ value, flagBuilder.variations.arrayLookup flagBuilder.fallthroughVariation.toNat = some value ∧
      evaluateFallthrough (flagBuilderBuild flagBuilder version) user out =
        .ok (.matched, ((out.setReason .fallthrough).setExtra (.fallthrough false)).serve value
          flagBuilder.fallthroughVariation.toNat) := by
  obtain ⟨value, hvalue, hserved⟩ := hrange.valueAt_build version
  refine ⟨value, hvalue, ?_⟩
  have hlookup : (flagBuilderBuild flagBuilder version).objectLookup "fallthrough" =
      some ((Json.object []).objectSetKey "variation" (.number flagBuilder.fallthroughVariation)) :=
    lookup_build flagBuilder version (by simp [flagBuilderFields])
  have hindex : getIndexForVariationOrRollout (flagBuilderBuild flagBuilder version)
      (some ((Json.object []).objectSetKey "variation" (.number flagBuilder.fallthroughVariation)))
        user = .ok (some (false, some (.number flagBuilder.fallthroughVariation))) :=
    getIndex_build rfl rfl
  simp only [evaluateFallthrough, hlookup, hindex, Checked.ok_bind,
    addValueAs_of_object (getType_build flagBuilder version), hserved]
  rfl

theorem evaluate_untargeted (hon : flagBuilder.on = true) (htargets : flagBuilder.targets = []) :
    evaluate client user fuel (flagBuilderBuild flagBuilder version) out s =
      evaluateFromRules client user (flagBuilderBuild flagBuilder version) out s := by
  rw [evaluate_build hon, evaluateTargeting_build, htargets]
  rfl

theorem StopsAt.evaluate_eq (h : StopsAt user flagBuilder.rules index rule)
    (hon : flagBuilder.on = true) (htargets : flagBuilder.targets = [])
    (hrange : InRange flagBuilder rule.variation) :
    ∃ value id, flagBuilder.variations.arrayLookup rule.variation.toNat = some value ∧
      evaluate client user fuel (flagBuilderBuild flagBuilder version) out s =
        .ok ((.matched, ((out.setReason .ruleMatch).serve value rule.variation.toNat).setExtra
          (.rule ⟨index, some id, false⟩)), s) := by
  obtain ⟨htyped, hbuilt⟩ := rules_build flagBuilder version
  obtain ⟨id, hfirst⟩ := firstMatch_of_stopsAt (w := client.world) hbuilt h s
  obtain ⟨value, hvalue, hserve⟩ := serveRule_build hrange version index user out id
  refine ⟨value, id, hvalue, ?_⟩
  rw [evaluate_untargeted hon htargets,
    evaluateFromRules_of_typed (getType_build flagBuilder version) out htyped,
    Run.bind_of_ok (evaluateRules_of_firstMatch hfirst (by rw [Nat.zero_add]; exact hserve))]
  rfl

theorem evaluate_of_misses (h : ∀ rule ∈ flagBuilder.rules, RuleMisses user rule)
    (hon : flagBuilder.on = true) (htargets : flagBuilder.targets = [])
    (hrange : InRange flagBuilder flagBuilder.fallthroughVariation) :
    ∃ value, flagBuilder.variations.arrayLookup flagBuilder.fallthroughVariation.toNat = some value ∧
      evaluate client user fuel (flagBuilderBuild flagBuilder version) out s =
        .ok ((.matched, ((out.setReason .fallthrough).setExtra (.fallthrough false)).serve value
          flagBuilder.fallthroughVariation.toNat), s) := by
  obtain ⟨htyped, hbuilt⟩ := rules_build flagBuilder version
  obtain ⟨value, hvalue, hserve⟩ := evaluateFallthrough_build hrange version user out
  refine ⟨value, hvalue, ?_⟩
  rw [evaluate_untargeted hon htargets,
    evaluateFromRules_of_typed (getType_build flagBuilder version) out htyped,
    Run.bind_of_ok (evaluateRules_of_noMatch (noMatch_of_misses hbuilt h s))]
  simp only [hserve, Run.lift_ok, Run.pure_run]

theorem stopsAt_or_misses (hon : flagBuilder.on = true) (htargets : flagBuilder.targets = [])
    {e : Outputs} (h : evaluate client user fuel (flagBuilderBuild flagBuilder version) out s =
      .ok ((.matched, e), t)) :
    (∃ index rule, StopsAt user flagBuilder.rules index rule) ∨
      ∀ rule ∈ flagBuilder.rules, RuleMisses user rule := by
  obtain ⟨htyped, hbuilt⟩ := rules_build flagBuilder version
  rw [evaluate_untargeted hon htargets,
    evaluateFromRules_of_typed (getType_build flagBuilder version) out htyped] at h
  obtain ⟨served, u, hserved, hlast⟩ := Run.bind_eq_ok.mp h
  rcases evaluateRules_eq_ok hserved with ⟨status, hmalformed, rfl⟩ |
    ⟨index, json, r, hfirst, -, -⟩ | ⟨hno, -⟩
  · cases hlast
    cases hmalformed.error
  · obtain ⟨rule, -, -, hstops⟩ := stopsAt_of_firstMatch hbuilt hfirst
    exact .inl ⟨index, rule, hstops⟩
  · exact .inr (misses_of_noMatch hbuilt hno)

end Evaluated

structure GivesVariation (flagBuilder : FlagBuilder) (variation : Int) (e : Outputs) : Prop where
  value : e.value = flagBuilder.variations.arrayLookup variation.toNat
  hasVariation : e.details.hasVariation = true
  variationIndex : e.details.variationIndex = variation.toNat

section Order

theorem getElem?_reverse_eq {rules : List FlagRuleBuilder} {first last : ℕ}
    (hlength : first + last + 1 = rules.length) : rules.reverse[first]? = rules[last]? := by
  rw [List.getElem?_reverse (by omega)]
  congr 1
  omega

theorem InRange.toNat_inj {flagBuilder : FlagBuilder} {variation variation' : Int}
    (h : InRange flagBuilder variation) (h' : InRange flagBuilder variation')
    (heq : variation.toNat = variation'.toNat) : variation = variation' := by
  have hnonneg := h.nonneg
  have hnonneg' := h'.nonneg
  omega

variable [Externals] {user : User} {rules : List FlagRuleBuilder} {rule rule' : FlagRuleBuilder}
  {index : ℕ}

structure FirstRule (user : User) (rules : List FlagRuleBuilder) (index : ℕ) (rule : FlagRuleBuilder) :
    Prop where
  found : rules[index]? = some rule
  matching : RuleMatches user rule
  before : ∀ earlier < index, ∀ other, rules[earlier]? = some other → ¬ RuleMatches user other

structure LastRule (user : User) (rules : List FlagRuleBuilder) (index : ℕ) (rule : FlagRuleBuilder) :
    Prop where
  found : rules[index]? = some rule
  matching : RuleMatches user rule
  after : ∀ later > index, ∀ other, rules[later]? = some other → RuleMisses user other

structure ServesInOrder {σ : Type} (flagBuilder : FlagBuilder) (rules : List FlagRuleBuilder)
    (user : User) (result : Except Halt (Evaluation × σ)) : Prop where
  rule : ∀ index rule, FirstRule user rules index rule → ∃ e t, result = .ok ((.matched, e), t) ∧
    GivesVariation flagBuilder rule.variation e ∧ e.details.reason = .ruleMatch ∧
      ∃ id inExperiment, e.details.extra = .rule ⟨index, id, inExperiment⟩
  fallthrough : (∀ rule ∈ rules, ¬ RuleMatches user rule) → ∃ e t, result = .ok ((.matched, e), t) ∧
    GivesVariation flagBuilder flagBuilder.fallthroughVariation e

def OrderUnseen (user : User) (rules : List FlagRuleBuilder) : Prop :=
  (∀ rule ∈ rules, RuleMisses user rule) ∨
    ∃ first rule last rule', FirstRule user rules first rule ∧ LastRule user rules last rule' ∧
      first + last + 1 = rules.length ∧ rule.variation = rule'.variation

theorem FirstRule.unique {index' : ℕ} (h : FirstRule user rules index rule)
    (h' : FirstRule user rules index' rule') : index = index' ∧ rule = rule' := by
  have hindex : index = index' := by
    rcases lt_trichotomy index index' with hlt | heq | hlt
    · exact absurd h.matching (h'.before index hlt rule h.found)
    · exact heq
    · exact absurd h'.matching (h.before index' hlt rule' h'.found)
  subst hindex
  exact ⟨rfl, Option.some.inj (h.found.symm.trans h'.found)⟩

theorem exists_firstRule (h : rule ∈ rules) (hmatches : RuleMatches user rule) :
    ∃ index rule, FirstRule user rules index rule := by
  classical
  obtain ⟨index, hindex⟩ := List.getElem?_of_mem h
  have hexists : ∃ index, ∃ rule, rules[index]? = some rule ∧ RuleMatches user rule :=
    ⟨index, rule, hindex, hmatches⟩
  obtain ⟨found, hfound, hmatching⟩ := Nat.find_spec hexists
  refine ⟨Nat.find hexists, found, hfound, hmatching, ?_⟩
  intro earlier hlt other hother hmatches'
  exact Nat.find_min hexists hlt ⟨other, hother, hmatches'⟩

theorem LastRule.stopsAt {first last : ℕ} (h : LastRule user rules last rule)
    (hlength : first + last + 1 = rules.length) : StopsAt user rules.reverse first rule := by
  refine ⟨(getElem?_reverse_eq hlength).trans h.found, h.matching, ?_⟩
  intro earlier hlt other hother
  have hmirror : earlier + (rules.length - 1 - earlier) + 1 = rules.length := by omega
  rw [getElem?_reverse_eq hmirror] at hother
  exact h.after _ (by omega) other hother

theorem StopsAt.lastRule (h : StopsAt user rules.reverse index rule) :
    ∃ last, index + last + 1 = rules.length ∧ LastRule user rules last rule := by
  have hlt : index < rules.length := by
    simpa using (List.getElem?_eq_some_iff.mp h.found).1
  have hlength : index + (rules.length - 1 - index) + 1 = rules.length := by omega
  refine ⟨_, hlength, (getElem?_reverse_eq hlength).symm.trans h.found, h.matching, ?_⟩
  intro later hlater other hother
  have hbound : later < rules.length := (List.getElem?_eq_some_iff.mp hother).1
  have hmirror : rules.length - 1 - later + later + 1 = rules.length := by omega
  exact h.before (rules.length - 1 - later) (by omega) other
    ((getElem?_reverse_eq hmirror).trans hother)

variable {flagBuilder : FlagBuilder} {version : Int} {σ : Type} {client : Client σ} {fuel : ℕ}
  {out : Outputs} {s : σ}

theorem OrderUnseen.serves (h : OrderUnseen user rules) (hon : flagBuilder.on = true)
    (htargets : flagBuilder.targets = []) (hrules : flagBuilder.rules = rules.reverse)
    (hrange : ∀ rule ∈ rules, InRange flagBuilder rule.variation)
    (hfallthrough : InRange flagBuilder flagBuilder.fallthroughVariation) :
    ServesInOrder flagBuilder rules user
      (evaluate client user fuel (flagBuilderBuild flagBuilder version) out s) := by
  rcases h with hmisses | ⟨first, rule, last, rule', hfirst, hlast, hlength, hvariation⟩
  · refine ⟨?_, fun _ => ?_⟩
    · intro index rule hfirst
      exact absurd hfirst.matching (hmisses rule (List.mem_of_getElem? hfirst.found)).not_matches
    · have hmisses' : ∀ rule ∈ flagBuilder.rules, RuleMisses user rule := by
        intro rule hrule
        exact hmisses rule (by simpa [hrules] using hrule)
      obtain ⟨value, hvalue, hevaluate⟩ := evaluate_of_misses hmisses' hon htargets hfallthrough
      exact ⟨_, s, hevaluate, hvalue.symm, rfl, rfl⟩
  · have hstops := hlast.stopsAt hlength
    have hmem : rule' ∈ rules := List.mem_of_getElem? hlast.found
    rw [← hrules] at hstops
    obtain ⟨value, id, hvalue, hevaluate⟩ := hstops.evaluate_eq hon htargets (hrange rule' hmem)
    refine ⟨?_, fun hnone => absurd hlast.matching (hnone rule' hmem)⟩
    intro index found hfound
    obtain ⟨rfl, rfl⟩ := hfound.unique hfirst
    rw [hvariation]
    exact ⟨_, s, hevaluate, ⟨hvalue.symm, rfl, rfl⟩, rfl, some id, false, rfl⟩

theorem ServesInOrder.orderUnseen (hon : flagBuilder.on = true) (htargets : flagBuilder.targets = [])
    (hrules : flagBuilder.rules = rules.reverse)
    (hrange : ∀ rule ∈ rules, InRange flagBuilder rule.variation)
    (h : ServesInOrder flagBuilder rules user
      (evaluate client user fuel (flagBuilderBuild flagBuilder version) out s)) :
    OrderUnseen user rules := by
  by_cases hmatch : ∃ rule ∈ rules, RuleMatches user rule
  · obtain ⟨_, hmem, hmatches⟩ := hmatch
    obtain ⟨first, rule, hfirst⟩ := exists_firstRule hmem hmatches
    obtain ⟨e, t, hevaluate, hserves, -, id, inExperiment, hextra⟩ := h.rule first rule hfirst
    rcases stopsAt_or_misses hon htargets hevaluate with ⟨index, rule', hstops⟩ | hmisses
    · obtain ⟨last, hlength, hlast⟩ := (hrules ▸ hstops : StopsAt user rules.reverse index rule').lastRule
      have hmem' : rule' ∈ rules := List.mem_of_getElem? hlast.found
      obtain ⟨value, id', -, hserved⟩ := hstops.evaluate_eq hon htargets (hrange rule' hmem')
      rw [hevaluate] at hserved
      cases hserved
      cases hextra
      refine .inr ⟨first, rule, last, rule', hfirst, hlast, hlength, ?_⟩
      exact (hrange rule (List.mem_of_getElem? hfirst.found)).toNat_inj (hrange rule' hmem')
        hserves.variationIndex.symm
    · have hmem' : rule ∈ flagBuilder.rules := by
        rw [hrules, List.mem_reverse]
        exact List.mem_of_getElem? hfirst.found
      exact absurd hfirst.matching (hmisses rule hmem').not_matches
  · have hnone : ∀ rule ∈ rules, ¬ RuleMatches user rule :=
      fun rule hrule hmatches => hmatch ⟨rule, hrule, hmatches⟩
    obtain ⟨e, t, hevaluate, -⟩ := h.fallthrough hnone
    rcases stopsAt_or_misses hon htargets hevaluate with ⟨index, rule', hstops⟩ | hmisses
    · have hmem : rule' ∈ rules := by
        have hmem' := List.mem_of_getElem? hstops.found
        rwa [hrules, List.mem_reverse] at hmem'
      exact absurd hstops.matching (hnone rule' hmem)
    · exact .inl fun rule hrule => hmisses rule (by rw [hrules, List.mem_reverse]; exact hrule)

end Order

end ServerSdk
