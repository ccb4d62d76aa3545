import ServerSdk.Evaluate.Meaning

namespace ServerSdk

open Program

def ValidIndex (flag : Json) (index : Option Json) : Prop := (valueAt flag index).isSome = true

structure WellFormedTarget (flag target : Json) : Prop where
  isObject : target.getType = .object
  values : TextList (optionalField target "values" .array)
  variation : ValidIndex flag (requiredField target "variation" .number)

inductive WellFormedChoice (flag : Json) : Json → Prop
  | fixed {varOrRoll variation : Json} (hobj : varOrRoll.getType = .object)
      (hvariation : optionalField varOrRoll "variation" .number = .present variation)
      (hvalid : ValidIndex flag (some variation)) : WellFormedChoice flag varOrRoll
  | rollout (r : Rollout) (hvalid : ∀ entry ∈ r.variations, ValidIndex flag (variationOf entry)) :
      WellFormedChoice flag r.varOrRoll

inductive WellFormedRuleClause (clause : Json) : Prop
  | segments {values : List String} {negate : Bool} (h : SegmentClause clause values negate)
  | plain (h : WellFormedClause clause) (hop : ¬ InSegments clause)

structure WellFormedRule (flag rule : Json) : Prop where
  isObject : rule.getType = .object
  clausesTyped : optionalField rule "clauses" .array ≠ .mistyped
  clauses : ∀ clause ∈ clausesOf rule, WellFormedRuleClause clause
  choice : WellFormedChoice flag rule
  id : optionalField rule "id" .text ≠ .mistyped

structure WellFormedTargeting (flag : Json) : Prop where
  isObject : flag.getType = .object
  key : ∃ key, requiredField flag "key" .text = some (.text key)
  salt : ∃ salt, requiredField flag "salt" .text = some (.text salt)
  targetsTyped : optionalField flag "targets" .array ≠ .mistyped
  targets : ∀ target ∈ targetsOf flag, WellFormedTarget flag target
  rulesTyped : optionalField flag "rules" .array ≠ .mistyped
  rules : ∀ rule ∈ rulesOf flag, WellFormedRule flag rule
  fallthrough : ∃ varOrRoll, flag.objectLookup "fallthrough" = some varOrRoll ∧
    WellFormedChoice flag varOrRoll

section Targets

variable {flag : Json} {user : User}

theorem evaluateTargets_decided {targets : List Json} (hobj : flag.getType = .object)
    (h : ∀ target ∈ targets, WellFormedTarget flag target) (out : Outputs) :
    (∃ before target, FirstSplit (fun target => NamesUser target "values" user) targets before target ∧
      evaluateTargets flag user out targets = .ok (some (settled .matched (out.setReason .targetMatch)
        (valueAt flag (requiredField target "variation" .number))))) ∨
    ((∀ target ∈ targets, ¬ NamesUser target "values" user) ∧
      evaluateTargets flag user out targets = .ok none) := by
  induction targets with
  | nil => exact .inr ⟨List.forall_mem_nil _, rfl⟩
  | cons target targets ih =>
      rw [List.forall_mem_cons] at h
      obtain ⟨htarget, hrest⟩ := h
      rw [evaluateTargets_cons_of_object htarget.isObject htarget.values.typed,
        listsUser_eq htarget.values, Checked.ok_bind]
      by_cases hnames : NamesUser target "values" user
      · have hfirst : FirstSplit (fun target => NamesUser target "values" user) (target :: targets) []
            target :=
          @FirstSplit.head _ (fun target => NamesUser target "values" user) _ hnames targets
        refine .inl ⟨[], target, hfirst, ?_⟩
        rw [if_pos (decide_eq_true hnames)]
        have hvariation := htarget.variation
        cases hfield : requiredField target "variation" .number with
        | none =>
            rw [hfield] at hvariation
            cases hvariation
        | some variation =>
            simp only [addValueAs_of_object hobj, Checked.ok_bind]
      · rw [if_neg (by simpa using hnames)]
        rcases ih hrest with ⟨before, first, hfirst, hdecided⟩ | ⟨hnone, hdecided⟩
        · exact .inl ⟨target :: before, first, hfirst.cons hnames, hdecided⟩
        · exact .inr ⟨List.forall_mem_cons.mpr ⟨hnames, hnone⟩, hdecided⟩

end Targets

section Choice

variable [Externals] {flag : Json} {user : User}

theorem selectVariation_mem (bucket : Rat) (inExperiment : Bool) {variations : List Json}
    (hweighted : ∀ entry ∈ variations, WeightedVariation entry) (sum : Rat) (last : Json × Bool) :
    ∃ marked index, selectVariation bucket inExperiment sum (some last.1, last.2) variations =
        .ok (some (marked, some index)) ∧
      (index = last.1 ∨ ∃ entry ∈ variations, variationOf entry = some index) := by
  induction variations generalizing sum last with
  | nil => exact ⟨_, last.1, rfl, .inl rfl⟩
  | cons entry variations ih =>
      rw [List.forall_mem_cons] at hweighted
      obtain ⟨hentry, hrest⟩ := hweighted
      obtain ⟨weight, hweight⟩ := Option.isSome_iff_exists.mp hentry.weight
      obtain ⟨index, hindex⟩ := Option.isSome_iff_exists.mp hentry.variation
      have huntracked := hentry.untracked
      have hmem : ∃ other ∈ entry :: variations, variationOf other = some index :=
        ⟨entry, List.mem_cons_self .., hindex⟩
      simp only [selectVariation, lookupRequired_of_object hentry.isObject,
        lookupOptional_of_object hentry.isObject, Checked.ok_bind, hweight, hindex]
      cases hkind : optionalField entry "untracked" .bool with
      | mistyped => exact absurd hkind huntracked
      | absent | present _ =>
          split_ifs
          · exact ⟨_, index, rfl, .inr hmem⟩
          · obtain ⟨marked, chosen, hselect, hchosen⟩ := ih hrest _ (index, _)
            refine ⟨marked, chosen, hselect, .inr ?_⟩
            rcases hchosen with rfl | ⟨other, hother, hvariation⟩
            · exact hmem
            · exact ⟨other, List.mem_cons_of_mem _ hother, hvariation⟩

theorem Rollout.chooses (r : Rollout) (hhex : HexifyFits) (huser : WellFormedUser user)
    (hvalid : ∀ entry ∈ r.variations, ValidIndex flag (variationOf entry)) (key salt : String) :
    ∃ inExperiment index, variationIndexForUser r.varOrRoll user key salt =
      .ok (some (inExperiment, index)) ∧ ValidIndex flag index := by
  obtain ⟨⟨found, bucket⟩, hbucket⟩ := (@bucketUser_returns _ user hhex key r.attr salt
    r.seedValue).mpr (huser.readable r.attr)
  rw [r.variationIndexForUser_eq, bucketVariations, hbucket, Checked.ok_bind]
  obtain ⟨entry, rest, hvariations⟩ := List.exists_cons_of_ne_nil r.nonempty
  have hweighted := r.weighted
  rw [hvariations, List.forall_mem_cons] at hweighted hvalid
  obtain ⟨hentry, hrest⟩ := hweighted
  obtain ⟨index, hindex⟩ := Option.isSome_iff_exists.mp hentry.variation
  have hindex : variationOf entry = some index := hindex
  obtain ⟨marked, chosen, hselect, hchosen⟩ := selectVariation_mem bucket r.isExperiment
    (List.forall_mem_cons.mpr ⟨hentry, hrest⟩) 0 (index, false)
  have hfirst : selectVariation bucket r.isExperiment 0 (none, false) (entry :: rest) =
      selectVariation bucket r.isExperiment 0 (some index, false) (entry :: rest) := rfl
  refine ⟨marked, some chosen, ?_, ?_⟩
  · rw [hvariations]
    exact hfirst.trans hselect
  · rcases hchosen with rfl | ⟨other, hother, hvariation⟩
    · exact hindex ▸ hvalid.1
    · rw [← hvariation]
      rcases List.mem_cons.mp hother with rfl | hother
      · exact hvalid.1
      · exact hvalid.2 other hother

theorem WellFormedChoice.chooses {varOrRoll : Json} (h : WellFormedChoice flag varOrRoll)
    (hflag : WellFormedTargeting flag) (hhex : HexifyFits) (huser : WellFormedUser user) :
    ∃ inExperiment index, getIndexForVariationOrRollout flag (some varOrRoll) user =
      .ok (some (inExperiment, index)) ∧ ValidIndex flag index := by
  obtain ⟨key, hkey⟩ := hflag.key
  obtain ⟨salt, hsalt⟩ := hflag.salt
  simp only [getIndexForVariationOrRollout, lookupRequired_of_object hflag.isObject, Checked.ok_bind,
    hkey, hsalt, Json.getText_text, Option.getD_some]
  cases h with
  | @fixed _ variation hobj hvariation hvalid =>
      refine ⟨false, some variation, ?_, hvalid⟩
      rw [variationIndexForUser, lookupOptional_of_object hobj, Checked.ok_bind, hvariation]
      rfl
  | rollout r hvalid => exact r.chooses hhex huser hvalid key salt

end Choice

section Rules

theorem Settles.concludes {σ : Type} {m : Checked EvalStatus} {p : Prop} (h : Settles m p) (s : σ) :
    Concludes (Run.lift m) s p := by
  rcases h with ⟨hmatched, hp⟩ | ⟨hmiss, hp⟩
  · exact ⟨.matched, s, by rw [hmatched]; rfl, .inl rfl, by simpa using hp⟩
  · exact ⟨.miss, s, by rw [hmiss]; rfl, .inr rfl, by simpa using hp⟩

theorem filterMap_getText (texts : List String) :
    (texts.map Json.text).filterMap Json.getText = texts := by
  rw [List.filterMap_map]
  exact List.filterMap_some

variable [Externals] {σ : Type} {c : Content} {user : User} {w : World σ} {flag : Json}

theorem clauseMatchesUser_of_attribute {clause : Json} (h : WellFormedClause clause)
    (hop : ¬ InSegments clause) :
    clauseMatchesUser w clause user = Run.lift (clauseMatchesUserNoSegments clause user) := by
  obtain ⟨op, hfield⟩ := Option.isSome_iff_exists.mp h.op
  obtain ⟨text, rfl⟩ := Json.getType_eq_text.mp (requiredField_eq_some.mp hfield).2
  have hother : ¬ Json.getText (.text text) = some "segmentMatch" := by
    intro htext
    rw [Json.getText_text] at htext
    cases htext
    exact hop hfield
  rw [clauseMatchesUser, if_neg (not_not_intro h.isObject), lookupRequired_of_object h.isObject,
    Run.lift_ok, pure_bind, hfield]
  simp only [if_neg hother]

theorem WellFormedRuleClause.concludes {clause : Json} (h : WellFormedRuleClause clause)
    (hhex : HexifyFits) (hserves : ServesSegments w (c.get .segment)) (huser : WellFormedUser user)
    (s : σ) : Concludes (clauseMatchesUser w clause user) s (ClauseApplies c user clause) := by
  cases h with
  | @segments values negate h =>
      rw [h.clauseMatchesUser_eq]
      refine (segmentList_concludes hhex hserves huser h values s).congr ?_
      rw [ClauseApplies, h.values, filterMap_getText, h.negate]
      exact ⟨fun hholds => ⟨fun _ => hholds, fun hop => absurd h.op hop⟩, fun happlies => happlies.1 h.op⟩
  | plain h hop =>
      rw [clauseMatchesUser_of_attribute h hop]
      refine ((h.settles huser).concludes s).congr ?_
      exact ⟨fun hholds => ⟨fun hin => absurd hin hop, fun _ => hholds⟩, fun happlies => happlies.2 hop⟩

theorem clausesMatchUser_concludes {clauses : List Json}
    (h : ∀ clause ∈ clauses, WellFormedRuleClause clause) (hhex : HexifyFits)
    (hserves : ServesSegments w (c.get .segment)) (huser : WellFormedUser user) (s : σ) :
    Concludes (clausesMatchUser w user clauses) s (∀ clause ∈ clauses, ClauseApplies c user clause) := by
  induction clauses generalizing s with
  | nil => exact ⟨.matched, s, rfl, .inl rfl, by simp⟩
  | cons clause clauses ih =>
      rw [List.forall_mem_cons] at h
      have hobj : clause.getType = .object := by
        cases h.1 with
        | segments h => exact h.isObject
        | plain h => exact h.isObject
      obtain ⟨status, t, hrun, hcases, hstatus⟩ := h.1.concludes hhex hserves huser s
      rw [clausesMatchUser, if_neg (not_not_intro hobj), Concludes, Run.bind_of_ok hrun]
      rcases hcases with rfl | rfl
      · obtain ⟨status, t, hrun, hcases, hrest⟩ := ih h.2 t
        refine ⟨status, t, hrun, hcases, ?_⟩
        rw [hrest, List.forall_mem_cons]
        exact (and_iff_right (hstatus.mp rfl)).symm
      · refine ⟨.miss, t, rfl, .inr rfl, ?_⟩
        rw [List.forall_mem_cons]
        exact iff_of_false (by simp) fun hall => by cases hstatus.mpr hall.1

theorem WellFormedRule.concludes {rule : Json} (h : WellFormedRule flag rule) (hhex : HexifyFits)
    (hserves : ServesSegments w (c.get .segment)) (huser : WellFormedUser user) (s : σ) :
    Concludes (ruleMatchesUser w rule user) s (RuleApplies c user rule) := by
  have htyped := h.clausesTyped
  have hclauses := clausesMatchUser_concludes h.clauses hhex hserves huser s
  rw [ruleMatchesUser, lookupOptional_of_object h.isObject, Run.lift_ok, pure_bind]
  rw [clausesOf] at hclauses
  rw [RuleApplies, clausesOf]
  cases hfield : optionalField rule "clauses" .array with
  | mistyped => exact absurd hfield htyped
  | absent | present _ =>
      rw [hfield] at hclauses
      exact hclauses

theorem rules_decided {rules : List Json} (h : ∀ rule ∈ rules, WellFormedRule flag rule)
    (hhex : HexifyFits) (hserves : ServesSegments w (c.get .segment)) (huser : WellFormedUser user)
    (s : σ) :
    (∃ before rule t, FirstSplit (RuleApplies c user) rules before rule ∧
      FirstMatch w user rules s before.length rule t) ∨
    ((∀ rule ∈ rules, ¬ RuleApplies c user rule) ∧ ∃ t, NoMatch w user rules s t) := by
  induction rules generalizing s with
  | nil => exact .inr ⟨List.forall_mem_nil _, s, .nil s⟩
  | cons rule rules ih =>
      rw [List.forall_mem_cons] at h
      obtain ⟨status, t, hrun, hcases, hstatus⟩ := h.1.concludes hhex hserves huser s
      rcases hcases with rfl | rfl
      · exact .inl ⟨[], rule, t, .head (hstatus.mp rfl) rules, .here h.1.isObject hrun⟩
      · have hmiss : ¬ RuleApplies c user rule := fun happlies => by cases hstatus.mpr happlies
        rcases ih h.2 t with ⟨before, first, u, hfirst, hmatch⟩ | ⟨hnone, u, hno⟩
        · exact .inl ⟨rule :: before, first, u, hfirst.cons hmiss, .later h.1.isObject hrun hmatch⟩
        · exact .inr ⟨List.forall_mem_cons.mpr ⟨hmiss, hnone⟩, u, .cons h.1.isObject hrun hno⟩

theorem evaluateTargeting_decides {client : Client σ} (h : WellFormedTargeting flag)
    (hhex : HexifyFits) (hserves : ServesSegments client.world (c.get .segment))
    (huser : WellFormedUser user) (events : Option (List Json)) (s : σ) :
    ∃ serving t, DecidesServing c user flag serving ∧ serving.verdict.status = .matched ∧
      serving.variation.isSome = true ∧
      evaluateTargeting client user flag { freshOutputs with events } s =
        .ok ((.matched, serving.outputs events), t) := by
  rcases evaluateTargets_decided h.isObject h.targets { freshOutputs with events } with
    ⟨before, target, hfirst, hdecided⟩ | ⟨hnone, huntargeted⟩
  · have hvalid := (h.targets target hfirst.mem).variation
    refine ⟨⟨.target, valueAt flag (requiredField target "variation" .number)⟩, s, .target hfirst, rfl,
      hvalid, ?_⟩
    rw [evaluateTargeting_of_typed h.isObject _ h.targetsTyped]
    rw [targetsOf] at hdecided
    rw [hdecided]
    obtain ⟨⟨value, index⟩, hvalue⟩ := Option.isSome_iff_exists.mp hvalid
    rw [hvalue]
    rfl
  · have hnot : ¬ Targeted user flag := by
      rintro ⟨target, hmem, hnames⟩
      exact hnone target hmem hnames
    have huntargeted := evaluateTargets_eq_none.mp huntargeted
    rcases rules_decided h.rules hhex hserves huser s with
      ⟨before, rule, t, hfirst, hmatch⟩ | ⟨hnone, t, hno⟩
    · have hrule := h.rules rule hfirst.mem
      obtain ⟨inExperiment, index, hindex, hvalid⟩ := hrule.choice.chooses h hhex huser
      obtain ⟨⟨value, i⟩, hvalue⟩ := Option.isSome_iff_exists.mp hvalid
      refine ⟨_, t, .rule hnot hfirst hindex, rfl, hvalid, ?_⟩
      refine evaluateTargeting_of_rule h.isObject _ h.targetsTyped huntargeted h.rulesTyped hmatch ?_
      have hid := hrule.id
      simp only [serveRule, hindex, Checked.ok_bind, addValue_of_object h.isObject, hvalue,
        lookupOptional_of_object hrule.isObject, ruleId, Option.isSome_some, if_true]
      cases hfield : optionalField rule "id" .text with
      | mistyped => exact absurd hfield hid
      | absent | present _ => rfl
    · obtain ⟨varOrRoll, hlookup, hchoice⟩ := h.fallthrough
      obtain ⟨inExperiment, index, hindex, hvalid⟩ := hchoice.chooses h hhex huser
      obtain ⟨⟨value, i⟩, hvalue⟩ := Option.isSome_iff_exists.mp hvalid
      rw [← hlookup] at hindex
      refine ⟨_, t, .fallthrough hnot hnone hindex, rfl, hvalid, ?_⟩
      refine evaluateTargeting_of_fallthrough h.isObject _ h.targetsTyped huntargeted h.rulesTyped hno ?_
      simp only [evaluateFallthrough, hindex, Checked.ok_bind, addValueAs_of_object h.isObject, hvalue]
      rfl

end Rules

end ServerSdk
