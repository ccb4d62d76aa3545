import ServerSdk.Evaluate.Segment

namespace ServerSdk

open Program

def Searchable (text : String) : List Json → Prop
  | [] => True
  | item :: items => item.getType = .text ∧ (item ≠ .text text → Searchable text items)

def Readable (user : User) (attr : String) : Prop :=
  builtinAttribute user attr = none → ∀ custom, user.custom = some custom →
    custom.getType = .object

theorem textInItems_returns {text : String} {items : List Json} :
    Checked.Returns (textInItems text items) ↔ Searchable text items := by
  induction items with
  | nil => simp [textInItems, Searchable]
  | cons item items ih =>
      cases hitem : item.getText with
      | none =>
          have htype : item.getType ≠ .text := Json.getText_eq_none.mp hitem
          simp [textInItems, hitem, Searchable, htype]
      | some t =>
          rw [Json.getText_eq_some] at hitem
          subst hitem
          by_cases ht : t = text
          · simp [textInItems, Searchable, ht, Json.getType]
          · simpa [textInItems, Searchable, ht, Json.getType] using ih

def ListSearchable (field : Field) (user : User) : Prop :=
  ∀ values, field = .present values → Searchable user.key values.getIter

theorem listsUser_returns {field : Field} {user : User} :
    Checked.Returns (listsUser field user) ↔ ListSearchable field user := by
  cases field with
  | mistyped => simp [listsUser, ListSearchable]
  | absent => simp [listsUser, ListSearchable]
  | present values => simpa [listsUser, ListSearchable, textInArray] using textInItems_returns

theorem valueOfAttribute_returns {user : User} {attr : String} :
    Checked.Returns (valueOfAttribute user attr) ↔ Readable user attr := by
  simp only [valueOfAttribute, Readable]
  cases builtinAttribute user attr with
  | some value => simp
  | none =>
      cases user.custom with
      | none => simp
      | some custom =>
          by_cases hobj : custom.getType = .object
          · simp [hobj, Checked.check]
          · simp [hobj, Checked.check]

theorem maybeNegate_returns {clause : Json} (h : clause.getType = .object) (status : EvalStatus) :
    Checked.Returns (maybeNegate clause status) := by
  simp only [maybeNegate, lookupOptional_of_object h, Checked.ok_bind]
  split
  · exact Checked.returns_pure _
  · cases optionalField clause "negate" .bool <;> exact Checked.returns_pure _

theorem matchElements_returns {f : OpFn} {clause : Json} (h : clause.getType = .object)
    (values elements : List Json) : Checked.Returns (matchElements f clause values elements) := by
  induction elements with
  | nil => exact maybeNegate_returns h _
  | cons element elements ih =>
      simp only [matchElements]
      split
      · exact Checked.returns_pure _
      · split
        · exact maybeNegate_returns h _
        · exact ih

theorem matchAttribute_returns {f : OpFn} {clause : Json} (h : clause.getType = .object)
    (values : List Json) (attributeValue : Json) :
    Checked.Returns (matchAttribute f clause values attributeValue) := by
  cases attributeValue with
  | null => exact Checked.returns_pure _
  | array elements => exact matchElements_returns h values elements
  | bool b => exact maybeNegate_returns h _
  | number n => exact maybeNegate_returns h _
  | text s => exact maybeNegate_returns h _
  | object fields => exact maybeNegate_returns h _

theorem matchUserAttribute_returns {f : OpFn} {clause : Json} (h : clause.getType = .object)
    {user : User} {attr : String} {values : List Json} :
    Checked.Returns (matchUserAttribute f clause user attr values) ↔ Readable user attr := by
  rw [matchUserAttribute, Checked.returns_bind_iff, valueOfAttribute_returns]
  refine and_iff_left (fun found _ => ?_)
  cases found with
  | none => exact Checked.returns_pure _
  | some value => exact matchAttribute_returns h values value

def bucketAttribute (obj : Json) : Option String :=
  match optionalField obj "bucketBy" .text with
  | .mistyped => none
  | .absent => some "key"
  | .present bucketBy => bucketBy.getText

theorem getBucketAttribute_of_object {obj : Json} (h : obj.getType = .object) :
    getBucketAttribute obj = .ok (bucketAttribute obj) := by
  simp only [getBucketAttribute, bucketAttribute, lookupOptional_of_object h, Checked.ok_bind]
  cases optionalField obj "bucketBy" .text <;> rfl

section Clauses

variable [Externals] (user : User)

structure SafeClause (clause : Json) : Prop where
  object : clause.getType = .object
  reads : ∀ op attr, requiredField clause "op" .text = some (.text op) →
    (lookupOperation op).isSome → requiredField clause "attribute" .text = some (.text attr) →
    optionalField clause "values" .array ≠ .mistyped → Readable user attr

theorem clauseMatchesUserNoSegments_returns {clause : Json} :
    Checked.Returns (clauseMatchesUserNoSegments clause user) ↔ SafeClause user clause := by
  by_cases hobj : clause.getType = .object
  swap
  · constructor
    · rintro ⟨r, hr⟩
      simp only [clauseMatchesUserNoSegments, lookupRequired_of_not_object hobj] at hr
      cases hr
    · intro h
      exact absurd h.object hobj
  · simp only [clauseMatchesUserNoSegments, lookupRequired_of_object hobj,
      lookupOptional_of_object hobj, Checked.ok_bind]
    cases hop : requiredField clause "op" .text with
    | none =>
        refine ⟨fun _ => ⟨hobj, ?_⟩, fun _ => Checked.returns_pure _⟩
        intro op attr hop'
        rw [hop] at hop'
        cases hop'
    | some op =>
        obtain ⟨-, htext⟩ := requiredField_eq_some.mp hop
        obtain ⟨opText, rfl⟩ := Json.getType_eq_text.mp htext
        simp only [Json.getText_text, Option.getD_some]
        cases hfn : lookupOperation opText with
        | none =>
            refine ⟨fun _ => ⟨hobj, ?_⟩, fun _ => Checked.returns_pure _⟩
            intro op attr hop' hsome
            rw [hop] at hop'
            cases hop'
            rw [hfn] at hsome
            cases hsome
        | some fn =>
            cases hattr : requiredField clause "attribute" .text with
            | none =>
                refine ⟨fun _ => ⟨hobj, ?_⟩, fun _ => Checked.returns_pure _⟩
                intro op attr hop' _ hattr'
                rw [hattr] at hattr'
                cases hattr'
            | some attr =>
                obtain ⟨-, htext⟩ := requiredField_eq_some.mp hattr
                obtain ⟨attrText, rfl⟩ := Json.getType_eq_text.mp htext
                have hsafe : SafeClause user clause ↔
                    (optionalField clause "values" .array ≠ .mistyped → Readable user attrText) := by
                  constructor
                  · intro h
                    exact h.reads opText attrText hop (by rw [hfn]; rfl) hattr
                  · intro h
                    refine ⟨hobj, ?_⟩
                    intro op attr hop' _ hattr' hvalues
                    rw [hattr] at hattr'
                    cases hattr'
                    exact h hvalues
                rw [hsafe]
                simp only [Json.getText_text, Option.getD_some]
                cases optionalField clause "values" .array with
                | mistyped => simp
                | absent => simp [matchUserAttribute_returns hobj]
                | present values => simp [matchUserAttribute_returns hobj]

def SafeSegmentClauses : List Json → Prop
  | [] => True
  | clause :: clauses => SafeClause user clause ∧
      (clauseMatchesUserNoSegments clause user = .ok .matched → SafeSegmentClauses clauses)

theorem segmentClausesMatchUser_returns {clauses : List Json} :
    Checked.Returns (segmentClausesMatchUser user clauses) ↔ SafeSegmentClauses user clauses := by
  induction clauses with
  | nil => simp [segmentClausesMatchUser, SafeSegmentClauses]
  | cons clause clauses ih =>
      rw [segmentClausesMatchUser, Checked.returns_bind_iff, clauseMatchesUserNoSegments_returns,
        SafeSegmentClauses]
      refine and_congr_right (fun _ => ⟨fun h hm => ih.mp (h _ hm), fun h status hs => ?_⟩)
      cases status with
      | matched => exact ih.mpr (h hs)
      | miss => exact Checked.returns_pure _
      | mem => exact Checked.returns_pure _
      | schema => exact Checked.returns_pure _
      | store => exact Checked.returns_pure _

def HexifyFits : Prop := ∀ raw, (Externals.hexify (Externals.sha1 raw) 17).1 = 16

theorem bucketUser_returns (hhex : HexifyFits) {segmentKey attr salt : String}
    {seed : Option Int} :
    Checked.Returns (bucketUser user segmentKey attr salt seed) ↔ Readable user attr := by
  rw [bucketUser, Checked.returns_bind_iff, valueOfAttribute_returns]
  refine and_iff_left (fun found _ => ?_)
  cases found with
  | none => exact Checked.returns_pure _
  | some value =>
      simp only
      cases bucketableOf value with
      | none => exact Checked.returns_pure _
      | some bucketable =>
          simp only
          split
          · have hfits := hhex (rawIdentity user segmentKey salt seed bucketable)
            simp only [bucketOf, hfits, beq_self_eq_true, Checked.check_true, Checked.ok_bind]
            exact Checked.returns_pure _
          · exact Checked.returns_pure _

def SafeWeight (rule : Json) : Prop :=
  ∀ weight attr, optionalField rule "weight" .number = .present weight →
    bucketAttribute rule = some attr → Readable user attr

theorem segmentWeightMatchUser_returns (hhex : HexifyFits) {rule : Json}
    (h : rule.getType = .object) {key salt : String} :
    Checked.Returns (segmentWeightMatchUser rule key user salt) ↔ SafeWeight user rule := by
  simp only [segmentWeightMatchUser, lookupOptional_of_object h, Checked.ok_bind, SafeWeight]
  cases optionalField rule "weight" .number with
  | mistyped => simp
  | absent => simp
  | present weight =>
      simp only [getBucketAttribute_of_object h, Checked.ok_bind, Field.present.injEq]
      cases bucketAttribute rule with
      | none => simp
      | some attr =>
          simp only [Option.some.injEq]
          rw [Checked.returns_bind_iff, bucketUser_returns user hhex]
          constructor
          · rintro ⟨hread, -⟩ _ _ _ rfl
            exact hread
          · intro hread
            exact ⟨hread weight attr rfl rfl, fun _ _ => Checked.returns_pure _⟩

structure SafeSegmentRule (rule : Json) : Prop where
  clauses : optionalField rule "clauses" .array ≠ .mistyped →
    SafeSegmentClauses user (optionalField rule "clauses" .array).items
  weight : optionalField rule "clauses" .array ≠ .mistyped →
    segmentClausesMatchUser user (optionalField rule "clauses" .array).items = .ok .matched →
    SafeWeight user rule

theorem segmentRuleMatchUser_of_typed {rule : Json} (h : rule.getType = .object)
    (htyped : optionalField rule "clauses" .array ≠ .mistyped) {key salt : String} :
    segmentRuleMatchUser rule key user salt =
      segmentClausesMatchUser user (optionalField rule "clauses" .array).items >>= fun status =>
        match status with
        | .matched => segmentWeightMatchUser rule key user salt
        | status => pure status := by
  rw [segmentRuleMatchUser, lookupOptional_of_object h, Checked.ok_bind]
  cases hf : optionalField rule "clauses" .array with
  | mistyped => exact absurd hf htyped
  | absent => rfl
  | present clauses => rfl

theorem segmentRuleMatchUser_returns (hhex : HexifyFits) {rule : Json}
    (h : rule.getType = .object) {key salt : String} :
    Checked.Returns (segmentRuleMatchUser rule key user salt) ↔ SafeSegmentRule user rule := by
  by_cases hm : optionalField rule "clauses" .array = .mistyped
  · simp only [segmentRuleMatchUser, lookupOptional_of_object h, Checked.ok_bind, hm]
    exact ⟨fun _ => ⟨fun hc => absurd hm hc, fun hc => absurd hm hc⟩,
      fun _ => Checked.returns_pure _⟩
  · rw [segmentRuleMatchUser_of_typed user h hm, Checked.returns_bind_iff,
      segmentClausesMatchUser_returns]
    constructor
    · rintro ⟨hclauses, hweight⟩
      refine ⟨fun _ => hclauses, fun _ hmatched => ?_⟩
      exact (segmentWeightMatchUser_returns user hhex h).mp (hweight .matched hmatched)
    · intro hsafe
      refine ⟨hsafe.clauses hm, fun status hstatus => ?_⟩
      cases status with
      | matched => exact (segmentWeightMatchUser_returns user hhex h).mpr (hsafe.weight hm hstatus)
      | miss => exact Checked.returns_pure _
      | mem => exact Checked.returns_pure _
      | schema => exact Checked.returns_pure _
      | store => exact Checked.returns_pure _

def SafeSegmentRules (key salt : String) : List Json → Prop
  | [] => True
  | rule :: rules => rule.getType = .object → SafeSegmentRule user rule ∧
      (segmentRuleMatchUser rule key user salt = .ok .miss → SafeSegmentRules key salt rules)

theorem segmentRulesMatchUser_returns (hhex : HexifyFits) {key salt : String} {rules : List Json} :
    Checked.Returns (segmentRulesMatchUser key user salt rules) ↔
      SafeSegmentRules user key salt rules := by
  induction rules with
  | nil => simp [segmentRulesMatchUser, SafeSegmentRules]
  | cons rule rules ih =>
      rw [SafeSegmentRules, segmentRulesMatchUser]
      by_cases hobj : rule.getType = .object
      · simp only [hobj, ne_eq, not_true_eq_false, if_false, forall_const]
        rw [Checked.returns_bind_iff, segmentRuleMatchUser_returns user hhex hobj]
        refine and_congr_right (fun _ => ⟨fun h hm => ih.mp (h _ hm), fun h status hs => ?_⟩)
        cases status with
        | miss => exact ih.mpr (h hs)
        | matched => exact Checked.returns_pure _
        | mem => exact Checked.returns_pure _
        | schema => exact Checked.returns_pure _
        | store => exact Checked.returns_pure _
      · simp [hobj]

def SafeRulesOf (segment : Json) : Prop :=
  ∀ rules key salt, optionalField segment "rules" .array = .present rules →
    requiredField segment "key" .text = some (.text key) →
    requiredField segment "salt" .text = some (.text salt) →
    SafeSegmentRules user key salt rules.getIter

theorem segmentRules_returns (hhex : HexifyFits) {segment : Json} (h : segment.getType = .object) :
    Checked.Returns (segmentRules segment user) ↔ SafeRulesOf user segment := by
  simp only [segmentRules, SafeRulesOf, lookupOptional_of_object h, lookupRequired_of_object h,
    Checked.ok_bind]
  cases optionalField segment "rules" .array with
  | mistyped => simp
  | absent => simp
  | present rules =>
      cases hkey : requiredField segment "key" .text with
      | none => simp
      | some key =>
          obtain ⟨-, htext⟩ := requiredField_eq_some.mp hkey
          obtain ⟨keyText, rfl⟩ := Json.getType_eq_text.mp htext
          cases hsalt : requiredField segment "salt" .text with
          | none => simp
          | some salt =>
              obtain ⟨-, htext⟩ := requiredField_eq_some.mp hsalt
              obtain ⟨saltText, rfl⟩ := Json.getType_eq_text.mp htext
              simp only [Json.getText_text, Option.getD_some]
              rw [segmentRulesMatchUser_returns user hhex]
              constructor
              · rintro hsafe _ _ _ ⟨⟩ ⟨⟩ ⟨⟩
                exact hsafe
              · intro hsafe
                exact hsafe rules keyText saltText rfl rfl rfl

structure SafeSegment (segment : Json) : Prop where
  object : segment.getType = .object
  included : optionalField segment "included" .array ≠ .mistyped →
    ListSearchable (optionalField segment "included" .array) user
  excluded : optionalField segment "included" .array ≠ .mistyped →
    listsUser (optionalField segment "included" .array) user = .ok false →
    optionalField segment "excluded" .array ≠ .mistyped →
    ListSearchable (optionalField segment "excluded" .array) user
  rules : optionalField segment "included" .array ≠ .mistyped →
    listsUser (optionalField segment "included" .array) user = .ok false →
    optionalField segment "excluded" .array ≠ .mistyped →
    listsUser (optionalField segment "excluded" .array) user = .ok false →
    SafeRulesOf user segment

theorem excludedStage_returns (hhex : HexifyFits) {segment : Json}
    (h : segment.getType = .object) :
    Checked.Returns (excludedStage segment user) ↔
      (optionalField segment "excluded" .array ≠ .mistyped →
        ListSearchable (optionalField segment "excluded" .array) user ∧
        (listsUser (optionalField segment "excluded" .array) user = .ok false →
          SafeRulesOf user segment)) := by
  simp only [excludedStage, lookupOptional_of_object h, Checked.ok_bind]
  have hbody : ∀ excluded : Field, Checked.Returns (do
      if ← listsUser excluded user then pure .miss else segmentRules segment user) ↔
        ListSearchable excluded user ∧
        (listsUser excluded user = .ok false → SafeRulesOf user segment) := by
    intro excluded
    rw [Checked.returns_bind_iff, listsUser_returns]
    refine and_congr_right (fun _ => ⟨fun hall hfalse => ?_, fun hrules listed hl => ?_⟩)
    · exact (segmentRules_returns user hhex h).mp (hall false hfalse)
    · cases listed with
      | false => exact (segmentRules_returns user hhex h).mpr (hrules hl)
      | true => exact Checked.returns_pure _
  cases optionalField segment "excluded" .array with
  | mistyped => simp
  | absent => exact (hbody .absent).trans (by simp)
  | present values => exact (hbody (.present values)).trans (by simp)

theorem segmentMatchesUser_returns (hhex : HexifyFits) {segment : Json} :
    Checked.Returns (segmentMatchesUser segment user) ↔ SafeSegment user segment := by
  by_cases h : segment.getType = .object
  swap
  · constructor
    · rintro ⟨r, hr⟩
      simp only [segmentMatchesUser, lookupOptional_of_not_object h] at hr
      cases hr
    · intro hsafe
      exact absurd hsafe.object h
  · simp only [segmentMatchesUser, lookupOptional_of_object h, Checked.ok_bind]
    have hbody : ∀ included : Field, Checked.Returns (do
        if ← listsUser included user then pure .matched else excludedStage segment user) ↔
          ListSearchable included user ∧ (listsUser included user = .ok false →
            Checked.Returns (excludedStage segment user)) := by
      intro included
      rw [Checked.returns_bind_iff, listsUser_returns]
      refine and_congr_right (fun _ => ⟨fun hall hfalse => hall false hfalse, fun hnext listed hl => ?_⟩)
      cases listed with
      | false => exact hnext hl
      | true => exact Checked.returns_pure _
    have hsafe : SafeSegment user segment ↔
        (optionalField segment "included" .array ≠ .mistyped →
          ListSearchable (optionalField segment "included" .array) user ∧
          (listsUser (optionalField segment "included" .array) user = .ok false →
            Checked.Returns (excludedStage segment user))) := by
      constructor
      · intro hs hm
        refine ⟨hs.included hm, fun hl => (excludedStage_returns user hhex h).mpr (fun he => ?_)⟩
        exact ⟨hs.excluded hm hl he, hs.rules hm hl he⟩
      · intro hs
        refine ⟨h, fun hm => (hs hm).1, fun hm hl he => ?_, fun hm hl he hx => ?_⟩
        · exact ((excludedStage_returns user hhex h).mp ((hs hm).2 hl) he).1
        · exact ((excludedStage_returns user hhex h).mp ((hs hm).2 hl) he).2 hx
    rw [hsafe]
    cases optionalField segment "included" .array with
    | mistyped => simp
    | absent => exact (hbody .absent).trans (by simp)
    | present values => exact (hbody (.present values)).trans (by simp)

def weightSum (sum : Rat) (weight : Json) : Rat :=
  Externals.roundFloat
    (Externals.roundDouble (sum + Externals.roundDouble (weight.getNumber / 100000)))

def SafeWeights (userBucket : Rat) : Rat → List Json → Prop
  | _, [] => True
  | sum, variation :: variations => variation.getType = .object ∧
      ∀ weight, requiredField variation "weight" .number = some weight →
        requiredField variation "variation" .number ≠ none →
        optionalField variation "untracked" .bool ≠ .mistyped →
        ¬ userBucket < weightSum sum weight →
        SafeWeights userBucket (weightSum sum weight) variations

theorem selectVariation_returns {userBucket : Rat} {inExperiment : Bool} {variations : List Json} :
    ∀ {sum : Rat} {last : Option Json × Bool},
      Checked.Returns (selectVariation userBucket inExperiment sum last variations) ↔
        SafeWeights userBucket sum variations := by
  induction variations with
  | nil => simp [selectVariation, SafeWeights]
  | cons variation variations ih =>
      intro sum last
      by_cases hobj : variation.getType = .object
      swap
      · simp [selectVariation, SafeWeights, lookupRequired_of_not_object hobj, hobj]
      · simp only [selectVariation, SafeWeights, lookupRequired_of_object hobj,
          lookupOptional_of_object hobj, Checked.ok_bind, hobj, true_and]
        cases hweight : requiredField variation "weight" .number with
        | none => simp
        | some weight =>
            cases hsub : requiredField variation "variation" .number with
            | none => simp
            | some sub =>
                have hlast : ∀ untracked : Field, Checked.Returns
                    (if userBucket < weightSum sum weight then
                      (pure (some (inExperiment && !untracked.isTrue, some sub)) :
                        Checked (Option (Bool × Option Json)))
                    else selectVariation userBucket inExperiment (weightSum sum weight)
                      (some sub, untracked.isTrue) variations) ↔
                    (¬ userBucket < weightSum sum weight →
                      SafeWeights userBucket (weightSum sum weight) variations) := by
                  intro untracked
                  split
                  · next hlt => simp [hlt]
                  · next hlt => simpa [hlt] using ih
                cases optionalField variation "untracked" .bool with
                | mistyped => simp
                | absent => exact (hlast .absent).trans (by simp)
                | present untracked => exact (hlast (.present untracked)).trans (by simp)

structure SafeBucket (key attr salt : String) (seed : Option Int) (variations : List Json) :
    Prop where
  readable : Readable user attr
  weights : ∀ found bucket, bucketUser user key attr salt seed = .ok (found, bucket) →
    SafeWeights bucket 0 variations

theorem bucketVariations_returns (hhex : HexifyFits) {key attr salt : String} {seed : Option Int}
    {inExperiment : Bool} {variations : List Json} :
    Checked.Returns (bucketVariations user key attr salt seed inExperiment variations) ↔
      SafeBucket user key attr salt seed variations := by
  rw [bucketVariations, Checked.returns_bind_iff, bucketUser_returns user hhex]
  constructor
  · rintro ⟨hread, hweights⟩
    exact ⟨hread, fun found bucket hb => selectVariation_returns.mp (hweights (found, bucket) hb)⟩
  · intro hsafe
    exact ⟨hsafe.readable, fun p hp => selectVariation_returns.mpr (hsafe.weights p.1 p.2 hp)⟩

def SafeRollout (rollout : Json) (key salt : String) : Prop :=
  ∀ variations attr, optionalField rollout "kind" .text ≠ .mistyped →
    requiredField rollout "variations" .array = some variations →
    variations.collectionGetSize ≠ 0 → bucketAttribute rollout = some attr →
    optionalField rollout "seed" .number ≠ .mistyped →
    SafeBucket user key attr salt (seedOf (optionalField rollout "seed" .number))
      variations.getIter

theorem weightedVariations_returns (hhex : HexifyFits) {rollout : Json} {key salt : String}
    (kind : Field) :
    Checked.Returns (
      match requiredField rollout "variations" .array with
      | none => (pure none : Checked (Option (Bool × Option Json)))
      | some variations =>
        if variations.collectionGetSize = 0 then pure none
        else match bucketAttribute rollout with
          | none => pure none
          | some attr =>
            match optionalField rollout "seed" .number with
            | .mistyped => pure none
            | seedJSON => bucketVariations user key attr salt (seedOf seedJSON) (isExperiment kind)
                variations.getIter) ↔
      ∀ variations attr, requiredField rollout "variations" .array = some variations →
        variations.collectionGetSize ≠ 0 → bucketAttribute rollout = some attr →
        optionalField rollout "seed" .number ≠ .mistyped →
        SafeBucket user key attr salt (seedOf (optionalField rollout "seed" .number))
          variations.getIter := by
  cases requiredField rollout "variations" .array with
  | none => simp
  | some variations =>
      by_cases hsize : variations.collectionGetSize = 0
      · simp only [hsize, if_true]
        refine ⟨fun _ vs _ hv hne => ?_, fun _ => Checked.returns_pure _⟩
        cases hv
        exact absurd hsize hne
      · cases bucketAttribute rollout with
        | none => simp [hsize]
        | some attr =>
            cases optionalField rollout "seed" .number with
            | mistyped => simp [hsize]
            | absent => simp [hsize, bucketVariations_returns user hhex]
            | present seed => simp [hsize, bucketVariations_returns user hhex]

theorem rolloutVariation_returns (hhex : HexifyFits) {rollout : Json}
    (h : rollout.getType = .object) {key salt : String} :
    Checked.Returns (rolloutVariation rollout user key salt) ↔
      SafeRollout user rollout key salt := by
  have hbody := fun kind => @weightedVariations_returns _ user hhex rollout key salt kind
  simp only [rolloutVariation, SafeRollout, lookupOptional_of_object h, lookupRequired_of_object h,
    getBucketAttribute_of_object h, Checked.ok_bind]
  cases optionalField rollout "kind" .text with
  | mistyped => simp
  | absent => exact (hbody .absent).trans (by simp)
  | present kind => exact (hbody (.present kind)).trans (by simp)

structure SafeChoice (varOrRoll : Json) (key salt : String) : Prop where
  object : varOrRoll.getType = .object
  rollout : ∀ rollout, optionalField varOrRoll "variation" .number = .absent →
    requiredField varOrRoll "rollout" .object = some rollout → SafeRollout user rollout key salt

theorem variationIndexForUser_returns (hhex : HexifyFits) {varOrRoll : Json} {key salt : String} :
    Checked.Returns (variationIndexForUser varOrRoll user key salt) ↔
      SafeChoice user varOrRoll key salt := by
  by_cases h : varOrRoll.getType = .object
  swap
  · constructor
    · rintro ⟨r, hr⟩
      simp only [variationIndexForUser, lookupOptional_of_not_object h] at hr
      cases hr
    · intro hsafe
      exact absurd hsafe.object h
  · simp only [variationIndexForUser, lookupOptional_of_object h, lookupRequired_of_object h,
      Checked.ok_bind]
    cases hvar : optionalField varOrRoll "variation" .number with
    | mistyped =>
        refine ⟨fun _ => ⟨h, fun _ hv => ?_⟩, fun _ => Checked.returns_pure _⟩
        rw [hvar] at hv
        cases hv
    | present variation =>
        refine ⟨fun _ => ⟨h, fun _ hv => ?_⟩, fun _ => Checked.returns_pure _⟩
        rw [hvar] at hv
        cases hv
    | absent =>
        cases hroll : requiredField varOrRoll "rollout" .object with
        | none =>
            refine ⟨fun _ => ⟨h, fun _ _ hr => ?_⟩, fun _ => Checked.returns_pure _⟩
            rw [hroll] at hr
            cases hr
        | some rollout =>
            obtain ⟨-, hobj⟩ := requiredField_eq_some.mp hroll
            simp only [rolloutVariation_returns user hhex hobj]
            constructor
            · intro hsafe
              refine ⟨h, fun r _ hr => ?_⟩
              rw [hroll] at hr
              cases hr
              exact hsafe
            · intro hsafe
              exact hsafe.rollout rollout hvar hroll

def SafeIndex (flag varOrRoll : Json) : Prop :=
  ∀ key salt, requiredField flag "key" .text = some (.text key) →
    requiredField flag "salt" .text = some (.text salt) → SafeChoice user varOrRoll key salt

theorem getIndex_returns (hhex : HexifyFits) {flag : Json} (h : flag.getType = .object)
    {varOrRoll : Option Json} :
    Checked.Returns (getIndexForVariationOrRollout flag varOrRoll user) ↔
      ∃ v, varOrRoll = some v ∧ SafeIndex user flag v := by
  cases varOrRoll with
  | none =>
      constructor
      · rintro ⟨r, hr⟩
        cases hr
      · rintro ⟨v, hv, -⟩
        cases hv
  | some v =>
      simp only [getIndexForVariationOrRollout, lookupRequired_of_object h, Checked.ok_bind,
        Option.some.injEq, exists_eq_left', SafeIndex]
      cases hkey : requiredField flag "key" .text with
      | none => simp
      | some key =>
          obtain ⟨-, htext⟩ := requiredField_eq_some.mp hkey
          obtain ⟨keyText, rfl⟩ := Json.getType_eq_text.mp htext
          cases hsalt : requiredField flag "salt" .text with
          | none => simp
          | some salt =>
              obtain ⟨-, htext⟩ := requiredField_eq_some.mp hsalt
              obtain ⟨saltText, rfl⟩ := Json.getType_eq_text.mp htext
              simp only [Json.getText_text, Option.getD_some]
              rw [variationIndexForUser_returns user hhex]
              constructor
              · rintro hsafe _ _ ⟨⟩ ⟨⟩
                exact hsafe
              · intro hsafe
                exact hsafe keyText saltText rfl rfl

end Clauses

end ServerSdk
