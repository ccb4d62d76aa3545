import ServerSdk.Evaluate.Matching
import ServerSdk.Evaluate.Safety

namespace ServerSdk

open Program

def Settles (m : Checked EvalStatus) (p : Prop) : Prop := (m = .ok .matched ∧ p) ∨ (m = .ok .miss ∧ ¬ p)

theorem Settles.congr {m : Checked EvalStatus} {p q : Prop} (h : Settles m p) (hiff : p ↔ q) :
    Settles m q :=
  propext hiff ▸ h

structure TextList (field : Field) : Prop where
  typed : field ≠ .mistyped
  texts : ∃ texts : List String, field.items = texts.map Json.text

structure WellFormedClause (clause : Json) : Prop where
  isObject : clause.getType = .object
  op : (requiredField clause "op" .text).isSome
  attr : ∃ attr, requiredField clause "attribute" .text = some (.text attr)
  values : optionalField clause "values" .array ≠ .mistyped
  negate : optionalField clause "negate" .bool ≠ .mistyped

structure WellFormedSegmentRule (rule : Json) : Prop where
  isObject : rule.getType = .object
  clausesTyped : optionalField rule "clauses" .array ≠ .mistyped
  clauses : ∀ clause ∈ (optionalField rule "clauses" .array).items, WellFormedClause clause
  weight : optionalField rule "weight" .number ≠ .mistyped
  bucketBy : (bucketAttribute rule).isSome

structure WellFormedSegment (segment : Json) : Prop where
  isObject : segment.getType = .object
  included : TextList (optionalField segment "included" .array)
  excluded : TextList (optionalField segment "excluded" .array)
  key : ∃ key, requiredField segment "key" .text = some (.text key)
  salt : ∃ salt, requiredField segment "salt" .text = some (.text salt)
  rulesTyped : optionalField segment "rules" .array ≠ .mistyped
  rules : ∀ rule ∈ (optionalField segment "rules" .array).items, WellFormedSegmentRule rule

structure WellFormedUser (user : User) : Prop where
  custom : ∀ custom, user.custom = some custom → custom.getType = .object

theorem WellFormedUser.readable {user : User} (h : WellFormedUser user) (attr : String) :
    Readable user attr :=
  fun _ => h.custom

def textField (obj : Json) (key : String) : String :=
  ((requiredField obj key .text).bind Json.getText).getD ""

def NamesUser (segment : Json) (field : String) (user : User) : Prop :=
  .text user.key ∈ (optionalField segment field .array).items

instance (segment : Json) (field : String) (user : User) : Decidable (NamesUser segment field user) :=
  inferInstanceAs (Decidable (_ ∈ _))

theorem listsUser_eq {segment : Json} {field : String}
    (h : TextList (optionalField segment field .array)) (user : User) :
    listsUser (optionalField segment field .array) user =
      .ok (decide (NamesUser segment field user)) := by
  obtain ⟨texts, htexts⟩ := h.texts
  have hnames : NamesUser segment field user ↔ user.key ∈ texts := by
    rw [NamesUser, htexts]
    simp
  rw [decide_eq_decide.mpr hnames]
  cases hfield : optionalField segment field .array with
  | mistyped => exact absurd hfield h.typed
  | absent =>
      rw [hfield] at htexts
      obtain rfl : texts = [] := List.map_eq_nil_iff.mp htexts.symm
      exact congrArg Except.ok (by simp : false = decide (user.key ∈ []))
  | present values =>
      rw [hfield] at htexts
      have htexts : values.getIter = texts.map Json.text := htexts
      rw [listsUser, textInArray, htexts]
      exact textInArray_ofTexts texts user.key

section Declarative

variable [Externals]

def ClauseHolds (user : User) (clause : Json) : Prop :=
  clauseMatchesUserNoSegments clause user = .ok .matched

def BelowWeight (rule : Json) (segmentKey salt : String) (user : User) : Prop :=
  ∀ weight, optionalField rule "weight" .number = .present weight →
    ∃ attr found bucket, bucketAttribute rule = some attr ∧
      bucketUser user segmentKey attr salt none = .ok (found, bucket) ∧
      bucket < Externals.roundDouble (weight.getNumber / 100000)

def RuleHolds (segmentKey salt : String) (user : User) (rule : Json) : Prop :=
  (∀ clause ∈ (optionalField rule "clauses" .array).items, ClauseHolds user clause) ∧
    BelowWeight rule segmentKey salt user

def SegmentHolds (user : User) (segment : Json) : Prop :=
  NamesUser segment "included" user ∨ (¬ NamesUser segment "excluded" user ∧
    ∃ rule ∈ (optionalField segment "rules" .array).items,
      RuleHolds (textField segment "key") (textField segment "salt") user rule)

end Declarative

section Clauses

variable {clause : Json} {attr : String} {values : List Json} {negate : Bool} {f : OpFn}

theorem settles_outcome (matching negate : Bool) {m : Checked EvalStatus}
    (h : m = .ok (outcome matching negate)) : Settles m (m = .ok .matched) := by
  rcases outcome_cases matching negate with hstatus | hstatus
  · rw [hstatus] at h
    exact .inl ⟨h, h⟩
  · rw [hstatus] at h
    exact .inr ⟨h, by simp [h]⟩

theorem ClauseOf.matchElements_settles (h : ClauseOf clause attr values negate)
    (elements : List Json) : Settles (matchElements f clause values elements)
      (matchElements f clause values elements = .ok .matched) := by
  induction elements with
  | nil => exact settles_outcome false negate (h.negates false)
  | cons element elements ih =>
      by_cases hcontainer : IsContainer element
      · have hmiss : matchElements f clause values (element :: elements) = .ok .miss :=
          h.matchElements_container (List.forall_mem_nil _) hcontainer elements
        exact .inr ⟨hmiss, by simp [hmiss]⟩
      · rw [h.matchElements_cons hcontainer]
        cases hits f values [element] with
        | false => exact ih
        | true => exact settles_outcome true negate rfl

theorem ClauseOf.matchUserAttribute_settles (h : ClauseOf clause attr values negate) {user : User}
    (huser : WellFormedUser user) : Settles (matchUserAttribute f clause user attr values)
      (matchUserAttribute f clause user attr values = .ok .matched) := by
  obtain ⟨found, hfound⟩ := valueOfAttribute_returns.mpr (huser.readable attr)
  rw [matchUserAttribute, hfound, Checked.ok_bind]
  have hmiss : (.ok .miss : Checked EvalStatus) ≠ .ok .matched := by simp
  cases found with
  | none => exact .inr ⟨rfl, hmiss⟩
  | some value =>
      cases value with
      | null => exact .inr ⟨rfl, hmiss⟩
      | array elements => exact h.matchElements_settles elements
      | bool b => exact settles_outcome _ _ (h.matchAttribute_plain (by simp) trivial)
      | number n => exact settles_outcome _ _ (h.matchAttribute_plain (by simp) trivial)
      | text s => exact settles_outcome _ _ (h.matchAttribute_plain (by simp) trivial)
      | object fields => exact settles_outcome _ _ (h.matchAttribute_plain (by simp) trivial)

variable [Externals] {user : User}

theorem WellFormedClause.settles (h : WellFormedClause clause) (huser : WellFormedUser user) :
    Settles (clauseMatchesUserNoSegments clause user) (ClauseHolds user clause) := by
  obtain ⟨op, hop⟩ := Option.isSome_iff_exists.mp h.op
  obtain ⟨attr, hattr⟩ := h.attr
  obtain ⟨opText, rfl⟩ := Json.getType_eq_text.mp (requiredField_eq_some.mp hop).2
  have hform : ClauseOf clause attr _ _ := ⟨h.isObject, hattr, h.values, rfl, h.negate, rfl⟩
  rw [ClauseHolds]
  cases hknown : lookupOperation opText with
  | none =>
      have hmiss : clauseMatchesUserNoSegments clause user = .ok .miss := by
        rw [clauseMatchesUserNoSegments, lookupRequired_of_object h.isObject, Checked.ok_bind, hop]
        simp only [Json.getText_text, Option.getD_some, hknown]
        rfl
      exact .inr ⟨hmiss, by simp [hmiss]⟩
  | some f =>
      rw [hform.clauseMatches_eq ⟨opText, hop, hknown⟩]
      exact hform.matchUserAttribute_settles huser

theorem segmentClauses_settle {clauses : List Json} (huser : WellFormedUser user)
    (h : ∀ clause ∈ clauses, WellFormedClause clause) :
    Settles (segmentClausesMatchUser user clauses) (∀ clause ∈ clauses, ClauseHolds user clause) := by
  induction clauses with
  | nil => exact .inl ⟨rfl, nofun⟩
  | cons clause clauses ih =>
      rw [List.forall_mem_cons] at h
      rw [segmentClausesMatchUser]
      rcases h.1.settles huser with ⟨hmatched, hholds⟩ | ⟨hmiss, hfails⟩
      · rw [hmatched, Checked.ok_bind]
        refine (ih h.2).congr ?_
        rw [List.forall_mem_cons]
        exact (and_iff_right hholds).symm
      · rw [hmiss, Checked.ok_bind]
        refine .inr ⟨rfl, ?_⟩
        rw [List.forall_mem_cons]
        exact fun hall => hfails hall.1

end Clauses

section Segments

variable [Externals] {user : User} {segmentKey salt : String}

theorem WellFormedSegmentRule.weight_settles {rule : Json} (h : WellFormedSegmentRule rule)
    (hhex : HexifyFits) (huser : WellFormedUser user) :
    Settles (segmentWeightMatchUser rule segmentKey user salt)
      (BelowWeight rule segmentKey salt user) := by
  have htyped := h.weight
  obtain ⟨attr, hattr⟩ := Option.isSome_iff_exists.mp h.bucketBy
  obtain ⟨⟨found, bucket⟩, hbucket⟩ :=
    (@bucketUser_returns _ user hhex segmentKey attr salt none).mpr (huser.readable attr)
  simp only [segmentWeightMatchUser, lookupOptional_of_object h.isObject, Checked.ok_bind]
  cases hfield : optionalField rule "weight" .number with
  | mistyped => exact absurd hfield htyped
  | absent =>
      refine .inl ⟨rfl, ?_⟩
      intro weight hweight
      rw [hfield] at hweight
      cases hweight
  | present weight =>
      simp only [getBucketAttribute_of_object h.isObject, Checked.ok_bind, hattr, hbucket]
      by_cases hbelow : bucket < Externals.roundDouble (weight.getNumber / 100000)
      · rw [if_pos hbelow]
        refine .inl ⟨rfl, ?_⟩
        intro other hother
        rw [hfield] at hother
        cases hother
        exact ⟨attr, found, bucket, hattr, hbucket, hbelow⟩
      · rw [if_neg hbelow]
        refine .inr ⟨rfl, ?_⟩
        intro hall
        obtain ⟨attr', found', bucket', hattr', hbucket', hbelow'⟩ := hall weight hfield
        rw [hattr] at hattr'
        cases hattr'
        rw [hbucket] at hbucket'
        cases hbucket'
        exact hbelow hbelow'

theorem WellFormedSegmentRule.settles {rule : Json} (h : WellFormedSegmentRule rule)
    (hhex : HexifyFits) (huser : WellFormedUser user) :
    Settles (segmentRuleMatchUser rule segmentKey user salt)
      (RuleHolds segmentKey salt user rule) := by
  rw [segmentRuleMatchUser_of_typed user h.isObject h.clausesTyped]
  rcases segmentClauses_settle huser h.clauses with ⟨hmatched, hclauses⟩ | ⟨hmiss, hclauses⟩
  · rw [hmatched, Checked.ok_bind]
    exact (h.weight_settles hhex huser).congr (and_iff_right hclauses).symm
  · rw [hmiss, Checked.ok_bind]
    exact .inr ⟨rfl, fun hholds => hclauses hholds.1⟩

theorem segmentRules_settle {rules : List Json} (hhex : HexifyFits) (huser : WellFormedUser user)
    (h : ∀ rule ∈ rules, WellFormedSegmentRule rule) :
    Settles (segmentRulesMatchUser segmentKey user salt rules)
      (∃ rule ∈ rules, RuleHolds segmentKey salt user rule) := by
  induction rules with
  | nil => exact .inr ⟨rfl, by simp⟩
  | cons rule rules ih =>
      rw [List.forall_mem_cons] at h
      rw [segmentRulesMatchUser, if_neg (not_not_intro h.1.isObject)]
      rcases h.1.settles hhex huser with ⟨hmatched, hholds⟩ | ⟨hmiss, hfails⟩
      · rw [hmatched, Checked.ok_bind]
        exact .inl ⟨rfl, rule, List.mem_cons_self .., hholds⟩
      · rw [hmiss, Checked.ok_bind]
        refine (ih h.2).congr ?_
        rw [List.exists_mem_cons_iff]
        exact (or_iff_right hfails).symm

variable {segment : Json}

theorem WellFormedSegment.rules_settle (h : WellFormedSegment segment) (hhex : HexifyFits)
    (huser : WellFormedUser user) :
    Settles (segmentRules segment user) (∃ rule ∈ (optionalField segment "rules" .array).items,
      RuleHolds (textField segment "key") (textField segment "salt") user rule) := by
  obtain ⟨key, hkey⟩ := h.key
  obtain ⟨salt, hsalt⟩ := h.salt
  have htyped := h.rulesTyped
  have hrules := h.rules
  simp only [segmentRules, lookupOptional_of_object h.isObject, lookupRequired_of_object h.isObject,
    Checked.ok_bind, hkey, hsalt, textField, Option.bind_some, Json.getText_text, Option.getD_some]
  cases hfield : optionalField segment "rules" .array with
  | mistyped => exact absurd hfield htyped
  | absent => exact .inr ⟨rfl, by simp [Field.items]⟩
  | present rules =>
      rw [hfield] at hrules
      exact segmentRules_settle hhex huser hrules

theorem excludedStage_of_typed (h : segment.getType = .object)
    (htyped : optionalField segment "excluded" .array ≠ .mistyped) :
    excludedStage segment user =
      listsUser (optionalField segment "excluded" .array) user >>= fun listed =>
        if listed then pure .miss else segmentRules segment user := by
  rw [excludedStage, lookupOptional_of_object h, Checked.ok_bind]
  cases hfield : optionalField segment "excluded" .array with
  | mistyped => exact absurd hfield htyped
  | absent => rfl
  | present users => rfl

theorem segmentMatchesUser_of_typed (h : segment.getType = .object)
    (htyped : optionalField segment "included" .array ≠ .mistyped) :
    segmentMatchesUser segment user =
      listsUser (optionalField segment "included" .array) user >>= fun listed =>
        if listed then pure .matched else excludedStage segment user := by
  rw [segmentMatchesUser, lookupOptional_of_object h, Checked.ok_bind]
  cases hfield : optionalField segment "included" .array with
  | mistyped => exact absurd hfield htyped
  | absent => rfl
  | present users => rfl

theorem WellFormedSegment.excluded_settles (h : WellFormedSegment segment) (hhex : HexifyFits)
    (huser : WellFormedUser user) :
    Settles (excludedStage segment user) (¬ NamesUser segment "excluded" user ∧
      ∃ rule ∈ (optionalField segment "rules" .array).items,
        RuleHolds (textField segment "key") (textField segment "salt") user rule) := by
  rw [excludedStage_of_typed h.isObject h.excluded.typed, listsUser_eq h.excluded user,
    Checked.ok_bind]
  cases hnamed : decide (NamesUser segment "excluded" user) with
  | true => exact .inr ⟨rfl, fun hholds => hholds.1 (of_decide_eq_true hnamed)⟩
  | false => exact (h.rules_settle hhex huser).congr (and_iff_right (of_decide_eq_false hnamed)).symm

theorem WellFormedSegment.settles (h : WellFormedSegment segment) (hhex : HexifyFits)
    (huser : WellFormedUser user) :
    Settles (segmentMatchesUser segment user) (SegmentHolds user segment) := by
  rw [segmentMatchesUser_of_typed h.isObject h.included.typed, listsUser_eq h.included user,
    Checked.ok_bind]
  cases hnamed : decide (NamesUser segment "included" user) with
  | true => exact .inl ⟨rfl, .inl (of_decide_eq_true hnamed)⟩
  | false => exact (h.excluded_settles hhex huser).congr (or_iff_right (of_decide_eq_false hnamed)).symm

structure SegmentClause (clause : Json) (values : List String) (negate : Bool) : Prop where
  isObject : clause.getType = .object
  op : requiredField clause "op" .text = some (.text "segmentMatch")
  valuesTyped : optionalField clause "values" .array ≠ .mistyped
  values : (optionalField clause "values" .array).items = values.map Json.text
  negateTyped : optionalField clause "negate" .bool ≠ .mistyped
  negate : (optionalField clause "negate" .bool).isTrue = negate

structure ServesSegments {σ : Type} (w : World σ) (segments : String → Option Json) : Prop where
  served : ∀ key s, (w.storeGet .segment key s).1 = some (segments key)
  wellFormed : ∀ key segment, segments key = some segment → WellFormedSegment segment

def SomeSegmentHolds (user : User) (segments : String → Option Json) (values : List String) : Prop :=
  ∃ key ∈ values, ∃ segment, segments key = some segment ∧ SegmentHolds user segment

def Concludes {σ : Type} (m : Run σ EvalStatus) (s : σ) (p : Prop) : Prop :=
  ∃ status t, m s = .ok (status, t) ∧ (status = .matched ∨ status = .miss) ∧ (status = .matched ↔ p)

variable {σ : Type} {w : World σ} {segments : String → Option Json} {clause : Json}
  {values : List String} {negate : Bool}

omit [Externals] in
theorem Concludes.congr {m : Run σ EvalStatus} {s : σ} {p q : Prop} (h : Concludes m s p)
    (hiff : p ↔ q) : Concludes m s q :=
  propext hiff ▸ h

omit [Externals] in
theorem SegmentClause.concludes (h : SegmentClause clause values negate) (matching : Bool) (s : σ) :
    Concludes (Run.lift (maybeNegate clause (outcome matching false))) s
      ((matching = true) ≠ (negate = true)) := by
  refine ⟨outcome matching negate, s, ?_, outcome_cases matching negate, outcome_eq_matched⟩
  rw [maybeNegate_outcome h.isObject h.negateTyped h.negate]
  rfl

theorem someSegmentHolds_cons (key : String) (keys : List String) :
    SomeSegmentHolds user segments (key :: keys) ↔
      (∃ segment, segments key = some segment ∧ SegmentHolds user segment) ∨
        SomeSegmentHolds user segments keys := by
  rw [SomeSegmentHolds, List.exists_mem_cons_iff]
  rfl

theorem segmentList_concludes (hhex : HexifyFits) (hserves : ServesSegments w segments)
    (huser : WellFormedUser user) (h : SegmentClause clause values negate) (keys : List String)
    (s : σ) :
    Concludes (segmentListMatchesUser w clause user (keys.map Json.text)) s
      (SomeSegmentHolds user segments keys ≠ (negate = true)) := by
  induction keys generalizing s with
  | nil =>
      obtain ⟨status, t, hrun, hcases, hstatus⟩ := h.concludes false s
      exact ⟨status, t, hrun, hcases, by simpa [SomeSegmentHolds] using hstatus⟩
  | cons key keys ih =>
      rw [List.map_cons, segmentListMatchesUser, storeGet, Concludes, Run.ask_bind_run,
        hserves.served key s]
      cases hsegment : segments key with
      | none =>
          refine (ih (w.storeGet .segment key s).2).congr ?_
          rw [someSegmentHolds_cons, or_iff_right]
          rintro ⟨segment, hsome, -⟩
          rw [hsegment] at hsome
          cases hsome
      | some segment =>
          have hthis : (∃ other, segments key = some other ∧ SegmentHolds user other) ↔
              SegmentHolds user segment := by
            simp [hsegment]
          simp only
          rcases (hserves.wellFormed key segment hsegment).settles hhex huser with
            ⟨hmatched, hholds⟩ | ⟨hmiss, hfails⟩
          · rw [hmatched, Run.lift_ok, pure_bind]
            refine (h.concludes true (w.storeGet .segment key s).2).congr ?_
            rw [someSegmentHolds_cons, hthis]
            simp [hholds]
          · rw [hmiss, Run.lift_ok, pure_bind]
            refine (ih (w.storeGet .segment key s).2).congr ?_
            rw [someSegmentHolds_cons, hthis, or_iff_right hfails]

theorem SegmentClause.clauseMatchesUser_eq (h : SegmentClause clause values negate) (w : World σ)
    (user : User) :
    clauseMatchesUser w clause user =
      segmentListMatchesUser w clause user (values.map Json.text) := by
  have htyped := h.valuesTyped
  have hitems := h.values
  rw [clauseMatchesUser, if_neg (not_not_intro h.isObject), lookupRequired_of_object h.isObject,
    lookupOptional_of_object h.isObject, Run.lift_ok, Run.lift_ok, pure_bind, h.op]
  simp only [Json.getText_text, if_true, pure_bind]
  cases hfield : optionalField clause "values" .array with
  | mistyped => exact absurd hfield htyped
  | absent => rw [← hitems, hfield]
  | present items => rw [← hitems, hfield]

structure SameButRules (segment segment' : Json) : Prop where
  others : ∀ key, key ≠ "rules" → segment.objectLookup key = segment'.objectLookup key
  rules : ∀ rule, rule ∈ (optionalField segment "rules" .array).items ↔
    rule ∈ (optionalField segment' "rules" .array).items

theorem SameButRules.holds_iff {segment segment' : Json} (h : SameButRules segment segment')
    (user : User) : SegmentHolds user segment ↔ SegmentHolds user segment' := by
  have hnames : ∀ field, field ≠ "rules" →
      (NamesUser segment field user ↔ NamesUser segment' field user) := by
    intro field hfield
    rw [NamesUser, NamesUser, optionalField, optionalField, h.others field hfield]
  have htext : ∀ key, key ≠ "rules" → textField segment key = textField segment' key := by
    intro key hkey
    rw [textField, textField, requiredField, requiredField, h.others key hkey]
  rw [SegmentHolds, SegmentHolds, hnames "included" (by decide), hnames "excluded" (by decide),
    htext "key" (by decide), htext "salt" (by decide)]
  simp only [h.rules]

theorem someSegmentHolds_congr {segments' : String → Option Json} {values' : List String}
    (hvalues : ∀ key, key ∈ values ↔ key ∈ values')
    (hsegments : ∀ key, Option.Rel SameButRules (segments key) (segments' key)) (user : User) :
    SomeSegmentHolds user segments values ↔ SomeSegmentHolds user segments' values' := by
  have hkey : ∀ key, (∃ segment, segments key = some segment ∧ SegmentHolds user segment) ↔
      ∃ segment, segments' key = some segment ∧ SegmentHolds user segment := by
    intro key
    have hrel := hsegments key
    generalize segments key = found at hrel ⊢
    generalize segments' key = found' at hrel ⊢
    cases hrel with
    | none => rfl
    | some hsame => simp [hsame.holds_iff user]
  rw [SomeSegmentHolds, SomeSegmentHolds]
  simp only [hvalues, hkey]

theorem segment_clause_matches_by_meaning {τ : Type} (hhex : HexifyFits) (w : World σ)
    (segments : String → Option Json) (hserves : ServesSegments w segments) (user : User)
    (huser : WellFormedUser user) (clause : Json) (values : List String) (negate : Bool)
    (h : SegmentClause clause values negate) (s : σ) :
    ∃ status t, clauseMatchesUser w clause user s = .ok (status, t) ∧
      (status = .matched ∨ status = .miss) ∧
      (status = .matched ↔ SomeSegmentHolds user segments values ≠ (negate = true)) ∧
      ((∀ key ∈ values, segments key = none) → (status = .matched ↔ negate = true)) ∧
      (∀ key ∈ values, ∀ segment, segments key = some segment → NamesUser segment "included" user →
        (status = .matched ↔ negate = false)) ∧
      ∀ (w' : World τ) (segments' : String → Option Json) (clause' : Json) (values' : List String)
        (s' : τ), ServesSegments w' segments' → SegmentClause clause' values' negate →
        (∀ key, key ∈ values ↔ key ∈ values') →
        (∀ key, Option.Rel SameButRules (segments key) (segments' key)) →
        ∃ t', clauseMatchesUser w' clause' user s' = .ok (status, t') := by
  obtain ⟨status, t, hrun, hcases, hstatus⟩ := segmentList_concludes hhex hserves huser h values s
  rw [← h.clauseMatchesUser_eq w user] at hrun
  refine ⟨status, t, hrun, hcases, hstatus, ?_, ?_, ?_⟩
  · intro hmissing
    rw [hstatus]
    have hnone : ¬ SomeSegmentHolds user segments values := by
      rintro ⟨key, hkey, segment, hsome, -⟩
      rw [hmissing key hkey] at hsome
      cases hsome
    simp [hnone]
  · intro key hkey segment hsome hincluded
    rw [hstatus]
    have hholds : SomeSegmentHolds user segments values := ⟨key, hkey, segment, hsome, .inl hincluded⟩
    simp [hholds]
  · intro w' segments' clause' values' s' hserves' h' hvalues hsegments
    obtain ⟨status', t', hrun', hcases', hstatus'⟩ :=
      segmentList_concludes hhex hserves' huser h' values' s'
    rw [← h'.clauseMatchesUser_eq w' user] at hrun'
    rw [← someSegmentHolds_congr hvalues hsegments user, ← hstatus] at hstatus'
    have hsame : status' = status := by
      rcases hcases with rfl | rfl
      · exact hstatus'.mpr rfl
      · exact hcases'.resolve_left fun hmatched => absurd (hstatus'.mp hmatched) (by decide)
    exact ⟨t', hsame ▸ hrun'⟩

end Segments

def betaClause : Json :=
  .object [("op", .text "in"), ("attribute", .text "key"), ("values", .array [.text "u"])]

def betaRule : Json :=
  .object [("clauses", .array [betaClause]), ("weight", .number 100000)]

def betaSegment : Json :=
  .object [("key", .text "beta"), ("salt", .text "salt"), ("included", .array [.text "v"]),
    ("excluded", .array [.text "w"]), ("rules", .array [betaRule])]

def betaSegments (key : String) : Option Json := if key = "beta" then some betaSegment else none

def betaWorld : World Unit where
  storeInitialized _ := (true, ())
  storeGet _ key _ := (some (betaSegments key), ())
  storeAll _ _ := (none, ())
  unixMilliseconds _ := (0, ())
  monotonicMilliseconds _ := (0, ())

def segmentMatchClause : Json :=
  .object [("op", .text "segmentMatch"), ("values", .array [.text "gone", .text "beta"])]

theorem betaSegment_wellFormed : WellFormedSegment betaSegment := by
  have hclause : WellFormedClause betaClause := ⟨rfl, rfl, ⟨_, rfl⟩, nofun, nofun⟩
  have hrule : WellFormedSegmentRule betaRule := by
    refine ⟨rfl, nofun, ?_, nofun, rfl⟩
    rintro clause (_ | ⟨_, ⟨⟩⟩)
    exact hclause
  refine ⟨rfl, ⟨nofun, ["v"], rfl⟩, ⟨nofun, ["w"], rfl⟩, ⟨_, rfl⟩, ⟨_, rfl⟩, nofun, ?_⟩
  rintro rule (_ | ⟨_, ⟨⟩⟩)
  exact hrule

theorem betaWorld_serves : ServesSegments betaWorld betaSegments := by
  refine ⟨fun _ _ => rfl, ?_⟩
  intro key segment hsegment
  rw [betaSegments] at hsegment
  split_ifs at hsegment
  cases hsegment
  exact betaSegment_wellFormed

theorem beta_clause_concludes : ∃ status t,
    @clauseMatchesUser literalExternals Unit betaWorld segmentMatchClause (userNew "v") () =
      .ok (status, t) ∧ status = .matched := by
  obtain ⟨status, t, hrun, -, -, -, hincluded, -⟩ := @segment_clause_matches_by_meaning
    literalExternals Unit Unit literal_hexifyFits betaWorld betaSegments betaWorld_serves
    (userNew "v") ⟨nofun⟩ segmentMatchClause ["gone", "beta"] false
    ⟨rfl, rfl, nofun, rfl, nofun, rfl⟩ ()
  refine ⟨status, t, hrun, (hincluded "beta" (by decide) betaSegment rfl ?_).mpr rfl⟩
  exact List.mem_singleton.mpr rfl

def teamClause : Json :=
  .object [("op", .text "in"), ("attribute", .text "team"), ("values", .array [.text "x"])]

def teamSegment : Json :=
  .object [("key", .text "beta"), ("salt", .text "salt"),
    ("rules", .array [.object [("clauses", .array [teamClause])]])]

def teamSegments (key : String) : Option Json := if key = "beta" then some teamSegment else none

def teamWorld : World Unit :=
  { betaWorld with storeGet := fun _ key _ => (some (teamSegments key), ()) }

def textCustomUser : User := { userNew "u" with custom := some (.text "x") }

theorem teamSegment_wellFormed : WellFormedSegment teamSegment := by
  have hclause : WellFormedClause teamClause := ⟨rfl, rfl, ⟨_, rfl⟩, nofun, nofun⟩
  refine ⟨rfl, ⟨nofun, [], rfl⟩, ⟨nofun, [], rfl⟩, ⟨_, rfl⟩, ⟨_, rfl⟩, nofun, ?_⟩
  rintro rule (_ | ⟨_, ⟨⟩⟩)
  refine ⟨rfl, nofun, ?_, nofun, rfl⟩
  rintro clause (_ | ⟨_, ⟨⟩⟩)
  exact hclause

theorem text_custom_user_aborts :
    ServesSegments teamWorld teamSegments ∧
      SegmentClause segmentMatchClause ["gone", "beta"] false ∧
      ¬ Run.Returns (@clauseMatchesUser literalExternals Unit teamWorld segmentMatchClause
        textCustomUser) () := by
  refine ⟨⟨fun _ _ => rfl, ?_⟩, ⟨rfl, rfl, nofun, rfl, nofun, rfl⟩, ?_⟩
  · intro key segment hsegment
    rw [teamSegments] at hsegment
    split_ifs at hsegment
    cases hsegment
    exact teamSegment_wellFormed
  · have hrun : @clauseMatchesUser literalExternals Unit teamWorld segmentMatchClause
        textCustomUser () = .error (.fault .assertion) := rfl
    rintro ⟨status, t, hreturned⟩
    rw [hrun] at hreturned
    cases hreturned

end ServerSdk
