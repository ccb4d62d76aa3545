import ServerSdk.Evaluate.SafeData

namespace ServerSdk

open Program

def elementsOf : Json → List Json
  | .array elements => elements
  | value => [value]

def IsContainer (element : Json) : Prop := element.getType = .object ∨ element.getType = .array

instance (element : Json) : Decidable (IsContainer element) := inferInstanceAs (Decidable (_ ∨ _))

def Uninterrupted : Json → Prop
  | .array elements => ∀ element ∈ elements, ¬ IsContainer element
  | _ => True

instance : DecidablePred Uninterrupted
  | .array elements => inferInstanceAs (Decidable (∀ element ∈ elements, ¬ IsContainer element))
  | .null | .bool _ | .number _ | .text _ | .object _ => isTrue trivial

def Hits (f : OpFn) (values elements : List Json) : Prop :=
  ∃ element ∈ elements, ∃ value ∈ values, f element value = true

def hits (f : OpFn) (values elements : List Json) : Bool :=
  elements.any fun element => values.any (f element)

def outcome (matching negate : Bool) : EvalStatus := if matching = negate then .miss else .matched

theorem hits_iff {f : OpFn} {values elements : List Json} :
    hits f values elements = true ↔ Hits f values elements := by
  simp [hits, Hits]

theorem outcome_eq_matched {matching negate : Bool} :
    outcome matching negate = .matched ↔ ((matching = true) ≠ (negate = true)) := by
  cases matching <;> cases negate <;> simp [outcome]

theorem outcome_cases (matching negate : Bool) :
    outcome matching negate = .matched ∨ outcome matching negate = .miss := by
  cases matching <;> cases negate <;> simp [outcome]

theorem negated_outcome (matching negate : Bool) :
    negated (outcome matching negate) = outcome matching !negate := by
  cases matching <;> cases negate <;> rfl

theorem hits_perm {f : OpFn} {values values' elements elements' : List Json}
    (hvalues : values.Perm values') (helements : elements.Perm elements') :
    hits f values elements = hits f values' elements' := by
  rw [Bool.eq_iff_iff, hits_iff, hits_iff]
  simp only [Hits, hvalues.mem_iff, helements.mem_iff]

structure ClauseOf (clause : Json) (attr : String) (values : List Json) (negate : Bool) : Prop where
  isObject : clause.getType = .object
  attr : requiredField clause "attribute" .text = some (.text attr)
  valuesTyped : optionalField clause "values" .array ≠ .mistyped
  values : (optionalField clause "values" .array).items = values
  negateTyped : optionalField clause "negate" .bool ≠ .mistyped
  negate : (optionalField clause "negate" .bool).isTrue = negate

variable {clause : Json} {attr : String} {values : List Json} {negate : Bool} {f : OpFn}

theorem maybeNegate_outcome (hobj : clause.getType = .object)
    (htyped : optionalField clause "negate" .bool ≠ .mistyped)
    (hnegate : (optionalField clause "negate" .bool).isTrue = negate) (matching : Bool) :
    maybeNegate clause (outcome matching false) = .ok (outcome matching negate) := by
  have hstatus : isEvalError (outcome matching false) = false := by cases matching <;> rfl
  simp only [maybeNegate, hstatus, Bool.false_eq_true, if_false, lookupOptional_of_object hobj,
    Checked.ok_bind]
  cases hfield : optionalField clause "negate" .bool with
  | mistyped => exact absurd hfield htyped
  | absent =>
      rw [hfield] at hnegate
      cases hnegate
      rfl
  | present json =>
      rw [hfield] at hnegate
      obtain rfl : json.getBool = negate := hnegate
      simp only
      cases json.getBool with
      | false => rfl
      | true => exact congrArg Except.ok (negated_outcome matching false)

theorem ClauseOf.negates (h : ClauseOf clause attr values negate) (matching : Bool) :
    maybeNegate clause (outcome matching false) = .ok (outcome matching negate) :=
  maybeNegate_outcome h.isObject h.negateTyped h.negate matching

theorem matchAny_eq_outcome (value : Json) :
    matchAny f value values = outcome (hits f values [value]) false := by
  have hany : hits f values [value] = values.any (f value) := by simp [hits]
  rw [matchAny, hany]
  cases values.any (f value) <;> rfl

theorem hits_cons (element : Json) (elements : List Json) :
    hits f values (element :: elements) = (hits f values [element] || hits f values elements) := by
  simp [hits]

theorem ClauseOf.matchElements_cons (h : ClauseOf clause attr values negate) {element : Json}
    (hplain : ¬ IsContainer element) (elements : List Json) :
    matchElements f clause values (element :: elements) =
      if hits f values [element] then .ok (outcome true negate)
      else matchElements f clause values elements := by
  rw [matchElements]
  refine (if_neg hplain).trans ?_
  rw [matchAny_eq_outcome]
  cases hits f values [element] with
  | false => rfl
  | true => exact h.negates true

theorem ClauseOf.matchElements_append (h : ClauseOf clause attr values negate) {before : List Json}
    (hplain : ∀ element ∈ before, ¬ IsContainer element) (after : List Json) :
    matchElements f clause values (before ++ after) =
      if hits f values before then .ok (outcome true negate)
      else matchElements f clause values after := by
  induction before with
  | nil => rfl
  | cons element before ih =>
      rw [List.forall_mem_cons] at hplain
      rw [List.cons_append, h.matchElements_cons hplain.1, ih hplain.2,
        hits_cons element before]
      cases hits f values [element] <;> rfl

theorem ClauseOf.matchElements_plain (h : ClauseOf clause attr values negate) {elements : List Json}
    (hplain : ∀ element ∈ elements, ¬ IsContainer element) :
    matchElements f clause values elements = .ok (outcome (hits f values elements) negate) := by
  have hnil : matchElements f clause values [] = .ok (outcome false negate) :=
    h.negates false
  rw [← List.append_nil elements, h.matchElements_append hplain, List.append_nil, hnil]
  cases hits f values elements <;> rfl

theorem ClauseOf.matchElements_container (h : ClauseOf clause attr values negate) {before : List Json}
    (hplain : ∀ element ∈ before, ¬ IsContainer element) {element : Json} (hcontainer : IsContainer element)
    (after : List Json) :
    matchElements f clause values (before ++ element :: after) =
      .ok (if hits f values before then outcome true negate else .miss) := by
  have hstop : matchElements f clause values (element :: after) = .ok .miss := by
    rw [matchElements]
    exact if_pos hcontainer
  rw [h.matchElements_append hplain, hstop]
  cases hits f values before <;> rfl

theorem ClauseOf.matchAttribute_plain (h : ClauseOf clause attr values negate) {value : Json}
    (hnull : value ≠ .null) (hplain : Uninterrupted value) :
    matchAttribute f clause values value =
      .ok (outcome (hits f values (elementsOf value)) negate) := by
  have hsingle : maybeNegate clause (matchAny f value values) =
      .ok (outcome (hits f values [value]) negate) := by
    rw [matchAny_eq_outcome]
    exact h.negates _
  cases value with
  | null => exact absurd rfl hnull
  | array elements => exact h.matchElements_plain hplain
  | bool b => exact hsingle
  | number n => exact hsingle
  | text s => exact hsingle
  | object fields => exact hsingle

theorem ClauseOf.matchUserAttribute_plain (h : ClauseOf clause attr values negate) {user : User}
    {value : Json} (hvalue : valueOfAttribute user attr = .ok (some value)) (hnull : value ≠ .null)
    (hplain : Uninterrupted value) :
    matchUserAttribute f clause user attr values =
      .ok (outcome (hits f values (elementsOf value)) negate) := by
  rw [matchUserAttribute, hvalue, Checked.ok_bind]
  exact h.matchAttribute_plain hnull hplain

theorem Uninterrupted.perm {elements elements' : List Json} (h : Uninterrupted (.array elements))
    (hperm : elements.Perm elements') : Uninterrupted (.array elements') :=
  fun element helement => h element (hperm.mem_iff.mpr helement)

section Clause

variable [Externals]

def KnownOperator (clause : Json) (f : OpFn) : Prop :=
  ∃ op, requiredField clause "op" .text = some (.text op) ∧ lookupOperation op = some f

theorem ClauseOf.clauseMatches_eq (h : ClauseOf clause attr values negate)
    (hop : KnownOperator clause f) (user : User) :
    clauseMatchesUserNoSegments clause user = matchUserAttribute f clause user attr values := by
  obtain ⟨op, hop, hknown⟩ := hop
  have htyped := h.valuesTyped
  rw [clauseMatchesUserNoSegments, lookupRequired_of_object h.isObject, Checked.ok_bind, hop]
  simp only [Json.getText_text, Option.getD_some, hknown, lookupRequired_of_object h.isObject,
    lookupOptional_of_object h.isObject, Checked.ok_bind, h.attr]
  have hitems := h.values
  cases hfield : optionalField clause "values" .array with
  | mistyped => exact absurd hfield htyped
  | absent =>
      rw [hfield] at hitems
      rw [← hitems]
  | present items =>
      rw [hfield] at hitems
      rw [← hitems]

theorem clause_matches_by_meaning (f : OpFn) (clause : Json) (attr : String) (values : List Json)
    (negate : Bool) (user : User) (value : Json) (h : ClauseOf clause attr values negate)
    (hvalue : valueOfAttribute user attr = .ok (some value)) (hnull : value ≠ .null) :
    (KnownOperator clause f → clauseMatchesUserNoSegments clause user =
      matchUserAttribute f clause user attr values) ∧
    (Uninterrupted value → ∃ status, matchUserAttribute f clause user attr values = .ok status ∧
      (status = .matched ∨ status = .miss) ∧
      (status = .matched ↔ Hits f values (elementsOf value) ≠ (negate = true))) ∧
    (∀ before container after, value = .array (before ++ container :: after) →
      (∀ element ∈ before, ¬ IsContainer element) → IsContainer container →
      ∃ status, matchUserAttribute f clause user attr values = .ok status ∧
        (status = .matched ∨ status = .miss) ∧
        (status = .matched ↔ Hits f values before ∧ negate = false)) ∧
    (∀ (clause' : Json) (values' : List Json) (user' : User) (elements elements' : List Json),
      ClauseOf clause' attr values' negate → value = .array elements → Uninterrupted value →
      valueOfAttribute user' attr = .ok (some (.array elements')) →
      values.Perm values' → elements.Perm elements' →
      matchUserAttribute f clause' user' attr values' =
        matchUserAttribute f clause user attr values) ∧
    (∀ clause' : Json, ClauseOf clause' attr values (!negate) → Uninterrupted value →
      ∃ status, matchUserAttribute f clause user attr values = .ok status ∧
        matchUserAttribute f clause' user attr values = .ok (negated status)) := by
  refine ⟨fun hop => h.clauseMatches_eq hop user, ?_, ?_, ?_, ?_⟩
  · intro hplain
    refine ⟨_, h.matchUserAttribute_plain hvalue hnull hplain, outcome_cases _ _, ?_⟩
    rw [outcome_eq_matched, hits_iff]
  · rintro before container after rfl hbefore hcontainer
    refine ⟨if hits f values before then outcome true negate else .miss, ?_, ?_, ?_⟩
    · rw [matchUserAttribute, hvalue, Checked.ok_bind]
      exact h.matchElements_container hbefore hcontainer after
    · split
      · exact outcome_cases true negate
      · exact .inr rfl
    · rw [← hits_iff]
      cases hits f values before <;> cases negate <;> decide
  · rintro clause' values' user' elements elements' h' rfl hplain hvalue' hvalues helements
    rw [h.matchUserAttribute_plain hvalue hnull hplain,
      h'.matchUserAttribute_plain hvalue' (by simp) (hplain.perm helements)]
    exact congrArg (fun matching => Except.ok (outcome matching negate))
      (hits_perm hvalues helements).symm
  · intro clause' h' hplain
    refine ⟨_, h.matchUserAttribute_plain hvalue hnull hplain, ?_⟩
    rw [h'.matchUserAttribute_plain hvalue hnull hplain, negated_outcome]

end Clause

def groupClause (negate : Bool) : Json :=
  .object [("op", .text "in"), ("attribute", .text "groups"), ("values", .array [.text "a"]),
    ("negate", .bool negate)]

def groupUser (groups : List Json) : User where
  __ := userNew "u"
  custom := some (.object [("groups", .array groups)])

theorem groupClause_form (negate : Bool) :
    ClauseOf (groupClause negate) "groups" [.text "a"] negate :=
  ⟨rfl, rfl, nofun, rfl, nofun, rfl⟩

section Fixed

attribute [local instance] literalExternals

theorem group_clause_matches : clauseMatchesUserNoSegments (groupClause false)
    (groupUser [.number 1, .text "a"]) = .ok .matched := by
  have hmeaning := clause_matches_by_meaning operatorIn (groupClause false) "groups" [.text "a"] false
    (groupUser [.number 1, .text "a"]) (.array [.number 1, .text "a"]) (groupClause_form false) rfl
    nofun
  obtain ⟨status, hstatus, -, hmatched⟩ := hmeaning.2.1 (by decide)
  have hhits : Hits operatorIn [.text "a"] (elementsOf (.array [.number 1, .text "a"])) := by
    rw [← hits_iff]
    decide +kernel
  rw [hmeaning.1 ⟨"in", rfl, rfl⟩, hstatus, hmatched.mpr (by simp [hhits])]

theorem nested_element_stops_clause :
    clauseMatchesUserNoSegments (groupClause false) (groupUser [.text "a", .object []]) =
        .ok .matched ∧
      clauseMatchesUserNoSegments (groupClause false) (groupUser [.object [], .text "a"]) =
        .ok .miss ∧
      clauseMatchesUserNoSegments (groupClause false) (groupUser [.object []]) = .ok .miss ∧
      clauseMatchesUserNoSegments (groupClause true) (groupUser [.object []]) = .ok .miss :=
  ⟨rfl, rfl, rfl, rfl⟩

end Fixed

end ServerSdk
