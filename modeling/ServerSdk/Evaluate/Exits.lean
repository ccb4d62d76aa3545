import ServerSdk.Evaluate.Stages

namespace ServerSdk

open Program

def valueAt (flag : Json) (index : Option Json) : Option (Json × Nat) :=
  match index with
  | some (.number n) =>
      if n < 0 then none
      else (requiredField flag "variations" .array).bind fun variations =>
        (variations.arrayLookup (toUnsignedInt n)).map fun variation =>
          (variation, toUnsignedInt n)
  | _ => none

theorem getValue_of_object {flag : Json} (h : flag.getType = .object) (index : Option Json) :
    getValue flag index = .ok (valueAt flag index) := by
  cases index with
  | none => rfl
  | some j =>
      cases j with
      | number n =>
          simp only [getValue, valueAt, lookupRequired_of_object h, Checked.ok_bind]
          split
          · rfl
          · cases requiredField flag "variations" .array with
            | none => rfl
            | some variations =>
                simp only [Option.bind_some]
                cases variations.arrayLookup (toUnsignedInt n) with
                | none => rfl
                | some variation => rfl
      | null => rfl
      | bool b => rfl
      | text s => rfl
      | array items => rfl
      | object fields => rfl

theorem valueAt_eq_some {flag v : Json} {index : Option Json} {i : Nat}
    (h : valueAt flag index = some (v, i)) :
    ∃ variations, requiredField flag "variations" .array = some variations ∧
      variations.arrayLookup i = some v := by
  cases index with
  | none => cases h
  | some j =>
      cases j with
      | number n =>
          simp only [valueAt] at h
          split at h
          · cases h
          · obtain ⟨variations, hvars, hmap⟩ := Option.bind_eq_some_iff.mp h
            obtain ⟨variation, hlookup, heq⟩ := Option.map_eq_some_iff.mp hmap
            cases heq
            exact ⟨variations, hvars, hlookup⟩
      | null => cases h
      | bool b => cases h
      | text s => cases h
      | array items => cases h
      | object fields => cases h

def Outputs.settle (out : Outputs) : Option (Json × Nat) → Outputs
  | none => out.malformed
  | some (variation, index) => out.serve variation index

theorem addValue_of_object {flag : Json} (h : flag.getType = .object) (index : Option Json)
    (out : Outputs) :
    addValue flag index out =
      .ok ((valueAt flag index).isSome, out.settle (valueAt flag index)) := by
  simp only [addValue, getValue_of_object h, Checked.ok_bind]
  cases valueAt flag index with
  | none => rfl
  | some p => rfl

def settled (status : EvalStatus) (out : Outputs) (found : Option (Json × Nat)) : Evaluation :=
  (if found.isSome then status else .schema, out.settle found)

theorem addValueAs_of_object {flag : Json} (h : flag.getType = .object) (status : EvalStatus)
    (index : Option Json) (out : Outputs) :
    addValueAs status flag index out = .ok (settled status out (valueAt flag index)) := by
  simp only [addValueAs, addValue_of_object h, Checked.ok_bind]
  rfl

def Untargeted (user : User) (targets : List Json) : Prop :=
  ∀ target ∈ targets, target.getType = .object ∧
    optionalField target "values" .array ≠ .mistyped ∧
    listsUser (optionalField target "values" .array) user = .ok false

theorem evaluateTargets_cons_of_object {flag target : Json} {targets : List Json} {user : User}
    {out : Outputs} (h : target.getType = .object)
    (hv : optionalField target "values" .array ≠ .mistyped) :
    evaluateTargets flag user out (target :: targets) =
      listsUser (optionalField target "values" .array) user >>= fun listed =>
        if listed then
          match requiredField target "variation" .number with
          | none => .ok (some (.schema, out))
          | some variation =>
              addValueAs .matched flag (some variation) (out.setReason .targetMatch) >>=
                fun result => .ok (some result)
        else evaluateTargets flag user out targets := by
  simp only [evaluateTargets, h, lookupOptional_of_object h, lookupRequired_of_object h,
    Checked.ok_bind]
  cases hf : optionalField target "values" .array with
  | mistyped => exact absurd hf hv
  | absent => rfl
  | present values => rfl

theorem evaluateTargets_eq_none {flag : Json} {user : User} {out : Outputs} {targets : List Json} :
    evaluateTargets flag user out targets = .ok none ↔ Untargeted user targets := by
  induction targets with
  | nil =>
      constructor
      · intro _ target hmem
        cases hmem
      · intro _
        rfl
  | cons target targets ih =>
      rw [Untargeted, List.forall_mem_cons]
      by_cases hobj : target.getType = .object
      · by_cases hv : optionalField target "values" .array = .mistyped
        · simp [evaluateTargets, hobj, lookupOptional_of_object hobj, hv, pure, Except.pure]
        · rw [evaluateTargets_cons_of_object hobj hv]
          cases hl : listsUser (optionalField target "values" .array) user with
          | error e => simp
          | ok listed =>
              cases listed with
              | false => simpa [hobj, hv, Untargeted] using ih
              | true =>
                  simp only [Checked.ok_bind, if_true]
                  cases requiredField target "variation" .number with
                  | none => simp
                  | some variation =>
                      constructor
                      · intro h
                        obtain ⟨result, -, hr⟩ := Checked.bind_eq_ok.mp h
                        cases hr
                      · rintro ⟨⟨-, -, hfalse⟩, -⟩
                        cases hfalse
      · simp [evaluateTargets, hobj, pure, Except.pure]

inductive MalformedTargets (user : User) : List Json → Prop
  | type {target : Json} {targets : List Json} (h : target.getType ≠ .object) :
      MalformedTargets user (target :: targets)
  | values {target : Json} {targets : List Json} (hobj : target.getType = .object)
      (h : optionalField target "values" .array = .mistyped) :
      MalformedTargets user (target :: targets)
  | variation {target : Json} {targets : List Json} (hobj : target.getType = .object)
      (hvalues : optionalField target "values" .array ≠ .mistyped)
      (hlisted : listsUser (optionalField target "values" .array) user = .ok true)
      (h : requiredField target "variation" .number = none) :
      MalformedTargets user (target :: targets)
  | later {target : Json} {targets : List Json} (hobj : target.getType = .object)
      (hvalues : optionalField target "values" .array ≠ .mistyped)
      (hlisted : listsUser (optionalField target "values" .array) user = .ok false)
      (hrest : MalformedTargets user targets) : MalformedTargets user (target :: targets)

theorem evaluateTargets_of_malformed {flag : Json} {user : User} {out : Outputs}
    {targets : List Json} (h : MalformedTargets user targets) :
    evaluateTargets flag user out targets = .ok (some (.schema, out)) := by
  induction h with
  | type htype => simp [evaluateTargets, htype, pure, Except.pure]
  | values hobj hvalues =>
      simp [evaluateTargets, hobj, lookupOptional_of_object hobj, hvalues, pure, Except.pure]
  | variation hobj hvalues hlisted hnone =>
      rw [evaluateTargets_cons_of_object hobj hvalues, hlisted, hnone]
      rfl
  | later hobj hvalues hlisted _ ih =>
      rw [evaluateTargets_cons_of_object hobj hvalues, hlisted]
      exact ih

theorem evaluateTargets_eq_some {flag : Json} {user : User} {out : Outputs} {targets : List Json}
    {r : Evaluation} (h : evaluateTargets flag user out targets = .ok (some r)) :
    (r = (.schema, out) ∧ MalformedTargets user targets) ∨
      ∃ variation, addValueAs .matched flag (some variation) (out.setReason .targetMatch) = .ok r := by
  induction targets with
  | nil => cases h
  | cons target targets ih =>
      by_cases hobj : target.getType = .object
      · by_cases hv : optionalField target "values" .array = .mistyped
        · simp [evaluateTargets, hobj, lookupOptional_of_object hobj, hv, pure, Except.pure] at h
          exact .inl ⟨h.symm, .values hobj hv⟩
        · rw [evaluateTargets_cons_of_object hobj hv] at h
          obtain ⟨listed, hlisted, h⟩ := Checked.bind_eq_ok.mp h
          cases listed with
          | false =>
              rcases ih h with ⟨hr, hrest⟩ | hadd
              · exact .inl ⟨hr, .later hobj hv hlisted hrest⟩
              · exact .inr hadd
          | true =>
              simp only [if_true] at h
              cases hvar : requiredField target "variation" .number with
              | none =>
                  rw [hvar] at h
                  cases h
                  exact .inl ⟨rfl, .variation hobj hv hlisted hvar⟩
              | some variation =>
                  rw [hvar] at h
                  obtain ⟨result, hresult, hr⟩ := Checked.bind_eq_ok.mp h
                  cases hr
                  exact .inr ⟨variation, hresult⟩
      · simp [evaluateTargets, hobj, pure, Except.pure] at h
        exact .inl ⟨h.symm, .type hobj⟩

section Rules

variable [Externals] {σ : Type} {w : World σ} {user : User}

inductive FirstMatch (w : World σ) (user : User) : List Json → σ → Nat → Json → σ → Prop
  | here {rule : Json} {rules : List Json} {s t : σ} (hobj : rule.getType = .object)
      (h : ruleMatchesUser w rule user s = .ok (.matched, t)) :
      FirstMatch w user (rule :: rules) s 0 rule t
  | later {rule r : Json} {rules : List Json} {s t u : σ} {n : Nat}
      (hobj : rule.getType = .object) (h : ruleMatchesUser w rule user s = .ok (.miss, t))
      (hrest : FirstMatch w user rules t n r u) : FirstMatch w user (rule :: rules) s (n + 1) r u

inductive NoMatch (w : World σ) (user : User) : List Json → σ → σ → Prop
  | nil (s : σ) : NoMatch w user [] s s
  | cons {rule : Json} {rules : List Json} {s t u : σ} (hobj : rule.getType = .object)
      (h : ruleMatchesUser w rule user s = .ok (.miss, t)) (hrest : NoMatch w user rules t u) :
      NoMatch w user (rule :: rules) s u

inductive MalformedRules (w : World σ) (user : User) : List Json → σ → EvalStatus → σ → Prop
  | type {rule : Json} {rules : List Json} {s : σ} (h : rule.getType ≠ .object) :
      MalformedRules w user (rule :: rules) s .schema s
  | clauses {rule : Json} {rules : List Json} {s t : σ} {status : EvalStatus}
      (hobj : rule.getType = .object) (h : ruleMatchesUser w rule user s = .ok (status, t))
      (herr : isEvalError status = true) : MalformedRules w user (rule :: rules) s status t
  | later {rule : Json} {rules : List Json} {s t u : σ} {status : EvalStatus}
      (hobj : rule.getType = .object) (h : ruleMatchesUser w rule user s = .ok (.miss, t))
      (hrest : MalformedRules w user rules t status u) :
      MalformedRules w user (rule :: rules) s status u

theorem MalformedRules.error {rules : List Json} {s t : σ} {status : EvalStatus}
    (h : MalformedRules w user rules s status t) : isEvalError status = true := by
  induction h with
  | type _ => rfl
  | clauses _ _ herr => exact herr
  | later _ _ _ ih => exact ih

theorem FirstMatch.object {rules : List Json} {s t : σ} {n : Nat} {rule : Json}
    (h : FirstMatch w user rules s n rule t) : rule.getType = .object := by
  induction h with
  | here hobj _ => exact hobj
  | later _ _ _ ih => exact ih

theorem evaluateRules_cons_of_object {flag rule : Json} {rules : List Json} {out : Outputs}
    {index : Nat} (h : rule.getType = .object) :
    evaluateRules w flag user out index (rule :: rules) =
      ruleMatchesUser w rule user >>= fun status =>
        match status with
        | .matched => Run.lift (serveRule flag rule index user out) >>= fun r => pure (some r)
        | .miss => evaluateRules w flag user out (index + 1) rules
        | substatus => pure (some (substatus, out)) := by
  have hkept : ¬rule.getType ≠ .object := not_not_intro h
  exact if_neg hkept

theorem evaluateRules_of_firstMatch {flag rule : Json} {rules : List Json} {out : Outputs}
    {index n : Nat} {s t : σ} {r : Evaluation} (h : FirstMatch w user rules s n rule t)
    (hserve : serveRule flag rule (index + n) user out = .ok r) :
    evaluateRules w flag user out index rules s = .ok (some r, t) := by
  induction h generalizing index with
  | here hobj hmatch =>
      rw [evaluateRules_cons_of_object hobj, Run.bind_of_ok hmatch]
      simp only [Nat.add_zero] at hserve
      simp only [hserve, Run.lift_ok, pure_bind, Run.pure_run]
  | later hobj hmiss _ ih =>
      rw [evaluateRules_cons_of_object hobj, Run.bind_of_ok hmiss]
      refine ih ?_
      rw [← hserve]
      congr 1
      omega

theorem evaluateRules_of_noMatch {flag : Json} {rules : List Json} {out : Outputs} {index : Nat}
    {s t : σ} (h : NoMatch w user rules s t) :
    evaluateRules w flag user out index rules s = .ok (none, t) := by
  induction h generalizing index with
  | nil s => rfl
  | cons hobj hmiss _ ih =>
      rw [evaluateRules_cons_of_object hobj, Run.bind_of_ok hmiss]
      exact ih

theorem evaluateRules_of_malformed {flag : Json} {rules : List Json} {out : Outputs} {index : Nat}
    {s t : σ} {status : EvalStatus} (h : MalformedRules w user rules s status t) :
    evaluateRules w flag user out index rules s = .ok (some (status, out), t) := by
  induction h generalizing index with
  | type htype =>
      simp only [evaluateRules, ne_eq, htype, not_false_eq_true, if_true]
      rfl
  | @clauses _ _ _ _ status hobj hclauses herr =>
      rw [evaluateRules_cons_of_object hobj, Run.bind_of_ok hclauses]
      cases status with
      | matched => cases herr
      | miss => cases herr
      | mem => rfl
      | schema => rfl
      | store => rfl
  | later hobj hmiss _ ih =>
      rw [evaluateRules_cons_of_object hobj, Run.bind_of_ok hmiss]
      exact ih

theorem evaluateRules_eq_ok {flag : Json} {rules : List Json} {out : Outputs} {index : Nat}
    {s t : σ} {o : Option Evaluation}
    (h : evaluateRules w flag user out index rules s = .ok (o, t)) :
    (∃ status, MalformedRules w user rules s status t ∧ o = some (status, out)) ∨
    (∃ n rule r, FirstMatch w user rules s n rule t ∧
      serveRule flag rule (index + n) user out = .ok r ∧ o = some r) ∨
    (NoMatch w user rules s t ∧ o = none) := by
  induction rules generalizing index s with
  | nil =>
      cases h
      exact .inr (.inr ⟨.nil t, rfl⟩)
  | cons rule rules ih =>
      by_cases hobj : rule.getType = .object
      · rw [evaluateRules_cons_of_object hobj] at h
        obtain ⟨status, u, hstatus, h⟩ := Run.bind_eq_ok.mp h
        cases status with
        | matched =>
            obtain ⟨r, v, hlift, hpure⟩ := Run.bind_eq_ok.mp h
            obtain ⟨hserve, hv⟩ := Run.lift_eq_ok.mp hlift
            cases hpure
            cases hv
            exact .inr (.inl ⟨0, rule, r, .here hobj hstatus, hserve, rfl⟩)
        | miss =>
            rcases ih h with ⟨status, hrest, ho⟩ | ⟨n, r, e, hfirst, hserve, ho⟩ | ⟨hno, ho⟩
            · exact .inl ⟨status, .later hobj hstatus hrest, ho⟩
            · refine .inr (.inl ⟨n + 1, r, e, .later hobj hstatus hfirst, ?_, ho⟩)
              rw [← hserve]
              congr 1
              omega
            · exact .inr (.inr ⟨.cons hobj hstatus hno, ho⟩)
        | mem =>
            cases h
            exact .inl ⟨.mem, .clauses hobj hstatus rfl, rfl⟩
        | schema =>
            cases h
            exact .inl ⟨.schema, .clauses hobj hstatus rfl, rfl⟩
        | store =>
            cases h
            exact .inl ⟨.store, .clauses hobj hstatus rfl, rfl⟩
      · simp only [evaluateRules, ne_eq, hobj, not_false_eq_true, if_true] at h
        cases h
        exact .inl ⟨.schema, .type hobj, rfl⟩

inductive RuleServed (flag rule : Json) (n : Nat) (user : User) (out : Outputs) : Evaluation → Prop
  | index (hindex : getIndexForVariationOrRollout flag (some rule) user = .ok none) :
      RuleServed flag rule n user out
        (.schema, (out.setReason .ruleMatch).setExtra (.rule ⟨n, none, false⟩))
  | value {inExperiment : Bool} {variation : Option Json}
      (hindex : getIndexForVariationOrRollout flag (some rule) user =
        .ok (some (inExperiment, variation)))
      (hvalue : valueAt flag variation = none) :
      RuleServed flag rule n user out
        (.schema, ((out.setReason .ruleMatch).setExtra (.rule ⟨n, none, inExperiment⟩)).malformed)
  | id {inExperiment : Bool} {variation : Option Json} {v : Json} {i : Nat}
      (hindex : getIndexForVariationOrRollout flag (some rule) user =
        .ok (some (inExperiment, variation)))
      (hvalue : valueAt flag variation = some (v, i))
      (hid : optionalField rule "id" .text = .mistyped) :
      RuleServed flag rule n user out
        (.schema, ((out.setReason .ruleMatch).setExtra (.rule ⟨n, none, inExperiment⟩)).serve v i)
  | served {inExperiment : Bool} {variation : Option Json} {v : Json} {i : Nat} (id : Option String)
      (hindex : getIndexForVariationOrRollout flag (some rule) user =
        .ok (some (inExperiment, variation)))
      (hvalue : valueAt flag variation = some (v, i)) :
      RuleServed flag rule n user out
        (.matched, ((out.setReason .ruleMatch).serve v i).setExtra (.rule ⟨n, id, inExperiment⟩))

theorem ruleServed {flag rule : Json} {n : Nat} {out : Outputs} {r : Evaluation}
    (hobj : flag.getType = .object) (hrule : rule.getType = .object)
    (h : serveRule flag rule n user out = .ok r) : RuleServed flag rule n user out r := by
  obtain ⟨index, hindex, hrest⟩ := Checked.bind_eq_ok.mp h
  cases index with
  | none =>
      cases hrest
      exact .index hindex
  | some p =>
      obtain ⟨inExperiment, variation⟩ := p
      simp only [addValue_of_object hobj, Checked.ok_bind, lookupOptional_of_object hrule] at hrest
      cases hvalue : valueAt flag variation with
      | none =>
          rw [hvalue] at hrest
          cases hrest
          exact .value hindex hvalue
      | some q =>
          obtain ⟨v, i⟩ := q
          simp only [hvalue, Option.isSome_some, if_true] at hrest
          cases hid : optionalField rule "id" .text with
          | mistyped =>
              rw [hid] at hrest
              cases hrest
              exact .id hindex hvalue hid
          | absent =>
              rw [hid] at hrest
              cases hrest
              exact .served none hindex hvalue
          | present ruleId =>
              rw [hid] at hrest
              cases hrest
              exact .served ruleId.getText hindex hvalue

inductive TargetingFailure (client : Client σ) (user : User) (flag : Json) (s : σ) :
    EvalStatus → σ → Prop
  | targets (h : optionalField flag "targets" .array = .mistyped) :
      TargetingFailure client user flag s .schema s
  | target (htargets : optionalField flag "targets" .array ≠ .mistyped)
      (h : MalformedTargets user (optionalField flag "targets" .array).items) :
      TargetingFailure client user flag s .schema s
  | rules (htargets : optionalField flag "targets" .array ≠ .mistyped)
      (huntargeted : Untargeted user (optionalField flag "targets" .array).items)
      (h : optionalField flag "rules" .array = .mistyped) :
      TargetingFailure client user flag s .schema s
  | rule {status : EvalStatus} {t : σ} (htargets : optionalField flag "targets" .array ≠ .mistyped)
      (huntargeted : Untargeted user (optionalField flag "targets" .array).items)
      (hrules : optionalField flag "rules" .array ≠ .mistyped)
      (h : MalformedRules client.world user (optionalField flag "rules" .array).items s status t) :
      TargetingFailure client user flag s status t

theorem TargetingFailure.error {client : Client σ} {flag : Json} {s t : σ} {status : EvalStatus}
    (h : TargetingFailure client user flag s status t) : isEvalError status = true := by
  cases h with
  | targets _ => rfl
  | target _ _ => rfl
  | rules _ _ _ => rfl
  | rule _ _ _ hrules => exact hrules.error

inductive TargetingExit (client : Client σ) (user : User) (flag : Json) (out : Outputs) (s : σ) :
    Evaluation → σ → Prop
  | failed {status : EvalStatus} {t : σ} (h : TargetingFailure client user flag s status t) :
      TargetingExit client user flag out s (status, out) t
  | target {variation : Json} {r : Evaluation}
      (h : addValueAs .matched flag (some variation) (out.setReason .targetMatch) = .ok r) :
      TargetingExit client user flag out s r s
  | rule {n : Nat} {rule : Json} {r : Evaluation} {t : σ}
      (htargets : optionalField flag "targets" .array ≠ .mistyped)
      (huntargeted : Untargeted user (optionalField flag "targets" .array).items)
      (hrules : optionalField flag "rules" .array ≠ .mistyped)
      (hfirst : FirstMatch client.world user (optionalField flag "rules" .array).items s n rule t)
      (h : serveRule flag rule n user out = .ok r) : TargetingExit client user flag out s r t
  | fallthrough {r : Evaluation} {t : σ}
      (htargets : optionalField flag "targets" .array ≠ .mistyped)
      (huntargeted : Untargeted user (optionalField flag "targets" .array).items)
      (hrules : optionalField flag "rules" .array ≠ .mistyped)
      (hno : NoMatch client.world user (optionalField flag "rules" .array).items s t)
      (h : evaluateFallthrough flag user out = .ok r) : TargetingExit client user flag out s r t

section Typed

variable {client : Client σ} {flag : Json} (hobj : flag.getType = .object) (out : Outputs)
include hobj

theorem evaluateFromRules_of_mistyped (h : optionalField flag "rules" .array = .mistyped) :
    evaluateFromRules client user flag out = pure (.schema, out) := by
  simp only [evaluateFromRules, lookupOptional_of_object hobj, h, Run.lift_ok, pure_bind]

theorem evaluateFromRules_of_typed (h : optionalField flag "rules" .array ≠ .mistyped) :
    evaluateFromRules client user flag out =
      evaluateRules client.world flag user out 0 (optionalField flag "rules" .array).items >>=
        fun served =>
          match served with
          | some result => pure result
          | none => Run.lift (evaluateFallthrough flag user out) := by
  have hlook := lookupOptional_of_object hobj "rules" .array
  cases hf : optionalField flag "rules" .array with
  | mistyped => exact absurd hf h
  | absent => exact Run.lift_bind_of_ok (hf ▸ hlook) _
  | present rules => exact Run.lift_bind_of_ok (hf ▸ hlook) _

theorem evaluateTargeting_of_mistyped (h : optionalField flag "targets" .array = .mistyped) :
    evaluateTargeting client user flag out = pure (.schema, out) := by
  simp only [evaluateTargeting, lookupOptional_of_object hobj, h, Run.lift_ok, pure_bind]

theorem evaluateTargeting_of_typed (h : optionalField flag "targets" .array ≠ .mistyped) :
    evaluateTargeting client user flag out =
      Run.lift (evaluateTargets flag user out (optionalField flag "targets" .array).items) >>=
        fun found =>
          match found with
          | some result => pure result
          | none => evaluateFromRules client user flag out := by
  have hlook := lookupOptional_of_object hobj "targets" .array
  cases hf : optionalField flag "targets" .array with
  | mistyped => exact absurd hf h
  | absent => exact Run.lift_bind_of_ok (hf ▸ hlook) _
  | present targets => exact Run.lift_bind_of_ok (hf ▸ hlook) _

theorem evaluateTargeting_exit {s t : σ} {r : Evaluation}
    (h : evaluateTargeting client user flag out s = .ok (r, t)) :
    TargetingExit client user flag out s r t := by
  by_cases htargets : optionalField flag "targets" .array = .mistyped
  · rw [evaluateTargeting_of_mistyped hobj out htargets] at h
    cases h
    exact .failed (.targets htargets)
  · rw [evaluateTargeting_of_typed hobj out htargets] at h
    obtain ⟨found, u, hlift, hrest⟩ := Run.bind_eq_ok.mp h
    obtain ⟨hfound, hu⟩ := Run.lift_eq_ok.mp hlift
    cases hu
    cases found with
    | some result =>
        cases hrest
        rcases evaluateTargets_eq_some hfound with ⟨heq, hmalformed⟩ | ⟨variation, hadd⟩
        · have heq' : r = (.schema, out) := heq
          subst heq'
          exact .failed (.target htargets hmalformed)
        · exact .target hadd
    | none =>
        have huntargeted := evaluateTargets_eq_none.mp hfound
        by_cases hrules : optionalField flag "rules" .array = .mistyped
        · simp only [evaluateFromRules_of_mistyped hobj out hrules] at hrest
          cases hrest
          exact .failed (.rules htargets huntargeted hrules)
        · simp only [evaluateFromRules_of_typed hobj out hrules] at hrest
          obtain ⟨served, v, hserved, hlast⟩ := Run.bind_eq_ok.mp hrest
          rcases evaluateRules_eq_ok hserved with ⟨status, hmalformed, rfl⟩ |
            ⟨n, rule, e, hfirst, hserve, rfl⟩ | ⟨hno, rfl⟩
          · cases hlast
            exact .failed (.rule htargets huntargeted hrules hmalformed)
          · cases hlast
            rw [Nat.zero_add] at hserve
            exact .rule htargets huntargeted hrules hfirst hserve
          · obtain ⟨hfall, ht⟩ := Run.lift_eq_ok.mp hlast
            cases ht
            exact .fallthrough htargets huntargeted hrules hno hfall

theorem evaluateTargeting_of_rule {s t : σ} {n : Nat} {rule : Json} {r : Evaluation}
    (htargets : optionalField flag "targets" .array ≠ .mistyped)
    (huntargeted : Untargeted user (optionalField flag "targets" .array).items)
    (hrules : optionalField flag "rules" .array ≠ .mistyped)
    (hfirst : FirstMatch client.world user (optionalField flag "rules" .array).items s n rule t)
    (h : serveRule flag rule n user out = .ok r) :
    evaluateTargeting client user flag out s = .ok (r, t) := by
  have hserved : evaluateRules client.world flag user out 0
      (optionalField flag "rules" .array).items s = .ok (some r, t) := by
    apply evaluateRules_of_firstMatch hfirst
    rw [Nat.zero_add]
    exact h
  rw [evaluateTargeting_of_typed hobj out htargets, evaluateTargets_eq_none.mpr huntargeted]
  simp only [Run.lift_ok, pure_bind]
  rw [evaluateFromRules_of_typed hobj out hrules, Run.bind_of_ok hserved]
  rfl

theorem evaluateTargeting_of_fallthrough {s t : σ} {r : Evaluation}
    (htargets : optionalField flag "targets" .array ≠ .mistyped)
    (huntargeted : Untargeted user (optionalField flag "targets" .array).items)
    (hrules : optionalField flag "rules" .array ≠ .mistyped)
    (hno : NoMatch client.world user (optionalField flag "rules" .array).items s t)
    (h : evaluateFallthrough flag user out = .ok r) :
    evaluateTargeting client user flag out s = .ok (r, t) := by
  rw [evaluateTargeting_of_typed hobj out htargets, evaluateTargets_eq_none.mpr huntargeted]
  simp only [Run.lift_ok, pure_bind]
  rw [evaluateFromRules_of_typed hobj out hrules, Run.bind_of_ok (evaluateRules_of_noMatch hno)]
  simp only [h, Run.lift_ok, Run.pure_run]

theorem evaluateTargeting_of_failure {s t : σ} {status : EvalStatus}
    (h : TargetingFailure client user flag s status t) :
    evaluateTargeting client user flag out s = .ok ((status, out), t) := by
  cases h with
  | targets htargets =>
      rw [evaluateTargeting_of_mistyped hobj out htargets]
      rfl
  | target htargets hmalformed =>
      rw [evaluateTargeting_of_typed hobj out htargets, evaluateTargets_of_malformed hmalformed]
      rfl
  | rules htargets huntargeted hrules =>
      rw [evaluateTargeting_of_typed hobj out htargets, evaluateTargets_eq_none.mpr huntargeted]
      simp only [Run.lift_ok, pure_bind]
      rw [evaluateFromRules_of_mistyped hobj out hrules]
      rfl
  | rule htargets huntargeted hrules hmalformed =>
      rw [evaluateTargeting_of_typed hobj out htargets, evaluateTargets_eq_none.mpr huntargeted]
      simp only [Run.lift_ok, pure_bind]
      rw [evaluateFromRules_of_typed hobj out hrules,
        Run.bind_of_ok (evaluateRules_of_malformed hmalformed)]
      rfl

end Typed

inductive Exit (client : Client σ) (user : User) (ev : Json → Run σ Evaluation) (flag : Json)
    (out : Outputs) (s : σ) : Evaluation → σ → Prop
  | malformed (h : flag.getType ≠ .object ∨ optionalField flag "on" .bool = .mistyped) :
      Exit client user ev flag out s (.schema, out) s
  | off {r : Evaluation} (hobj : flag.getType = .object)
      (hoff : (optionalField flag "on" .bool).isTrue = false) (h : evaluateOff flag out = .ok r) :
      Exit client user ev flag out s r s
  | prerequisiteError {pre : Prerequisites} {t : σ} (hobj : flag.getType = .object)
      (hon : (optionalField flag "on" .bool).isTrue = true)
      (hpre : checkPrerequisitesWith client user ev flag out.events s = .ok (pre, t))
      (herr : isEvalError pre.status = true) :
      Exit client user ev flag out s (pre.status, { out with events := pre.events }) t
  | prerequisiteFailed {pre : Prerequisites} {t : σ} {r : Evaluation}
      (hobj : flag.getType = .object) (hon : (optionalField flag "on" .bool).isTrue = true)
      (hpre : checkPrerequisitesWith client user ev flag out.events s = .ok (pre, t))
      (hmiss : pre.status = .miss)
      (h : evaluatePrerequisiteFailed flag (pre.failedKey.getD "")
        { out with events := pre.events } = .ok r) :
      Exit client user ev flag out s r t
  | targeting {pre : Prerequisites} {t u : σ} {r : Evaluation} (hobj : flag.getType = .object)
      (hon : (optionalField flag "on" .bool).isTrue = true)
      (hpre : checkPrerequisitesWith client user ev flag out.events s = .ok (pre, t))
      (hmatched : pre.status = .matched)
      (h : TargetingExit client user flag { out with events := pre.events } t r u) :
      Exit client user ev flag out s r u

theorem evaluateWith_exit {client : Client σ} {ev : Json → Run σ Evaluation} {flag : Json}
    {out : Outputs} {s t : σ} {r : Evaluation}
    (h : evaluateWith client user ev flag out s = .ok (r, t)) :
    Exit client user ev flag out s r t := by
  by_cases hobj : flag.getType = .object
  · by_cases hm : optionalField flag "on" .bool = .mistyped
    · rw [evaluateWith_of_mistyped hobj hm] at h
      cases h
      exact .malformed (.inr hm)
    · cases hon : (optionalField flag "on" .bool).isTrue with
      | false =>
          rw [evaluateWith_of_off hobj hm hon] at h
          obtain ⟨hoff, ht⟩ := Run.lift_eq_ok.mp h
          cases ht
          exact .off hobj hon hoff
      | true =>
          rw [evaluateWith_of_on hobj hon] at h
          obtain ⟨pre, u, hpre, hafter⟩ := Run.bind_eq_ok.mp h
          cases hstatus : pre.status with
          | miss =>
              simp only [evaluateAfterPrerequisites, hstatus] at hafter
              obtain ⟨hfailed, ht⟩ := Run.lift_eq_ok.mp hafter
              cases ht
              exact .prerequisiteFailed hobj hon hpre hstatus hfailed
          | matched =>
              simp only [evaluateAfterPrerequisites, hstatus] at hafter
              exact .targeting hobj hon hpre hstatus (evaluateTargeting_exit hobj _ hafter)
          | mem =>
              simp only [evaluateAfterPrerequisites, hstatus] at hafter
              cases hafter
              rw [← hstatus]
              exact .prerequisiteError hobj hon hpre (by rw [hstatus]; rfl)
          | schema =>
              simp only [evaluateAfterPrerequisites, hstatus] at hafter
              cases hafter
              rw [← hstatus]
              exact .prerequisiteError hobj hon hpre (by rw [hstatus]; rfl)
          | store =>
              simp only [evaluateAfterPrerequisites, hstatus] at hafter
              cases hafter
              rw [← hstatus]
              exact .prerequisiteError hobj hon hpre (by rw [hstatus]; rfl)
  · rw [evaluateWith_of_not_object hobj] at h
    cases h
    exact .malformed (.inl hobj)

end Rules

end ServerSdk
