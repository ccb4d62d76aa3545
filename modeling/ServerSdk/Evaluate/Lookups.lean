import ServerSdk.Evaluate.Exits
import ServerSdk.Evaluate.Termination

namespace ServerSdk

open Program

def Plain (status : EvalStatus) : Prop := status ≠ .mem ∧ status ≠ .store

theorem plain_schema : Plain .schema := ⟨by simp, by simp⟩

theorem plain_matched : Plain .matched := ⟨by simp, by simp⟩

theorem plain_miss : Plain .miss := ⟨by simp, by simp⟩

theorem Plain.negated {status : EvalStatus} (h : Plain status) : Plain (negated status) := by
  cases status with
  | matched => exact plain_miss
  | miss => exact plain_matched
  | mem => exact h
  | schema => exact h
  | store => exact h

section Clause

variable {clause : Json} {user : User}

theorem maybeNegate_plain {status : EvalStatus} (h : Plain status) :
    Checked.Ensures (maybeNegate clause status) Plain := by
  rw [maybeNegate]
  split_ifs
  · exact Checked.ensures_pure h
  · refine Checked.ensures_bind (fun negate => ?_)
    cases negate with
    | mistyped => exact Checked.ensures_pure plain_schema
    | absent => exact Checked.ensures_pure h
    | present value =>
        refine Checked.ensures_pure ?_
        split_ifs
        · exact h.negated
        · exact h

theorem matchAny_plain (f : OpFn) (value : Json) (values : List Json) :
    Plain (matchAny f value values) := by
  rw [matchAny]
  split_ifs
  · exact plain_matched
  · exact plain_miss

theorem matchElements_plain (f : OpFn) (values elements : List Json) :
    Checked.Ensures (matchElements f clause values elements) Plain := by
  induction elements with
  | nil => exact maybeNegate_plain plain_miss
  | cons element elements ih =>
      rw [matchElements]
      split_ifs
      · exact Checked.ensures_pure plain_miss
      · split
        · exact maybeNegate_plain plain_matched
        · exact ih

theorem matchUserAttribute_plain (f : OpFn) (attr : String) (values : List Json) :
    Checked.Ensures (matchUserAttribute f clause user attr values) Plain := by
  refine Checked.ensures_bind (fun found => ?_)
  cases found with
  | none => exact Checked.ensures_pure plain_miss
  | some attributeValue =>
      cases attributeValue with
      | null => exact Checked.ensures_pure plain_miss
      | array elements => exact matchElements_plain f values elements
      | bool b => exact maybeNegate_plain (matchAny_plain _ _ _)
      | number n => exact maybeNegate_plain (matchAny_plain _ _ _)
      | text s => exact maybeNegate_plain (matchAny_plain _ _ _)
      | object fields => exact maybeNegate_plain (matchAny_plain _ _ _)

theorem plain_onMatched {m next : Checked EvalStatus} (hm : Checked.Ensures m Plain)
    (hnext : Checked.Ensures next Plain) :
    Checked.Ensures (m >>= fun status =>
      match status with
      | .matched => next
      | status => pure status) Plain := by
  refine hm.bind (fun status hstatus => ?_)
  cases status with
  | matched => exact hnext
  | miss => exact Checked.ensures_pure hstatus
  | mem => exact Checked.ensures_pure hstatus
  | schema => exact Checked.ensures_pure hstatus
  | store => exact Checked.ensures_pure hstatus

theorem plain_unlessListed {found : EvalStatus} {next : Checked EvalStatus} (h : Plain found)
    (hnext : Checked.Ensures next Plain) (field : Field) :
    Checked.Ensures (do if ← listsUser field user then pure found else next) Plain := by
  refine Checked.ensures_bind (fun listed => ?_)
  split_ifs
  · exact Checked.ensures_pure h
  · exact hnext

variable [Externals]

theorem clauseMatchesUserNoSegments_plain :
    Checked.Ensures (clauseMatchesUserNoSegments clause user) Plain := by
  refine Checked.ensures_bind (fun op => ?_)
  cases op with
  | none => exact Checked.ensures_pure plain_schema
  | some op =>
      simp only
      cases lookupOperation (op.getText.getD "") with
      | none => exact Checked.ensures_pure plain_miss
      | some fn =>
          refine Checked.ensures_bind (fun attr => ?_)
          cases attr with
          | none => exact Checked.ensures_pure plain_schema
          | some attr =>
              refine Checked.ensures_bind (fun values => ?_)
              cases values with
              | mistyped => exact Checked.ensures_pure plain_schema
              | absent => exact matchUserAttribute_plain _ _ _
              | present values => exact matchUserAttribute_plain _ _ _

theorem segmentClausesMatchUser_plain (clauses : List Json) :
    Checked.Ensures (segmentClausesMatchUser user clauses) Plain := by
  induction clauses with
  | nil => exact Checked.ensures_pure plain_matched
  | cons clause clauses ih => exact plain_onMatched clauseMatchesUserNoSegments_plain ih

theorem segmentWeightMatchUser_plain (rule : Json) (key salt : String) :
    Checked.Ensures (segmentWeightMatchUser rule key user salt) Plain := by
  refine Checked.ensures_bind (fun weight => ?_)
  cases weight with
  | mistyped => exact Checked.ensures_pure plain_schema
  | absent => exact Checked.ensures_pure plain_matched
  | present weight =>
      refine Checked.ensures_bind (fun attr => ?_)
      cases attr with
      | none => exact Checked.ensures_pure plain_schema
      | some attr =>
          refine Checked.ensures_bind (fun bucket => Checked.ensures_pure ?_)
          split_ifs
          · exact plain_matched
          · exact plain_miss

theorem segmentRuleMatchUser_plain (rule : Json) (key salt : String) :
    Checked.Ensures (segmentRuleMatchUser rule key user salt) Plain := by
  refine Checked.ensures_bind (fun clauses => ?_)
  cases clauses with
  | mistyped => exact Checked.ensures_pure plain_schema
  | absent =>
      exact plain_onMatched (segmentClausesMatchUser_plain _)
        (segmentWeightMatchUser_plain rule key salt)
  | present clauses =>
      exact plain_onMatched (segmentClausesMatchUser_plain _)
        (segmentWeightMatchUser_plain rule key salt)

theorem segmentRulesMatchUser_plain (key salt : String) (rules : List Json) :
    Checked.Ensures (segmentRulesMatchUser key user salt rules) Plain := by
  induction rules with
  | nil => exact Checked.ensures_pure plain_miss
  | cons rule rules ih =>
      rw [segmentRulesMatchUser]
      split_ifs
      · exact Checked.ensures_pure plain_schema
      · refine (segmentRuleMatchUser_plain rule key salt).bind (fun status hstatus => ?_)
        cases status with
        | matched => exact Checked.ensures_pure hstatus
        | miss => exact ih
        | mem => exact Checked.ensures_pure hstatus
        | schema => exact Checked.ensures_pure hstatus
        | store => exact Checked.ensures_pure hstatus

theorem segmentRules_plain (segment : Json) :
    Checked.Ensures (segmentRules segment user) Plain := by
  refine Checked.ensures_bind (fun rules => ?_)
  cases rules with
  | mistyped => exact Checked.ensures_pure plain_schema
  | absent => exact Checked.ensures_pure plain_miss
  | present rules =>
      refine Checked.ensures_bind (fun key => ?_)
      cases key with
      | none => exact Checked.ensures_pure plain_schema
      | some key =>
          refine Checked.ensures_bind (fun salt => ?_)
          cases salt with
          | none => exact Checked.ensures_pure plain_schema
          | some salt => exact segmentRulesMatchUser_plain _ _ _

theorem excludedStage_plain (segment : Json) :
    Checked.Ensures (excludedStage segment user) Plain := by
  refine Checked.ensures_bind (fun excluded => ?_)
  cases excluded with
  | mistyped => exact Checked.ensures_pure plain_schema
  | absent => exact plain_unlessListed plain_miss (segmentRules_plain segment) _
  | present excluded => exact plain_unlessListed plain_miss (segmentRules_plain segment) _

theorem segmentMatchesUser_plain (segment : Json) :
    Checked.Ensures (segmentMatchesUser segment user) Plain := by
  refine Checked.ensures_bind (fun included => ?_)
  cases included with
  | mistyped => exact Checked.ensures_pure plain_schema
  | absent => exact plain_unlessListed plain_matched (excludedStage_plain segment) _
  | present included => exact plain_unlessListed plain_matched (excludedStage_plain segment) _

end Clause

def World.latched {σ : Type} (w : World σ) : World (σ × Bool) where
  storeInitialized p := ((w.storeInitialized p.1).1, (w.storeInitialized p.1).2, p.2)
  storeGet kind key p :=
    ((w.storeGet kind key p.1).1, (w.storeGet kind key p.1).2,
      p.2 || (w.storeGet kind key p.1).1.isNone)
  storeAll kind p := ((w.storeAll kind p.1).1, (w.storeAll kind p.1).2, p.2)
  unixMilliseconds p := ((w.unixMilliseconds p.1).1, (w.unixMilliseconds p.1).2, p.2)
  monotonicMilliseconds p := ((w.monotonicMilliseconds p.1).1, (w.monotonicMilliseconds p.1).2, p.2)

def Client.latched {σ : Type} (client : Client σ) : Client (σ × Bool) :=
  ⟨client.config, client.world.latched⟩

structure Latched {σ : Type} (status : EvalStatus) (p : σ × Bool) : Prop where
  mem : status ≠ .mem
  store : p.2 = true ↔ status = .store

theorem Plain.latched {σ : Type} {status : EvalStatus} (h : Plain status) {p : σ × Bool}
    (hp : p.2 = false) : Latched status p := by
  refine ⟨h.1, ?_⟩
  rw [hp]
  constructor
  · intro hfalse
    cases hfalse
  · intro hstore
    exact absurd hstore h.2

theorem Latched.unlatched {σ : Type} {status : EvalStatus} {p : σ × Bool} (h : Latched status p)
    (hstatus : status ≠ .store) : p.2 = false := by
  cases hp : p.2 with
  | false => rfl
  | true => exact absurd (h.store.mp hp) hstatus

theorem storeGet_latched {σ : Type} {w : World σ} {p : σ × Bool} (kind : FeatureKind)
    (key : String) (hp : p.2 = false) :
    Run.Ensures (storeGet w.latched kind key) p fun found q => q.2 = found.isNone := by
  intro found q h
  cases h
  simp [hp]

section Rules

variable [Externals] {σ : Type} {w : World σ} {user : User} {p : σ × Bool}

theorem segmentListMatchesUser_latched (clause : Json) (values : List Json) (hp : p.2 = false) :
    Run.Ensures (segmentListMatchesUser w.latched clause user values) p Latched := by
  induction values generalizing p with
  | nil =>
      refine Run.ensures_lift ?_
      intro status hstatus
      exact (maybeNegate_plain plain_miss status hstatus).latched hp
  | cons value values ih =>
      cases value with
      | text key =>
          rw [segmentListMatchesUser]
          refine (storeGet_latched .segment key hp).bind (fun found q hq => ?_)
          rcases found with _ | _ | segment
          · refine Run.ensures_pure ⟨by simp, ?_⟩
            simpa using hq
          · exact ih (by simpa using hq)
          · have hq : q.2 = false := by simpa using hq
            refine Run.ensures_lift_bind (fun status hstatus => ?_)
            have hplain := segmentMatchesUser_plain segment status hstatus
            cases status with
            | matched =>
                refine Run.ensures_lift ?_
                intro result hresult
                exact (maybeNegate_plain plain_matched result hresult).latched hq
            | miss => exact ih hq
            | mem => exact Run.ensures_pure (hplain.latched hq)
            | schema => exact Run.ensures_pure (hplain.latched hq)
            | store => exact Run.ensures_pure (hplain.latched hq)
      | null => exact ih hp
      | bool b => exact ih hp
      | number n => exact ih hp
      | array items => exact ih hp
      | object fields => exact ih hp

theorem clauseMatchesUser_latched (clause : Json) (hp : p.2 = false) :
    Run.Ensures (clauseMatchesUser w.latched clause user) p Latched := by
  rw [clauseMatchesUser]
  split_ifs
  · exact Run.ensures_pure (plain_schema.latched hp)
  · refine Run.ensures_lift_bind (fun op _ => ?_)
    cases op with
    | none => exact Run.ensures_pure (plain_schema.latched hp)
    | some op =>
        simp only
        split_ifs
        · refine Run.ensures_lift_bind (fun values _ => ?_)
          cases values with
          | mistyped => exact Run.ensures_pure (plain_schema.latched hp)
          | absent => exact segmentListMatchesUser_latched _ _ hp
          | present values => exact segmentListMatchesUser_latched _ _ hp
        · refine Run.ensures_lift ?_
          intro status hstatus
          exact (clauseMatchesUserNoSegments_plain status hstatus).latched hp

theorem clausesMatchUser_latched (clauses : List Json) (hp : p.2 = false) :
    Run.Ensures (clausesMatchUser w.latched user clauses) p Latched := by
  induction clauses generalizing p with
  | nil => exact Run.ensures_pure (plain_matched.latched hp)
  | cons clause clauses ih =>
      rw [clausesMatchUser]
      split_ifs
      · exact Run.ensures_pure (plain_schema.latched hp)
      · refine (clauseMatchesUser_latched clause hp).bind (fun status q hq => ?_)
        cases status with
        | matched => exact ih (hq.unlatched (by simp))
        | miss => exact Run.ensures_pure hq
        | mem => exact Run.ensures_pure hq
        | schema => exact Run.ensures_pure hq
        | store => exact Run.ensures_pure hq

theorem ruleMatchesUser_latched (rule : Json) (hp : p.2 = false) :
    Run.Ensures (ruleMatchesUser w.latched rule user) p Latched := by
  refine Run.ensures_lift_bind (fun clauses _ => ?_)
  cases clauses with
  | mistyped => exact Run.ensures_pure (plain_schema.latched hp)
  | absent => exact clausesMatchUser_latched _ hp
  | present clauses => exact clausesMatchUser_latched _ hp

end Rules

section Settling

variable {flag : Json} {out : Outputs} {user : User}

theorem addValueAs_plain {status : EvalStatus} (h : Plain status) (index : Option Json) :
    Checked.Ensures (addValueAs status flag index out) fun r => Plain r.1 := by
  refine Checked.ensures_bind (fun added => Checked.ensures_pure ?_)
  cases added.1 with
  | true => exact h
  | false => exact plain_schema

theorem evaluateOff_plain : Checked.Ensures (evaluateOff flag out) fun r => Plain r.1 := by
  rw [evaluateOff]
  split
  · exact Checked.ensures_pure plain_miss
  · exact Checked.ensures_pure plain_miss
  · exact addValueAs_plain plain_miss _

theorem evaluateTargets_plain (targets : List Json) :
    Checked.Ensures (evaluateTargets flag user out targets) fun found =>
      ∀ r, found = some r → Plain r.1 := by
  intro found h r hr
  subst hr
  rcases evaluateTargets_eq_some h with ⟨rfl, -⟩ | ⟨variation, hadd⟩
  · exact plain_schema
  · exact addValueAs_plain plain_matched _ r hadd

variable [Externals]

theorem serveRule_plain (rule : Json) (index : Nat) :
    Checked.Ensures (serveRule flag rule index user out) fun r => Plain r.1 := by
  refine Checked.ensures_bind (fun found => ?_)
  cases found with
  | none => exact Checked.ensures_pure plain_schema
  | some found =>
      refine Checked.ensures_bind (fun added => ?_)
      obtain ⟨added, settled⟩ := added
      cases added with
      | false => exact Checked.ensures_pure plain_schema
      | true =>
          refine Checked.ensures_bind (fun id => ?_)
          cases id with
          | mistyped => exact Checked.ensures_pure plain_schema
          | absent => exact Checked.ensures_pure plain_matched
          | present id => exact Checked.ensures_pure plain_matched

theorem evaluateFallthrough_plain :
    Checked.Ensures (evaluateFallthrough flag user out) fun r => Plain r.1 := by
  refine Checked.ensures_bind (fun found => ?_)
  cases found with
  | none => exact Checked.ensures_pure plain_schema
  | some found => exact addValueAs_plain plain_matched _

variable {σ : Type} {client : Client σ} {p : σ × Bool}

theorem evaluateRules_latched (index : Nat) (rules : List Json) (hp : p.2 = false) :
    Run.Ensures (evaluateRules client.latched.world flag user out index rules) p fun found q =>
      (found = none ∧ q.2 = false) ∨ ∃ r, found = some r ∧ Latched r.1 q := by
  induction rules generalizing index p with
  | nil => exact Run.ensures_pure (.inl ⟨rfl, hp⟩)
  | cons rule rules ih =>
      rw [evaluateRules]
      split_ifs
      · exact Run.ensures_pure (.inr ⟨_, rfl, plain_schema.latched hp⟩)
      · refine (ruleMatchesUser_latched rule hp).bind (fun status q hq => ?_)
        cases status with
        | matched =>
            have hq : q.2 = false := hq.unlatched (by simp)
            refine Run.ensures_lift_bind (fun r hr => ?_)
            exact Run.ensures_pure (.inr ⟨r, rfl, (serveRule_plain rule index r hr).latched hq⟩)
        | miss => exact ih (index + 1) (hq.unlatched (by simp))
        | mem => exact Run.ensures_pure (.inr ⟨_, rfl, hq⟩)
        | schema => exact Run.ensures_pure (.inr ⟨_, rfl, hq⟩)
        | store => exact Run.ensures_pure (.inr ⟨_, rfl, hq⟩)

theorem evaluateTargeting_latched (hobj : flag.getType = .object) (hp : p.2 = false) :
    Run.Ensures (evaluateTargeting client.latched user flag out) p fun r q => Latched r.1 q := by
  by_cases htargets : optionalField flag "targets" .array = .mistyped
  · rw [evaluateTargeting_of_mistyped hobj out htargets]
    exact Run.ensures_pure (plain_schema.latched hp)
  · rw [evaluateTargeting_of_typed hobj out htargets]
    refine Run.ensures_lift_bind (fun found hfound => ?_)
    cases found with
    | some r => exact Run.ensures_pure ((evaluateTargets_plain _ _ hfound r rfl).latched hp)
    | none =>
        simp only
        by_cases hrules : optionalField flag "rules" .array = .mistyped
        · rw [evaluateFromRules_of_mistyped hobj out hrules]
          exact Run.ensures_pure (plain_schema.latched hp)
        · rw [evaluateFromRules_of_typed hobj out hrules]
          refine (evaluateRules_latched 0 _ hp).bind (fun served q hq => ?_)
          rcases hq with ⟨rfl, hq⟩ | ⟨r, rfl, hq⟩
          · refine Run.ensures_lift ?_
            intro r hr
            exact (evaluateFallthrough_plain r hr).latched hq
          · exact Run.ensures_pure hq

end Settling

section Recursion

variable {σ : Type} {client : Client σ} {user : User} {p : σ × Bool}

def StoreLatched (status : EvalStatus) (p : σ × Bool) : Prop := p.2 = true ↔ status = .store

theorem storeLatched_of_ne {status : EvalStatus} (h : status ≠ .store) (hp : p.2 = false) :
    StoreLatched status p := by
  rw [StoreLatched, hp]
  constructor
  · intro hfalse
    cases hfalse
  · intro hstore
    exact absurd hstore h

theorem StoreLatched.unlatched {status : EvalStatus} (h : StoreLatched status p)
    (hstatus : status ≠ .store) : p.2 = false := by
  cases hp : p.2 with
  | false => rfl
  | true => exact absurd (h.mp hp) hstatus

theorem prerequisiteServes_plain (preflag : Json) (details : Details) (variation : Json) :
    Checked.Ensures (prerequisiteServes preflag details variation) Plain := by
  have hserved : ∀ p : Prop, ∀ [Decidable p],
      Checked.Ensures (if p then pure .matched else pure .miss) Plain := by
    intro p _
    split_ifs
    · exact Checked.ensures_pure plain_matched
    · exact Checked.ensures_pure plain_miss
  refine Checked.ensures_bind (fun on => ?_)
  cases on with
  | mistyped => exact Checked.ensures_pure plain_schema
  | absent => exact hserved _
  | present on => exact hserved _

theorem prerequisiteOutcome_store {flag preflag variation : Json} {key : String} {t : Rat}
    {acc : Prerequisites} {result : Evaluation} :
    Checked.Ensures (prerequisiteOutcome client user flag preflag variation key t acc result)
      fun next => next.status = .store ↔ result.1 = .store := by
  obtain ⟨status, sub⟩ := result
  simp only [prerequisiteOutcome]
  split
  · exact Checked.ensures_pure Iff.rfl
  · next herr =>
      have hstatus : status ≠ .store := by
        intro hstore
        rw [hstore] at herr
        exact herr rfl
      refine Checked.ensures_bind (fun event => ?_)
      cases event with
      | none => exact Checked.ensures_pure (by simp [hstatus])
      | some event =>
          simp only
          split
          · exact Checked.ensures_pure (by simp [hstatus])
          · refine (prerequisiteServes_plain _ _ _).bind (fun served hserved => ?_)
            exact Checked.ensures_pure (by simp [hstatus, hserved.2])

variable {ev : Json → Run (σ × Bool) Evaluation}
  (hev : ∀ g (q : σ × Bool), q.2 = false → Run.Ensures (ev g) q fun r u => StoreLatched r.1 u)
include hev

theorem checkPrerequisite_latched (flag iter : Json) (acc : Prerequisites) (hp : p.2 = false) :
    Run.Ensures (checkPrerequisite client.latched user ev flag iter acc) p
      fun next q => StoreLatched next.status q := by
  by_cases hlisted : ∃ key variation, Listed iter key variation
  · obtain ⟨key, variation, hlisted⟩ := hlisted
    have hclock : (client.latched.world.unixMilliseconds p).2.2 = false := hp
    have hget : Run.Ensures (storeGet client.latched.world .flag key)
        (client.latched.world.unixMilliseconds p).2 fun found q => q.2 = found.isNone :=
      storeGet_latched .flag key hclock
    rw [checkPrerequisite_of_listed hlisted, Run.ensures_ask_bind]
    refine hget.bind (fun found v hv => ?_)
    match found with
    | none =>
        have hv : v.2 = true := hv
        exact Run.ensures_pure (by simp [StoreLatched, hv])
    | some none => exact Run.ensures_pure (storeLatched_of_ne (by simp) hv)
    | some (some preflag) =>
        refine (hev preflag v hv).bind (fun r z hr => ?_)
        refine Run.ensures_lift ?_
        intro outcome houtcome
        have hstore := prerequisiteOutcome_store outcome houtcome
        exact hr.trans hstore.symm
  · rw [checkPrerequisite_of_unlisted (fun key variation hl => hlisted ⟨key, variation, hl⟩)]
    intro next q h
    cases h
    exact storeLatched_of_ne (by simp) hp

theorem checkPrerequisiteList_latched (flag : Json) (list : List Json) (acc : Prerequisites)
    (hp : p.2 = false) :
    Run.Ensures (checkPrerequisiteList client.latched user ev flag list acc) p
      fun next q => StoreLatched next.status q := by
  induction list generalizing acc p with
  | nil => exact Run.ensures_pure (storeLatched_of_ne (by simp) hp)
  | cons iter list ih =>
      refine (checkPrerequisite_latched hev flag iter acc hp).bind (fun next q hq => ?_)
      split_ifs with hmatched
      · exact ih next (hq.unlatched (by simp [hmatched]))
      · exact Run.ensures_pure hq

theorem evaluateWith_latched [Externals] (flag : Json) (out : Outputs) (hp : p.2 = false) :
    Run.Ensures (evaluateWith client.latched user ev flag out) p fun r q => StoreLatched r.1 q := by
  by_cases hobj : flag.getType = .object
  · by_cases hm : optionalField flag "on" .bool = .mistyped
    · rw [evaluateWith_of_mistyped hobj hm]
      exact Run.ensures_pure (storeLatched_of_ne (by simp) hp)
    · cases hon : (optionalField flag "on" .bool).isTrue with
      | false =>
          rw [evaluateWith_of_off hobj hm hon]
          refine Run.ensures_lift ?_
          intro r hr
          exact storeLatched_of_ne (evaluateOff_plain r hr).2 hp
      | true =>
          rw [evaluateWith_of_on hobj hon]
          have hpre : Run.Ensures (checkPrerequisitesWith client.latched user ev flag out.events) p
              fun next q => StoreLatched next.status q := by
            rw [checkPrerequisitesWith_of_object hobj]
            split
            · exact Run.ensures_pure (storeLatched_of_ne (by simp) hp)
            · exact Run.ensures_pure (storeLatched_of_ne (by simp) hp)
            · exact checkPrerequisiteList_latched hev flag _ _ hp
          refine hpre.bind (fun pre q hq => ?_)
          rw [evaluateAfterPrerequisites]
          cases hstatus : pre.status with
          | miss =>
              have hq : q.2 = false := hq.unlatched (by simp [hstatus])
              refine Run.ensures_lift ?_
              intro r hr
              exact storeLatched_of_ne (addValueAs_plain plain_miss _ r hr).2 hq
          | matched =>
              have hq : q.2 = false := hq.unlatched (by simp [hstatus])
              intro r u hr
              exact (evaluateTargeting_latched hobj hq r u hr).store
          | mem =>
              rw [hstatus] at hq
              exact Run.ensures_pure hq
          | schema =>
              rw [hstatus] at hq
              exact Run.ensures_pure hq
          | store =>
              rw [hstatus] at hq
              exact Run.ensures_pure hq
  · rw [evaluateWith_of_not_object hobj]
    exact Run.ensures_pure (storeLatched_of_ne (by simp) hp)

end Recursion

section Unlatched

variable {σ : Type} {client : Client σ} {user : User}

def Forgets (s : σ) (p : σ × Bool) : Prop := p.1 = s

theorem ask_forgets {α : Type} {f : σ → α × σ} {g : σ × Bool → α × σ × Bool}
    (h : ∀ p, (g p).1 = (f p.1).1 ∧ (g p).2.1 = (f p.1).2) :
    Run.Sim Policy.exact Forgets Eq (Run.ask f) (Run.ask g) := by
  refine Run.sim_ask ?_
  rintro s p rfl
  exact ⟨(h p).1.symm, (h p).2⟩

theorem storeGet_forgets (kind : FeatureKind) (key : String) :
    Run.Sim Policy.exact Forgets Eq (storeGet client.world kind key)
      (storeGet client.latched.world kind key) :=
  ask_forgets fun _ => ⟨rfl, rfl⟩

theorem ok_of_forgets {α : Type} {m : Run σ α} {m' : Run (σ × Bool) α}
    (h : Run.Sim Policy.exact Forgets Eq m m') {s t : σ} {a : α} (ha : m s = .ok (a, t)) (b : Bool) :
    ∃ b', m' (s, b) = .ok (a, t, b') := by
  have hrelated := h s (s, b) rfl
  rw [ha] at hrelated
  cases hm : m' (s, b) with
  | error e =>
      rw [hm] at hrelated
      exact hrelated.elim
  | ok q =>
      rw [hm] at hrelated
      obtain ⟨a', t', b'⟩ := q
      obtain ⟨ha', ht⟩ := hrelated
      have ha' : a = a' := ha'
      have ht : t' = t := ht
      subst ha' ht
      exact ⟨b', rfl⟩

variable [Externals]

theorem evaluateWith_forgets {ev : Json → Run σ Evaluation} {ev' : Json → Run (σ × Bool) Evaluation}
    (hev : ∀ g, Run.Sim Policy.exact Forgets Eq (ev g) (ev' g)) (flag : Json) (out : Outputs) :
    Run.Sim Policy.exact Forgets Eq (evaluateWith client user ev flag out)
      (evaluateWith client.latched user ev' flag out) := by
  rw [← sameEvaluation_eq]
  refine evaluateWith_sim (T := Eq) Policy.exact_fair (ask_forgets fun _ => ⟨rfl, rfl⟩)
    (.refl flag) (sameOutputs_refl (fun _ => rfl) out) ?_ (fun key _ => storeGet_forgets _ key)
  intro key _ _ s p hsp
  cases hsp
  refine ⟨?_, rfl⟩
  change Option.Rel _ (client.world.storeGet .flag key p.1).1 (client.world.storeGet .flag key p.1).1
  cases (client.world.storeGet .flag key p.1).1 with
  | none => exact .none
  | some found =>
      cases found with
      | none => exact .some .none
      | some g =>
          refine .some (.some ⟨.refl g, ?_, ?_⟩)
          · rw [sameEvaluation_eq]
            exact hev g
          · rintro t t' e e' rfl _ _ _ hsame
            rw [sameOutputs_eq hsame.2]
            exact Checked.alike_option_self (fun _ _ => rfl)

theorem evaluateNested_forgets (fuel : ℕ) (g : Json) :
    Run.Sim Policy.exact Forgets Eq (evaluateNested client user fuel g)
      (evaluateNested client.latched user fuel g) := by
  refine Run.unroll_sim (I := Eq) ?_ (.inr rfl) fuel g g rfl
  rintro ev ev' hev f _ rfl
  exact evaluateWith_forgets (fun k => hev k k rfl) f freshOutputs

theorem evaluateNested_latched (fuel : ℕ) (g : Json) (p : σ × Bool) (hp : p.2 = false) :
    Run.Ensures (evaluateNested client.latched user fuel g) p fun r q => StoreLatched r.1 q := by
  induction fuel generalizing g p with
  | zero =>
      intro r q h
      cases h
  | succ fuel ih => exact evaluateWith_latched ih g freshOutputs hp

def LookupFails (client : Client σ) (user : User) (fuel : ℕ) (flag : Json) (s : σ) : Prop :=
  ∃ r t, evaluate client.latched user fuel flag freshOutputs (s, false) = .ok (r, t, true)

theorem lookupFails_iff {fuel : ℕ} {flag : Json} {s t : σ} {r : Evaluation}
    (h : evaluate client user fuel flag freshOutputs s = .ok (r, t)) :
    LookupFails client user fuel flag s ↔ r.1 = .store := by
  obtain ⟨b, hb⟩ := ok_of_forgets (evaluateWith_forgets (evaluateNested_forgets fuel) flag
    freshOutputs) h false
  have hlatched : b = true ↔ r.1 = .store :=
    evaluateWith_latched (evaluateNested_latched fuel) flag freshOutputs rfl r (t, b) hb
  rw [← hlatched]
  constructor
  · rintro ⟨r', t', hr'⟩
    have heq := hb.symm.trans hr'
    cases heq
    rfl
  · rintro rfl
    exact ⟨r, t, hb⟩

theorem evaluateTargeting_ne_mem {flag : Json} (hobj : flag.getType = .object) {out : Outputs}
    {s t : σ} {r : Evaluation} (h : evaluateTargeting client user flag out s = .ok (r, t)) :
    r.1 ≠ .mem := by
  have hsim : Run.Sim Policy.exact Forgets (SameEvaluation Eq)
      (evaluateTargeting client user flag out) (evaluateTargeting client.latched user flag out) :=
    evaluateTargeting_sim Policy.exact_fair user (.refl flag) hobj
      (sameOutputs_refl (fun _ => rfl) out) (fun key _ => storeGet_forgets _ key)
  rw [sameEvaluation_eq] at hsim
  obtain ⟨b, hb⟩ := ok_of_forgets hsim h false
  exact (evaluateTargeting_latched hobj rfl r (t, b) hb).mem

theorem evaluateWith_mem {ev : Json → Run σ Evaluation} {flag : Json} {out o : Outputs} {s t : σ}
    (h : evaluateWith client user ev flag out s = .ok ((.mem, o), t)) :
    flag.getType = .object ∧ (optionalField flag "on" .bool).isTrue = true ∧
      ∃ pre, checkPrerequisitesWith client user ev flag out.events s = .ok (pre, t) ∧
        pre.status = .mem ∧ o = { out with events := pre.events } := by
  by_cases hobj : flag.getType = .object
  · by_cases hm : optionalField flag "on" .bool = .mistyped
    · rw [evaluateWith_of_mistyped hobj hm] at h
      cases h
    · cases hon : (optionalField flag "on" .bool).isTrue with
      | false =>
          rw [evaluateWith_of_off hobj hm hon] at h
          exact absurd rfl (evaluateOff_plain _ (Run.lift_eq_ok.mp h).1).1
      | true =>
          rw [evaluateWith_of_on hobj hon] at h
          obtain ⟨pre, u, hpre, hafter⟩ := Run.bind_eq_ok.mp h
          refine ⟨hobj, rfl, ?_⟩
          rw [evaluateAfterPrerequisites] at hafter
          cases hstatus : pre.status with
          | mem =>
              rw [hstatus] at hafter
              cases hafter
              exact ⟨pre, hpre, hstatus, rfl⟩
          | miss =>
              rw [hstatus] at hafter
              exact absurd rfl (addValueAs_plain plain_miss _ _ (Run.lift_eq_ok.mp hafter).1).1
          | matched =>
              rw [hstatus] at hafter
              exact absurd rfl (evaluateTargeting_ne_mem hobj hafter)
          | schema =>
              rw [hstatus] at hafter
              cases hafter
          | store =>
              rw [hstatus] at hafter
              cases hafter
  · rw [evaluateWith_of_not_object hobj] at h
    cases h

end Unlatched

end ServerSdk
