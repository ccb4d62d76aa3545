import ServerSdk.Evaluate.Prerequisites
import ServerSdk.Evaluate.SafeData

namespace ServerSdk

open Program

def SafeTargets (user : User) : List Json → Prop
  | [] => True
  | target :: targets => target.getType = .object →
      optionalField target "values" .array ≠ .mistyped →
      ListSearchable (optionalField target "values" .array) user ∧
      (listsUser (optionalField target "values" .array) user = .ok false →
        SafeTargets user targets)

theorem evaluateTargets_returns {flag : Json} (h : flag.getType = .object) {user : User}
    {out : Outputs} {targets : List Json} :
    Checked.Returns (evaluateTargets flag user out targets) ↔ SafeTargets user targets := by
  induction targets with
  | nil => simp [evaluateTargets, SafeTargets]
  | cons target targets ih =>
      rw [SafeTargets]
      by_cases hobj : target.getType = .object
      · by_cases hv : optionalField target "values" .array = .mistyped
        · simp [evaluateTargets, hobj, lookupOptional_of_object hobj, hv]
        · rw [evaluateTargets_cons_of_object hobj hv, Checked.returns_bind_iff, listsUser_returns]
          simp only [hobj, hv, ne_eq, not_false_eq_true, forall_const]
          refine and_congr_right (fun _ => ⟨fun hall hl => ih.mp (hall false hl), fun hrest b hb => ?_⟩)
          cases b with
          | false => exact ih.mpr (hrest hb)
          | true =>
              simp only [if_true]
              cases requiredField target "variation" .number with
              | none => exact Checked.returns_ok _
              | some variation =>
                  simp only [addValueAs_of_object h, Checked.ok_bind]
                  exact Checked.returns_ok _
      · simp [evaluateTargets, hobj]

section Outcome

variable {σ : Type} {client : Client σ} {user : User} {flag g : Json} {key : String}
  {variation t : Rat} {acc p : Prerequisites} {status : EvalStatus} {sub : Outputs}

theorem prerequisiteServes_returns (h : g.getType = .object) (details : Details) (v : Json) :
    Checked.Returns (prerequisiteServes g details v) := by
  simp only [prerequisiteServes, lookupOptional_of_object h, Checked.ok_bind]
  cases optionalField g "on" .bool with
  | mistyped => exact Checked.returns_pure _
  | absent =>
      simp only
      split <;> exact Checked.returns_pure _
  | present on =>
      simp only
      split <;> exact Checked.returns_pure _

theorem prerequisiteOutcome_returns (h : status = .matched → g.getType = .object) :
    Checked.Returns (prerequisiteOutcome client user flag g (.number variation) key t acc
      (status, sub)) := by
  simp only [prerequisiteOutcome]
  split
  · exact Checked.returns_pure _
  · next hok =>
      obtain ⟨event, hevent⟩ : Checked.Returns (prerequisiteEvent client user flag key g t sub) :=
        newFeatureEvent_returns _ _ _
      simp only [hevent, Checked.ok_bind]
      cases event with
      | none => exact Checked.returns_pure _
      | some event =>
          simp only
          split
          · exact Checked.returns_pure _
          · next hmiss =>
              have hmatched : status = .matched := by
                cases status with
                | matched => rfl
                | miss => exact absurd rfl hmiss
                | mem => exact absurd rfl hok
                | schema => exact absurd rfl hok
                | store => exact absurd rfl hok
              obtain ⟨st, hst⟩ := prerequisiteServes_returns (h hmatched) sub.details
                (.number variation)
              simp only [hst, Checked.ok_bind]
              exact Checked.returns_pure _

theorem prerequisiteOutcome_matched
    (h : prerequisiteOutcome client user flag g (.number variation) key t acc (status, sub) =
      .ok p) :
    p.status = .matched ↔ status = .matched ∧
      (∃ event, prerequisiteEvent client user flag key g t sub = .ok (some event)) ∧
      prerequisiteServes g sub.details (.number variation) = .ok .matched := by
  simp only [prerequisiteOutcome] at h
  split at h
  · next herr =>
      cases h
      constructor
      · intro hm
        have hm' : status = .matched := hm
        rw [hm'] at herr
        cases herr
      · rintro ⟨hm, -⟩
        rw [hm] at herr
        cases herr
  · obtain ⟨event, hevent, hrest⟩ := Checked.bind_eq_ok.mp h
    cases event with
    | none =>
        cases hrest
        constructor
        · intro hm
          cases hm
        · rintro ⟨-, ⟨event, hsome⟩, -⟩
          rw [hevent] at hsome
          cases hsome
    | some event =>
        simp only at hrest
        split at hrest
        · next hmiss =>
            cases hrest
            constructor
            · intro hm
              cases hm
            · rintro ⟨hm, -⟩
              rw [hm] at hmiss
              cases hmiss
        · next hok hmiss =>
            obtain ⟨st, hst, hlast⟩ := Checked.bind_eq_ok.mp hrest
            cases hlast
            have hmatched : status = .matched := by
              cases status with
              | matched => rfl
              | miss => exact absurd rfl hmiss
              | mem => exact absurd rfl hok
              | schema => exact absurd rfl hok
              | store => exact absurd rfl hok
            constructor
            · intro hm
              have hst' : st = .matched := hm
              rw [hst'] at hst
              exact ⟨hmatched, ⟨event, hevent⟩, hst⟩
            · rintro ⟨-, -, hserves⟩
              rw [hst] at hserves
              cases hserves
              rfl

end Outcome

section Prerequisites

variable (c : Content) (user : User) (config : Config)

def Passes (ev : Json → Run Unit Evaluation) (flag g : Json) (key : String) (variation : Rat) :
    Prop :=
  ∃ sub event, ev g () = .ok ((.matched, sub), ()) ∧
    prerequisiteEvent (⟨config, c.world⟩ : Client Unit) user flag key g 0 sub = .ok (some event) ∧
    prerequisiteServes g sub.details (.number variation) = .ok .matched

def SafePrerequisites (ev : Json → Run Unit Evaluation) (safe : Json → Prop) (flag : Json) :
    List Json → Prop
  | [] => True
  | iter :: rest => ∀ key variation g, Listed iter key variation → c.get .flag key = some g →
      safe g ∧ (Passes c user config ev flag g key variation →
        SafePrerequisites ev safe flag rest)

variable {c user config} {ev : Json → Run Unit Evaluation} {safe : Json → Prop} {flag : Json}
  {iter g : Json} {key : String} {variation : Rat}

theorem checkPrerequisite_static (hlisted : Listed iter key variation)
    (hfound : c.get .flag key = some g) (acc : Prerequisites) :
    checkPrerequisite (⟨config, c.world⟩ : Client Unit) user ev flag iter acc () =
      (ev g >>= fun result => Run.lift (prerequisiteOutcome (⟨config, c.world⟩ : Client Unit) user
        flag g (.number variation) key 0 { acc with failedKey := some key } result)) () := by
  rw [checkPrerequisite_served c.world_serves hlisted, hfound]
  rfl

theorem checkPrerequisite_unfaulted
    (hev : ∀ g sub, ev g () = .ok ((.matched, sub), ()) → g.getType = .object)
    (hlisted : Listed iter key variation) (hfound : c.get .flag key = some g)
    (acc : Prerequisites) :
    Run.Unfaulted (checkPrerequisite (⟨config, c.world⟩ : Client Unit) user ev flag iter acc) () ↔
      Run.Unfaulted (ev g) () := by
  rw [Run.Unfaulted, checkPrerequisite_static hlisted hfound, ← Run.Unfaulted, Run.unfaulted_bind]
  refine and_iff_left (fun result t hresult => Run.unfaulted_lift.mpr ?_)
  obtain ⟨status, sub⟩ := result
  refine prerequisiteOutcome_returns (fun hm => hev g sub ?_)
  rw [hresult, hm]

theorem checkPrerequisite_matched (hlisted : Listed iter key variation)
    (hfound : c.get .flag key = some g) {acc p : Prerequisites}
    (h : checkPrerequisite (⟨config, c.world⟩ : Client Unit) user ev flag iter acc () =
      .ok (p, ())) :
    p.status = .matched ↔ Passes c user config ev flag g key variation := by
  rw [checkPrerequisite_static hlisted hfound] at h
  obtain ⟨result, t, hresult, hlift⟩ := Run.bind_eq_ok.mp h
  obtain ⟨houtcome, -⟩ := Run.lift_eq_ok.mp hlift
  obtain ⟨status, sub⟩ := result
  rw [prerequisiteOutcome_matched houtcome]
  constructor
  · rintro ⟨rfl, ⟨event, hevent⟩, hserves⟩
    exact ⟨sub, event, hresult, hevent, hserves⟩
  · rintro ⟨sub', event, hev, hevent, hserves⟩
    have heq : ev g () = .ok ((status, sub), t) := hresult
    rw [hev] at heq
    cases heq
    exact ⟨rfl, ⟨event, hevent⟩, hserves⟩

theorem Passes.check (hev : ∀ g sub, ev g () = .ok ((.matched, sub), ()) → g.getType = .object)
    (hlisted : Listed iter key variation) (hfound : c.get .flag key = some g)
    (h : Passes c user config ev flag g key variation) (acc : Prerequisites) :
    ∃ p, checkPrerequisite (⟨config, c.world⟩ : Client Unit) user ev flag iter acc () =
      .ok (p, ()) ∧ p.status = .matched := by
  have hpasses := h
  obtain ⟨sub, event, heval, -, -⟩ := h
  obtain ⟨p, hp⟩ : Checked.Returns (prerequisiteOutcome (⟨config, c.world⟩ : Client Unit) user flag g
      (.number variation) key 0 { acc with failedKey := some key } (.matched, sub)) :=
    prerequisiteOutcome_returns (fun _ => hev g sub heval)
  have hcheck : checkPrerequisite (⟨config, c.world⟩ : Client Unit) user ev flag iter acc () =
      .ok (p, ()) := by
    rw [checkPrerequisite_static hlisted hfound, Run.bind_of_ok heval, hp]
    rfl
  exact ⟨p, hcheck, (checkPrerequisite_matched hlisted hfound hcheck).mpr hpasses⟩

theorem checkPrerequisiteList_unfaulted
    (hev : ∀ g sub, ev g () = .ok ((.matched, sub), ()) → g.getType = .object)
    (hsafe : ∀ g, Run.Unfaulted (ev g) () ↔ safe g) {list : List Json} :
    ∀ {acc : Prerequisites},
      Run.Unfaulted (checkPrerequisiteList (⟨config, c.world⟩ : Client Unit) user ev flag list acc)
        () ↔ SafePrerequisites c user config ev safe flag list := by
  induction list with
  | nil => simp [checkPrerequisiteList, SafePrerequisites]
  | cons iter list ih =>
      intro acc
      rw [checkPrerequisiteList, SafePrerequisites, Run.unfaulted_bind]
      by_cases hl : ∃ key variation, Listed iter key variation
      · obtain ⟨key, variation, hlisted⟩ := hl
        cases hfound : c.get .flag key with
        | none =>
            have hserved : checkPrerequisite (⟨config, c.world⟩ : Client Unit) user ev flag iter acc
                () = .ok ({ acc with failedKey := some key, status := .miss }, ()) := by
              rw [checkPrerequisite_served c.world_serves hlisted, hfound]
            constructor
            · intro _ key' variation' g hlisted' hg
              obtain ⟨rfl, -⟩ := hlisted.unique hlisted'
              rw [hfound] at hg
              cases hg
            · intro _
              refine ⟨fun e he => ?_, fun p t hp => ?_⟩
              · rw [hserved] at he
                cases he
              · rw [hserved] at hp
                cases hp
                exact Run.unfaulted_pure _ _
        | some g =>
            rw [checkPrerequisite_unfaulted hev hlisted hfound, hsafe]
            constructor
            · rintro ⟨hg, hnext⟩ key' variation' g' hlisted' hg'
              obtain ⟨rfl, rfl⟩ := hlisted.unique hlisted'
              rw [hfound] at hg'
              cases hg'
              refine ⟨hg, fun hpasses => ?_⟩
              obtain ⟨p, hp, hm⟩ := hpasses.check hev hlisted hfound acc
              have hrest := hnext p () hp
              rw [if_pos hm] at hrest
              exact ih.mp hrest
            · intro hall
              obtain ⟨hg, hrest⟩ := hall key variation g hlisted hfound
              refine ⟨hg, fun p t hp => ?_⟩
              have hiff := checkPrerequisite_matched hlisted hfound hp
              split
              · next hm => exact ih.mpr (hrest (hiff.mp hm))
              · exact Run.unfaulted_pure _ _
      · have hun : ∀ key variation, ¬ Listed iter key variation :=
          fun key variation h => hl ⟨key, variation, h⟩
        rw [checkPrerequisite_of_unlisted hun]
        constructor
        · intro _ key variation g hlisted _
          exact absurd hlisted (hun key variation)
        · intro _
          constructor
          · intro e he
            cases he
          · intro p t hp
            cases hp
            exact Run.unfaulted_pure _ _

theorem checkPrerequisitesWith_unfaulted (hobj : flag.getType = .object)
    (hev : ∀ g sub, ev g () = .ok ((.matched, sub), ()) → g.getType = .object)
    (hsafe : ∀ g, Run.Unfaulted (ev g) () ↔ safe g) :
    Run.Unfaulted (checkPrerequisitesWith (⟨config, c.world⟩ : Client Unit) user ev flag none) () ↔
      (optionalField flag "prerequisites" .array ≠ .mistyped →
        SafePrerequisites c user config ev safe flag
          (optionalField flag "prerequisites" .array).items) := by
  rw [checkPrerequisitesWith_of_object hobj]
  cases optionalField flag "prerequisites" .array with
  | mistyped => simp
  | absent => simp [Field.items, SafePrerequisites]
  | present prerequisites =>
      simpa [Field.items] using checkPrerequisiteList_unfaulted hev hsafe

end Prerequisites

theorem evaluateOff_returns {flag : Json} (hobj : flag.getType = .object) (out : Outputs) :
    Checked.Returns (evaluateOff flag out) := by
  simp only [evaluateOff, addValueAs_of_object hobj]
  split
  · exact Checked.returns_pure _
  · exact Checked.returns_pure _
  · exact Checked.returns_ok _

section Static

variable [Externals] (c : Content) (user : User)

def SafeSegmentList : List Json → Prop
  | [] => True
  | .text key :: values =>
      (∀ segment, c.get .segment key = some segment → SafeSegment user segment) ∧
      ((∀ segment, c.get .segment key = some segment →
        segmentMatchesUser segment user = .ok .miss) → SafeSegmentList values)
  | _ :: values => SafeSegmentList values

theorem segmentListMatchesUser_unfaulted (hhex : HexifyFits) {clause : Json}
    (h : clause.getType = .object) {values : List Json} :
    Run.Unfaulted (segmentListMatchesUser c.world clause user values) () ↔
      SafeSegmentList c user values := by
  induction values with
  | nil =>
      simp only [segmentListMatchesUser, SafeSegmentList, iff_true, Run.unfaulted_lift]
      exact maybeNegate_returns h _
  | cons value values ih =>
      cases value with
      | text key =>
          rw [segmentListMatchesUser, SafeSegmentList, storeGet, Run.unfaulted_ask_bind]
          have hget : (c.world.storeGet .segment key ()).1 = some (c.get .segment key) := rfl
          rw [hget]
          cases c.get .segment key with
          | none => simpa using ih
          | some segment =>
              simp only [Option.some.injEq, forall_eq']
              rw [Run.unfaulted_lift_bind, segmentMatchesUser_returns user hhex]
              refine and_congr_right (fun _ => ⟨fun hall hm => ih.mp (hall _ hm), fun hrest st hst => ?_⟩)
              cases st with
              | miss => exact ih.mpr (hrest hst)
              | matched => exact Run.unfaulted_lift.mpr (maybeNegate_returns h _)
              | mem => exact Run.unfaulted_pure _ _
              | schema => exact Run.unfaulted_pure _ _
              | store => exact Run.unfaulted_pure _ _
      | null => exact ih
      | bool b => exact ih
      | number n => exact ih
      | array items => exact ih
      | object fields => exact ih

def SafeFlagClause (clause : Json) : Prop :=
  ∀ op, requiredField clause "op" .text = some (.text op) →
    (op = "segmentMatch" → optionalField clause "values" .array ≠ .mistyped →
      SafeSegmentList c user (optionalField clause "values" .array).items) ∧
    (op ≠ "segmentMatch" → SafeClause user clause)

theorem clauseMatchesUser_unfaulted (hhex : HexifyFits) {clause : Json}
    (h : clause.getType = .object) :
    Run.Unfaulted (clauseMatchesUser c.world clause user) () ↔ SafeFlagClause c user clause := by
  simp only [clauseMatchesUser, h, ne_eq, not_true_eq_false, if_false, lookupRequired_of_object h,
    lookupOptional_of_object h, Run.lift_ok, pure_bind, SafeFlagClause]
  cases hop : requiredField clause "op" .text with
  | none => simp
  | some op =>
      obtain ⟨-, htext⟩ := requiredField_eq_some.mp hop
      obtain ⟨opText, rfl⟩ := Json.getType_eq_text.mp htext
      simp only [Json.getText_text, Option.some.injEq, Json.text.injEq, forall_eq']
      by_cases hseg : opText = "segmentMatch"
      · simp only [hseg, if_true, not_true_eq_false, false_implies, and_true, forall_const]
        cases optionalField clause "values" .array with
        | mistyped => simp
        | absent => simpa using segmentListMatchesUser_unfaulted c user hhex h
        | present values => simpa using segmentListMatchesUser_unfaulted c user hhex h
      · simp only [hseg, if_false, Run.unfaulted_lift, clauseMatchesUserNoSegments_returns]
        simp

def SafeFlagClauses : List Json → Prop
  | [] => True
  | clause :: clauses => clause.getType = .object → SafeFlagClause c user clause ∧
      (clauseMatchesUser c.world clause user () = .ok (.matched, ()) → SafeFlagClauses clauses)

theorem clausesMatchUser_unfaulted (hhex : HexifyFits) {clauses : List Json} :
    Run.Unfaulted (clausesMatchUser c.world user clauses) () ↔ SafeFlagClauses c user clauses := by
  induction clauses with
  | nil => simp [clausesMatchUser, SafeFlagClauses]
  | cons clause clauses ih =>
      rw [clausesMatchUser, SafeFlagClauses]
      by_cases hobj : clause.getType = .object
      · simp only [hobj, ne_eq, not_true_eq_false, if_false, forall_const]
        rw [Run.unfaulted_bind, clauseMatchesUser_unfaulted c user hhex hobj]
        refine and_congr_right (fun _ => ⟨fun hall hm => ih.mp (hall _ () hm), fun hrest st t hst => ?_⟩)
        cases st with
        | matched => exact ih.mpr (hrest hst)
        | miss => exact Run.unfaulted_pure _ _
        | mem => exact Run.unfaulted_pure _ _
        | schema => exact Run.unfaulted_pure _ _
        | store => exact Run.unfaulted_pure _ _
      · simp [hobj]

def SafeRule (rule : Json) : Prop :=
  optionalField rule "clauses" .array ≠ .mistyped →
    SafeFlagClauses c user (optionalField rule "clauses" .array).items

theorem ruleMatchesUser_unfaulted (hhex : HexifyFits) {rule : Json} (h : rule.getType = .object) :
    Run.Unfaulted (ruleMatchesUser c.world rule user) () ↔ SafeRule c user rule := by
  simp only [ruleMatchesUser, lookupOptional_of_object h, Run.lift_ok, pure_bind, SafeRule]
  cases optionalField rule "clauses" .array with
  | mistyped => simp
  | absent => simpa using clausesMatchUser_unfaulted c user hhex
  | present clauses => simpa using clausesMatchUser_unfaulted c user hhex

theorem serveRule_returns (hhex : HexifyFits) {flag rule : Json} (hobj : flag.getType = .object)
    (hrule : rule.getType = .object) {index : Nat} {out : Outputs} :
    Checked.Returns (serveRule flag rule index user out) ↔ SafeIndex user flag rule := by
  simp only [serveRule]
  rw [Checked.returns_bind_iff, getIndex_returns user hhex hobj]
  simp only [Option.some.injEq, exists_eq_left', addValue_of_object hobj, Checked.ok_bind,
    lookupOptional_of_object hrule]
  refine and_iff_left (fun found _ => ?_)
  cases found with
  | none => exact Checked.returns_pure _
  | some p =>
      simp only
      split
      · cases optionalField rule "id" .text <;> exact Checked.returns_pure _
      · exact Checked.returns_pure _

def SafeRules (flag : Json) : List Json → Prop
  | [] => True
  | rule :: rules => rule.getType = .object → SafeRule c user rule ∧
      (ruleMatchesUser c.world rule user () = .ok (.matched, ()) → SafeIndex user flag rule) ∧
      (ruleMatchesUser c.world rule user () = .ok (.miss, ()) → SafeRules flag rules)

theorem evaluateRules_unfaulted (hhex : HexifyFits) {flag : Json} (hobj : flag.getType = .object)
    {out : Outputs} {rules : List Json} : ∀ {index : Nat},
      Run.Unfaulted (evaluateRules c.world flag user out index rules) () ↔
        SafeRules c user flag rules := by
  induction rules with
  | nil => simp [evaluateRules, SafeRules]
  | cons rule rules ih =>
      intro index
      rw [SafeRules]
      by_cases hrule : rule.getType = .object
      · rw [evaluateRules_cons_of_object hrule, Run.unfaulted_bind,
          ruleMatchesUser_unfaulted c user hhex hrule]
        simp only [hrule, forall_const]
        refine and_congr_right (fun _ => ⟨fun hall => ⟨fun hm => ?_, fun hm => ?_⟩, fun hrest st t hst => ?_⟩)
        · have hserve := hall .matched () hm
          simp only [Run.unfaulted_lift_bind, serveRule_returns user hhex hobj hrule] at hserve
          exact hserve.1
        · exact ih.mp (hall .miss () hm)
        · cases st with
          | matched =>
              simp only [Run.unfaulted_lift_bind, serveRule_returns user hhex hobj hrule]
              exact ⟨hrest.1 hst, fun _ _ => Run.unfaulted_pure _ _⟩
          | miss => exact ih.mpr (hrest.2 hst)
          | mem => exact Run.unfaulted_pure _ _
          | schema => exact Run.unfaulted_pure _ _
          | store => exact Run.unfaulted_pure _ _
      · simp [evaluateRules, hrule]

def SafeFallthrough (flag : Json) : Prop :=
  ∃ v, flag.objectLookup "fallthrough" = some v ∧ SafeIndex user flag v

theorem evaluateFallthrough_returns (hhex : HexifyFits) {flag : Json}
    (hobj : flag.getType = .object) {out : Outputs} :
    Checked.Returns (evaluateFallthrough flag user out) ↔ SafeFallthrough user flag := by
  simp only [evaluateFallthrough]
  rw [Checked.returns_bind_iff, getIndex_returns user hhex hobj, SafeFallthrough]
  refine and_iff_left (fun found _ => ?_)
  cases found with
  | none => exact Checked.returns_pure _
  | some p =>
      simp only [addValueAs_of_object hobj]
      exact Checked.returns_ok _

structure SafeFromRules (flag : Json) : Prop where
  rules : optionalField flag "rules" .array ≠ .mistyped →
    SafeRules c user flag (optionalField flag "rules" .array).items
  fallthrough : optionalField flag "rules" .array ≠ .mistyped →
    NoMatch c.world user (optionalField flag "rules" .array).items () () →
    SafeFallthrough user flag

theorem evaluateFromRules_unfaulted (hhex : HexifyFits) {config : Config} {flag : Json}
    (hobj : flag.getType = .object) {out : Outputs} :
    Run.Unfaulted (evaluateFromRules ⟨config, c.world⟩ user flag out) () ↔
      SafeFromRules c user flag := by
  by_cases hm : optionalField flag "rules" .array = .mistyped
  · rw [evaluateFromRules_of_mistyped hobj out hm]
    exact ⟨fun _ => ⟨fun h => absurd hm h, fun h => absurd hm h⟩, fun _ => Run.unfaulted_pure _ _⟩
  · rw [evaluateFromRules_of_typed hobj out hm, Run.unfaulted_bind]
    constructor
    · rintro ⟨hrules, hnext⟩
      refine ⟨fun _ => (evaluateRules_unfaulted c user hhex hobj).mp hrules, fun _ hno => ?_⟩
      have hfall := hnext none () (evaluateRules_of_noMatch hno)
      exact (evaluateFallthrough_returns user hhex hobj).mp (Run.unfaulted_lift.mp hfall)
    · intro hsafe
      refine ⟨(evaluateRules_unfaulted c user hhex hobj).mpr (hsafe.rules hm), fun o t ho => ?_⟩
      cases o with
      | some r => exact Run.unfaulted_pure _ _
      | none =>
          rcases evaluateRules_eq_ok ho with ⟨status, -, hfalse⟩ | ⟨n, rule, r, -, -, hfalse⟩ | ⟨hno, -⟩
          · cases hfalse
          · cases hfalse
          · exact Run.unfaulted_lift.mpr
              ((evaluateFallthrough_returns user hhex hobj).mpr (hsafe.fallthrough hm hno))

structure SafeTargeting (flag : Json) : Prop where
  targets : optionalField flag "targets" .array ≠ .mistyped →
    SafeTargets user (optionalField flag "targets" .array).items
  rest : optionalField flag "targets" .array ≠ .mistyped →
    Untargeted user (optionalField flag "targets" .array).items → SafeFromRules c user flag

theorem evaluateTargeting_unfaulted (hhex : HexifyFits) {config : Config} {flag : Json}
    (hobj : flag.getType = .object) {out : Outputs} :
    Run.Unfaulted (evaluateTargeting ⟨config, c.world⟩ user flag out) () ↔
      SafeTargeting c user flag := by
  by_cases hm : optionalField flag "targets" .array = .mistyped
  · rw [evaluateTargeting_of_mistyped hobj out hm]
    exact ⟨fun _ => ⟨fun h => absurd hm h, fun h => absurd hm h⟩, fun _ => Run.unfaulted_pure _ _⟩
  · rw [evaluateTargeting_of_typed hobj out hm, Run.unfaulted_lift_bind,
      evaluateTargets_returns hobj]
    constructor
    · rintro ⟨htargets, hnext⟩
      refine ⟨fun _ => htargets, fun _ hun => ?_⟩
      have hrest := hnext none (evaluateTargets_eq_none.mpr hun)
      exact (evaluateFromRules_unfaulted c user hhex hobj).mp hrest
    · intro hsafe
      refine ⟨hsafe.targets hm, fun o ho => ?_⟩
      cases o with
      | some r => exact Run.unfaulted_pure _ _
      | none =>
          exact (evaluateFromRules_unfaulted c user hhex hobj).mpr
            (hsafe.rest hm (evaluateTargets_eq_none.mp ho))

structure SafeFlagWith (config : Config) (ev : Json → Run Unit Evaluation) (safe : Json → Prop)
    (flag : Json) : Prop where
  prerequisites : flag.getType = .object → (optionalField flag "on" .bool).isTrue = true →
    optionalField flag "prerequisites" .array ≠ .mistyped →
    SafePrerequisites c user config ev safe flag
      (optionalField flag "prerequisites" .array).items
  targeting : flag.getType = .object → (optionalField flag "on" .bool).isTrue = true →
    ∀ p, checkPrerequisitesWith (⟨config, c.world⟩ : Client Unit) user ev flag none () =
      .ok (p, ()) → p.status = .matched → SafeTargeting c user flag

def SafeWithin (config : Config) : ℕ → Json → Prop
  | 0, _ => True
  | n + 1, flag => SafeFlagWith c user config
      (evaluateNested (⟨config, c.world⟩ : Client Unit) user n) (SafeWithin config n) flag

def SafeFlag (config : Config) (flag : Json) : Prop :=
  SafeWithin c user config (c.flags.length + 1) flag

theorem evaluateAfterPrerequisites_unfaulted (hhex : HexifyFits) {config : Config} {flag : Json}
    (hobj : flag.getType = .object) {out : Outputs} {p : Prerequisites} :
    Run.Unfaulted (evaluateAfterPrerequisites (⟨config, c.world⟩ : Client Unit) user flag out p) () ↔
      (p.status = .matched → SafeTargeting c user flag) := by
  simp only [evaluateAfterPrerequisites]
  cases p.status with
  | matched => simpa using evaluateTargeting_unfaulted c user hhex hobj
  | miss =>
      simp only [Run.unfaulted_lift, evaluatePrerequisiteFailed, addValueAs_of_object hobj]
      simp
  | mem => simp
  | schema => simp
  | store => simp

theorem evaluateWith_unfaulted (hhex : HexifyFits) {config : Config}
    {ev : Json → Run Unit Evaluation} {safe : Json → Prop} {flag : Json}
    (hev : ∀ g sub, ev g () = .ok ((.matched, sub), ()) → g.getType = .object)
    (hsafe : ∀ g, Run.Unfaulted (ev g) () ↔ safe g) :
    Run.Unfaulted (evaluateWith (⟨config, c.world⟩ : Client Unit) user ev flag freshOutputs) () ↔
      SafeFlagWith c user config ev safe flag := by
  by_cases hobj : flag.getType = .object
  swap
  · rw [evaluateWith_of_not_object hobj]
    exact ⟨fun _ => ⟨fun h => absurd h hobj, fun h => absurd h hobj⟩, fun _ => Run.unfaulted_pure _ _⟩
  · by_cases hm : optionalField flag "on" .bool = .mistyped
    · rw [evaluateWith_of_mistyped hobj hm]
      have hoff : ¬ (optionalField flag "on" .bool).isTrue = true := by simp [hm, Field.isTrue]
      exact ⟨fun _ => ⟨fun _ h => absurd h hoff, fun _ h => absurd h hoff⟩,
        fun _ => Run.unfaulted_pure _ _⟩
    · cases hon : (optionalField flag "on" .bool).isTrue with
      | false =>
          rw [evaluateWith_of_off hobj hm hon, Run.unfaulted_lift]
          refine ⟨fun _ => ⟨fun _ h => ?_, fun _ h => ?_⟩, fun _ => evaluateOff_returns hobj _⟩
          · rw [hon] at h
            cases h
          · rw [hon] at h
            cases h
      | true =>
          rw [evaluateWith_of_on hobj hon, Run.unfaulted_bind]
          have hpre : Run.Unfaulted (checkPrerequisitesWith (⟨config, c.world⟩ : Client Unit) user ev
              flag none) () ↔ _ := checkPrerequisitesWith_unfaulted hobj hev hsafe
          constructor
          · rintro ⟨hun, hnext⟩
            refine ⟨fun _ _ => hpre.mp hun, fun _ _ p hp hmatched => ?_⟩
            exact (evaluateAfterPrerequisites_unfaulted c user hhex hobj).mp (hnext p () hp) hmatched
          · intro hsf
            refine ⟨hpre.mpr (hsf.prerequisites hobj hon), fun p t hp => ?_⟩
            exact (evaluateAfterPrerequisites_unfaulted c user hhex hobj).mpr
              (hsf.targeting hobj hon p hp)

theorem evaluateNested_matched_object {config : Config} {n : ℕ} {g : Json} {sub : Outputs}
    (h : evaluateNested (⟨config, c.world⟩ : Client Unit) user n g () = .ok ((.matched, sub), ())) :
    g.getType = .object := by
  cases n with
  | zero => cases h
  | succ n =>
      have heval : evaluate (⟨config, c.world⟩ : Client Unit) user n g freshOutputs () =
          .ok ((.matched, sub), ()) := h
      exact (on_of_matched heval).1

theorem evaluateNested_unfaulted (hhex : HexifyFits) {config : Config} (n : ℕ) : ∀ flag : Json,
    Run.Unfaulted (evaluateNested (⟨config, c.world⟩ : Client Unit) user n flag) () ↔
      SafeWithin c user config n flag := by
  induction n with
  | zero =>
      intro flag
      exact ⟨fun _ => trivial, fun _ => Run.unfaulted_exhausted _⟩
  | succ n ih =>
      intro flag
      exact evaluateWith_unfaulted c user hhex
        (fun g sub h => evaluateNested_matched_object c user h) ih

end Static

section Main

variable [Externals] {σ : Type} {client : Client σ} {user : User} {c : Content} {flag : Json}

theorem evaluate_returns_iff_safe (hhex : HexifyFits) (hw : Serves client.world c)
    (hac : Acyclic c flag) {fuel : ℕ} (hfuel : c.flags.length ≤ fuel) (s : σ) :
    (∃ r t, evaluate client user fuel flag freshOutputs s = .ok (r, t)) ↔
      SafeFlag c user client.config flag := by
  have hsim := evaluate_canonical hw user fuel flag freshOutputs s
  have hhalts : evaluate (⟨client.config, c.world⟩ : Client Unit) user fuel flag freshOutputs () ≠
      .error .fuel := evaluate_halts c.world_serves hac freshOutputs hfuel ()
  have hstable : evaluate (⟨client.config, c.world⟩ : Client Unit) user fuel flag freshOutputs =
      evaluate (⟨client.config, c.world⟩ : Client Unit) user c.flags.length flag freshOutputs :=
    evaluate_stable c.world_serves hac freshOutputs hfuel
  have hsafe : Run.Unfaulted (evaluate (⟨client.config, c.world⟩ : Client Unit) user fuel flag
      freshOutputs) () ↔ SafeFlag c user client.config flag := by
    rw [hstable]
    exact evaluateNested_unfaulted c user hhex (c.flags.length + 1) flag
  rw [← hsafe]
  cases hs : evaluate client user fuel flag freshOutputs s with
  | error e =>
      rw [hs] at hsim
      cases ht : evaluate (⟨client.config, c.world⟩ : Client Unit) user fuel flag freshOutputs () with
      | error e' =>
          cases e' with
          | fuel => exact absurd ht hhalts
          | fault fault =>
              constructor
              · rintro ⟨r, t, hr⟩
                cases hr
              · intro hun
                exact absurd ht (hun fault)
      | ok q =>
          rw [ht] at hsim
          exact hsim.elim
  | ok p =>
      rw [hs] at hsim
      cases ht : evaluate (⟨client.config, c.world⟩ : Client Unit) user fuel flag freshOutputs () with
      | error e' =>
          rw [ht] at hsim
          exact hsim.elim
      | ok q =>
          constructor
          · intro _ fault hfault
            rw [ht] at hfault
            cases hfault
          · intro _
            exact ⟨p.1, p.2, rfl⟩

end Main

def unfinishedFlag : Json :=
  .object [("key", .text "a"), ("on", .bool true), ("salt", .text ""),
    ("variations", .array [.bool true])]

section Fixed

attribute [local instance] literalExternals

theorem literal_hexifyFits : HexifyFits := by
  intro raw
  have hbytes : ∀ bytes : List UInt8, (hexChars bytes).length = 2 * bytes.length := by
    intro bytes
    induction bytes with
    | nil => rfl
    | cons b bytes ih =>
        rw [hexChars, List.flatMap_cons, List.length_append, ← hexChars, ih]
        simp only [List.length_cons, List.length_nil]
        omega
  have hsha : (Externals.sha1 raw).length = 20 := by
    simp only [Externals.sha1, List.length_take, List.length_append, List.length_replicate]
    omega
  simp only [Externals.hexify, List.length_take]
  rw [hbytes, hsha]
  rfl

theorem unfinished_evaluate_aborts :
    evaluate (Content.client ⟨[], []⟩) (userNew "u") 0 unfinishedFlag freshOutputs () =
      .error (.fault .assertion) := by
  rfl

theorem family_safe : SafeFlag familyContent (userNew "u") familyContent.client.config parentFlag := by
  have hserves : Serves familyContent.client.world familyContent := familyContent.world_serves
  have hreturns : ∃ r t, evaluate familyContent.client (userNew "u") 2 parentFlag freshOutputs () =
      .ok (r, t) := ⟨_, _, rfl⟩
  exact (evaluate_returns_iff_safe literal_hexifyFits hserves (familyContent_acyclic parentFlag)
    (le_refl 2) ()).mp hreturns

end Fixed

end ServerSdk
