import ServerSdk.Evaluate.Termination
import ServerSdk.TestData.Targeting

namespace ServerSdk

open Program

section Reason

variable {flag : Json} {out : Outputs} {r : Evaluation}

theorem reason_settle (out : Outputs) (found : Option (Json × ℕ)) :
    (out.settle found).details.reason = out.details.reason ∨
      (out.settle found).details.reason = .error := by
  cases found with
  | none => exact .inr rfl
  | some served => exact .inl rfl

theorem addValueAs_ne_targetMatch {status : EvalStatus} {index : Option Json}
    (hobj : flag.getType = .object) (hout : out.details.reason ≠ .targetMatch)
    (h : addValueAs status flag index out = .ok r) : r.2.details.reason ≠ .targetMatch := by
  rw [addValueAs_of_object hobj] at h
  cases h
  rcases reason_settle out (valueAt flag index) with hreason | hreason
  · exact hreason ▸ hout
  · exact hreason ▸ nofun

variable [Externals] {user : User}

theorem serveRule_ne_targetMatch {rule : Json} {n : ℕ} (hobj : flag.getType = .object)
    (hrule : rule.getType = .object) (h : serveRule flag rule n user out = .ok r) :
    r.2.details.reason ≠ .targetMatch := by
  cases ruleServed hobj hrule h with
  | index => nofun
  | value => nofun
  | id => nofun
  | served => nofun

theorem evaluateFallthrough_ne_targetMatch (hobj : flag.getType = .object)
    (h : evaluateFallthrough flag user out = .ok r) : r.2.details.reason ≠ .targetMatch := by
  obtain ⟨index, -, hrest⟩ := Checked.bind_eq_ok.mp h
  cases index with
  | none =>
      cases hrest
      nofun
  | some p =>
      exact addValueAs_ne_targetMatch hobj (by simp [Outputs.setReason, Outputs.setExtra]) hrest

theorem evaluateFromRules_ne_targetMatch {σ : Type} {client : Client σ} {s t : σ}
    (hobj : flag.getType = .object) (hout : out.details.reason ≠ .targetMatch)
    (h : evaluateFromRules client user flag out s = .ok (r, t)) :
    r.2.details.reason ≠ .targetMatch := by
  by_cases hrules : optionalField flag "rules" .array = .mistyped
  · rw [evaluateFromRules_of_mistyped hobj out hrules] at h
    cases h
    exact hout
  · rw [evaluateFromRules_of_typed hobj out hrules] at h
    obtain ⟨served, u, hserved, hlast⟩ := Run.bind_eq_ok.mp h
    rcases evaluateRules_eq_ok hserved with ⟨status, _, rfl⟩ | ⟨n, rule, e, hfirst, hserve, rfl⟩ |
      ⟨_, rfl⟩
    · cases hlast
      exact hout
    · cases hlast
      exact serveRule_ne_targetMatch hobj hfirst.object hserve
    · exact evaluateFallthrough_ne_targetMatch hobj (Run.lift_eq_ok.mp hlast).1

end Reason

section Built

theorem values_buildTargetJSON (target : FlagBuilderTarget) :
    optionalField (buildTargetJSON target) "values" .array = .present (.ofTexts target.users) := rfl

theorem variation_buildTargetJSON (target : FlagBuilderTarget) :
    requiredField (buildTargetJSON target) "variation" .number = some (.number target.variation) := rfl

theorem evaluateTargets_buildTargetJSON {flag : Json} (hobj : flag.getType = .object) (user : User)
    (out : Outputs) (targets : List FlagBuilderTarget) :
    evaluateTargets flag user out (targets.map buildTargetJSON) =
      .ok ((targets.find? fun target => user.key ∈ target.users).map fun target =>
        settled .matched (out.setReason .targetMatch)
          (valueAt flag (some (.number target.variation)))) := by
  induction targets with
  | nil => rfl
  | cons target targets ih =>
      have hvalues : optionalField (buildTargetJSON target) "values" .array ≠ .mistyped := by
        rw [values_buildTargetJSON]
        nofun
      rw [List.map_cons, evaluateTargets_cons_of_object rfl hvalues, values_buildTargetJSON, listsUser,
        textInArray_ofTexts, Checked.ok_bind, List.find?_cons, variation_buildTargetJSON]
      by_cases hlisted : user.key ∈ target.users
      · simp only [hlisted, decide_true, if_true, addValueAs_of_object hobj, Checked.ok_bind,
          Option.map_some]
      · simp only [hlisted, decide_false, Bool.false_eq_true, if_false, ih]

variable {flagBuilder : FlagBuilder} {version : Int}

theorem getType_build (flagBuilder : FlagBuilder) (version : Int) :
    (flagBuilderBuild flagBuilder version).getType = .object := getType_setFields _ rfl

theorem targets_build (flagBuilder : FlagBuilder) (version : Int) :
    optionalField (flagBuilderBuild flagBuilder version) "targets" .array ≠ .mistyped ∧
      (optionalField (flagBuilderBuild flagBuilder version) "targets" .array).items =
        flagBuilder.targets.map buildTargetJSON := by
  have hlookup : (flagBuilderBuild flagBuilder version).objectLookup "targets" =
      if flagBuilder.targets = [] then none else some (buildTargetsJSON flagBuilder.targets) :=
    lookup_build flagBuilder version (by simp [flagBuilderFields])
  rw [optionalField, hlookup]
  split_ifs with htargets
  · rw [htargets]
    refine ⟨fun hmistyped => ?_, rfl⟩
    cases hmistyped
  · refine ⟨fun hmistyped => ?_, rfl⟩
    cases hmistyped

theorem prerequisites_build (flagBuilder : FlagBuilder) (version : Int) :
    optionalField (flagBuilderBuild flagBuilder version) "prerequisites" .array = .absent := by
  have hlookup : (flagBuilderBuild flagBuilder version).objectLookup "prerequisites" = none :=
    (Json.objectLookup_setFields_of_notMem (keys_flagBuilderFields flagBuilder version ▸ by decide)
      (.object [])).trans rfl
  rw [optionalField, hlookup]

theorem on_build (h : flagBuilder.on = true) (version : Int) :
    (optionalField (flagBuilderBuild flagBuilder version) "on" .bool).isTrue = true := by
  have hlookup : (flagBuilderBuild flagBuilder version).objectLookup "on" =
      some (.bool flagBuilder.on) := lookup_build flagBuilder version (by simp [flagBuilderFields])
  rw [optionalField, hlookup, h]
  rfl

theorem variations_build (flagBuilder : FlagBuilder) (version : Int) :
    (flagBuilderBuild flagBuilder version).objectLookup "variations" = some flagBuilder.variations :=
  lookup_build flagBuilder version (by simp [flagBuilderFields])

structure InRange (flagBuilder : FlagBuilder) (variation : Int) : Prop where
  variations : flagBuilder.variations.getType = .array
  nonneg : 0 ≤ variation
  bound : variation < flagBuilder.variations.collectionGetSize
  fits : variation < 2 ^ 31

theorem InRange.valueAt_build {variation : Int} (h : InRange flagBuilder variation) (version : Int) :
    ∃ value, flagBuilder.variations.arrayLookup variation.toNat = some value ∧
      valueAt (flagBuilderBuild flagBuilder version) (some (.number variation)) =
        some (value, variation.toNat) := by
  obtain ⟨items, hitems⟩ := Json.getType_eq_array.mp h.variations
  have hbound := h.bound
  obtain ⟨index, rfl⟩ := Int.eq_ofNat_of_zero_le h.nonneg
  have hfits : index < 2 ^ 31 := by exact_mod_cast h.fits
  rw [hitems] at hbound
  have hlength : index < items.length := by exact_mod_cast hbound
  have hvalue : flagBuilder.variations.arrayLookup index = some items[index] := by
    rw [hitems, Json.arrayLookup, if_pos hfits]
    exact List.getElem?_eq_getElem hlength
  refine ⟨items[index], hvalue, ?_⟩
  have hpositive : ¬ (index : Rat) < 0 := not_lt.mpr (Nat.cast_nonneg _)
  rw [valueAt, Int.cast_natCast, if_neg hpositive, toUnsignedInt_natCast (by omega),
    Nat.mod_eq_of_lt (by omega), requiredField, variations_build]
  simp [h.variations, hvalue]

variable [Externals] {σ : Type} {client : Client σ} {user : User}

theorem evaluate_build (hon : flagBuilder.on = true) (fuel : ℕ) (out : Outputs) (s : σ) :
    evaluate client user fuel (flagBuilderBuild flagBuilder version) out s =
      evaluateTargeting client user (flagBuilderBuild flagBuilder version) out s := by
  have hobj := getType_build flagBuilder version
  have hpre : checkPrerequisitesWith client user (evaluateNested client user fuel)
      (flagBuilderBuild flagBuilder version) out.events = pure ⟨.matched, none, out.events⟩ := by
    rw [checkPrerequisitesWith, lookupOptional_of_object hobj, prerequisites_build]
    rfl
  rw [evaluate, evaluateWith_of_on hobj (on_build hon version), hpre, pure_bind]
  rfl

theorem evaluateTargeting_build (out : Outputs) :
    evaluateTargeting client user (flagBuilderBuild flagBuilder version) out =
      match flagBuilder.targets.find? fun target => user.key ∈ target.users with
      | some target => pure (settled .matched (out.setReason .targetMatch)
          (valueAt (flagBuilderBuild flagBuilder version) (some (.number target.variation))))
      | none => evaluateFromRules client user (flagBuilderBuild flagBuilder version) out := by
  have hobj := getType_build flagBuilder version
  obtain ⟨htyped, hitems⟩ := targets_build flagBuilder version
  rw [evaluateTargeting_of_typed hobj out htyped, hitems, evaluateTargets_buildTargetJSON hobj,
    Run.lift_ok, pure_bind]
  cases flagBuilder.targets.find? fun target => user.key ∈ target.users <;> rfl

end Built

structure TargetedLast (targets : List FlagBuilderTarget) (calls : List (String × Int)) : Prop where
  variations : (targets.map FlagBuilderTarget.variation).Nodup
  called : ∀ variation, variation ∈ targets.map FlagBuilderTarget.variation ↔
    variation ∈ calls.map Prod.snd
  users : ∀ key ∈ calls.map Prod.fst, ∃ target ∈ targets,
    finalEntry calls key = some target.variation ∧ target.users.count key = 1 ∧
      ∀ other ∈ targets, key ∈ other.users → other.variation = target.variation
  used : ∀ target ∈ targets, ∀ key ∈ target.users, key ∈ calls.map Prod.fst

theorem Assigned.targetedLast {targets : List FlagBuilderTarget} {calls : List (String × Int)}
    (h : Assigned targets (finalEntry calls)) (hcalled : ∀ variation,
      variation ∈ targets.map FlagBuilderTarget.variation ↔ variation ∈ calls.map Prod.snd) :
    TargetedLast targets calls := by
  refine ⟨h.variations, hcalled, ?_, ?_⟩
  · intro key hkey
    obtain ⟨variation, hlast⟩ := exists_finalEntry hkey
    obtain ⟨target, htarget, rfl⟩ := List.mem_map.mp (h.covered key variation hlast)
    refine ⟨target, htarget, hlast, by rw [h.users target htarget, if_pos hlast], ?_⟩
    intro other hother hmem
    rw [(h.mem_users_iff hother).mp hmem] at hlast
    exact Option.some.inj hlast
  · intro target htarget key hmem
    exact List.mem_map_of_mem (f := Prod.fst) (mem_of_finalEntry ((h.mem_users_iff htarget).mp hmem))

theorem Assigned.find?_eq {targets : List FlagBuilderTarget} {assigned : String → Option Int}
    (h : Assigned targets assigned) (key : String) :
    (targets.find? fun target => key ∈ target.users).map FlagBuilderTarget.variation =
      assigned key := by
  cases hfound : targets.find? fun target => key ∈ target.users with
  | some target =>
      have hmem : key ∈ target.users := by simpa using List.find?_some hfound
      exact ((h.mem_users_iff (List.mem_of_find?_eq_some hfound)).mp hmem).symm
  | none =>
      cases hassigned : assigned key with
      | none => rfl
      | some variation =>
          obtain ⟨target, htarget, rfl⟩ := List.mem_map.mp (h.covered key variation hassigned)
          have hmem := (h.mem_users_iff htarget).mpr hassigned
          exact absurd hmem (by simpa using List.find?_eq_none.mp hfound target htarget)

def targetedFlag (flagBuilder : FlagBuilder) (calls : List (String × Int)) (version : Int) : Json :=
  flagBuilderBuild (flagBuilderVariationForUsers flagBuilder calls) version

section Evaluated

variable [Externals] {flagBuilder : FlagBuilder} {assigned : String → Option Int} {version : Int}
  {σ : Type} {client : Client σ} {user : User} {fuel : ℕ} {out : Outputs} {s t : σ}

theorem Assigned.evaluate_targeted (h : Assigned flagBuilder.targets assigned)
    (hon : flagBuilder.on = true) {variation : Int} (hkey : assigned user.key = some variation)
    (hrange : InRange flagBuilder variation) :
    ∃ value, flagBuilder.variations.arrayLookup variation.toNat = some value ∧
      evaluate client user fuel (flagBuilderBuild flagBuilder version) out s =
        .ok ((.matched, (out.setReason .targetMatch).serve value variation.toNat), s) := by
  obtain ⟨value, hvalue, hserved⟩ := hrange.valueAt_build version
  have hfound := h.find?_eq user.key
  rw [hkey] at hfound
  obtain ⟨target, htarget, rfl⟩ := Option.map_eq_some_iff.mp hfound
  refine ⟨value, hvalue, ?_⟩
  rw [evaluate_build hon, evaluateTargeting_build, htarget]
  simp only [hserved]
  rfl

theorem Assigned.evaluate_untargeted (h : Assigned flagBuilder.targets assigned)
    (hon : flagBuilder.on = true) (hkey : assigned user.key = none)
    (hout : out.details.reason ≠ .targetMatch) {r : Evaluation}
    (heval : evaluate client user fuel (flagBuilderBuild flagBuilder version) out s = .ok (r, t)) :
    r.2.details.reason ≠ .targetMatch := by
  have hfound := h.find?_eq user.key
  rw [hkey, Option.map_eq_none_iff] at hfound
  rw [evaluate_build hon, evaluateTargeting_build, hfound] at heval
  exact evaluateFromRules_ne_targetMatch (getType_build _ version) hout heval

theorem user_targeting_last_call (flagBuilder : FlagBuilder) (hempty : flagBuilder.targets = [])
    (calls : List (String × Int)) :
    TargetedLast (flagBuilderVariationForUsers flagBuilder calls).targets calls ∧
    (flagBuilder.on = true → ∀ (version : Int) {σ : Type} (client : Client σ) (user : User) (fuel : ℕ)
      (out : Outputs) (s : σ),
      (∀ variation, finalEntry calls user.key = some variation → InRange flagBuilder variation →
        ∃ value, flagBuilder.variations.arrayLookup variation.toNat = some value ∧
          evaluate client user fuel (targetedFlag flagBuilder calls version) out s =
            .ok ((.matched, (out.setReason .targetMatch).serve value variation.toNat), s)) ∧
      (finalEntry calls user.key = none → out.details.reason ≠ .targetMatch → ∀ r t,
        evaluate client user fuel (targetedFlag flagBuilder calls version) out s = .ok (r, t) →
          r.2.details.reason ≠ .targetMatch)) := by
  have hassigned := assigned_variationForUsers hempty calls
  have hbuilder := variationForUsers_eq flagBuilder calls
  refine ⟨hassigned.targetedLast fun variation =>
    mem_variations_variationForUsers hempty calls, ?_⟩
  intro hon version σ client user fuel out s
  have hon' : (flagBuilderVariationForUsers flagBuilder calls).on = true := by
    rw [hbuilder]
    exact hon
  have hvariations : (flagBuilderVariationForUsers flagBuilder calls).variations =
      flagBuilder.variations := by
    rw [hbuilder]
  constructor
  · intro variation hlast hrange
    have hrange' : InRange (flagBuilderVariationForUsers flagBuilder calls) variation :=
      ⟨hvariations ▸ hrange.variations, hrange.nonneg, hvariations ▸ hrange.bound, hrange.fits⟩
    rw [← hvariations]
    exact hassigned.evaluate_targeted hon' hlast hrange'
  · intro hlast hout r t heval
    exact hassigned.evaluate_untargeted hon' hlast hout heval

end Evaluated

def paletteBuilder : FlagBuilder :=
  ⟨"palette", true, 0, 1, .array [.text "red", .text "green", .text "blue"], [], []⟩

def paletteCalls : List (String × Int) := [("ben", 1), ("john", 1), ("greg", 2), ("ben", 2)]

theorem moved_user_targeted :
    TargetedLast (flagBuilderVariationForUsers paletteBuilder paletteCalls).targets paletteCalls ∧
    (∃ value, paletteBuilder.variations.arrayLookup 2 = some value ∧
      @evaluate literalExternals Unit (Content.client ⟨[], []⟩) (userNew "ben") 1
        (targetedFlag paletteBuilder paletteCalls 1) freshOutputs () =
          .ok ((.matched, (freshOutputs.setReason .targetMatch).serve value 2), ())) ∧
    ∀ r t, @evaluate literalExternals Unit (Content.client ⟨[], []⟩) (userNew "ann") 1
      (targetedFlag paletteBuilder paletteCalls 1) freshOutputs () = .ok (r, t) →
        r.2.details.reason ≠ .targetMatch := by
  obtain ⟨htargeted, hevaluated⟩ :=
    @user_targeting_last_call literalExternals paletteBuilder rfl paletteCalls
  have hben := (hevaluated rfl 1 (Content.client ⟨[], []⟩) (userNew "ben") 1 freshOutputs ()).1
    2 (by decide) ⟨rfl, by decide, by decide, by decide⟩
  have hann := (hevaluated rfl 1 (Content.client ⟨[], []⟩) (userNew "ann") 1 freshOutputs ()).2
    (by decide) (by decide)
  exact ⟨htargeted, hben, hann⟩

end ServerSdk
