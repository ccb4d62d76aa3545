import ServerSdk.TestData.RuleMatch
import ServerSdk.TestData.Rules

namespace ServerSdk

open Program

inductive Linked (α : Type) where
  | held (elements : List α)
  | freed

namespace Linked

variable {α : Type}

def read : Linked α → Option (List α)
  | .held elements => some elements
  | .freed => none

-- The pointer is passed by value, so it stays what it was when the elements are gone.
def free : Linked α → Option (Linked α)
  | .held [] => some (.held [])
  | .held (_ :: _) => some .freed
  | .freed => none

theorem held_of_free {links links' : Linked α} {elements : List α} (hfree : links.free = some links')
    (hread : links'.read = some elements) : links = .held [] ∧ links' = .held [] := by
  cases links with
  | freed => cases hfree
  | held elements =>
      cases elements with
      | nil =>
          cases hfree
          exact ⟨rfl, rfl⟩
      | cons element elements =>
          cases hfree
          cases hread

end Linked

structure LinkedBuilder where
  key : String
  on : Bool
  fallthroughVariation : Int
  offVariation : Int
  variations : Json
  targets : Linked FlagBuilderTarget
  rules : Linked FlagRuleBuilder
  isInt : -2 ^ 31 ≤ offVariation ∧ offVariation < 2 ^ 31

namespace LinkedBuilder

def contents (flagBuilder : LinkedBuilder) : Option FlagBuilder := do
  let targets ← flagBuilder.targets.read
  let rules ← flagBuilder.rules.read
  pure ⟨flagBuilder.key, flagBuilder.on, flagBuilder.fallthroughVariation, flagBuilder.offVariation,
    flagBuilder.variations, targets, rules⟩

def build (flagBuilder : LinkedBuilder) (version : Int) : Option Json :=
  flagBuilder.contents.map fun contents => flagBuilderBuild contents version

end LinkedBuilder

def clearUserTargets (flagBuilder : LinkedBuilder) : Option LinkedBuilder := do
  let targets ← flagBuilder.targets.free
  pure { flagBuilder with targets }

def clearRules (flagBuilder : LinkedBuilder) : Option LinkedBuilder := do
  let rules ← flagBuilder.rules.free
  pure { flagBuilder with rules }

def flagBuilderOn (flagBuilder : LinkedBuilder) (on : Bool) : LinkedBuilder := { flagBuilder with on }

def flagBuilderFallthroughVariation (flagBuilder : LinkedBuilder) (variationIndex : Int) :
    LinkedBuilder :=
  { flagBuilder with fallthroughVariation := variationIndex }

def flagBuilderVariations (flagBuilder : LinkedBuilder) (variations : Json) : LinkedBuilder :=
  { flagBuilder with variations := asJSONArray variations }

def flagBuilderVariationForAllUsers (flagBuilder : LinkedBuilder) (variationIndex : Int) :
    Option LinkedBuilder := do
  let flagBuilder ← clearUserTargets flagBuilder
  let flagBuilder ← clearRules flagBuilder
  pure (flagBuilderFallthroughVariation (flagBuilderOn flagBuilder true) variationIndex)

def flagBuilderValueForAllUsers (flagBuilder : LinkedBuilder) (value : Json) : Option LinkedBuilder :=
  flagBuilderVariationForAllUsers (flagBuilderVariations flagBuilder value) 0

theorem valueForAllUsers_eq_some {flagBuilder changed : LinkedBuilder} {value : Json} :
    flagBuilderValueForAllUsers flagBuilder value = some changed ↔
      ∃ targets rules, flagBuilder.targets.free = some targets ∧ flagBuilder.rules.free = some rules ∧
        changed = { flagBuilder with
          on := true
          fallthroughVariation := 0
          variations := asJSONArray value
          targets := targets
          rules := rules } := by
  constructor
  · intro h
    obtain ⟨cleared, hcleared, hrest⟩ := Option.bind_eq_some_iff.mp h
    obtain ⟨targets, htargets, hcleared⟩ := Option.bind_eq_some_iff.mp hcleared
    obtain ⟨unruled, hunruled, hchanged⟩ := Option.bind_eq_some_iff.mp hrest
    obtain ⟨rules, hrules, hunruled⟩ := Option.bind_eq_some_iff.mp hunruled
    cases hcleared
    cases hunruled
    cases hchanged
    exact ⟨targets, rules, htargets, hrules, rfl⟩
  · rintro ⟨targets, rules, htargets, hrules, rfl⟩
    have hcleared : clearUserTargets (flagBuilderVariations flagBuilder value) =
        some { flagBuilderVariations flagBuilder value with targets := targets } :=
      Option.bind_eq_some_iff.mpr ⟨targets, htargets, rfl⟩
    have hunruled : clearRules { flagBuilderVariations flagBuilder value with targets := targets } =
        some { flagBuilderVariations flagBuilder value with targets := targets, rules := rules } :=
      Option.bind_eq_some_iff.mpr ⟨rules, hrules, rfl⟩
    exact Option.bind_eq_some_iff.mpr ⟨_, hcleared, Option.bind_eq_some_iff.mpr ⟨_, hunruled, rfl⟩⟩

theorem build_eq_some {flagBuilder : LinkedBuilder} {version : Int} {flag : Json} :
    flagBuilder.build version = some flag ↔
      ∃ targets rules, flagBuilder.targets.read = some targets ∧ flagBuilder.rules.read = some rules ∧
        flag = flagBuilderBuild ⟨flagBuilder.key, flagBuilder.on, flagBuilder.fallthroughVariation,
          flagBuilder.offVariation, flagBuilder.variations, targets, rules⟩ version := by
  constructor
  · intro h
    obtain ⟨contents, hcontents, rfl⟩ := Option.map_eq_some_iff.mp h
    obtain ⟨targets, htargets, hcontents⟩ := Option.bind_eq_some_iff.mp hcontents
    obtain ⟨rules, hrules, hcontents⟩ := Option.bind_eq_some_iff.mp hcontents
    cases hcontents
    exact ⟨targets, rules, htargets, hrules, rfl⟩
  · rintro ⟨targets, rules, htargets, hrules, rfl⟩
    have hcontents : flagBuilder.contents = some ⟨flagBuilder.key, flagBuilder.on,
        flagBuilder.fallthroughVariation, flagBuilder.offVariation, flagBuilder.variations, targets,
        rules⟩ :=
      Option.bind_eq_some_iff.mpr ⟨targets, htargets, Option.bind_eq_some_iff.mpr ⟨rules, hrules, rfl⟩⟩
    exact Option.map_eq_some_iff.mpr ⟨_, hcontents, rfl⟩

theorem asJSONArray_eq_singleton {value : Json} :
    asJSONArray value = .array [value] ↔ value.getType ≠ .array := by
  rw [asJSONArray]
  split_ifs with harray
  · refine ⟨fun heq => ?_, fun hne => absurd harray hne⟩
    have hsize := congrArg sizeOf heq
    simp only [Json.array.sizeOf_spec, List.cons.sizeOf_spec] at hsize
    omega
  · exact ⟨fun _ => harray, fun _ => rfl⟩

theorem valueAt_single {flagBuilder : FlagBuilder} {value : Json}
    (hvariations : flagBuilder.variations = .array [value]) (version : Int) {index : Int}
    (hlt : index < 2 ^ 31) :
    valueAt (flagBuilderBuild flagBuilder version) (some (.number index)) =
      if index = 0 then some (value, 0) else none := by
  have hfield : requiredField (flagBuilderBuild flagBuilder version) "variations" .array =
      some (.array [value]) :=
    requiredField_eq_some.mpr ⟨hvariations ▸ variations_build flagBuilder version, rfl⟩
  rcases lt_or_ge index 0 with hneg | hnonneg
  · rw [valueAt, if_pos (by exact_mod_cast hneg), if_neg (by omega)]
  · obtain ⟨n, rfl⟩ := Int.eq_ofNat_of_zero_le hnonneg
    have hfits : n < 2 ^ 31 := by exact_mod_cast hlt
    have hpositive : ¬ (n : Rat) < 0 := not_lt.mpr (Nat.cast_nonneg _)
    rw [valueAt, Int.cast_natCast, if_neg hpositive, toUnsignedInt_natCast (by omega),
      Nat.mod_eq_of_lt (by omega), hfield, Option.bind_some, Json.arrayLookup, if_pos hfits]
    cases n with
    | zero => rfl
    | succ n => rfl

section Evaluated

variable [Externals]

def ServesEveryone (value : Json) (flagBuilder : LinkedBuilder) : Prop :=
  ∀ version, ∃ flag, flagBuilder.build version = some flag ∧
    flag.objectLookup "variations" = some (.array [value]) ∧ flag.objectLookup "targets" = none ∧
      flag.objectLookup "rules" = none ∧ ∀ {σ : Type} (client : Client σ) (user : User) (fuel : ℕ)
        (out : Outputs) (s : σ), ∃ r t, evaluate client user fuel flag out s = .ok (r, t) ∧
          r.2.value = some value

def ValueForAllUsers (value : Json) (flagBuilder : LinkedBuilder) : Prop :=
  ∃ changed, flagBuilderValueForAllUsers flagBuilder value = some changed ∧
    ServesEveryone value changed ∧ ServesEveryone value (flagBuilderOn changed false)

variable {flagBuilder : FlagBuilder} {version : Int} {σ : Type} {client : Client σ} {user : User}
  {fuel : ℕ} {out : Outputs} {s : σ}

theorem evaluate_build_off (hoff : flagBuilder.on = false) :
    evaluate client user fuel (flagBuilderBuild flagBuilder version) out s =
      .ok (settled .miss (out.setReason .off) (valueAt (flagBuilderBuild flagBuilder version)
        (some (.number flagBuilder.offVariation))), s) := by
  have hobj := getType_build flagBuilder version
  have hfield : optionalField (flagBuilderBuild flagBuilder version) "on" .bool =
      .present (.bool false) := by
    have hlookup : (flagBuilderBuild flagBuilder version).objectLookup "on" =
        some (.bool flagBuilder.on) := lookup_build flagBuilder version (by simp [flagBuilderFields])
    rw [optionalField, hlookup, hoff]
    rfl
  have hlookup : (flagBuilderBuild flagBuilder version).objectLookup "offVariation" =
      some (.number flagBuilder.offVariation) :=
    lookup_build flagBuilder version (by simp [flagBuilderFields])
  have htyped : optionalField (flagBuilderBuild flagBuilder version) "on" .bool ≠ .mistyped := by
    rw [hfield]
    intro hmistyped
    cases hmistyped
  rw [evaluate, evaluateWith_of_off hobj htyped (by rw [hfield]; rfl)]
  simp only [evaluateOff, hlookup, addValueAs_of_object hobj, Run.lift_ok, Run.pure_run]

variable {value : Json} {linked : LinkedBuilder}

theorem ServesEveryone.readable (h : ServesEveryone value linked) :
    ∃ targets rules, linked.targets.read = some targets ∧ linked.rules.read = some rules ∧
      linked.variations = .array [value] := by
  obtain ⟨flag, hflag, hvariations, -⟩ := h 1
  obtain ⟨targets, rules, htargets, hrules, rfl⟩ := build_eq_some.mp hflag
  rw [variations_build, Option.some.injEq] at hvariations
  exact ⟨targets, rules, htargets, hrules, hvariations⟩

theorem ServesEveryone.offVariation (h : ServesEveryone value linked) (hoff : linked.on = false) :
    linked.offVariation = 0 := by
  obtain ⟨-, -, -, -, hvariations⟩ := h.readable
  obtain ⟨flag, hflag, -, -, -, hevaluate⟩ := h 1
  obtain ⟨targets, rules, -, -, rfl⟩ := build_eq_some.mp hflag
  obtain ⟨r, t, hserved, hvalue⟩ := hevaluate (Content.client ⟨[], []⟩) (userNew "") 0 freshOutputs ()
  rw [evaluate_build_off hoff, valueAt_single hvariations 1 linked.isInt.2] at hserved
  by_contra hne
  rw [if_neg hne] at hserved
  cases hserved
  cases hvalue

theorem servesEveryone_of_empty (htargets : linked.targets = .held []) (hrules : linked.rules = .held [])
    (hvariations : linked.variations = .array [value])
    (hserved : if linked.on then linked.fallthroughVariation = 0 else linked.offVariation = 0) :
    ServesEveryone value linked := by
  intro version
  refine ⟨_, build_eq_some.mpr ⟨[], [], by rw [htargets]; rfl, by rw [hrules]; rfl, rfl⟩, ?_,
    lookup_build _ version (by simp [flagBuilderFields]),
    lookup_build _ version (by simp [flagBuilderFields]), ?_⟩
  · rw [variations_build, hvariations]
  · intro σ client user fuel out s
    cases hon : linked.on with
    | true =>
        rw [hon, if_pos rfl] at hserved
        have hrange : InRange ⟨linked.key, true, linked.fallthroughVariation, linked.offVariation,
            linked.variations, [], []⟩ linked.fallthroughVariation := by
          refine ⟨?_, ?_, ?_, ?_⟩
          · exact hvariations ▸ rfl
          · exact hserved.ge
          · change linked.fallthroughVariation < (linked.variations.collectionGetSize : Int)
            rw [hserved, hvariations]
            exact Int.natCast_pos.mpr Nat.one_pos
          · simp [hserved]
        have hmisses : ∀ rule ∈ ([] : List FlagRuleBuilder), RuleMisses user rule :=
          fun rule hrule => absurd hrule List.not_mem_nil
        obtain ⟨found, hfound, hevaluate⟩ := evaluate_of_misses hmisses rfl rfl hrange
        refine ⟨_, _, hevaluate, ?_⟩
        rw [hvariations, hserved] at hfound
        exact hfound.symm
    | false =>
        rw [hon, if_neg Bool.false_ne_true] at hserved
        rw [evaluate_build_off rfl, valueAt_single hvariations version linked.isInt.2, hserved, if_pos rfl]
        exact ⟨_, _, rfl, rfl⟩

theorem value_for_all_users_iff (flagBuilder : LinkedBuilder) (value : Json) :
    ValueForAllUsers value flagBuilder ↔ value.getType ≠ .array ∧ flagBuilder.targets = .held [] ∧
      flagBuilder.rules = .held [] ∧ flagBuilder.offVariation = 0 := by
  constructor
  · rintro ⟨changed, hchanged, hserves, hoff⟩
    obtain ⟨targets, rules, hfree, hfree', rfl⟩ := valueForAllUsers_eq_some.mp hchanged
    obtain ⟨elements, elements', hread, hread', hvariations⟩ := hserves.readable
    exact ⟨asJSONArray_eq_singleton.mp hvariations, (Linked.held_of_free hfree hread).1,
      (Linked.held_of_free hfree' hread').1, hoff.offVariation rfl⟩
  · rintro ⟨harray, htargets, hrules, hoffVariation⟩
    have hvariations := asJSONArray_eq_singleton.mpr harray
    refine ⟨_, valueForAllUsers_eq_some.mpr ⟨.held [], .held [], by rw [htargets]; rfl,
      by rw [hrules]; rfl, rfl⟩, ?_, ?_⟩
    · exact servesEveryone_of_empty rfl rfl hvariations rfl
    · exact servesEveryone_of_empty rfl rfl hvariations hoffVariation

end Evaluated

def newBuilder : LinkedBuilder :=
  ⟨"palette", true, 0, 1, .array [.bool true, .bool false], .held [], .held [], by decide⟩

def targetedBuilder : LinkedBuilder := { newBuilder with targets := .held [⟨0, ["ben"]⟩] }

theorem value_not_for_all_users :
    ¬ @ValueForAllUsers literalExternals (.text "red") newBuilder ∧
      (∃ changed, flagBuilderValueForAllUsers newBuilder (.text "red") = some changed ∧
        ∃ flag, (flagBuilderOn changed false).build 1 = some flag ∧
          @evaluate literalExternals Unit (Content.client ⟨[], []⟩) (userNew "ben") 1 flag
            freshOutputs () = .ok ((.schema, (freshOutputs.setReason .off).malformed), ())) ∧
      (flagBuilderValueForAllUsers targetedBuilder (.text "red")).bind (·.build 1) = none := by
  refine ⟨?_, ⟨_, rfl, _, rfl, rfl⟩, rfl⟩
  rintro ⟨changed, hchanged, -, hoff⟩
  cases hchanged
  obtain ⟨flag, hflag, -, -, -, hevaluate⟩ := hoff 1
  cases hflag
  obtain ⟨r, t, hserved, hvalue⟩ := hevaluate (Content.client ⟨[], []⟩) (userNew "ben") 1 freshOutputs ()
  cases hserved
  cases hvalue

end ServerSdk
