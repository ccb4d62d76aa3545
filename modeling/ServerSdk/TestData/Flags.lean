import ServerSdk.Events.Feature
import ServerSdk.Store.Refinement

namespace ServerSdk

open Program

structure FlagRuleBuilderClause where
  attr : String
  values : Json
  negate : Bool

structure FlagRuleBuilder where
  variation : Int
  clauses : List FlagRuleBuilderClause

structure FlagBuilderTarget where
  variation : Int
  users : List String

structure FlagBuilder where
  key : String
  on : Bool
  fallthroughVariation : Int
  offVariation : Int
  variations : Json
  targets : List FlagBuilderTarget
  rules : List FlagRuleBuilder

def buildTargetJSON (target : FlagBuilderTarget) : Json :=
  ((Json.object []).objectSetKey "variation" (.number target.variation)).objectSetKey "values"
    (.ofTexts target.users)

def buildTargetsJSON (targets : List FlagBuilderTarget) : Json := .array (targets.map buildTargetJSON)

def buildClauseJSON (clause : FlagRuleBuilderClause) : Json :=
  ((((Json.object []).objectSetKey "attribute" (.text clause.attr)).objectSetKey "op"
    (.text "in")).objectSetKey "negate" (.bool clause.negate)).objectSetKey "values" clause.values

def buildClausesJSON (clauses : List FlagRuleBuilderClause) : Json :=
  .array (clauses.map buildClauseJSON)

def buildRuleJSON (rule : FlagRuleBuilder) (ruleId : String) : Json :=
  (((Json.object []).objectSetKey "id" (.text ruleId)).objectSetKey "variation"
    (.number rule.variation)).objectSetKey "clauses" (buildClausesJSON rule.clauses)

def buildRulesJSON (rules : List FlagRuleBuilder) : Json :=
  .array (rules.mapIdx fun index rule => buildRuleJSON rule ("rule" ++ toString index))

def flagBuilderFields (flagBuilder : FlagBuilder) (version : Int) : List (String × Option Json) :=
  [("key", some (.text flagBuilder.key)), ("salt", some (.text "salt")),
    ("version", some (.number version)), ("on", some (.bool flagBuilder.on)),
    ("offVariation", some (.number flagBuilder.offVariation)),
    ("variations", some flagBuilder.variations),
    ("fallthrough", some ((Json.object []).objectSetKey "variation"
      (.number flagBuilder.fallthroughVariation))),
    ("targets", if flagBuilder.targets = [] then none
      else some (buildTargetsJSON flagBuilder.targets)),
    ("rules", if flagBuilder.rules = [] then none else some (buildRulesJSON flagBuilder.rules))]

def flagBuilderBuild (flagBuilder : FlagBuilder) (version : Int) : Json :=
  (Json.object []).setFields (flagBuilderFields flagBuilder version)

def getPreviousFlagVersion (currentFlags : Json) (flagBuilder : FlagBuilder) : Int :=
  match currentFlags.objectLookup flagBuilder.key with
  | none => 0
  | some oldFlag =>
      match oldFlag.objectLookup "version" with
      | some (.number jsonVersion) => toInt jsonVersion
      | _ => 0

def createNewFlag (currentFlags : Json) (flagBuilder : FlagBuilder) : Json :=
  flagBuilderBuild flagBuilder (getPreviousFlagVersion currentFlags flagBuilder + 1)

structure Numbered (key : String) (flag : Json) : Prop where
  carries : Carries key flag
  version : ∃ version : ℕ, version < 2 ^ 31 ∧ flag.objectLookup "version" = some (.number version)

structure FlagsHeld (flags : Json) : Prop where
  unique : flags.Unique
  numbered : ∀ key flag, flags.objectLookup key = some flag → Numbered key flag

theorem Numbered.getDataVersion_eq {key : String} {flag : Json} (h : Numbered key flag) :
    flag.objectLookup "version" = some (.number (getDataVersion flag)) ∧
      getDataVersion flag < 2 ^ 31 := by
  obtain ⟨version, hlt, hlookup⟩ := h.version
  rw [getDataVersion_of_natural (by omega) hlookup]
  exact ⟨hlookup, hlt⟩

theorem toInt_natural {n : ℕ} (h : n < 2 ^ 31) : toInt (n : Rat) = n := by
  exact_mod_cast toInt_intCast (n := n) (by omega) (by omega)

def flagBuilderKeys : List String :=
  ["key", "salt", "version", "on", "offVariation", "variations", "fallthrough", "targets", "rules"]

theorem keys_flagBuilderFields (flagBuilder : FlagBuilder) (version : Int) :
    (flagBuilderFields flagBuilder version).map Prod.fst = flagBuilderKeys := rfl

theorem lookup_build (flagBuilder : FlagBuilder) (version : Int) {key : String} {item : Option Json}
    (hmem : (key, item) ∈ flagBuilderFields flagBuilder version) :
    (flagBuilderBuild flagBuilder version).objectLookup key = item := by
  have hkeys : flagBuilderKeys.Nodup := by decide
  exact Json.unique_empty.lookup_setFields (keys_flagBuilderFields flagBuilder version ▸ hkeys)
    (fun _ _ => rfl) hmem

theorem getType_setFields (fields : List (String × Option Json)) {j : Json}
    (h : j.getType = .object) : (j.setFields fields).getType = .object := by
  induction fields generalizing j with
  | nil => exact h
  | cons field fields ih =>
      refine ih ?_
      obtain ⟨key, item⟩ := field
      cases j with
      | object entries => cases item <;> rfl
      | _ => cases h

theorem lookup_build_version (flagBuilder : FlagBuilder) (version : ℕ) :
    (flagBuilderBuild flagBuilder version).objectLookup "version" = some (.number version) := by
  have hversion : (flagBuilderBuild flagBuilder version).objectLookup "version" =
      some (.number ((version : Int) : Rat)) :=
    lookup_build flagBuilder version (by simp [flagBuilderFields])
  simpa using hversion

theorem build_numbered {flagBuilder : FlagBuilder} {version : ℕ} (h : version < 2 ^ 31) :
    Numbered flagBuilder.key (flagBuilderBuild flagBuilder version) := by
  have hkey : (flagBuilderBuild flagBuilder version).objectLookup "key" =
      some (.text flagBuilder.key) :=
    lookup_build flagBuilder version (by simp [flagBuilderFields])
  have hversion := lookup_build_version flagBuilder version
  have hdeleted : (flagBuilderBuild flagBuilder version).objectLookup "deleted" = none :=
    (Json.objectLookup_setFields_of_notMem (keys_flagBuilderFields flagBuilder version ▸ by decide)
      (.object [])).trans rfl
  have htype : (flagBuilderBuild flagBuilder version).getType = .object := getType_setFields _ rfl
  refine ⟨⟨?_, hkey⟩, version, h, hversion⟩
  simp only [validateData, htype, hversion, hkey, hdeleted]
  rfl

theorem getPreviousFlagVersion_eq {currentFlags : Json} (h : FlagsHeld currentFlags)
    (flagBuilder : FlagBuilder) : getPreviousFlagVersion currentFlags flagBuilder =
      ((currentFlags.objectLookup flagBuilder.key).elim 0 getDataVersion : ℕ) := by
  rw [getPreviousFlagVersion]
  cases hlookup : currentFlags.objectLookup flagBuilder.key with
  | none => rfl
  | some oldFlag =>
      obtain ⟨hversion, hlt⟩ := (h.numbered flagBuilder.key oldFlag hlookup).getDataVersion_eq
      simp only [hversion, Option.elim_some]
      exact toInt_natural hlt

theorem createNewFlag_numbered {currentFlags : Json} (h : FlagsHeld currentFlags)
    {flagBuilder : FlagBuilder} (hlt : getPreviousFlagVersion currentFlags flagBuilder < 2 ^ 31 - 1) :
    Numbered flagBuilder.key (createNewFlag currentFlags flagBuilder) ∧
      ∀ oldFlag, currentFlags.objectLookup flagBuilder.key = some oldFlag →
        getDataVersion oldFlag < getDataVersion (createNewFlag currentFlags flagBuilder) := by
  rw [getPreviousFlagVersion_eq h] at hlt
  have hnew : createNewFlag currentFlags flagBuilder = flagBuilderBuild flagBuilder
      (((currentFlags.objectLookup flagBuilder.key).elim 0 getDataVersion + 1 : ℕ) : Int) := by
    rw [createNewFlag, getPreviousFlagVersion_eq h]
    rfl
  rw [hnew]
  have hlt' : (currentFlags.objectLookup flagBuilder.key).elim 0 getDataVersion + 1 < 2 ^ 31 := by
    omega
  refine ⟨build_numbered hlt', ?_⟩
  intro oldFlag hold
  rw [getDataVersion_of_natural (by omega) (lookup_build_version flagBuilder _), hold,
    Option.elim_some]
  omega

theorem FlagsHeld.empty : FlagsHeld (.object []) := ⟨Json.unique_empty, nofun⟩

theorem FlagsHeld.setKey {flags flag : Json} (h : FlagsHeld flags) {key : String}
    (hflag : Numbered key flag) : FlagsHeld (flags.objectSetKey key flag) := by
  refine ⟨h.unique.setKey key flag, ?_⟩
  intro other held hheld
  by_cases hother : other = key
  · subst hother
    rw [h.unique.lookup_setKey] at hheld
    cases hheld
    exact hflag
  · rw [Json.objectLookup_setKey_of_ne hother] at hheld
    exact h.numbered other held hheld

def dataSet (flags : Json) : Json := (Json.object []).objectSetKey "features" flags

theorem FlagsHeld.valid {flags : Json} (h : FlagsHeld flags) : ValidSets (dataSet flags) := by
  refine ⟨Json.unique_empty.setKey "features" flags, ?_⟩
  intro kind items hitems
  cases kind with
  | segment => cases hitems
  | flag =>
      cases hitems
      refine ⟨h.unique, ?_⟩
      intro key item hmem
      obtain ⟨⟨fields, rfl⟩, hkeys⟩ := h.unique
      exact (h.numbered key item ((Json.mem_iff_lookup hkeys).mp hmem)).carries

theorem heldBy_dataSet (flags : Json) (key : String) :
    heldBy (dataSet flags) (.flag, key) = flags.objectLookup key := rfl

end ServerSdk
