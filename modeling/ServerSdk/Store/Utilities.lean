import ServerSdk.Platform

namespace ServerSdk

open Program

def featureKindToString : FeatureKind → String
  | .flag => "features"
  | .segment => "segments"

-- The name of an array element is absent; comparing it reads a null text.
def stringToFeatureKind : Option String → Checked (Option FeatureKind)
  | none => .error .nullText
  | some kind =>
      if kind = "features" then .ok (some .flag)
      else if kind = "segments" then .ok (some .segment)
      else .ok none

def getDataKey (feature : Json) : Checked (Option String) :=
  match feature.objectLookup "key" with
  | none => .error .assertion
  | some tmp => .ok tmp.getText

def getDataVersion (feature : Json) : Nat :=
  match feature.objectLookup "version" with
  | none => 0
  | some tmp => if tmp.getType ≠ .number then 0 else toUnsignedInt tmp.getNumber

def validateData (feature : Json) : Bool :=
  if feature.getType ≠ .object then false
  else match feature.objectLookup "version" with
    | none => false
    | some version =>
        if version.getType ≠ .number then false
        else match feature.objectLookup "key" with
          | none => false
          | some key =>
              if key.getType ≠ .text then false
              else match feature.objectLookup "deleted" with
                | none => true
                | some deleted => deleted.getType = .bool

def isDataDeleted (feature : Json) : Bool :=
  match feature.objectLookup "deleted" with
  | none => false
  | some tmp => if tmp.getType ≠ .bool then true else tmp.getBool

def statedVersion (feature : Json) : Rat :=
  match feature.objectLookup "version" with
  | none => 0
  | some version => version.getNumber

def textKey (item : Json) : Option String := (item.objectLookup "key").bind Json.getText

structure Carries (key : String) (feature : Json) : Prop where
  valid : validateData feature = true
  key : feature.objectLookup "key" = some (.text key)

theorem stringToFeatureKind_eq {name : String} {kind : FeatureKind} :
    stringToFeatureKind (some name) = .ok (some kind) ↔ name = featureKindToString kind := by
  cases kind with
  | flag =>
      by_cases hf : name = "features"
      · simp [stringToFeatureKind, featureKindToString, hf]
      · by_cases hs : name = "segments"
        · simp [stringToFeatureKind, featureKindToString, hs]
        · simp [stringToFeatureKind, featureKindToString, hf, hs]
  | segment =>
      by_cases hf : name = "features"
      · simp [stringToFeatureKind, featureKindToString, hf]
      · simp [stringToFeatureKind, featureKindToString, hf]

theorem stringToFeatureKind_cases (name : String) :
    (∃ kind, name = featureKindToString kind ∧
      stringToFeatureKind (some name) = .ok (some kind)) ∨
    ((∀ kind, name ≠ featureKindToString kind) ∧ stringToFeatureKind (some name) = .ok none) := by
  by_cases hf : name = "features"
  · exact .inl ⟨.flag, hf, stringToFeatureKind_eq.mpr hf⟩
  · by_cases hs : name = "segments"
    · exact .inl ⟨.segment, hs, stringToFeatureKind_eq.mpr hs⟩
    · refine .inr ⟨?_, by simp [stringToFeatureKind, hf, hs]⟩
      intro kind
      cases kind with
      | flag => exact hf
      | segment => exact hs

theorem featureKindToString_injective : Function.Injective featureKindToString := by
  intro a b h
  cases a <;> cases b <;> simp [featureKindToString] at h ⊢

theorem exists_carries {feature : Json} (h : validateData feature = true) :
    ∃ key, Carries key feature := by
  have hvalid : validateData feature = true := h
  simp only [validateData] at h
  split_ifs at h
  cases hversion : feature.objectLookup "version" with
  | none => simp [hversion] at h
  | some version =>
      simp only [hversion] at h
      split_ifs at h
      cases hkey : feature.objectLookup "key" with
      | none => simp [hkey] at h
      | some key =>
          simp only [hkey] at h
          split_ifs at h with htext
          obtain ⟨s, rfl⟩ := Json.getType_eq_text.mp (not_not.mp htext)
          exact ⟨s, hvalid, hkey⟩

theorem Carries.getDataKey_eq {key : String} {feature : Json} (h : Carries key feature) :
    getDataKey feature = .ok (some key) := by
  rw [getDataKey, h.key]
  rfl

theorem getDataKey_eq_some {item : Json} {key : String} :
    getDataKey item = .ok (some key) ↔ textKey item = some key := by
  rw [getDataKey, textKey]
  cases item.objectLookup "key" with
  | none => simp
  | some value => simp

theorem Carries.textKey_eq {key : String} {feature : Json} (h : Carries key feature) :
    textKey feature = some key := getDataKey_eq_some.mp h.getDataKey_eq

theorem getDataVersion_of_natural {feature : Json} {version : Nat} (hlt : version < 2 ^ 32)
    (h : feature.objectLookup "version" = some (.number version)) :
    getDataVersion feature = version := by
  have hversion : toUnsignedInt (version : Rat) = version := by
    rw [toUnsignedInt_natCast (by omega), Nat.mod_eq_of_lt hlt]
  simp [getDataVersion, h, Json.getType, Json.getNumber, hversion]

theorem statedVersion_of_natural {feature : Json} {version : Nat}
    (h : feature.objectLookup "version" = some (.number version)) :
    statedVersion feature = version := by
  simp [statedVersion, h, Json.getNumber]

end ServerSdk
