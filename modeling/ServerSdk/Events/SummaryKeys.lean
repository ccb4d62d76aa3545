import ServerSdk.Cjson.RoundTrip
import ServerSdk.Events.Counting

namespace ServerSdk

open Memory

def fieldName (name : String) : CString := .ofBlock (name.toList.map fun c => UInt8.ofNat c.toNat)

def asText (bytes : List UInt8) : String := String.ofList (bytes.map fun byte => Char.ofNat byte.toNat)

theorem asText_injective {bytes bytes' : List UInt8} (h : asText bytes = asText bytes') :
    bytes = bytes' := by
  have hcharacter (byte : UInt8) : UInt8.ofNat (Char.ofNat byte.toNat).toNat = byte := by
    refine CJson.forall_byte ?_ byte
    decide +kernel
  have hbytes (bytes : List UInt8) :
      ((asText bytes).toList.map fun c => UInt8.ofNat c.toNat) = bytes := by
    rw [asText, String.toList_ofList, List.map_map]
    exact (List.map_congr_left fun byte _ => hcharacter byte).trans (List.map_id _)
  rw [← hbytes bytes, h, hbytes]

namespace CJson

def numberField (name : String) (valuedouble : Option Double) : List (CString × CJson) :=
  (valuedouble.map fun valuedouble => (fieldName name, CJson.number valuedouble)).toList

def keyItem (variation version : Option Double) : CJson :=
  .object (numberField "variation" variation ++ numberField "version" version)

theorem keyItem_injective {variation version variation' version' : Option Double}
    (h : keyItem variation version = keyItem variation' version') :
    variation = variation' ∧ version = version' := by
  have hnames : fieldName "variation" ≠ fieldName "version" := by decide
  cases variation <;> cases version <;> cases variation' <;> cases version' <;>
    simp_all [keyItem, numberField]

section Finite

variable {variation version : Option Rat}

theorem settled_keyItem :
    settled (keyItem (variation.map .finite) (version.map .finite)) =
      keyItem (variation.map .finite) (version.map .finite) := by
  cases variation <;> cases version <;> rfl

theorem nesting_keyItem : nesting (keyItem (variation.map .finite) (version.map .finite)) ≤ nestingLimit := by
  have hlimit : 1 ≤ nestingLimit := by decide
  cases variation <;> cases version <;> exact hlimit

variable [CNumbers]

theorem printed_keyItem (h : NumbersWithin Printed variation version) {value : Rat}
    (hvalue : .finite value ∈ numbers (keyItem (variation.map .finite) (version.map .finite))) :
    Printed value := by
  have hnumbers : numbers (keyItem (variation.map .finite) (version.map .finite)) =
      variation.toList.map .finite ++ version.toList.map .finite := by
    cases variation <;> cases version <;> rfl
  rw [hnumbers, List.mem_append, List.mem_map, List.mem_map] at hvalue
  rcases hvalue with ⟨_, hmem, hvalue⟩ | ⟨_, hmem, hvalue⟩
  · cases hvalue
    exact h.variation value (Option.mem_toList.mp hmem)
  · cases hvalue
    exact h.version value (Option.mem_toList.mp hmem)

theorem length_numberText {value : Rat} (h : Printed value) :
    (numberText (.finite value)).length ≤ 25 := by
  obtain ⟨precision, hprecision, htext, -⟩ := exists_precision h
  rw [htext]
  exact h.short precision hprecision

theorem length_keyItem (h : NumbersWithin Printed variation version) :
    (render false 0 (keyItem (variation.map .finite) (version.map .finite))).length + 2 ≤ intMax := by
  have hvariation : (renderString (fieldName "variation")).length = 11 := by decide
  have hversion : (renderString (fieldName "version")).length = 9 := by decide
  have hshort : 100 ≤ intMax := by decide
  refine le_trans ?_ hshort
  rcases variation with _ | variation <;> rcases version with _ | version
  · simp [keyItem, numberField, render, renderFields, opening, indent]
  · have hnumber := length_numberText (h.version version rfl)
    simp [keyItem, numberField, render, renderFields, opening, indent, afterKey, afterField, hversion]
    omega
  · have hnumber := length_numberText (h.variation variation rfl)
    simp [keyItem, numberField, render, renderFields, opening, indent, afterKey, afterField, hvariation]
    omega
  · have hnumber := length_numberText (h.variation variation rfl)
    have hnumber' := length_numberText (h.version version rfl)
    simp [keyItem, numberField, render, renderFields, opening, indent, afterKey, afterField,
      hvariation, hversion]
    omega

theorem serialize_keyItem (h : NumbersWithin Printed variation version) (garbage : ℕ → UInt8)
    (reallocates : Bool) :
    (keyItem (variation.map .finite) (version.map .finite)).serialize garbage reallocates =
      .ok (some (render false 0 (keyItem (variation.map .finite) (version.map .finite)) ++ [0])) := by
  refine (print_of_printed (fun value => printed_keyItem h) garbage reallocates).resolve_left ?_
  exact fun hlong => absurd hlong.1 (not_lt.mpr (length_keyItem h))

theorem render_keyItem_injective {variation' version' : Option Rat}
    (h : NumbersWithin Printed variation version) (h' : NumbersWithin Printed variation' version')
    (htext : render false 0 (keyItem (variation.map .finite) (version.map .finite)) =
      render false 0 (keyItem (variation'.map .finite) (version'.map .finite))) :
    variation = variation' ∧ version = version' := by
  have hread := @deserialize_render _ false _ (fun value => printed_keyItem h)
  have hread' := @deserialize_render _ false _ (fun value => printed_keyItem h')
  rw [htext, hread', if_pos nesting_keyItem, if_pos nesting_keyItem, settled_keyItem,
    settled_keyItem] at hread
  obtain ⟨hvariation, hversion⟩ := keyItem_injective (Option.some.inj (Except.ok.inj hread)).symm
  have hfinite : Function.Injective Double.finite := fun _ _ h => Double.finite.inj h
  exact ⟨Option.map_injective hfinite hvariation, Option.map_injective hfinite hversion⟩

end Finite

end CJson

def PrintsKeys [Externals] [CNumbers] : Prop :=
  ∀ variation version garbage reallocates text,
    (CJson.keyItem (variation.map .finite) (version.map .finite)).serialize garbage reallocates =
      .ok (some (text ++ [0])) →
    summaryKeyText variation version = asText text

theorem PrintsKeys.distinct [Externals] [CNumbers] (h : PrintsKeys) : KeysDistinct CJson.Printed := by
  intro variation version variation' version' hnumbers hnumbers' htext
  let garbage : ℕ → UInt8 := fun _ => 0
  rw [h _ _ garbage true _ (CJson.serialize_keyItem hnumbers garbage true),
    h _ _ garbage true _ (CJson.serialize_keyItem hnumbers' garbage true)] at htext
  exact CJson.render_keyItem_injective hnumbers hnumbers' (asText_injective htext)

structure PairCount where
  variation : Option Double
  version : Option Double
  count : ℕ
  deriving DecidableEq, Repr

def PairCount.counted (variation version : Option Double) : Option PairCount → PairCount
  | some entry => { entry with count := entry.count + 1 }
  | none => ⟨variation, version, 1⟩

namespace CJson

def getDouble : CJson → Option Double
  | .number valuedouble => some valuedouble
  | _ => none

def objectNumber (name : String) : CJson → Option Double
  | .object fields => (fields.lookup (fieldName name)).bind getDouble
  | _ => none

variable [CNumbers] (garbage : ℕ → UInt8) (reallocates : Bool)

def countEvent (event : CJson) (counters : List (String × PairCount)) :
    Access (Option (List (String × PairCount))) :=
  let variation := event.objectNumber "variation"
  let version := event.objectNumber "version"
  attempt ((keyItem variation version).serialize garbage reallocates) fun keytext =>
    pure (some (alterEntry (asText (Memory.cString keytext)) (PairCount.counted variation version) counters))

def infiniteEvent (negative : Bool) : CJson :=
  .object [(fieldName "key", .string (fieldName "a")), (fieldName "version", .number (.infinite negative))]

end CJson

theorem infinite_versions_share_counter :
    (CJson.infiniteEvent false).objectNumber "version" ≠
        (CJson.infiniteEvent true).objectNumber "version" ∧
      attempt (@CJson.countEvent CJson.oneDigit (fun _ => 0) true (CJson.infiniteEvent false) [])
        (@CJson.countEvent CJson.oneDigit (fun _ => 0) true (CJson.infiniteEvent true)) =
      .ok (some [("\x7b\"version\":null\x7d", ⟨none, some (.infinite false), 2⟩)]) := by
  refine ⟨by decide, ?_⟩
  decide +kernel

end ServerSdk
