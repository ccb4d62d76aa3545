import ServerSdk.Cjson.Acceptance

namespace ServerSdk

open Memory

namespace CJson

mutual

def nesting : CJson → ℕ
  | .array items => nestingOfItems items + 1
  | .object fields => nestingOfFields fields + 1
  | _ => 0

def nestingOfItems : List CJson → ℕ
  | [] => 0
  | item :: items => max (nesting item) (nestingOfItems items)

def nestingOfFields : List (CString × CJson) → ℕ
  | [] => 0
  | (_, item) :: fields => max (nesting item) (nestingOfFields fields)

end

variable [CNumbers]

mutual

theorem Value.nesting_le {n : ℕ} {text rest : List UInt8} {item : CJson} (h : Value n text item rest) :
    nesting item ≤ n := by
  cases h with
  | array hitems => exact Nat.succ_le_succ hitems.nesting_le
  | object hfields => exact Nat.succ_le_succ hfields.nesting_le
  | emptyArray | emptyObject => exact Nat.succ_le_succ (Nat.zero_le _)
  | _ => exact Nat.zero_le _

theorem Items.nesting_le {n : ℕ} {text rest : List UInt8} {items : List CJson}
    (h : Items n text items rest) : nestingOfItems items ≤ n := by
  cases h with
  | last hvalue _ => exact Nat.max_le.mpr ⟨hvalue.nesting_le, Nat.zero_le _⟩
  | more hvalue _ hitems => exact Nat.max_le.mpr ⟨hvalue.nesting_le, hitems.nesting_le⟩

theorem Fields.nesting_le {n : ℕ} {text rest : List UInt8} {fields : List (CString × CJson)}
    (h : Fields n text fields rest) : nestingOfFields fields ≤ n := by
  cases h with
  | last _ _ hvalue _ => exact Nat.max_le.mpr ⟨hvalue.nesting_le, Nat.zero_le _⟩
  | more _ _ hvalue _ hfields => exact Nat.max_le.mpr ⟨hvalue.nesting_le, hfields.nesting_le⟩

end

mutual

theorem Value.unique {n m : ℕ} {text rest rest' : List UInt8} {item item' : CJson}
    (h : Value n text item rest) (h' : Value m text item' rest') : item = item' ∧ rest = rest' := by
  cases h with
  | nullWord =>
      obtain ⟨rfl, rfl⟩ := (value_word_iff .nullWord).mp h'
      exact ⟨rfl, rfl⟩
  | falseWord =>
      obtain ⟨rfl, rfl⟩ := (value_word_iff .falseWord).mp h'
      exact ⟨rfl, rfl⟩
  | trueWord =>
      obtain ⟨rfl, rfl⟩ := (value_word_iff .trueWord).mp h'
      exact ⟨rfl, rfl⟩
  | string hread =>
      obtain ⟨body, rfl⟩ := readString_head hread
      obtain ⟨valuestring, hread', rfl⟩ := value_string_iff.mp h'
      rw [hread] at hread'
      cases hread'
      exact ⟨rfl, rfl⟩
  | number hstarts hread =>
      obtain ⟨valuedouble, hread', rfl⟩ := (value_number_iff hstarts).mp h'
      rw [hread] at hread'
      cases hread'
      exact ⟨rfl, rfl⟩
  | emptyArray hempty =>
      obtain ⟨k, -, ⟨hempty', rfl⟩ | ⟨items, hitems, -⟩⟩ := value_array_iff.mp h'
      · rw [hempty] at hempty'
        cases hempty'
        exact ⟨rfl, rfl⟩
      · exact absurd hitems (not_items_of_head hempty (by decide))
  | array hitems =>
      obtain ⟨k, -, ⟨hempty, -⟩ | ⟨items, hitems', rfl⟩⟩ := value_array_iff.mp h'
      · exact absurd hitems (not_items_of_head hempty (by decide))
      · obtain ⟨rfl, hrest⟩ := hitems.unique hitems'
        cases hrest
        exact ⟨rfl, rfl⟩
  | emptyObject hempty =>
      obtain ⟨k, -, ⟨hempty', rfl⟩ | ⟨fields, hfields, -⟩⟩ := value_object_iff.mp h'
      · rw [hempty] at hempty'
        cases hempty'
        exact ⟨rfl, rfl⟩
      · exact absurd hfields (not_fields_of_head hempty (by decide))
  | object hfields =>
      obtain ⟨k, -, ⟨hempty, -⟩ | ⟨fields, hfields', rfl⟩⟩ := value_object_iff.mp h'
      · exact absurd hfields (not_fields_of_head hempty (by decide))
      · obtain ⟨rfl, hrest⟩ := hfields.unique hfields'
        cases hrest
        exact ⟨rfl, rfl⟩

theorem Items.unique {n m : ℕ} {text rest rest' : List UInt8} {items items' : List CJson}
    (h : Items n text items rest) (h' : Items m text items' rest') : items = items' ∧ rest = rest' := by
  obtain ⟨item, text', hvalue', hmore'⟩ := items_iff.mp h'
  cases h with
  | last hvalue hlast =>
      obtain ⟨rfl, rfl⟩ := hvalue.unique hvalue'
      rcases hmore' with ⟨-, rfl, rfl⟩ | ⟨text'', others, hcomma, -, -⟩
      · exact ⟨rfl, rfl⟩
      · rw [hcomma] at hlast
        exact absurd rfl hlast
  | more hvalue hcomma hitems =>
      obtain ⟨rfl, rfl⟩ := hvalue.unique hvalue'
      rcases hmore' with ⟨hlast, -, -⟩ | ⟨text'', others, hcomma', hitems', rfl⟩
      · rw [hcomma] at hlast
        exact absurd rfl hlast
      · cases hcomma.symm.trans hcomma'
        obtain ⟨rfl, rfl⟩ := hitems.unique hitems'
        exact ⟨rfl, rfl⟩

theorem Fields.unique {n m : ℕ} {text rest rest' : List UInt8} {fields fields' : List (CString × CJson)}
    (h : Fields n text fields rest) (h' : Fields m text fields' rest') :
    fields = fields' ∧ rest = rest' := by
  obtain ⟨key, text₁, text₂, item, text₃, hkey', hcolon', hvalue', hmore'⟩ := fields_iff.mp h'
  cases h with
  | last hkey hcolon hvalue hlast =>
      cases hkey.symm.trans hkey'
      cases hcolon.symm.trans hcolon'
      obtain ⟨rfl, rfl⟩ := hvalue.unique hvalue'
      rcases hmore' with ⟨-, rfl, rfl⟩ | ⟨text'', others, hcomma, -, -⟩
      · exact ⟨rfl, rfl⟩
      · rw [hcomma] at hlast
        exact absurd rfl hlast
  | more hkey hcolon hvalue hcomma hfields =>
      cases hkey.symm.trans hkey'
      cases hcolon.symm.trans hcolon'
      obtain ⟨rfl, rfl⟩ := hvalue.unique hvalue'
      rcases hmore' with ⟨hlast, -, -⟩ | ⟨text'', others, hcomma', hfields', rfl⟩
      · rw [hcomma] at hlast
        exact absurd rfl hlast
      · cases hcomma.symm.trans hcomma'
        obtain ⟨rfl, rfl⟩ := hfields.unique hfields'
        exact ⟨rfl, rfl⟩

end

theorem deserialize_iff (text : List UInt8) : ∃ result, deserialize text = .ok result ∧
    ∀ item, (result = some item ↔ Denotes text item) ∧
      (Denotes text item → nesting item ≤ nestingLimit ∧ ∀ other, Denotes text other → other = item) := by
  obtain ⟨result, hresult, hdenotes⟩ := deserialize_accepts text
  refine ⟨result, hresult, fun item => ⟨hdenotes item, ?_⟩⟩
  rintro ⟨rest, hvalue⟩
  refine ⟨hvalue.nesting_le, ?_⟩
  rintro other ⟨rest', hother⟩
  exact (hother.unique hvalue).1

end CJson

end ServerSdk
