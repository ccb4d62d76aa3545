import Mathlib.Algebra.Ring.Rat
import Mathlib.Data.List.Basic

namespace ServerSdk

inductive Json where
  | null
  | bool (b : Bool)
  | number (n : Rat)
  | text (s : String)
  | array (items : List Json)
  | object (fields : List (String × Json))
  deriving Repr, Inhabited

inductive JsonType where
  | null
  | text
  | number
  | bool
  | object
  | array
  deriving DecidableEq, Repr

namespace Json

mutual

def decEq : (a b : Json) → Decidable (a = b)
  | .null, .null => isTrue rfl
  | .bool a, .bool b => decidable_of_iff (a = b) (by simp)
  | .number a, .number b => decidable_of_iff (a = b) (by simp)
  | .text a, .text b => decidable_of_iff (a = b) (by simp)
  | .array a, .array b =>
      match decEqItems a b with
      | isTrue h => isTrue (by rw [h])
      | isFalse h => isFalse (by simpa using h)
  | .object a, .object b =>
      match decEqFields a b with
      | isTrue h => isTrue (by rw [h])
      | isFalse h => isFalse (by simpa using h)
  | .null, .bool _ | .null, .number _ | .null, .text _ | .null, .array _ | .null, .object _
  | .bool _, .null | .bool _, .number _ | .bool _, .text _ | .bool _, .array _ | .bool _, .object _
  | .number _, .null | .number _, .bool _ | .number _, .text _ | .number _, .array _
  | .number _, .object _ | .text _, .null | .text _, .bool _ | .text _, .number _
  | .text _, .array _ | .text _, .object _ | .array _, .null | .array _, .bool _
  | .array _, .number _ | .array _, .text _ | .array _, .object _ | .object _, .null
  | .object _, .bool _ | .object _, .number _ | .object _, .text _ | .object _, .array _ =>
      isFalse (by simp)

def decEqItems : (a b : List Json) → Decidable (a = b)
  | [], [] => isTrue rfl
  | [], _ :: _ | _ :: _, [] => isFalse (by simp)
  | x :: xs, y :: ys =>
      match decEq x y, decEqItems xs ys with
      | isTrue h, isTrue h' => isTrue (by rw [h, h'])
      | isFalse h, _ => isFalse (by simp [h])
      | _, isFalse h => isFalse (by simp [h])

def decEqFields : (a b : List (String × Json)) → Decidable (a = b)
  | [], [] => isTrue rfl
  | [], _ :: _ | _ :: _, [] => isFalse (by simp)
  | (k, x) :: xs, (l, y) :: ys =>
      match decEq x y, decEqFields xs ys with
      | isTrue h, isTrue h' => decidable_of_iff (k = l) (by simp [h, h'])
      | isFalse h, _ => isFalse (by simp [h])
      | _, isFalse h => isFalse (by simp [h])

end

instance : DecidableEq Json := decEq

def getType : Json → JsonType
  | .null => .null
  | .bool _ => .bool
  | .number _ => .number
  | .text _ => .text
  | .array _ => .array
  | .object _ => .object

def getBool : Json → Bool
  | .bool b => b
  | _ => false

def getNumber : Json → Rat
  | .number n => n
  | _ => 0

def getText : Json → Option String
  | .text s => some s
  | _ => none

def getIter : Json → List Json
  | .array items => items
  | .object fields => fields.map Prod.snd
  | _ => []

def iterFields : Json → List (String × Json)
  | .object fields => fields
  | _ => []

def iterEntries : Json → List (Option String × Json)
  | .array items => items.map fun item => (none, item)
  | .object fields => fields.map fun (key, item) => (some key, item)
  | _ => []

def collectionGetSize (j : Json) : Nat := j.getIter.length

def arrayLookup : Json → Nat → Option Json
  | .array items, index => if index < 2 ^ 31 then items[index]? else none
  | _, _ => none

def objectLookup : Json → String → Option Json
  | .object fields, key => fields.lookup key
  | _, _ => none

def eraseField (key : String) : List (String × Json) → List (String × Json)
  | [] => []
  | (k, v) :: fields => if k = key then fields else (k, v) :: eraseField key fields

def objectDeleteKey : Json → String → Json
  | .object fields, key => .object (eraseField key fields)
  | j, _ => j

def objectSetReference : Json → String → Json → Json
  | .object fields, key, item => .object (fields ++ [(key, item)])
  | j, _, _ => j

def objectSetKey (j : Json) (key : String) (item : Json) : Json :=
  (j.objectDeleteKey key).objectSetReference key item

def ofTexts (texts : List String) : Json := .array (texts.map Json.text)

def notNull : Option Json → Bool
  | none | some .null => false
  | some _ => true

mutual

def depth : Json → Nat
  | .array items => depthItems items + 1
  | .object fields => depthFields fields + 1
  | _ => 1

def depthItems : List Json → Nat
  | [] => 0
  | x :: xs => max (depth x) (depthItems xs)

def depthFields : List (String × Json) → Nat
  | [] => 0
  | (_, x) :: xs => max (depth x) (depthFields xs)

end

def compareItems (cmp : Json → Json → Bool) : List Json → List Json → Bool
  | [], [] => true
  | x :: xs, y :: ys => cmp x y && compareItems cmp xs ys
  | _, _ => false

def coversFields (cmp : Json → Json → Bool) (a b : List (String × Json)) : Bool :=
  a.all fun (key, x) => match b.lookup key with
    | some y => cmp x y
    | none => false

def compareWithin : Nat → Json → Json → Bool
  | _, .null, .null => true
  | _, .bool a, .bool b => a == b
  | _, .number a, .number b => a == b
  | _, .text a, .text b => a == b
  | n + 1, .array a, .array b => compareItems (compareWithin n) a b
  | n + 1, .object a, .object b =>
      coversFields (compareWithin n) a b && coversFields (compareWithin n) b a
  | _, _, _ => false

def compare (a b : Json) : Bool := compareWithin (a.depth + b.depth) a b

@[simp] theorem getText_text (s : String) : (Json.text s).getText = some s := rfl

theorem getText_eq_some {j : Json} {s : String} : j.getText = some s ↔ j = .text s := by
  cases j <;> simp [getText]

theorem getText_eq_none {j : Json} : j.getText = none ↔ j.getType ≠ .text := by
  cases j <;> simp [getText, getType]

theorem getType_eq_array {j : Json} : j.getType = .array ↔ ∃ items, j = .array items := by
  cases j <;> simp [getType]

theorem getType_eq_object {j : Json} : j.getType = .object ↔ ∃ fields, j = .object fields := by
  cases j <;> simp [getType]

theorem getType_eq_text {j : Json} : j.getType = .text ↔ ∃ s, j = .text s := by
  cases j <;> simp [getType]

theorem getType_eq_number {j : Json} : j.getType = .number ↔ ∃ n, j = .number n := by
  cases j <;> simp [getType]

theorem notNull_iff {o : Option Json} : notNull o = true ↔ ∃ j, o = some j ∧ j ≠ .null := by
  cases o with
  | none => simp [notNull]
  | some j => cases j <;> simp [notNull]

theorem lookup_eraseField_of_ne {key k : String} (h : k ≠ key) (fields : List (String × Json)) :
    (eraseField key fields).lookup k = fields.lookup k := by
  induction fields with
  | nil => rfl
  | cons f fields ih =>
      obtain ⟨l, v⟩ := f
      simp only [eraseField]
      split_ifs with hl
      · subst hl
        rw [List.lookup_cons, beq_false_of_ne h]
      · simp only [List.lookup_cons, ih]

theorem eraseField_comm (key k : String) (fields : List (String × Json)) (h : k ≠ key) :
    eraseField key (eraseField k fields) = eraseField k (eraseField key fields) := by
  induction fields with
  | nil => rfl
  | cons f fields ih =>
      obtain ⟨l, v⟩ := f
      by_cases hk : l = k
      · subst hk
        simp only [eraseField, h, if_true, if_false]
      · by_cases hkey : l = key
        · subst hkey
          simp only [eraseField, hk, if_true, if_false]
        · simp only [eraseField, hk, hkey, if_false, ih]

theorem eraseField_append_singleton {key k : String} (h : k ≠ key) (v : Json)
    (fields : List (String × Json)) :
    eraseField key (fields ++ [(k, v)]) = eraseField key fields ++ [(k, v)] := by
  induction fields with
  | nil => simp only [List.nil_append, eraseField, h, if_false]
  | cons f fields ih =>
      obtain ⟨l, w⟩ := f
      simp only [List.cons_append, eraseField, ih]
      split_ifs <;> rfl

theorem objectDeleteKey_setKey_of_ne {key k : String} (h : k ≠ key) (j v : Json) :
    (j.objectSetKey k v).objectDeleteKey key = (j.objectDeleteKey key).objectSetKey k v := by
  cases j with
  | object fields =>
      simp only [objectSetKey, objectDeleteKey, objectSetReference]
      rw [eraseField_append_singleton h, eraseField_comm _ _ _ h]
  | _ => rfl

theorem lookup_append_singleton {fields : List (String × Json)} {key : String} (v : Json)
    (k : String) :
    (fields ++ [(key, v)]).lookup k = (fields.lookup k).or (if k = key then some v else none) := by
  induction fields with
  | nil =>
      by_cases h : k = key
      · simp [h]
      · simp [h]
  | cons f fields ih =>
      obtain ⟨l, w⟩ := f
      simp only [List.cons_append, List.lookup_cons, ih]
      cases k == l <;> simp

theorem objectLookup_setKey_of_ne {key k : String} (h : k ≠ key) (j v : Json) :
    (j.objectSetKey key v).objectLookup k = j.objectLookup k := by
  cases j with
  | object fields =>
      simp only [objectSetKey, objectDeleteKey, objectSetReference, objectLookup]
      rw [lookup_append_singleton, lookup_eraseField_of_ne h]
      simp [h]
  | _ => rfl

theorem objectLookup_deleteKey_of_ne {key k : String} (h : k ≠ key) (j : Json) :
    (j.objectDeleteKey key).objectLookup k = j.objectLookup k := by
  cases j with
  | object fields => exact lookup_eraseField_of_ne h fields
  | _ => rfl

theorem mem_iff_lookup {items : List (String × Json)} (h : (items.map Prod.fst).Nodup)
    {key : String} {item : Json} : (key, item) ∈ items ↔ items.lookup key = some item := by
  induction items with
  | nil => simp
  | cons e items ih =>
      obtain ⟨k, v⟩ := e
      rw [List.map_cons, List.nodup_cons] at h
      rw [List.mem_cons, List.lookup_cons]
      by_cases hk : key = k
      · subst hk
        have hnot : (key, item) ∉ items := fun hmem => h.1 (List.mem_map.mpr ⟨_, hmem, rfl⟩)
        simp [hnot, eq_comm]
      · rw [beq_false_of_ne hk, ← ih h.2]
        simp [hk]

theorem eraseField_of_lookup_none {items : List (String × Json)} {key : String}
    (h : items.lookup key = none) : eraseField key items = items := by
  induction items with
  | nil => rfl
  | cons e items ih =>
      obtain ⟨k, v⟩ := e
      rw [List.lookup_cons] at h
      by_cases hk : k = key
      · subst hk
        simp at h
      · rw [beq_false_of_ne (Ne.symm hk)] at h
        rw [eraseField, if_neg hk, ih h]

structure Unique (j : Json) : Prop where
  object : ∃ fields, j = .object fields
  keys : (j.iterFields.map Prod.fst).Nodup

theorem eraseField_eq_filter {key : String} {fields : List (String × Json)}
    (h : (fields.map Prod.fst).Nodup) :
    eraseField key fields = fields.filter fun f => f.1 ≠ key := by
  induction fields with
  | nil => rfl
  | cons f fields ih =>
      obtain ⟨k, v⟩ := f
      rw [List.map_cons, List.nodup_cons] at h
      by_cases hk : k = key
      · subst hk
        have hall : ∀ f ∈ fields, f.1 ≠ k := by
          intro f hf heq
          exact h.1 (List.mem_map.mpr ⟨f, hf, heq⟩)
        simp only [eraseField, if_true]
        rw [List.filter_cons_of_neg (by simp), List.filter_eq_self.mpr (by simpa using hall)]
      · simp only [eraseField, hk, if_false, ih h.2]
        rw [List.filter_cons_of_pos (by simpa using hk)]

theorem lookup_eq_none_of_filter (key : String) (fields : List (String × Json)) :
    (fields.filter fun f => f.1 ≠ key).lookup key = none := by
  rw [List.lookup_eq_none_iff]
  intro f hf
  have hne : f.1 ≠ key := by simpa using (List.mem_filter.mp hf).2
  simpa using hne.symm

theorem unique_empty : Unique (.object []) := ⟨⟨[], rfl⟩, List.nodup_nil⟩

theorem Unique.deleteKey {j : Json} (h : Unique j) (key : String) :
    Unique (j.objectDeleteKey key) := by
  obtain ⟨⟨fields, rfl⟩, hkeys⟩ := h
  have hkeys : (fields.map Prod.fst).Nodup := hkeys
  refine ⟨⟨_, rfl⟩, ?_⟩
  change ((eraseField key fields).map Prod.fst).Nodup
  rw [eraseField_eq_filter hkeys]
  exact hkeys.sublist (List.Sublist.map _ List.filter_sublist)

theorem Unique.setKey {j : Json} (h : Unique j) (key : String) (v : Json) :
    Unique (j.objectSetKey key v) := by
  obtain ⟨⟨fields, rfl⟩, hkeys⟩ := h
  have hkeys : (fields.map Prod.fst).Nodup := hkeys
  refine ⟨⟨_, rfl⟩, ?_⟩
  change ((eraseField key fields ++ [(key, v)]).map Prod.fst).Nodup
  rw [eraseField_eq_filter hkeys, List.map_append, List.nodup_append]
  refine ⟨hkeys.sublist (List.Sublist.map _ List.filter_sublist), by simp, ?_⟩
  intro a ha b hb hab
  obtain ⟨f, hf, rfl⟩ := List.mem_map.mp ha
  have hne : f.1 ≠ key := by simpa using (List.mem_filter.mp hf).2
  simp only [List.map_cons, List.map_nil, List.mem_singleton] at hb
  exact hne (hab.trans hb)

theorem Unique.lookup_setKey {j : Json} (h : Unique j) (key : String) (v : Json) :
    (j.objectSetKey key v).objectLookup key = some v := by
  obtain ⟨⟨fields, rfl⟩, hkeys⟩ := h
  have hkeys : (fields.map Prod.fst).Nodup := hkeys
  change (eraseField key fields ++ [(key, v)]).lookup key = some v
  rw [eraseField_eq_filter hkeys, lookup_append_singleton, lookup_eq_none_of_filter]
  simp

end Json

end ServerSdk
