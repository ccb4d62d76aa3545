import ServerSdk.Store.Sections

namespace ServerSdk

open Program

def addLive (rawItems feature : Json) : Json :=
  rawItems.objectSetKey ((textKey feature).getD "") feature

def lastCarrying (key : String) (features : List Json) : Option Json :=
  features.reverse.find? fun feature => textKey feature = some key

theorem Json.Unique.addLive {rawItems : Json} (h : rawItems.Unique) (feature : Json) :
    (ServerSdk.addLive rawItems feature).Unique := h.setKey _ feature

theorem Json.Unique.lookup_addLive {rawItems : Json} (h : rawItems.Unique) {key : String}
    {feature : Json} (hcarries : Carries key feature) (k : String) :
    (ServerSdk.addLive rawItems feature).objectLookup k =
      if key = k then some feature else rawItems.objectLookup k := by
  rw [ServerSdk.addLive, hcarries.textKey_eq, Option.getD_some]
  split_ifs with hk
  · rw [← hk]
    exact h.lookup_setKey key feature
  · exact Json.objectLookup_setKey_of_ne (Ne.symm hk) rawItems feature

theorem foldl_addLive {features : List Json} (h : ∀ feature ∈ features, ∃ key, Carries key feature)
    {rawItems : Json} (hunique : rawItems.Unique) :
    (features.foldl addLive rawItems).Unique ∧ ∀ key,
      (features.foldl addLive rawItems).objectLookup key =
        (lastCarrying key features).or (rawItems.objectLookup key) := by
  induction features using List.reverseRecOn with
  | nil => exact ⟨hunique, fun key => rfl⟩
  | append_singleton features feature ih =>
      obtain ⟨hfolded, hlookup⟩ := ih fun other hother => h other (by simp [hother])
      obtain ⟨carried, hcarries⟩ := h feature (by simp)
      rw [List.foldl_append]
      refine ⟨hfolded.addLive feature, ?_⟩
      intro key
      rw [List.foldl_cons, List.foldl_nil, hfolded.lookup_addLive hcarries, hlookup, lastCarrying,
        lastCarrying, List.reverse_append, List.reverse_singleton, List.singleton_append]
      split_ifs with hkey
      · rw [List.find?_cons_of_pos (by simp [hcarries.textKey_eq, hkey])]
        rfl
      · rw [List.find?_cons_of_neg (by simp [hcarries.textKey_eq, hkey])]

variable [Parsing]

def Parses (item : StoreCollectionItem) : Prop :=
  ∀ buffer, item.buffer = some buffer → (Parsing.deserialize buffer).isSome

def liveOf (item : StoreCollectionItem) : Option Json :=
  (item.buffer.bind Parsing.deserialize).filter fun deserialized =>
    validateData deserialized && !isDataDeleted deserialized

def listedObject (items : List StoreCollectionItem) : Json :=
  (items.filterMap liveOf).foldl addLive (.object [])

open PersistentStoreContext

theorem collectItems_cons_of_unparsable {item : StoreCollectionItem} (h : ¬Parses item)
    (items : List StoreCollectionItem) (rawItems : Json) :
    collectItems (item :: items) rawItems = .ok none := by
  have hbuffer : ∃ buffer, item.buffer = some buffer ∧ Parsing.deserialize buffer = none := by
    by_contra hnone
    refine h fun buffer hsome => ?_
    by_contra hfailed
    exact hnone ⟨buffer, hsome, by simpa using hfailed⟩
  obtain ⟨buffer, hsome, hfailed⟩ := hbuffer
  rw [collectItems, hsome]
  simp only [hfailed]

theorem collectItems_cons_of_parses {item : StoreCollectionItem} (h : Parses item)
    (items : List StoreCollectionItem) (rawItems : Json) :
    collectItems (item :: items) rawItems =
      collectItems items (((liveOf item).map (addLive rawItems)).getD rawItems) := by
  rw [collectItems, liveOf]
  cases hbuffer : item.buffer with
  | none => rfl
  | some buffer =>
      obtain ⟨deserialized, hjson⟩ := Option.isSome_iff_exists.mp (h buffer hbuffer)
      simp only [Option.bind_some, hjson, Option.filter_some]
      cases hvalid : validateData deserialized with
      | false => simp
      | true =>
          obtain ⟨key, hcarries⟩ := exists_carries hvalid
          have hkey : (deserialized.objectLookup "key").bind Json.getText = some key :=
            hcarries.textKey_eq
          cases hdeleted : isDataDeleted deserialized with
          | true => simp
          | false => simp [hkey, addLive, hcarries.textKey_eq]

theorem collectItems_of_unparsable {items : List StoreCollectionItem} {item : StoreCollectionItem}
    (hitem : item ∈ items) (hparses : ¬Parses item) (rawItems : Json) :
    collectItems items rawItems = .ok none := by
  induction items generalizing rawItems with
  | nil => cases hitem
  | cons first items ih =>
      by_cases hfirst : Parses first
      · rw [collectItems_cons_of_parses hfirst]
        rcases List.mem_cons.mp hitem with rfl | hmem
        · exact absurd hfirst hparses
        · exact ih hmem _
      · exact collectItems_cons_of_unparsable hfirst items rawItems

theorem collectItems_of_parses {items : List StoreCollectionItem}
    (h : ∀ item ∈ items, Parses item) (rawItems : Json) :
    collectItems items rawItems = .ok (some ((items.filterMap liveOf).foldl addLive rawItems)) := by
  induction items generalizing rawItems with
  | nil => rfl
  | cons first items ih =>
      have hrest : ∀ item ∈ items, Parses item := fun item hmem => h item (by simp [hmem])
      rw [collectItems_cons_of_parses (h first (by simp)), ih hrest]
      cases hlive : liveOf first with
      | none =>
          rw [List.filterMap_cons_none hlive]
          rfl
      | some feature =>
          rw [List.filterMap_cons_some hlive, List.foldl_cons]
          rfl

theorem carries_of_liveOf {item : StoreCollectionItem} {feature : Json}
    (h : liveOf item = some feature) :
    (∃ key, Carries key feature) ∧ isDataDeleted feature = false := by
  rw [liveOf, Option.filter_eq_some_iff] at h
  simp only [Bool.and_eq_true, Bool.not_eq_true'] at h
  exact ⟨exists_carries h.2.1, h.2.2⟩

theorem listedObject_spec (items : List StoreCollectionItem) :
    (listedObject items).Unique ∧ ∀ key,
      (listedObject items).objectLookup key = lastCarrying key (items.filterMap liveOf) := by
  have hlive : ∀ feature ∈ items.filterMap liveOf, ∃ key, Carries key feature := by
    intro feature hmem
    obtain ⟨item, _, hitem⟩ := List.mem_filterMap.mp hmem
    exact (carries_of_liveOf hitem).1
  obtain ⟨hunique, hlookup⟩ := foldl_addLive hlive Json.unique_empty
  refine ⟨hunique, ?_⟩
  intro key
  rw [listedObject, hlookup]
  exact Option.or_none

theorem collectItems_eq_some {items : List StoreCollectionItem} {rawItems : Json}
    (h : collectItems items (.object []) = .ok (some rawItems)) :
    (∀ item ∈ items, Parses item) ∧ rawItems = listedObject items := by
  have hparses : ∀ item ∈ items, Parses item := by
    intro item hitem
    by_contra hparses
    rw [collectItems_of_unparsable hitem hparses] at h
    cases h
  rw [collectItems_of_parses hparses] at h
  cases h
  exact ⟨hparses, rfl⟩

end ServerSdk
