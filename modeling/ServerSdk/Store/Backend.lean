import ServerSdk.Store.Refinement
import ServerSdk.Store.Wrapper

namespace ServerSdk

open Program

section Collecting

variable [Externals]

def stateItem (item : Json) : Option StoreCollectionStateItem :=
  if validateData item then (textKey item).map fun key => ⟨key, collectionItem item⟩ else none

def collectionsOf (fields : List (String × Json)) : List StoreCollectionState :=
  fields.map fun field => ⟨field.1, field.2.getIter.filterMap stateItem⟩

theorem makeStateItems_eq (items : List Json) :
    makeStateItems items = .ok (items.filterMap stateItem) := by
  induction items with
  | nil => rfl
  | cons item items ih =>
      rw [makeStateItems]
      cases hvalid : validateData item with
      | false =>
          rw [List.filterMap_cons_none (by rw [stateItem, hvalid]; rfl)]
          simpa using ih
      | true =>
          obtain ⟨key, hcarries⟩ := exists_carries hvalid
          have hitem : stateItem item = some ⟨key, collectionItem item⟩ := by
            rw [stateItem, hvalid, hcarries.textKey_eq]
            rfl
          rw [List.filterMap_cons_some hitem, if_neg (by simp), hcarries.getDataKey_eq, ih]
          rfl

theorem makeCollections_object (fields : List (String × Json)) :
    makeCollections (.object fields) = .ok (collectionsOf fields) := by
  change makeKindCollections (fields.map fun field => (some field.1, field.2)) = _
  induction fields with
  | nil => rfl
  | cons field fields ih =>
      rw [List.map_cons, makeKindCollections, ih, makeKindCollection, makeStateItems_eq]
      rfl

end Collecting

structure WellFormedSets (sets : Json) : Prop where
  unique : sets.Unique
  items : ∀ name items, (name, items) ∈ sets.iterFields →
    items.Unique ∧ ∀ key item, (key, item) ∈ items.iterFields → Carries key item

theorem WellFormedSets.valid {sets : Json} (h : WellFormedSets sets) : ValidSets sets := by
  refine ⟨h.unique, ?_⟩
  intro kind items hlookup
  obtain ⟨⟨fields, rfl⟩, hkeys⟩ := h.unique
  exact h.items _ items ((Json.mem_iff_lookup hkeys).mpr hlookup)

theorem find?_eq_lookup (fields : List (String × Json)) (key : String) :
    (fields.find? fun field => field.1 = key).map Prod.snd = fields.lookup key := by
  induction fields with
  | nil => rfl
  | cons field fields ih =>
      obtain ⟨k, v⟩ := field
      rw [List.lookup_cons]
      by_cases hk : k = key
      · subst hk
        rw [List.find?_cons_of_pos (by simp), beq_self_eq_true]
        rfl
      · rw [List.find?_cons_of_neg (by simpa using hk), beq_false_of_ne (Ne.symm hk)]
        exact ih

section Content

variable [Externals]

theorem filterMap_stateItem {fields : List (String × Json)}
    (h : ∀ key item, (key, item) ∈ fields → Carries key item) :
    (fields.map Prod.snd).filterMap stateItem =
      fields.map fun field => ⟨field.1, collectionItem field.2⟩ := by
  induction fields with
  | nil => rfl
  | cons field fields ih =>
      have hcarries : Carries field.1 field.2 := h field.1 field.2 (by simp)
      have hitem : stateItem field.2 = some ⟨field.1, collectionItem field.2⟩ := by
        rw [stateItem, hcarries.valid, hcarries.textKey_eq]
        rfl
      rw [List.map_cons, List.filterMap_cons_some hitem, List.map_cons,
        ih fun key item hmem => h key item (by simp [hmem])]

theorem WellFormedSets.stateItems {fields : List (String × Json)}
    (h : WellFormedSets (.object fields)) {field : String × Json} (hfield : field ∈ fields) :
    ∃ inner, field.2 = .object inner ∧ (inner.map Prod.fst).Nodup ∧
      field.2.getIter.filterMap stateItem =
        inner.map fun entry => ⟨entry.1, collectionItem entry.2⟩ := by
  obtain ⟨⟨⟨inner, hinner⟩, hkeys⟩, hcarries⟩ := h.items field.1 field.2 hfield
  rw [hinner] at hcarries hkeys ⊢
  exact ⟨inner, rfl, hkeys, filterMap_stateItem hcarries⟩

theorem contentOf_collectionsOf {fields : List (String × Json)}
    (h : WellFormedSets (.object fields)) (name key : String) :
    contentOf (collectionsOf fields) name key =
      ((fields.lookup name).bind fun items => items.objectLookup key).map collectionItem := by
  have hkind : (collectionsOf fields).find? (fun collection => collection.kind = name) =
      (fields.find? fun field => field.1 = name).map fun field =>
        ⟨field.1, field.2.getIter.filterMap stateItem⟩ := List.find?_map
  rw [contentOf, hkind, ← find?_eq_lookup]
  cases hfind : fields.find? fun field => field.1 = name with
  | none => rfl
  | some field =>
      obtain ⟨inner, hinner, _, hitems⟩ := h.stateItems (List.mem_of_find?_eq_some hfind)
      change ((field.2.getIter.filterMap stateItem).find? fun item => item.key = key).map
        StoreCollectionStateItem.item = (field.2.objectLookup key).map collectionItem
      rw [hitems, List.find?_map, hinner, Json.objectLookup, ← find?_eq_lookup, Option.map_map,
        Option.map_map]
      rfl

theorem distinct_collectionsOf {fields : List (String × Json)}
    (h : WellFormedSets (.object fields)) : DistinctCollections (collectionsOf fields) := by
  refine ⟨?_, ?_⟩
  · have hnames : (collectionsOf fields).map StoreCollectionState.kind = fields.map Prod.fst := by
      rw [collectionsOf, List.map_map]
      rfl
    rw [hnames]
    exact h.unique.keys
  · intro collection hmem
    obtain ⟨field, hfield, rfl⟩ := List.mem_map.mp hmem
    obtain ⟨inner, _, hkeys, hitems⟩ := h.stateItems hfield
    change ((field.2.getIter.filterMap stateItem).map StoreCollectionStateItem.key).Nodup
    rw [hitems, List.map_map]
    exact hkeys

end Content

section Serialized

variable [Parsing]

def Storable (item : Json) : Prop :=
  Parsing.deserialize (Externals.serialize item) = some item

structure Serializes (content : BackendContent) (map : ItemMap) : Prop where
  content : ∀ kind key, content (featureKindToString kind) key = (map (kind, key)).map collectionItem
  items : ∀ kind key item, map (kind, key) = some item → Carries key item ∧ Storable item

def decodedItem (content : BackendContent) (kind : FeatureKind) (key : String) : Option Json :=
  (content (featureKindToString kind) key).bind (PersistentStoreContext.decodeItem key)

theorem decodeItem_collectionItem {key : String} {item : Json} (hcarries : Carries key item)
    (hstorable : Storable item) :
    PersistentStoreContext.decodeItem key (collectionItem item) = some item := by
  have hparsed : Parsing.deserialize (Externals.serialize item) = some item := hstorable
  rw [PersistentStoreContext.decodeItem, collectionItem]
  simp only [hparsed, hcarries.valid, Bool.true_eq_false, if_false]

theorem Serializes.decodedItem_eq {content : BackendContent} {map : ItemMap} (h : Serializes content map)
    (kind : FeatureKind) (key : String) : decodedItem content kind key = map (kind, key) := by
  rw [decodedItem, h.content]
  cases hitem : map (kind, key) with
  | none => rfl
  | some item =>
      obtain ⟨hcarries, hstorable⟩ := h.items kind key item hitem
      exact decodeItem_collectionItem hcarries hstorable

theorem Serializes.empty : Serializes (fun _ _ => none) fun _ => none :=
  ⟨fun _ _ => rfl, fun _ _ _ h => by cases h⟩

theorem Serializes.offer {content : BackendContent} {map : ItemMap} (h : Serializes content map)
    {kind : FeatureKind} {key : String} {item : Json} (hcarries : Carries key item)
    (hstorable : Storable item) :
    Serializes (content.offer (featureKindToString kind) key (collectionItem item))
      (VersionedMap.apply getDataVersion map (.offer (kind, key) item)) := by
  have hnewer : some (newerItem (content (featureKindToString kind) key) (collectionItem item)) =
      (VersionedMap.newer getDataVersion (map (kind, key)) item).map collectionItem := by
    rw [h.content]
    cases map (kind, key) with
    | none => rfl
    | some old =>
        change some (if getDataVersion old < getDataVersion item then _ else _) = _
        rw [VersionedMap.newer]
        split_ifs <;> rfl
  refine ⟨?_, ?_⟩
  · intro kind' key'
    rw [BackendContent.offer, VersionedMap.apply, Function.update_apply]
    simp only [featureKindToString_injective.eq_iff, Prod.mk.injEq]
    split_ifs
    · exact hnewer
    · exact h.content kind' key'
  · intro kind' key' item' hitem'
    rw [VersionedMap.apply, Function.update_apply] at hitem'
    split_ifs at hitem' with hsame
    · cases hsame
      cases hold : map (kind, key) with
      | none =>
          rw [hold] at hitem'
          cases hitem'
          exact ⟨hcarries, hstorable⟩
      | some old =>
          rw [hold, VersionedMap.newer] at hitem'
          split_ifs at hitem'
          · cases hitem'
            exact ⟨hcarries, hstorable⟩
          · cases hitem'
            exact h.items kind key _ hold
    · exact h.items kind' key' item' hitem'

theorem serializes_init {sets : Json} (hsets : WellFormedSets sets)
    (hstorable : ∀ index item, heldBy sets index = some item → Storable item)
    {collections : List StoreCollectionState} (hcollections : makeCollections sets = .ok collections) :
    Serializes (contentOf collections) (heldBy sets) ∧ DistinctCollections collections := by
  obtain ⟨fields, rfl⟩ := hsets.unique.object
  rw [makeCollections_object] at hcollections
  cases hcollections
  refine ⟨⟨?_, ?_⟩, distinct_collectionsOf hsets⟩
  · intro kind key
    exact contentOf_collectionsOf hsets _ key
  · intro kind key item hitem
    refine ⟨?_, hstorable _ item hitem⟩
    obtain ⟨items, hitems, hitem⟩ := Option.bind_eq_some_iff.mp hitem
    obtain ⟨⟨⟨inner, rfl⟩, hkeys⟩, hcarries⟩ := hsets.valid.items kind items hitems
    exact hcarries key item ((Json.mem_iff_lookup hkeys).mpr hitem)

end Serialized

end ServerSdk
