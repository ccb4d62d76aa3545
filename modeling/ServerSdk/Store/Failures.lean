import ServerSdk.Store.Calls
import ServerSdk.Store.Listing

namespace ServerSdk

open Program

def WrapperCall.failed : WrapperCall → Answer
  | .init _ | .upsert _ _ | .remove _ _ _ | .initialized => .status false
  | .get _ _ | .all _ => .found none
  | .wait _ => .waited

namespace PersistentStoreContext

variable {β : Type} {store : PersistentStoreContext β} {kind : FeatureKind} {key : String}

section Fails

variable [Parsing]

inductive BackendFails (store : PersistentStoreContext β) (backend : β) : WrapperCall → Prop
  | init {sets : Json} {collections : List StoreCollectionState} :
      makeCollections sets = .ok collections →
      store.persistentStore.init collections store.backend = (false, backend) →
      BackendFails store backend (.init sets)
  | upsert {kind : FeatureKind} {key : String} {feature : Json} : Carries key feature →
      store.upsertBackend kind key feature = (false, backend) →
      BackendFails store backend (.upsert kind feature)
  | remove {kind : FeatureKind} {key : String} {version : UInt32} :
      store.upsertBackend kind key (Store.deletedItem key version) = (false, backend) →
      BackendFails store backend (.remove kind key version)
  | get {kind : FeatureKind} {key : String} :
      store.findCurrent (cacheKeyOf kind key) = none →
      store.persistentStore.get (featureKindToString kind) key store.backend = (none, backend) →
      BackendFails store backend (.get kind key)
  | getUnusable {kind : FeatureKind} {key buffer : String} {item : StoreCollectionItem} :
      store.findCurrent (cacheKeyOf kind key) = none →
      store.persistentStore.get (featureKindToString kind) key store.backend =
        (some item, backend) →
      item.buffer = some buffer →
      (Parsing.deserialize buffer = none ∨
        ∃ deserialized, Parsing.deserialize buffer = some deserialized ∧
          validateData deserialized = false) →
      BackendFails store backend (.get kind key)
  | all {kind : FeatureKind} : store.findCurrent (allKeyOf kind) = none →
      store.persistentStore.all (featureKindToString kind) store.backend = (none, backend) →
      BackendFails store backend (.all kind)
  | allUnusable {kind : FeatureKind} {buffer : String} {item : StoreCollectionItem}
      {items : List StoreCollectionItem} : store.findCurrent (allKeyOf kind) = none →
      store.persistentStore.all (featureKindToString kind) store.backend = (some items, backend) →
      item ∈ items → item.buffer = some buffer → Parsing.deserialize buffer = none →
      BackendFails store backend (.all kind)

theorem storeGet_of_missed (h : store.findCurrent (cacheKeyOf kind key) = none) :
    store.storeGet kind key = store.getSingleItemFromBackend kind key := by
  rw [storeGet, readItem, h]
  rfl

theorem storeAll_of_missed (h : store.findCurrent (allKeyOf kind) = none) :
    store.storeAll kind = store.getAllItemsFromBackend kind := by
  rw [storeAll, readAll, h]
  rfl

theorem storeUpsert_of_refused {feature : Json} {backend : β} (hcarries : Carries key feature)
    (h : store.upsertBackend kind key feature = (false, backend)) :
    store.storeUpsert kind (some key) feature = .ok (false, store.withBackend backend) := by
  have hoffered : store.offerItem kind feature = .ok (false, store.withBackend backend) := by
    rw [offerItem, hcarries.getDataKey_eq]
    change Except.ok ((store.upsertBackend kind key feature).1,
      store.withBackend (store.upsertBackend kind key feature).2) = _
    rw [h]
  rw [storeUpsert, hoffered]
  rfl

theorem fetchItem_of_unusable {backend : β} {buffer : String} {item : StoreCollectionItem}
    (hget : store.persistentStore.get (featureKindToString kind) key store.backend =
      (some item, backend))
    (hbuffer : item.buffer = some buffer)
    (hunusable : Parsing.deserialize buffer = none ∨
      ∃ deserialized, Parsing.deserialize buffer = some deserialized ∧
        validateData deserialized = false) :
    store.fetchItem kind key = (none, store.withBackend backend) := by
  have hdecode : decodeItem key item = none := by
    rw [decodeItem, hbuffer]
    rcases hunusable with hnone | ⟨deserialized, hsome, hinvalid⟩
    · simp only [hnone]
    · simp only [hsome, hinvalid, if_true]
  rw [fetchItem, hget, ← hdecode]
  rfl

theorem getAllItems_eq {backend : β} {items : List StoreCollectionItem}
    (hall : store.persistentStore.all (featureKindToString kind) store.backend =
      (some items, backend)) :
    store.getAllItemsFromBackend kind = (store.withBackend backend).cacheListed kind (some items) := by
  rw [getAllItemsFromBackend, fetchAll, hall]

theorem getAllItems_of_unparsable {backend : β} {items : List StoreCollectionItem}
    {item : StoreCollectionItem}
    (hall : store.persistentStore.all (featureKindToString kind) store.backend =
      (some items, backend)) (hitem : item ∈ items) (hparses : ¬Parses item) :
    store.getAllItemsFromBackend kind = .ok (none, store.withBackend backend) := by
  rw [getAllItems_eq hall]
  exact Checked.bind_eq_ok.mpr ⟨none, collectItems_of_unparsable hitem hparses _, rfl⟩

theorem getAllItems_of_parses {backend : β} {items : List StoreCollectionItem}
    (hall : store.persistentStore.all (featureKindToString kind) store.backend =
      (some items, backend)) (hparses : ∀ item ∈ items, Parses item) :
    store.getAllItemsFromBackend kind = .ok (some (some (listedObject items)),
      (store.withBackend backend).installAll kind (listedObject items)) := by
  rw [getAllItems_eq hall]
  exact Checked.bind_eq_ok.mpr ⟨some (listedObject items), collectItems_of_parses hparses _, rfl⟩

theorem perform_of_backendFails {backend : β} {call : WrapperCall}
    (h : store.BackendFails backend call) :
    store.perform call = .ok (call.failed, store.withBackend backend) := by
  cases h with
  | @init sets collections hcollections hinit =>
      have hoffered : store.offerSets sets = .ok (false, store.withBackend backend) := by
        rw [offerSets, hcollections, Checked.ok_bind, hinit]
        rfl
      apply perform_init_of_ok
      rw [storeInit, hoffered]
      rfl
  | upsert hcarries hrefused =>
      exact perform_upsert_of_ok hcarries (storeUpsert_of_refused hcarries hrefused)
  | remove hrefused =>
      exact perform_remove_of_ok (storeUpsert_of_refused (deletedItem_carries _ _) hrefused)
  | get hmissed hget =>
      apply perform_get_of_ok
      rw [storeGet_of_missed hmissed, getSingleItemFromBackend, fetchItem, hget]
      rfl
  | getUnusable hmissed hget hbuffer hunusable =>
      apply perform_get_of_ok
      rw [storeGet_of_missed hmissed, getSingleItemFromBackend,
        fetchItem_of_unusable hget hbuffer hunusable]
      rfl
  | all hmissed hall =>
      apply perform_all_of_ok
      rw [storeAll_of_missed hmissed, getAllItemsFromBackend, fetchAll, hall]
      rfl
  | @allUnusable kind buffer item items hmissed hall hitem hbuffer hfailed =>
      have hparses : ¬Parses item := by
        intro hparses
        have hsome := hparses buffer hbuffer
        rw [hfailed] at hsome
        cases hsome
      apply perform_all_of_ok
      rw [storeAll_of_missed hmissed]
      exact getAllItems_of_unparsable hall hitem hparses

theorem perform_all_of_parses {backend : β} {items : List StoreCollectionItem}
    (hmissed : store.findCurrent (allKeyOf kind) = none)
    (hall : store.persistentStore.all (featureKindToString kind) store.backend =
      (some items, backend)) (hparses : ∀ item ∈ items, Parses item) :
    store.perform (.all kind) = .ok (.found (some (some (listedObject items))),
      (store.withBackend backend).installAll kind (listedObject items)) := by
  apply perform_all_of_ok
  rw [storeAll_of_missed hmissed]
  exact getAllItems_of_parses hall hparses

theorem backend_failures_keep_cache (store : PersistentStoreContext β) :
    (∀ backend call, store.BackendFails backend call →
      ∃ next, store.perform call = .ok (call.failed, next) ∧ next.cache = store.cache ∧
        ∀ calls, next.performAll calls = (store.withBackend backend).performAll calls) ∧
    ∀ kind items backend, store.findCurrent (allKeyOf kind) = none →
      store.persistentStore.all (featureKindToString kind) store.backend = (some items, backend) →
      (∀ item ∈ items, Parses item) →
      ∃ rawItems next, store.perform (.all kind) = .ok (.found (some (some rawItems)), next) ∧
        rawItems.Unique ∧
        ∀ key, rawItems.objectLookup key = lastCarrying key (items.filterMap liveOf) := by
  constructor
  · intro backend call hfails
    exact ⟨_, perform_of_backendFails hfails, rfl, fun calls => rfl⟩
  · intro kind items backend hmissed hall hparses
    obtain ⟨hunique, hlookup⟩ := listedObject_spec items
    exact ⟨_, _, perform_all_of_parses hmissed hall hparses, hunique, hlookup⟩

end Fails

def brokenInterface : StoreInterface Table :=
  { Table.interface with
    get := fun _ _ table => (some ⟨some "\x7b", 1, 3⟩, table)
    upsert := fun _ _ _ table => (false, table) }

theorem broken_get_keeps_cache :
    let _ := literalParsing []
    let store := (storeCachingWrapperNew brokenInterface Table.empty 30000 0).context
    store.BackendFails Table.empty (.get .flag "a") ∧
      ∃ next, store.perform (.get .flag "a") = .ok (.found none, next) ∧
        next.cache = store.cache ∧
        ∀ calls, next.performAll calls = (store.withBackend Table.empty).performAll calls := by
  intro _ store
  have hfails : store.BackendFails Table.empty (.get .flag "a") := .getUnusable rfl rfl rfl (.inl rfl)
  exact ⟨hfails, (backend_failures_keep_cache store).1 _ _ hfails⟩

end PersistentStoreContext

end ServerSdk
