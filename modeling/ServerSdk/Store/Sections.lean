import ServerSdk.Store.Wrapper

namespace ServerSdk

open Program

section Keys

theorem cacheKeyOf_inj {kind kind' : FeatureKind} {key key' : String} :
    cacheKeyOf kind key = cacheKeyOf kind' key' ↔ kind = kind' ∧ key = key' := by
  constructor
  · intro h
    have hlist := congrArg String.toList h
    cases kind <;> cases kind' <;>
      simp [cacheKeyOf, featureStoreCacheKey, featureKindToString, String.toList_append] at hlist ⊢
    all_goals exact String.toList_inj.mp hlist
  · rintro ⟨rfl, rfl⟩
    rfl

theorem featureStoreAllCacheKey_inj {kind kind' : String} :
    featureStoreAllCacheKey kind = featureStoreAllCacheKey kind' ↔ kind = kind' := by
  rw [featureStoreAllCacheKey, featureStoreAllCacheKey, String.append_right_inj]

theorem allKeyOf_inj {kind kind' : FeatureKind} : allKeyOf kind = allKeyOf kind' ↔ kind = kind' := by
  rw [allKeyOf, allKeyOf, featureStoreAllCacheKey_inj]
  exact featureKindToString_injective.eq_iff

theorem featureStoreAllCacheKey_ne_cacheKeyOf (name : String) (kind : FeatureKind) (key : String) :
    featureStoreAllCacheKey name ≠ cacheKeyOf kind key := by
  intro h
  have hlist := congrArg String.toList h
  cases kind <;>
    simp [featureStoreAllCacheKey, cacheKeyOf, featureStoreCacheKey, featureKindToString,
      String.toList_append] at hlist

theorem allKeyOf_ne_cacheKeyOf (kind kind' : FeatureKind) (key : String) :
    allKeyOf kind ≠ cacheKeyOf kind' key :=
  featureStoreAllCacheKey_ne_cacheKeyOf _ kind' key

theorem featureStoreAllCacheKey_ne_initCheckedKey (name : String) :
    featureStoreAllCacheKey name ≠ initCheckedKey := by
  intro h
  have hlist := congrArg String.toList h
  simp [featureStoreAllCacheKey, initCheckedKey, String.toList_append] at hlist

theorem colon_mem_featureStoreCacheKey (name key : String) :
    ':' ∈ (featureStoreCacheKey name key).toList := by
  simp [featureStoreCacheKey, String.toList_append]

theorem featureStoreCacheKey_ne_initCheckedKey (name key : String) :
    featureStoreCacheKey name key ≠ initCheckedKey := by
  intro h
  have hcolon : ':' ∈ initCheckedKey.toList := h ▸ colon_mem_featureStoreCacheKey name key
  revert hcolon
  decide

end Keys

namespace PersistentStoreContext

variable {β : Type} {store next : PersistentStoreContext β} {kind : FeatureKind} {key k : String}

def entries (store : PersistentStoreContext β) (key : String) : List CacheItem :=
  store.cache.entries key

structure SameSettings (store next : PersistentStoreContext β) : Prop where
  persistentStore : next.persistentStore = store.persistentStore
  cacheMilliseconds : next.cacheMilliseconds = store.cacheMilliseconds
  now : next.now = store.now
  initialized : next.cache.initialized = store.cache.initialized

theorem SameSettings.refl (store : PersistentStoreContext β) : SameSettings store store :=
  ⟨rfl, rfl, rfl, rfl⟩

theorem SameSettings.trans {last : PersistentStoreContext β} (h : SameSettings store next)
    (h' : SameSettings next last) : SameSettings store last :=
  ⟨h'.persistentStore.trans h.persistentStore, h'.cacheMilliseconds.trans h.cacheMilliseconds,
    h'.now.trans h.now, h'.initialized.trans h.initialized⟩

theorem SameSettings.expiration (h : SameSettings store next) (item : CacheItem) :
    next.getExpirationState item = store.getExpirationState item := by
  rw [getExpirationState, getExpirationState, h.cacheMilliseconds, h.now]

theorem expiration_eq_current {item : CacheItem} : store.getExpirationState item = .current ↔
    store.cacheMilliseconds ≠ 0 ∧ store.now - item.updatedOn ≤ store.cacheMilliseconds := by
  rw [getExpirationState]
  split_ifs with hzero hlate
  · simp [hzero]
  · simp only [false_iff, not_and, not_le]
    exact fun _ => hlate
  · simp only [true_iff]
    exact ⟨hzero, not_lt.mp hlate⟩

theorem findCurrent_eq_some {item : CacheItem} : store.findCurrent key = some item ↔
    (store.entries key).head? = some item ∧ store.getExpirationState item = .current := by
  rw [findCurrent, MemoryContext.getCollectionItem_eq, Option.filter_eq_some_iff, entries]
  simp

theorem findCurrent_congr (hsettings : SameSettings store next)
    (hentries : next.entries key = store.entries key) :
    next.findCurrent key = store.findCurrent key := by
  apply Option.ext
  intro item
  rw [findCurrent_eq_some, findCurrent_eq_some, hentries, hsettings.expiration]

@[simp] theorem entries_withBackend (store : PersistentStoreContext β) (backend : β) (key : String) :
    (store.withBackend backend).entries key = store.entries key := rfl

@[simp] theorem backend_withBackend (store : PersistentStoreContext β) (backend : β) :
    (store.withBackend backend).backend = backend := rfl

theorem entries_addItem (store : PersistentStoreContext β) (key : String) (feature : Option Json)
    (k : String) : (store.addItem key feature).entries k =
      if key = k then ⟨key, feature, store.now⟩ :: store.entries k else store.entries k :=
  MemoryContext.entries_addToCache store.cache _ k

theorem sameSettings_addItem (store : PersistentStoreContext β) (key : String)
    (feature : Option Json) : SameSettings store (store.addItem key feature) :=
  ⟨rfl, rfl, rfl, rfl⟩

theorem entries_removeItem (store : PersistentStoreContext β) (key k : String) :
    (store.removeItem key).entries k =
      if key = k then (store.entries k).tail else store.entries k :=
  MemoryContext.entries_findAndRemove store.cache key k

theorem sameSettings_removeItem (store : PersistentStoreContext β) (key : String) :
    SameSettings store (store.removeItem key) :=
  ⟨rfl, rfl, rfl, MemoryContext.initialized_findAndRemove store.cache key⟩

section Replace

@[simp] theorem backend_replaceItem (kind : FeatureKind) (key : String) (replacement : Json)
    (store : PersistentStoreContext β) :
    (store.replaceItem kind key replacement).backend = store.backend := rfl

theorem sameSettings_replaceItem (kind : FeatureKind) (key : String) (replacement : Json)
    (store : PersistentStoreContext β) :
    SameSettings store (store.replaceItem kind key replacement) :=
  ((sameSettings_removeItem store _).trans (sameSettings_removeItem _ _)).trans
    (sameSettings_addItem _ _ _)

theorem entries_replaceItem_cacheKey (kind : FeatureKind) (key : String) (replacement : Json)
    (store : PersistentStoreContext β) :
    (store.replaceItem kind key replacement).entries (cacheKeyOf kind key) =
      ⟨cacheKeyOf kind key, some replacement, store.now⟩ ::
        (store.entries (cacheKeyOf kind key)).tail := by
  rw [replaceItem, entries_addItem, if_pos rfl, entries_removeItem, if_pos rfl, entries_removeItem,
    if_neg (allKeyOf_ne_cacheKeyOf _ _ _)]
  rfl

theorem entries_replaceItem_allKey (kind : FeatureKind) (key : String) (replacement : Json)
    (store : PersistentStoreContext β) :
    (store.replaceItem kind key replacement).entries (allKeyOf kind) =
      (store.entries (allKeyOf kind)).tail := by
  rw [replaceItem, entries_addItem, if_neg (allKeyOf_ne_cacheKeyOf _ _ _).symm, entries_removeItem,
    if_neg (allKeyOf_ne_cacheKeyOf _ _ _).symm, entries_removeItem, if_pos rfl]

theorem entries_replaceItem_of_ne {replacement : Json} (hall : k ≠ allKeyOf kind)
    (hkey : k ≠ cacheKeyOf kind key) :
    (store.replaceItem kind key replacement).entries k = store.entries k := by
  rw [replaceItem, entries_addItem, if_neg hkey.symm, entries_removeItem, if_neg hkey.symm,
    entries_removeItem, if_neg hall.symm]

structure Kept (store : PersistentStoreContext β) (kind : FeatureKind) (key : String)
    (replacement : Json) : Prop where
  held : ∃ item current, store.findCurrent (cacheKeyOf kind key) = some item ∧
    item.feature = some current ∧ getDataVersion replacement ≤ getDataVersion current

theorem rcGet_eq_ok {feature : Option Json} {current : Json} :
    rcGet feature = .ok current ↔ feature = some current := by
  cases feature <;> simp [rcGet]

theorem upsertKeyed_cases {replacement : Json}
    (h : store.upsertKeyed kind key replacement = .ok next) :
    (store.Kept kind key replacement ∧ next = store) ∨
      (¬store.Kept kind key replacement ∧ next = store.replaceItem kind key replacement) := by
  rw [upsertKeyed] at h
  cases hfind : store.cache.getCollectionItem (cacheKeyOf kind key) with
  | none =>
      rw [hfind] at h
      cases h
      refine .inr ⟨?_, rfl⟩
      rintro ⟨item, current, hcurrent, -⟩
      rw [findCurrent, hfind] at hcurrent
      cases hcurrent
  | some item =>
      rw [hfind] at h
      obtain ⟨current, hcurrent, h⟩ := Checked.bind_eq_ok.mp h
      have hfeature : item.feature = some current := rcGet_eq_ok.mp hcurrent
      split_ifs at h with hkept
      · cases h
        refine .inl ⟨⟨item, current, ?_, hfeature, hkept.2⟩, rfl⟩
        rw [findCurrent, hfind, Option.filter_some, if_pos (by simpa using hkept.1)]
      · cases h
        refine .inr ⟨?_, rfl⟩
        rintro ⟨other, older, hother, holder, hversion⟩
        rw [findCurrent, hfind, Option.filter_eq_some_iff] at hother
        cases hother.1
        cases hfeature.symm.trans holder
        exact hkept ⟨by simpa using hother.2, hversion⟩

theorem upsertMemory_cases {replacement : Json}
    (h : store.upsertMemory kind replacement = .ok next) :
    ∃ key, textKey replacement = some key ∧
      ((store.Kept kind key replacement ∧ next = store) ∨
        (¬store.Kept kind key replacement ∧ next = store.replaceItem kind key replacement)) := by
  rw [upsertMemory] at h
  obtain ⟨dataKey, hkey, h⟩ := Checked.bind_eq_ok.mp h
  cases dataKey with
  | none => cases h
  | some key => exact ⟨key, getDataKey_eq_some.mp hkey, upsertKeyed_cases h⟩

theorem upsertMemory_settings {replacement : Json}
    (h : store.upsertMemory kind replacement = .ok next) : SameSettings store next := by
  obtain ⟨key, _, ⟨_, rfl⟩ | ⟨_, rfl⟩⟩ := upsertMemory_cases h
  · exact .refl _
  · exact sameSettings_replaceItem kind key replacement store

theorem backend_upsertMemory {replacement : Json}
    (h : store.upsertMemory kind replacement = .ok next) : next.backend = store.backend := by
  obtain ⟨key, _, ⟨_, rfl⟩ | ⟨_, rfl⟩⟩ := upsertMemory_cases h
  · rfl
  · exact backend_replaceItem kind key replacement store

end Replace

section Init

def itemEntries (kind : String) (items : List Json) : List (String × Json) :=
  items.filterMap fun item => (textKey item).map fun key => (featureStoreCacheKey kind key, item)

def setEntries (fields : List (String × Json)) : List (String × Json) :=
  fields.flatMap fun field =>
    (featureStoreAllCacheKey field.1, field.2) :: itemEntries field.1 field.2.getIter

theorem itemEntries_cons {name : String} {item : Json} (h : textKey item = some key)
    (items : List Json) : itemEntries name (item :: items) =
      (featureStoreCacheKey name key, item) :: itemEntries name items := by
  rw [itemEntries, List.filterMap_cons, h]
  rfl

theorem setEntries_cons (field : String × Json) (fields : List (String × Json)) :
    setEntries (field :: fields) = ((featureStoreAllCacheKey field.1, field.2) ::
      itemEntries field.1 field.2.getIter) ++ setEntries fields := by
  rw [setEntries, List.flatMap_cons]
  rfl

def addAll (added : List (String × Json)) (store : PersistentStoreContext β) :
    PersistentStoreContext β :=
  added.foldl (fun store entry => store.addItem entry.1 (some entry.2)) store

theorem addAll_cons (entry : String × Json) (added : List (String × Json))
    (store : PersistentStoreContext β) :
    store.addAll (entry :: added) = (store.addItem entry.1 (some entry.2)).addAll added := rfl

theorem addAll_append (added later : List (String × Json)) (store : PersistentStoreContext β) :
    store.addAll (added ++ later) = (store.addAll added).addAll later := by
  rw [addAll, addAll, addAll, List.foldl_append]

theorem addAll_frame (added : List (String × Json)) (store : PersistentStoreContext β) :
    SameSettings store (store.addAll added) ∧ (store.addAll added).backend = store.backend := by
  induction added generalizing store with
  | nil => exact ⟨SameSettings.refl store, rfl⟩
  | cons entry added ih =>
      obtain ⟨hsettings, hbackend⟩ := ih (store.addItem entry.1 (some entry.2))
      exact ⟨(sameSettings_addItem store _ _).trans hsettings, hbackend⟩

def stamped (time : Rat) (entry : String × Json) : CacheItem := ⟨entry.1, some entry.2, time⟩

theorem entries_addAll (added : List (String × Json)) (store : PersistentStoreContext β)
    (k : String) : (store.addAll added).entries k =
      ((added.filter fun entry => entry.1 = k).map (stamped store.now)).reverse ++
        store.entries k := by
  induction added generalizing store with
  | nil => rfl
  | cons entry added ih =>
      rw [addAll_cons, ih, entries_addItem]
      split_ifs with hkey
      · rw [List.filter_cons_of_pos (by simpa using hkey)]
        simp [stamped, addItem]
      · rw [List.filter_cons_of_neg (by simpa using hkey)]
        rfl

theorem memoryInitItems_eq_ok {name : String} {items : List Json} :
    memoryInitItems name items store = .ok next ↔
      (∀ item ∈ items, (textKey item).isSome) ∧ next = store.addAll (itemEntries name items) := by
  induction items generalizing store with
  | nil =>
      constructor
      · intro h
        cases h
        exact ⟨by simp, rfl⟩
      · rintro ⟨_, rfl⟩
        rfl
  | cons item items ih =>
      rw [memoryInitItems, Checked.bind_eq_ok]
      constructor
      · rintro ⟨dataKey, hkey, h⟩
        cases dataKey with
        | none => cases h
        | some key =>
            have htext : textKey item = some key := getDataKey_eq_some.mp hkey
            obtain ⟨hitems, hnext⟩ := ih.mp h
            refine ⟨?_, ?_⟩
            · intro other hother
              rcases List.mem_cons.mp hother with rfl | hother
              · rw [htext]
                rfl
              · exact hitems other hother
            · rw [hnext, itemEntries_cons htext]
              rfl
      · rintro ⟨hitems, hnext⟩
        obtain ⟨key, htext⟩ := Option.isSome_iff_exists.mp (hitems item (by simp))
        refine ⟨some key, getDataKey_eq_some.mpr htext, ih.mpr ⟨?_, ?_⟩⟩
        · intro other hother
          exact hitems other (by simp [hother])
        · rw [hnext, itemEntries_cons htext]
          rfl

theorem memoryInitKinds_eq_ok {fields : List (String × Json)} :
    memoryInitKinds (fields.map fun field => (some field.1, field.2)) store = .ok next ↔
      (∀ field ∈ fields, ∀ item ∈ field.2.getIter, (textKey item).isSome) ∧
        next = store.addAll (setEntries fields) := by
  induction fields generalizing store with
  | nil =>
      constructor
      · intro h
        cases h
        exact ⟨by simp, rfl⟩
      · rintro ⟨_, rfl⟩
        rfl
  | cons field fields ih =>
      rw [List.map_cons, memoryInitKinds, Checked.bind_eq_ok]
      constructor
      · rintro ⟨filled, hitems, hkinds⟩
        obtain ⟨hkeys, rfl⟩ := memoryInitItems_eq_ok.mp hitems
        obtain ⟨hrest, rfl⟩ := ih.mp hkinds
        refine ⟨?_, ?_⟩
        · intro other hother
          rcases List.mem_cons.mp hother with rfl | hother
          · exact hkeys
          · exact hrest other hother
        · rw [setEntries_cons, addAll_append, addAll_cons]
      · rintro ⟨hkeys, hnext⟩
        refine ⟨_, memoryInitItems_eq_ok.mpr ⟨hkeys field (by simp), rfl⟩, ih.mpr ⟨?_, ?_⟩⟩
        · intro other hother
          exact hkeys other (by simp [hother])
        · rw [hnext, setEntries_cons, addAll_append, addAll_cons]

structure FullyKeyed (sets : Json) : Prop where
  object : sets.getType = .object
  keys : ∀ field ∈ sets.iterFields, ∀ item ∈ field.2.getIter, (textKey item).isSome

theorem memoryInit_eq_ok {sets : Json} : memoryInit sets store = .ok next ↔
    FullyKeyed sets ∧ next = store.flushed.addAll (setEntries sets.iterFields) := by
  rw [memoryInit]
  cases sets with
  | object fields =>
      change memoryInitKinds (fields.map fun field => (some field.1, field.2)) store.flushed = _ ↔ _
      rw [memoryInitKinds_eq_ok]
      constructor
      · rintro ⟨hkeys, hnext⟩
        exact ⟨⟨rfl, hkeys⟩, hnext⟩
      · rintro ⟨hkeyed, hnext⟩
        exact ⟨hkeyed.keys, hnext⟩
  | _ =>
      constructor
      · intro h
        cases h
      · rintro ⟨⟨hobject, _⟩, _⟩
        cases hobject

theorem entries_memoryInit {sets : Json} (h : memoryInit sets store = .ok next) (k : String) :
    next.entries k =
      (((setEntries sets.iterFields).filter fun entry => entry.1 = k).map
        (stamped store.now)).reverse := by
  obtain ⟨_, rfl⟩ := memoryInit_eq_ok.mp h
  rw [entries_addAll]
  simp [entries, flushed]

theorem memoryInit_frame {sets : Json} (h : memoryInit sets store = .ok next) :
    SameSettings store next ∧ next.backend = store.backend := by
  obtain ⟨_, rfl⟩ := memoryInit_eq_ok.mp h
  obtain ⟨hsettings, hbackend⟩ := addAll_frame (setEntries sets.iterFields) store.flushed
  exact ⟨⟨hsettings.1, hsettings.2, hsettings.3, hsettings.4⟩, hbackend⟩

end Init

section Initialization

def askInitialized (store : PersistentStoreContext β) : Bool × β :=
  store.persistentStore.initialized store.backend

theorem storeInitialized_of_quick {initialized : Bool}
    (h : store.quickCheckInitialization = some initialized) :
    store.storeInitialized = (initialized, store) := by
  rw [storeInitialized, h]

theorem storeInitialized_of_asked (h : store.quickCheckInitialization = none) :
    store.storeInitialized = store.queryAndUpdateInitialization := by
  rw [storeInitialized, h]

theorem queryAndUpdate_of_true (h : store.askInitialized.1 = true) :
    store.queryAndUpdateInitialization =
      (true, { (store.removeItem initCheckedKey).withBackend store.askInitialized.2 with
        cache := { (store.removeItem initCheckedKey).cache with initialized := true } }) :=
  if_pos h

theorem queryAndUpdate_of_false (h : store.askInitialized.1 = false) :
    store.queryAndUpdateInitialization =
      (false, ((store.removeItem initCheckedKey).withBackend store.askInitialized.2).addItem
        initCheckedKey none) :=
  if_neg (by
    change ¬(store.askInitialized.1 = true)
    simp [h])

theorem entries_queryAndUpdate (hkey : k ≠ initCheckedKey) :
    store.queryAndUpdateInitialization.2.entries k = store.entries k := by
  have hremoved : (store.removeItem initCheckedKey).entries k = store.entries k := by
    rw [entries_removeItem, if_neg hkey.symm]
  cases hasked : store.askInitialized.1 with
  | true =>
      rw [queryAndUpdate_of_true hasked]
      exact hremoved
  | false =>
      rw [queryAndUpdate_of_false hasked, entries_addItem, if_neg hkey.symm]
      exact hremoved

theorem entries_queryAndUpdate_initChecked :
    store.queryAndUpdateInitialization.2.entries initCheckedKey =
      (if store.askInitialized.1 then [] else [⟨initCheckedKey, none, store.now⟩]) ++
        (store.entries initCheckedKey).tail := by
  have hremoved : (store.removeItem initCheckedKey).entries initCheckedKey =
      (store.entries initCheckedKey).tail := by
    rw [entries_removeItem, if_pos rfl]
  cases hasked : store.askInitialized.1 with
  | true =>
      rw [queryAndUpdate_of_true hasked]
      exact hremoved
  | false =>
      rw [queryAndUpdate_of_false hasked, entries_addItem, if_pos rfl, entries_withBackend, hremoved]
      rfl

theorem expiration_queryAndUpdate (item : CacheItem) :
    store.queryAndUpdateInitialization.2.getExpirationState item =
      store.getExpirationState item := by
  cases hasked : store.askInitialized.1 with
  | true =>
      rw [queryAndUpdate_of_true hasked]
      rfl
  | false =>
      rw [queryAndUpdate_of_false hasked]
      rfl

theorem backend_queryAndUpdate :
    store.queryAndUpdateInitialization.2.backend = store.askInitialized.2 := by
  cases hasked : store.askInitialized.1 with
  | true =>
      rw [queryAndUpdate_of_true hasked]
      rfl
  | false =>
      rw [queryAndUpdate_of_false hasked]
      rfl

theorem storeInitialized_cases (store : PersistentStoreContext β) :
    (∃ initialized, store.quickCheckInitialization = some initialized ∧
      store.storeInitialized = (initialized, store)) ∨
    (store.quickCheckInitialization = none ∧
      store.storeInitialized = store.queryAndUpdateInitialization) := by
  cases hquick : store.quickCheckInitialization with
  | some initialized => exact .inl ⟨initialized, rfl, storeInitialized_of_quick hquick⟩
  | none => exact .inr ⟨rfl, storeInitialized_of_asked hquick⟩

end Initialization

section Operations

theorem readItem_cases {result : Option (Option Json)} (h : store.readItem kind key = .ok result) :
    (store.findCurrent (cacheKeyOf kind key) = none ∧ result = none) ∨
      ∃ item feature, store.findCurrent (cacheKeyOf kind key) = some item ∧
        item.feature = some feature ∧ result = some (visible feature) := by
  rw [readItem] at h
  cases hfind : store.findCurrent (cacheKeyOf kind key) with
  | none =>
      rw [hfind] at h
      cases h
      exact .inl ⟨rfl, rfl⟩
  | some item =>
      rw [hfind] at h
      obtain ⟨feature, hfeature, h⟩ := Checked.bind_eq_ok.mp h
      cases h
      exact .inr ⟨item, feature, rfl, rcGet_eq_ok.mp hfeature, rfl⟩

theorem readAll_cases {result : Option Json} (h : store.readAll kind = .ok result) :
    (store.findCurrent (allKeyOf kind) = none ∧ result = none) ∨
      ∃ item feature, store.findCurrent (allKeyOf kind) = some item ∧
        item.feature = some feature ∧ result = some feature := by
  rw [readAll] at h
  cases hfind : store.findCurrent (allKeyOf kind) with
  | none =>
      rw [hfind] at h
      cases h
      exact .inl ⟨rfl, rfl⟩
  | some item =>
      rw [hfind] at h
      obtain ⟨feature, hfeature, h⟩ := Checked.bind_eq_ok.mp h
      cases h
      exact .inr ⟨item, feature, rfl, rcGet_eq_ok.mp hfeature, rfl⟩

theorem cacheFetched_cases {fetched : Option Json} {answer : Option (Option Json)}
    (h : store.cacheFetched kind fetched = .ok (answer, next)) :
    (fetched = none ∧ answer = none ∧ next = store) ∨
    ∃ feature, fetched = some feature ∧ answer = some (visible feature) ∧
      store.upsertMemory kind feature = .ok next := by
  cases fetched with
  | none =>
      cases h
      exact .inl ⟨rfl, rfl, rfl⟩
  | some feature =>
      obtain ⟨updated, hupdated, h⟩ := Checked.bind_eq_ok.mp h
      cases h
      exact .inr ⟨feature, rfl, rfl, hupdated⟩

variable [Parsing]

theorem storeGet_cases {answer : Option (Option Json)}
    (h : store.storeGet kind key = .ok (answer, next)) :
    (∃ item feature, store.findCurrent (cacheKeyOf kind key) = some item ∧
      item.feature = some feature ∧ answer = some (visible feature) ∧ next = store) ∨
    (store.findCurrent (cacheKeyOf kind key) = none ∧
      (store.fetchItem kind key).2.cacheFetched kind (store.fetchItem kind key).1 =
        .ok (answer, next)) := by
  rw [storeGet] at h
  obtain ⟨result, hread, h⟩ := Checked.bind_eq_ok.mp h
  rcases readItem_cases hread with ⟨hfind, rfl⟩ | ⟨item, feature, hfind, hfeature, rfl⟩
  · exact .inr ⟨hfind, h⟩
  · cases h
    exact .inl ⟨item, feature, hfind, hfeature, rfl, rfl⟩

theorem cacheListed_cases {fetched : Option (List StoreCollectionItem)}
    {answer : Option (Option Json)} (h : store.cacheListed kind fetched = .ok (answer, next)) :
    (answer = none ∧ next = store ∧ (fetched = none ∨
      ∃ items, fetched = some items ∧ collectItems items (.object []) = .ok none)) ∨
    ∃ items rawItems, fetched = some items ∧
      collectItems items (.object []) = .ok (some rawItems) ∧ answer = some (some rawItems) ∧
      next = store.installAll kind rawItems := by
  cases fetched with
  | none =>
      cases h
      exact .inl ⟨rfl, rfl, .inl rfl⟩
  | some items =>
      obtain ⟨collected, hcollected, h⟩ := Checked.bind_eq_ok.mp h
      cases collected with
      | none =>
          cases h
          exact .inl ⟨rfl, rfl, .inr ⟨items, rfl, hcollected⟩⟩
      | some rawItems =>
          cases h
          exact .inr ⟨items, rawItems, rfl, hcollected, rfl, rfl⟩

theorem storeAll_cases {answer : Option (Option Json)}
    (h : store.storeAll kind = .ok (answer, next)) :
    (∃ item feature, store.findCurrent (allKeyOf kind) = some item ∧
      item.feature = some feature ∧ answer = some (some feature) ∧ next = store) ∨
    (store.findCurrent (allKeyOf kind) = none ∧
      (store.fetchAll kind).2.cacheListed kind (store.fetchAll kind).1 = .ok (answer, next)) := by
  rw [storeAll] at h
  obtain ⟨result, hread, h⟩ := Checked.bind_eq_ok.mp h
  rcases readAll_cases hread with ⟨hfind, rfl⟩ | ⟨item, feature, hfind, hfeature, rfl⟩
  · exact .inr ⟨hfind, h⟩
  · cases h
    exact .inl ⟨item, feature, hfind, hfeature, rfl, rfl⟩

def upsertBackend (kind : FeatureKind) (key : String) (item : Json)
    (store : PersistentStoreContext β) : Bool × β :=
  store.persistentStore.upsert (featureKindToString kind) (collectionItem item) key store.backend

theorem offerItem_cases {item : Json} {status : Bool}
    (h : store.offerItem kind item = .ok (status, next)) :
    ∃ key, textKey item = some key ∧ status = (store.upsertBackend kind key item).1 ∧
      next = store.withBackend (store.upsertBackend kind key item).2 := by
  rw [offerItem] at h
  obtain ⟨dataKey, hkey, h⟩ := Checked.bind_eq_ok.mp h
  cases dataKey with
  | none => cases h
  | some key =>
      cases h
      exact ⟨key, getDataKey_eq_some.mp hkey, rfl, rfl⟩

theorem storeUpsert_cases {given : Option String} {item : Json} {status : Bool}
    (h : store.storeUpsert kind given item = .ok (status, next)) :
    ∃ offered, store.offerItem kind item = .ok (status, offered) ∧
      ((status = false ∧ next = offered) ∨
        (status = true ∧ offered.upsertMemory kind item = .ok next)) := by
  rw [storeUpsert] at h
  obtain ⟨_, _, h⟩ := Checked.bind_eq_ok.mp h
  obtain ⟨⟨accepted, offered⟩, hoffered, h⟩ := Checked.bind_eq_ok.mp h
  cases accepted with
  | false =>
      cases h
      exact ⟨_, hoffered, .inl ⟨rfl, rfl⟩⟩
  | true =>
      obtain ⟨updated, hupdated, h⟩ := Checked.bind_eq_ok.mp h
      cases h
      exact ⟨offered, hoffered, .inr ⟨rfl, hupdated⟩⟩

theorem offerSets_cases {sets : Json} {status : Bool}
    (h : store.offerSets sets = .ok (status, next)) :
    ∃ collections, makeCollections sets = .ok collections ∧
      status = (store.persistentStore.init collections store.backend).1 ∧
      next = store.withBackend (store.persistentStore.init collections store.backend).2 := by
  rw [offerSets] at h
  obtain ⟨collections, hcollections, h⟩ := Checked.bind_eq_ok.mp h
  cases h
  exact ⟨collections, hcollections, rfl, rfl⟩

theorem storeInit_cases {sets : Json} {status : Bool}
    (h : store.storeInit sets = .ok (status, next)) :
    ∃ offered, store.offerSets sets = .ok (status, offered) ∧
      ((status = false ∧ next = offered) ∨
        (status = true ∧ offered.memoryInit sets = .ok next)) := by
  rw [storeInit] at h
  obtain ⟨⟨accepted, offered⟩, hoffered, h⟩ := Checked.bind_eq_ok.mp h
  cases accepted with
  | false =>
      cases h
      exact ⟨_, hoffered, .inl ⟨rfl, rfl⟩⟩
  | true =>
      obtain ⟨updated, hupdated, h⟩ := Checked.bind_eq_ok.mp h
      cases h
      exact ⟨offered, hoffered, .inr ⟨rfl, hupdated⟩⟩

end Operations

end PersistentStoreContext

end ServerSdk
