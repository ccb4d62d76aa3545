import ServerSdk.Delivery.PutSafety

namespace ServerSdk

open Program PersistentStoreContext

variable {β : Type}

def UnshadowedCache (sets : Json) : Prop :=
  ∀ kind key, ∀ item ∈ itemsOf sets.iterFields kind, Carries key item → isDataDeleted item = false →
    ∀ other, (cacheKeyOf kind key, other) ∈ setEntries sets.iterFields → other = item

def NoneLive (sets : Json) : Prop :=
  ∀ kind, ∀ item ∈ itemsOf sets.iterFields kind, isDataDeleted item = true

def wrapperKeeps (context : PersistentStoreContext β) (kind : FeatureKind) (item : Json) : Prop :=
  ∃ key, ∃ entry ∈ context.entries (cacheKeyOf kind key), entry.feature = some item

structure AcceptsInit (persistentStore : StoreInterface β) : Prop where
  accepts : ∀ collections b, (persistentStore.init collections b).1 = true

structure AnswersGet (persistentStore : StoreInterface β) : Prop where
  answers : ∀ kind key b, ((persistentStore.get kind key b).1).isSome

theorem mem_setEntries {fields : List (String × Json)} {kind : FeatureKind} {key : String}
    {item : Json} (hitem : item ∈ itemsOf fields kind) (hkey : textKey item = some key) :
    (cacheKeyOf kind key, item) ∈ setEntries fields := by
  obtain ⟨field, hfield, hname, hmem⟩ := mem_itemsOf.mp hitem
  refine List.mem_flatMap.mpr ⟨field, hfield, List.mem_cons_of_mem _ ?_⟩
  refine List.mem_filterMap.mpr ⟨item, hmem, ?_⟩
  rw [hkey, hname]
  rfl

theorem find?_of_nodup {α : Type} {f : α → String} {l : List α} (h : (l.map f).Nodup) {a : α}
    (ha : a ∈ l) : (l.find? fun b => f b = f a) = some a := by
  induction l with
  | nil => cases ha
  | cons b l ih =>
      obtain ⟨hb, hl⟩ := List.nodup_cons.mp (List.map_cons ▸ h)
      rcases List.mem_cons.mp ha with rfl | ha
      · exact List.find?_cons_of_pos (by simp)
      · have hne : f b ≠ f a := fun heq => hb (heq ▸ List.mem_map_of_mem ha)
        rw [List.find?_cons_of_neg (by simpa using hne)]
        exact ih hl ha

section Cached

variable {store next : PersistentStoreContext β} {kind : FeatureKind} {key : String}

theorem mem_entries_memoryInit {sets : Json} (h : memoryInit sets store = .ok next)
    (order : Reordering CacheItem) {k : String} {entry : CacheItem} :
    entry ∈ (next.rehashed order).entries k ↔
      ∃ feature, (k, feature) ∈ setEntries sets.iterFields ∧ entry = ⟨k, some feature, store.now⟩ := by
  rw [(entries_rehashed order next k).mem_iff, entries_memoryInit h, List.mem_reverse, List.mem_map]
  constructor
  · rintro ⟨⟨k', feature⟩, hfound, rfl⟩
    obtain ⟨hmem, hkey⟩ := List.mem_filter.mp hfound
    obtain rfl : k' = k := decide_eq_true_eq.mp hkey
    exact ⟨feature, hmem, rfl⟩
  · rintro ⟨feature, hmem, rfl⟩
    exact ⟨(k, feature), List.mem_filter.mpr ⟨hmem, by simp⟩, rfl⟩

theorem feature_of_mem_memoryInit {sets : Json} (h : memoryInit sets store = .ok next)
    (order : Reordering CacheItem) {k : String} {entry : CacheItem}
    (hentry : entry ∈ (next.rehashed order).entries k) : entry.feature.isSome := by
  obtain ⟨feature, _, rfl⟩ := (mem_entries_memoryInit h order).mp hentry
  rfl

theorem findCurrent_memoryInit {sets : Json} (h : memoryInit sets store = .ok next)
    (hnonzero : store.cacheMilliseconds ≠ 0) (order : Reordering CacheItem) {k : String}
    {entry : CacheItem} (hhead : ((next.rehashed order).entries k).head? = some entry) :
    (next.rehashed order).findCurrent k = some entry := by
  obtain ⟨hsettings, _⟩ := memoryInit_frame h
  refine findCurrent_eq_some.mpr ⟨hhead, ?_⟩
  obtain ⟨feature, _, rfl⟩ := (mem_entries_memoryInit h order).mp (List.mem_of_head? hhead)
  rw [(sameSettings_rehashed order next).expiration, expiration_eq_current,
    hsettings.cacheMilliseconds, hsettings.now]
  refine ⟨hnonzero, ?_⟩
  rw [sub_self]
  exact Nat.cast_nonneg _

theorem head_preferring {other : Json} {k : String} {entry : CacheItem}
    (hentry : entry ∈ store.entries k) (hfeature : entry.feature = some other) :
    ∃ found, ((store.rehashed (.preferring fun item => item.key = k ∧ item.feature = some other)).entries
      k).head? = some found ∧ found.feature = some other := by
  obtain ⟨hmem, hkey⟩ := List.mem_filter.mp hentry
  obtain ⟨found, hfind, hfound⟩ := @Reordering.find?_preferring _
    (fun item : CacheItem => decide (item.key = k ∧ item.feature = some other))
    (fun item => decide (item.key = k)) store.cache.items
    ⟨entry, hmem, by simpa [hfeature] using hkey⟩ (by simp +contextual)
  refine ⟨found, ?_, (decide_eq_true_eq.mp hfound).2⟩
  rw [entries, MemoryContext.entries, List.head?_filter]
  exact hfind

theorem upsertMemory_returns {replacement : Json} (hkey : textKey replacement = some key)
    (hfeatures : ∀ entry ∈ store.entries (cacheKeyOf kind key), entry.feature.isSome) :
    Checked.Returns (store.upsertMemory kind replacement) := by
  rw [upsertMemory, getDataKey_eq_some.mpr hkey]
  change Checked.Returns (store.upsertKeyed kind key replacement)
  rw [upsertKeyed, MemoryContext.getCollectionItem_eq]
  cases hhead : (store.cache.entries (cacheKeyOf kind key)).head? with
  | none => exact ⟨_, rfl⟩
  | some entry =>
      obtain ⟨feature, hfeature⟩ :=
        Option.isSome_iff_exists.mp (hfeatures entry (List.mem_of_head? hhead))
      simp only [hfeature, rcGet, Checked.ok_bind]
      split_ifs
      · exact ⟨store, rfl⟩
      · exact ⟨_, rfl⟩

variable [Parsing]

theorem storeGet_of_current {item : CacheItem} {feature : Json}
    (hfind : store.findCurrent (cacheKeyOf kind key) = some item)
    (hfeature : item.feature = some feature) :
    store.storeGet kind key = .ok (some (visible feature), store) := by
  rw [storeGet, readItem, hfind]
  simp only [hfeature]
  rfl

theorem storeGet_of_zero {feature : Json} (hzero : store.cacheMilliseconds = 0)
    (hfetched : (store.fetchItem kind key).1 = some feature) (hkey : textKey feature = some key)
    (hfeatures : ∀ entry ∈ store.entries (cacheKeyOf kind key), entry.feature.isSome) :
    ∃ next, store.storeGet kind key = .ok (some (visible feature), next) := by
  have hfind : store.findCurrent (cacheKeyOf kind key) = none := by
    cases hfound : store.findCurrent (cacheKeyOf kind key) with
    | none => rfl
    | some item =>
        have hcurrent := (expiration_eq_current.mp (findCurrent_eq_some.mp hfound).2).1
        exact absurd hzero hcurrent
  obtain ⟨next, hnext⟩ : Checked.Returns ((store.fetchItem kind key).2.upsertMemory kind feature) :=
    upsertMemory_returns hkey hfeatures
  refine ⟨next, ?_⟩
  rw [storeGet, readItem, hfind]
  change (store.fetchItem kind key).2.cacheFetched kind (store.fetchItem kind key).1 = _
  rw [hfetched, cacheFetched, hnext]
  rfl

end Cached

section Delivered

variable {store : PersistentStoreContext β} {fields : List (String × Json)}

theorem wrapperKeeps_memoryInit {next : PersistentStoreContext β} {kind : FeatureKind} {item : Json}
    {sets : Json} (h : memoryInit sets store = .ok next)
    (hitem : item ∈ itemsOf sets.iterFields kind) (hkey : (textKey item).isSome) :
    wrapperKeeps next kind item := by
  obtain ⟨key, hkey⟩ := Option.isSome_iff_exists.mp hkey
  refine ⟨key, stamped store.now (cacheKeyOf kind key, item), ?_, rfl⟩
  rw [entries_memoryInit h, List.mem_reverse]
  refine List.mem_map.mpr ⟨_, List.mem_filter.mpr ⟨mem_setEntries hitem hkey, by simp⟩, rfl⟩

theorem textKey_of_fullyKeyed {sets : Json} (h : FullyKeyed sets) {kind : FeatureKind} {item : Json}
    (hitem : item ∈ itemsOf sets.iterFields kind) : (textKey item).isSome := by
  obtain ⟨field, hfield, _, hmem⟩ := mem_itemsOf.mp hitem
  exact h.keys field hfield item hmem

theorem memoryInit_returns {sets : Json} (h : FullyKeyed sets) (store : PersistentStoreContext β) :
    ∃ next, memoryInit sets store = .ok next := ⟨_, memoryInit_eq_ok.mpr ⟨h, rfl⟩⟩

variable [Parsing]

def inited (store : PersistentStoreContext β) (fields : List (String × Json)) :
    PersistentStoreContext β :=
  store.withBackend (store.persistentStore.init (collectionsOf fields) store.backend).2

theorem wrapped_init_accepted (haccepts : AcceptsInit store.persistentStore) {status : Bool}
    {after : Store (PersistentStoreContext β)} :
    store.wrapped.init (.object fields) = .ok (status, after) ↔
      ∃ next, memoryInit (.object fields) (inited store fields) = .ok next ∧ status = true ∧
        after = next.wrapped := by
  rw [wrapped_init]
  have hoffered : store.offerSets (.object fields) = .ok (true, inited store fields) := by
    rw [offerSets, makeCollections_object]
    have haccepted := haccepts.accepts (collectionsOf fields) store.backend
    simp only [Checked.ok_bind, haccepted]
    rfl
  constructor
  · rintro ⟨next, hinit, rfl⟩
    obtain ⟨offered, hother, hcases⟩ := storeInit_cases hinit
    cases hoffered.symm.trans hother
    rcases hcases with ⟨hfalse, _⟩ | ⟨_, hmemory⟩
    · cases hfalse
    · exact ⟨next, hmemory, rfl, rfl⟩
  · rintro ⟨next, hmemory, rfl, rfl⟩
    refine ⟨next, ?_, rfl⟩
    rw [storeInit, hoffered, Checked.ok_bind]
    exact Checked.bind_eq_ok.mpr ⟨next, hmemory, rfl⟩

theorem allValid_of_serves {sets : Json} {next : PersistentStoreContext β}
    (h : memoryInit sets store = .ok next)
    (hserves : ServesItems wrapperKeeps PersistentStoreContext.rehashed sets next.wrapped) :
    FullyKeyed sets ∧ AllValid sets := by
  have hkeyed := (memoryInit_eq_ok.mp h).1
  refine ⟨hkeyed, ?_⟩
  intro kind item hitem
  by_contra hinvalid
  exact (hserves kind item hitem).2 (by simpa using hinvalid)
    (wrapperKeeps_memoryInit h hitem (textKey_of_fullyKeyed hkeyed hitem))

theorem cached_serves_iff (haccepts : AcceptsInit store.persistentStore)
    (hnonzero : store.cacheMilliseconds ≠ 0) :
    (∃ status after, store.wrapped.init (.object fields) = .ok (status, after) ∧
      ServesItems wrapperKeeps PersistentStoreContext.rehashed (.object fields) after) ↔
    FullyKeyed (.object fields) ∧ AllValid (.object fields) ∧ UnshadowedCache (.object fields) := by
  constructor
  · rintro ⟨status, after, hinit, hserves⟩
    obtain ⟨next, hmemory, _, rfl⟩ := (wrapped_init_accepted haccepts).mp hinit
    obtain ⟨hkeyed, hvalid⟩ := allValid_of_serves hmemory hserves
    refine ⟨hkeyed, hvalid, ?_⟩
    intro kind key item hitem hcarries hlive other hother
    let order : Reordering CacheItem :=
      .preferring fun entry => entry.key = cacheKeyOf kind key ∧ entry.feature = some other
    have hentry : stamped (inited store fields).now (cacheKeyOf kind key, other) ∈
        next.entries (cacheKeyOf kind key) := by
      rw [entries_memoryInit hmemory, List.mem_reverse]
      exact List.mem_map.mpr ⟨_, List.mem_filter.mpr ⟨hother, by simp⟩, rfl⟩
    obtain ⟨found, hhead, hfeature⟩ := head_preferring hentry rfl
    obtain ⟨_, hget⟩ := (hserves kind item hitem).1 key hcarries hlive order
    obtain ⟨context, hget, _⟩ := wrapped_get.mp hget
    have hfind : (next.rehashed order).findCurrent (cacheKeyOf kind key) = some found :=
      findCurrent_memoryInit hmemory hnonzero order hhead
    have hget : (next.rehashed order).storeGet kind key = .ok (some (some item), context) := hget
    rw [storeGet_of_current hfind hfeature] at hget
    have hvisible : visible other = some item :=
      Option.some.inj (Prod.mk.inj (Except.ok.inj hget)).1
    exact (visible_eq_some.mp hvisible).2
  · rintro ⟨hkeyed, hvalid, hunshadowed⟩
    obtain ⟨next, hmemory⟩ := memoryInit_returns hkeyed (inited store fields)
    refine ⟨true, next.wrapped, (wrapped_init_accepted haccepts).mpr ⟨next, hmemory, rfl, rfl⟩, ?_⟩
    refine serves_of_allValid hvalid ?_
    intro kind key item hitem hcarries hlive order
    have hentry := (mem_entries_memoryInit hmemory order).mpr
      ⟨item, mem_setEntries hitem hcarries.textKey_eq, rfl⟩
    obtain ⟨found, tail, hentries⟩ := List.exists_cons_of_ne_nil (List.ne_nil_of_mem hentry)
    have hhead : ((next.rehashed order).entries (cacheKeyOf kind key)).head? = some found := by
      rw [hentries]
      rfl
    obtain ⟨other, hother, hfound⟩ :=
      (mem_entries_memoryInit hmemory order).mp (List.mem_of_head? hhead)
    have hfeature : found.feature = some item := by
      rw [hfound, hunshadowed kind key item hitem hcarries hlive other hother]
    refine ⟨(next.rehashed order).wrapped, wrapped_get.mpr ⟨next.rehashed order, ?_, rfl⟩⟩
    change (next.rehashed order).storeGet kind key = _
    rw [storeGet_of_current (findCurrent_memoryInit hmemory hnonzero order hhead) hfeature,
      visible_eq_some.mpr ⟨hlive, rfl⟩]

theorem contentOf_item {kind : FeatureKind} {key : String} {item : Json}
    (hdistinct : DistinctCollections (collectionsOf fields)) (hitem : item ∈ itemsOf fields kind)
    (hcarries : Carries key item) :
    contentOf (collectionsOf fields) (featureKindToString kind) key = some (collectionItem item) := by
  obtain ⟨field, hfield, hname, hmem⟩ := mem_itemsOf.mp hitem
  have hcollection : (⟨field.1, field.2.getIter.filterMap stateItem⟩ : StoreCollectionState) ∈
      collectionsOf fields := List.mem_map.mpr ⟨field, hfield, rfl⟩
  have hstate : (⟨key, collectionItem item⟩ : StoreCollectionStateItem) ∈
      field.2.getIter.filterMap stateItem := by
    refine List.mem_filterMap.mpr ⟨item, hmem, ?_⟩
    rw [stateItem, hcarries.valid, hcarries.textKey_eq]
    rfl
  have hfound : ((collectionsOf fields).find? fun collection =>
      collection.kind = featureKindToString kind) =
        some ⟨field.1, field.2.getIter.filterMap stateItem⟩ := by
    rw [← hname]
    exact find?_of_nodup hdistinct.kinds hcollection
  rw [contentOf, hfound, Option.bind_some, find?_of_nodup (hdistinct.keys _ hcollection) hstate]
  rfl

theorem fetchItem_eq {holds : β → BackendContent} (hconforms : Conforms store.persistentStore holds)
    (hanswers : AnswersGet store.persistentStore) (kind : FeatureKind) (key : String) :
    (store.fetchItem kind key).1 =
      decodeItem key ((holds store.backend (featureKindToString kind) key).getD absentItem) := by
  obtain ⟨answer, hanswer⟩ :=
    Option.isSome_iff_exists.mp (hanswers.answers (featureKindToString kind) key store.backend)
  have hheld := hconforms.get _ _ _ _ hanswer
  rw [fetchItem]
  simp only [hanswer, Option.bind_some, hheld]

theorem uncached_serves {holds : β → BackendContent} (haccepts : AcceptsInit store.persistentStore)
    (hconforms : Conforms store.persistentStore holds) (hanswers : AnswersGet store.persistentStore)
    (hzero : store.cacheMilliseconds = 0) (hkeyed : FullyKeyed (.object fields))
    (hvalid : AllValid (.object fields))
    (hstorable : ∀ kind, ∀ item ∈ itemsOf fields kind, Storable item)
    (hserved : NoneLive (.object fields) ∨ DistinctCollections (collectionsOf fields)) :
    ∃ status after, store.wrapped.init (.object fields) = .ok (status, after) ∧
      ServesItems wrapperKeeps PersistentStoreContext.rehashed (.object fields) after := by
  obtain ⟨next, hmemory⟩ := memoryInit_returns hkeyed (inited store fields)
  refine ⟨true, next.wrapped, (wrapped_init_accepted haccepts).mpr ⟨next, hmemory, rfl, rfl⟩, ?_⟩
  refine serves_of_allValid hvalid ?_
  intro kind key item hitem hcarries hlive order
  rcases hserved with hnone | hdistinct
  · rw [hnone kind item hitem] at hlive
    cases hlive
  · obtain ⟨hsettings, hbackend⟩ := memoryInit_frame hmemory
    have hstore : next.persistentStore = store.persistentStore := hsettings.persistentStore
    have hheld : holds (next.rehashed order).backend (featureKindToString kind) key =
        some (collectionItem item) := by
      change holds next.backend _ key = _
      rw [hbackend, inited, backend_withBackend,
        hconforms.init _ _ hdistinct (haccepts.accepts _ _)]
      exact contentOf_item hdistinct hitem hcarries
    have hfetched : ((next.rehashed order).fetchItem kind key).1 = some item := by
      have hrehashed : (next.rehashed order).persistentStore = store.persistentStore := hstore
      rw [fetchItem_eq (hrehashed ▸ hconforms) (hrehashed ▸ hanswers), hheld]
      exact decodeItem_collectionItem hcarries (hstorable kind item hitem)
    have hmilliseconds : (next.rehashed order).cacheMilliseconds = 0 :=
      hsettings.cacheMilliseconds.trans hzero
    obtain ⟨last, hlast⟩ := storeGet_of_zero hmilliseconds hfetched hcarries.textKey_eq
      fun entry hentry => feature_of_mem_memoryInit hmemory order hentry
    refine ⟨last.wrapped, wrapped_get.mpr ⟨last, ?_, rfl⟩⟩
    change (next.rehashed order).storeGet kind key = _
    rw [hlast, visible_eq_some.mpr ⟨hlive, rfl⟩]

end Delivered

instance (collections : List StoreCollectionState) : Decidable (DistinctCollections collections) :=
  decidable_of_iff ((collections.map StoreCollectionState.kind).Nodup ∧
    ∀ collection ∈ collections, (collection.items.map StoreCollectionStateItem.key).Nodup)
    ⟨fun h => ⟨h.1, h.2⟩, fun h => ⟨h.kinds, h.keys⟩⟩

def Table.forgetful : StoreInterface Table :=
  { Table.interface with
    init := fun collections _ =>
      (true, if DistinctCollections collections then ⟨collections, true⟩ else ⟨[], true⟩) }

theorem Table.forgetful_conforms : Conforms Table.forgetful Table.holds :=
  { Table.conforms with
    init := fun collections b hdistinct _ => by
      change Table.holds (if DistinctCollections collections then _ else _) = _
      rw [if_pos hdistinct]
      rfl
    init_failed := fun _ _ h => by cases h }

theorem forgetful_accepts : AcceptsInit Table.forgetful := ⟨fun _ _ => rfl⟩

theorem forgetful_answers : AnswersGet Table.forgetful := ⟨fun _ _ _ => rfl⟩

section Forgetful

variable [Parsing] {fields : List (String × Json)}

def forgetfulWrapper : PersistentStoreContext Table :=
  (storeCachingWrapperNew Table.forgetful Table.empty 0 0).context

theorem forgetful_get {next : PersistentStoreContext Table}
    (hdistinct : ¬DistinctCollections (collectionsOf fields))
    (hmemory : memoryInit (.object fields) (inited forgetfulWrapper fields) = .ok next)
    (order : Reordering CacheItem) (kind : FeatureKind) (key : String) :
    ∃ last, (next.rehashed order).storeGet kind key = .ok (some none, last) := by
  obtain ⟨hsettings, hbackend⟩ := memoryInit_frame hmemory
  have hstore : (next.rehashed order).persistentStore = Table.forgetful := hsettings.persistentStore
  have hheld : Table.holds (next.rehashed order).backend (featureKindToString kind) key = none := by
    change Table.holds next.backend _ key = none
    rw [hbackend]
    change Table.holds (if DistinctCollections (collectionsOf fields) then _ else _) _ _ = none
    rw [if_neg hdistinct]
    rfl
  have hfetched : ((next.rehashed order).fetchItem kind key).1 = some (makeDeletedData key 0) := by
    rw [fetchItem_eq (hstore ▸ Table.forgetful_conforms) (hstore ▸ forgetful_answers), hheld]
    rfl
  have hzero : (next.rehashed order).cacheMilliseconds = 0 := hsettings.cacheMilliseconds
  exact storeGet_of_zero hzero hfetched (makeDeletedData_carries key 0).textKey_eq
    fun entry hentry => feature_of_mem_memoryInit hmemory order hentry

theorem served_of_forgetful
    (h : ∃ status after, forgetfulWrapper.wrapped.init (.object fields) = .ok (status, after) ∧
      ServesItems wrapperKeeps PersistentStoreContext.rehashed (.object fields) after) :
    FullyKeyed (.object fields) ∧ AllValid (.object fields) ∧
      (NoneLive (.object fields) ∨ DistinctCollections (collectionsOf fields)) := by
  obtain ⟨status, after, hinit, hserves⟩ := h
  obtain ⟨next, hmemory, _, rfl⟩ := (wrapped_init_accepted forgetful_accepts).mp hinit
  obtain ⟨hkeyed, hvalid⟩ := allValid_of_serves hmemory hserves
  refine ⟨hkeyed, hvalid, ?_⟩
  by_cases hdistinct : DistinctCollections (collectionsOf fields)
  · exact .inr hdistinct
  · left
    intro kind item hitem
    by_contra hlive
    obtain ⟨key, hcarries⟩ := exists_carries (hvalid kind item hitem)
    let order : Reordering CacheItem := .preferring fun _ => true
    obtain ⟨_, hget⟩ := (hserves kind item hitem).1 key hcarries (by simpa using hlive) order
    obtain ⟨context, hget, _⟩ := wrapped_get.mp hget
    obtain ⟨last, hnone⟩ := forgetful_get hdistinct hmemory order kind key
    cases hnone.symm.trans hget

end Forgetful

end ServerSdk
