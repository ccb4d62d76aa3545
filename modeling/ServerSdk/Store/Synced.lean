import ServerSdk.Store.Backend
import ServerSdk.Store.Calls

namespace ServerSdk

open Program

structure Mirrors (feature : Json) (held : Option Json) : Prop where
  visible : visible feature = held.bind visible
  version : getDataVersion feature = (held.map getDataVersion).getD 0

theorem Mirrors.self (feature : Json) : Mirrors feature (some feature) := ⟨rfl, rfl⟩

def fetchedOf (key : String) (held : Option Json) : Json := held.getD (makeDeletedData key 0)

theorem makeDeletedData_carries (key : String) (version : Nat) :
    Carries key (makeDeletedData key version) := ⟨rfl, rfl⟩

theorem mirrors_fetchedOf (key : String) (held : Option Json) :
    Mirrors (fetchedOf key held) held := by
  cases held with
  | none => exact ⟨rfl, getDataVersion_of_natural (by decide) rfl⟩
  | some feature => exact .self feature

theorem mirrors_kept {feature item : Json} {held : Option Json} (hmirrors : Mirrors feature held)
    (hversion : getDataVersion item ≤ getDataVersion feature)
    (hsafe : held = none → 0 < getDataVersion item ∨ isDataDeleted item = true) :
    Mirrors feature (VersionedMap.newer getDataVersion held item) := by
  cases held with
  | none =>
      have hzero : getDataVersion feature = 0 := hmirrors.version
      have hitem : getDataVersion item = 0 := by omega
      have hdeleted : isDataDeleted item = true := by
        rcases hsafe rfl with hpositive | hdeleted
        · omega
        · exact hdeleted
      refine ⟨?_, ?_⟩
      · rw [hmirrors.visible]
        simp [VersionedMap.newer, visible, hdeleted]
      · simp [VersionedMap.newer, hzero, hitem]
  | some old =>
      have hold : getDataVersion feature = getDataVersion old := hmirrors.version
      rw [VersionedMap.newer, if_neg (by omega)]
      exact hmirrors

theorem mirrors_replaced {item : Json} {held : Option Json}
    (hsafe : ∀ old, held = some old → getDataVersion old < getDataVersion item ∨ old = item) :
    Mirrors item (VersionedMap.newer getDataVersion held item) := by
  cases held with
  | none => exact .self item
  | some old =>
      rcases hsafe old rfl with hlt | rfl
      · rw [VersionedMap.newer, if_pos hlt]
        exact .self item
      · rw [VersionedMap.newer, if_neg (lt_irrefl _)]
        exact .self old

section Steps

def acknowledge : WrapperCall × Answer → List StoreCall
  | (.init sets, .status true) => [.init sets]
  | (.upsert kind feature, .status true) => [.upsert kind feature]
  | (.remove kind key version, .status true) => [.remove kind key version]
  | _ => []

def acknowledged (trace : List (WrapperCall × Answer)) : List StoreCall := trace.flatMap acknowledge

def mapAfter (trace : List (WrapperCall × Answer)) : ItemMap :=
  VersionedMap.run getDataVersion (stepsOf (acknowledged trace))

theorem mapAfter_concat (trace : List (WrapperCall × Answer)) (last : WrapperCall × Answer) :
    mapAfter (trace ++ [last]) =
      (stepsOf (acknowledge last)).foldl (VersionedMap.apply getDataVersion) (mapAfter trace) := by
  rw [mapAfter, acknowledged, List.flatMap_append, stepsOf, List.flatMap_append, VersionedMap.run,
    List.foldl_append]
  simp only [List.flatMap_singleton]
  rfl

theorem steps_of_carries {kind : FeatureKind} {key : String} {feature : Json}
    (h : Carries key feature) : (StoreCall.upsert kind feature).steps = [.offer (kind, key) feature] := by
  simp [StoreCall.steps, h.valid, h.key]

theorem acknowledge_upsert {kind : FeatureKind} {key : String} {feature : Json}
    (h : Carries key feature) (status : Bool) (map : ItemMap) :
    (stepsOf (acknowledge (.upsert kind feature, .status status))).foldl
        (VersionedMap.apply getDataVersion) map =
      if status then VersionedMap.apply getDataVersion map (.offer (kind, key) feature) else map := by
  cases status with
  | false => rfl
  | true =>
      have hsteps : stepsOf (acknowledge (.upsert kind feature, .status true)) =
          [.offer (kind, key) feature] := by
        change [StoreCall.upsert kind feature].flatMap StoreCall.steps = _
        rw [List.flatMap_singleton, steps_of_carries h]
      rw [hsteps]
      rfl

theorem acknowledge_remove (kind : FeatureKind) (key : String) (version : UInt32) (status : Bool)
    (map : ItemMap) :
    (stepsOf (acknowledge (.remove kind key version, .status status))).foldl
        (VersionedMap.apply getDataVersion) map =
      if status then VersionedMap.apply getDataVersion map
        (.offer (kind, key) (Store.deletedItem key version)) else map := by
  cases status <;> rfl

theorem acknowledge_init (sets : Json) (status : Bool) (map : ItemMap) :
    (stepsOf (acknowledge (.init sets, .status status))).foldl
        (VersionedMap.apply getDataVersion) map = if status then heldBy sets else map := by
  cases status <;> rfl

end Steps

namespace PersistentStoreContext

variable {β : Type} {store next : PersistentStoreContext β} {kind : FeatureKind} {key : String}
  {map : ItemMap}

def CachedMirrors (store : PersistentStoreContext β) (map : ItemMap) : Prop :=
  ∀ kind key item, store.findCurrent (cacheKeyOf kind key) = some item →
    ∃ feature, item.feature = some feature ∧ Mirrors feature (map (kind, key))

theorem CachedMirrors.of_fewer (h : store.CachedMirrors map)
    (hfewer : ∀ kind key item, next.findCurrent (cacheKeyOf kind key) = some item →
      store.findCurrent (cacheKeyOf kind key) = some item) : next.CachedMirrors map := by
  intro kind key item hitem
  exact h kind key item (hfewer kind key item hitem)

theorem CachedMirrors.of_same (h : store.CachedMirrors map) (hsettings : SameSettings store next)
    (hentries : ∀ kind key, next.entries (cacheKeyOf kind key) = store.entries (cacheKeyOf kind key)) :
    next.CachedMirrors map := by
  refine h.of_fewer ?_
  intro kind key item hitem
  rw [findCurrent_congr hsettings (hentries kind key)] at hitem
  exact hitem

theorem findCurrent_replaceItem {replacement : Json} {item : CacheItem}
    (h : (store.replaceItem kind key replacement).findCurrent (cacheKeyOf kind key) = some item) :
    item.feature = some replacement := by
  rw [findCurrent_eq_some, entries_replaceItem_cacheKey, List.head?_cons] at h
  cases h.1
  rfl

theorem findCurrent_replaceItem_of_ne {replacement : Json} {kind' : FeatureKind} {key' : String}
    (hne : ¬(kind' = kind ∧ key' = key)) :
    (store.replaceItem kind key replacement).findCurrent (cacheKeyOf kind' key') =
      store.findCurrent (cacheKeyOf kind' key') := by
  refine findCurrent_congr (sameSettings_replaceItem kind key replacement store) ?_
  refine entries_replaceItem_of_ne (allKeyOf_ne_cacheKeyOf _ _ _).symm ?_
  intro heq
  exact hne (cacheKeyOf_inj.mp heq)

theorem CachedMirrors.replaceItem (h : store.CachedMirrors map) {map' : ItemMap}
    {replacement : Json} (hsame : ∀ index, index ≠ (kind, key) → map' index = map index)
    (hmirrors : Mirrors replacement (map' (kind, key))) :
    (store.replaceItem kind key replacement).CachedMirrors map' := by
  intro kind' key' item hitem
  by_cases heq : kind' = kind ∧ key' = key
  · obtain ⟨rfl, rfl⟩ := heq
    exact ⟨replacement, findCurrent_replaceItem hitem, hmirrors⟩
  · rw [findCurrent_replaceItem_of_ne heq] at hitem
    rw [hsame (kind', key') (by simpa using heq)]
    exact h kind' key' item hitem

theorem CachedMirrors.of_zero (hzero : store.cacheMilliseconds = 0) (map : ItemMap) :
    store.CachedMirrors map := by
  intro kind key item hitem
  have hcurrent := (expiration_eq_current.mp (findCurrent_eq_some.mp hitem).2).1
  exact absurd hzero hcurrent

theorem CachedMirrors.kept (h : store.CachedMirrors map) {item : Json}
    (hkept : store.Kept kind key item)
    (hplaceholder : map (kind, key) = none → 0 < getDataVersion item ∨ isDataDeleted item = true) :
    store.CachedMirrors (VersionedMap.apply getDataVersion map (.offer (kind, key) item)) := by
  obtain ⟨found, current, hfound, hcurrent, hversion⟩ := hkept.held
  intro kind' key' item' hitem'
  by_cases heq : kind' = kind ∧ key' = key
  · obtain ⟨rfl, rfl⟩ := heq
    cases hfound.symm.trans hitem'
    obtain ⟨feature, hfeature, hmirrors⟩ := h kind' key' found hfound
    cases hcurrent.symm.trans hfeature
    refine ⟨current, hcurrent, ?_⟩
    rw [VersionedMap.apply_offer_self]
    exact mirrors_kept hmirrors hversion hplaceholder
  · rw [VersionedMap.apply_offer_of_ne (by simpa using heq)]
    exact h kind' key' item' hitem'

theorem CachedMirrors.replaced (h : store.CachedMirrors map) {item : Json}
    (hkept : ¬store.Kept kind key item)
    (huncached : store.findCurrent (cacheKeyOf kind key) = none → ∀ held,
      map (kind, key) = some held → getDataVersion held < getDataVersion item ∨ held = item) :
    (store.replaceItem kind key item).CachedMirrors
      (VersionedMap.apply getDataVersion map (.offer (kind, key) item)) := by
  refine h.replaceItem (fun index hindex => VersionedMap.apply_offer_of_ne hindex) ?_
  rw [VersionedMap.apply_offer_self]
  apply mirrors_replaced
  intro old hold
  cases hfind : store.findCurrent (cacheKeyOf kind key) with
  | none => exact huncached hfind old hold
  | some found =>
      obtain ⟨feature, hfeature, hmirrors⟩ := h kind key found hfind
      have hversion : getDataVersion feature = getDataVersion old := by
        rw [hmirrors.version, hold]
        rfl
      have hnewer : ¬getDataVersion item ≤ getDataVersion feature := by
        intro hle
        exact hkept ⟨found, feature, hfind, hfeature, hle⟩
      left
      omega

def ForeignFree (sets : Json) : Prop :=
  ∀ name items, (name, items) ∈ sets.iterFields → (∀ kind, name ≠ featureKindToString kind) →
    ∀ key item, (key, item) ∈ items.iterFields →
      ∀ kind k, featureStoreCacheKey name key ≠ cacheKeyOf kind k

theorem heldBy_of_entry {sets : Json} (hsets : WellFormedSets sets) (hforeign : ForeignFree sets)
    {feature : Json} (h : (cacheKeyOf kind key, feature) ∈ setEntries sets.iterFields) :
    heldBy sets (kind, key) = some feature := by
  obtain ⟨⟨name, items⟩, hfield, hentry⟩ := List.mem_flatMap.mp h
  obtain ⟨⟨⟨inner, rfl⟩, hkeys⟩, hcarries⟩ := hsets.items name items hfield
  rcases List.mem_cons.mp hentry with hall | hitem
  · exact absurd (congrArg Prod.fst hall).symm (featureStoreAllCacheKey_ne_cacheKeyOf _ _ _)
  · obtain ⟨item, hmem, hitem⟩ := List.mem_filterMap.mp hitem
    obtain ⟨k, hk, hpair⟩ := Option.map_eq_some_iff.mp hitem
    obtain ⟨hcacheKey, rfl⟩ := Prod.mk.inj hpair
    obtain ⟨⟨k', item'⟩, hinner, rfl⟩ := List.mem_map.mp hmem
    have hcarried : Carries k' item' := hcarries k' item' hinner
    cases hcarried.textKey_eq.symm.trans hk
    by_cases hname : ∃ kind', name = featureKindToString kind'
    · obtain ⟨kind', rfl⟩ := hname
      obtain ⟨rfl, rfl⟩ := cacheKeyOf_inj.mp hcacheKey
      obtain ⟨fields, rfl⟩ := hsets.unique.object
      have hlookup : fields.lookup (featureKindToString kind') = some (.object inner) :=
        (Json.mem_iff_lookup hsets.unique.keys).mp hfield
      rw [heldBy, Json.objectLookup, hlookup]
      exact (Json.mem_iff_lookup hkeys).mp hinner
    · have hother : ∀ kind, name ≠ featureKindToString kind := fun kind heq => hname ⟨kind, heq⟩
      exact absurd hcacheKey (hforeign name _ hfield hother k _ hinner kind key)

theorem cachedMirrors_memoryInit {sets : Json} (hsets : WellFormedSets sets)
    (hforeign : ForeignFree sets) (h : memoryInit sets store = .ok next) :
    next.CachedMirrors (heldBy sets) := by
  intro kind key item hitem
  have hhead := (findCurrent_eq_some.mp hitem).1
  rw [entries_memoryInit h] at hhead
  have hmem := List.mem_reverse.mp (List.mem_of_head? hhead)
  obtain ⟨⟨k, feature⟩, hentry, rfl⟩ := List.mem_map.mp hmem
  obtain ⟨hentry, hkey⟩ := List.mem_filter.mp hentry
  have hkey : k = cacheKeyOf kind key := by simpa using hkey
  subst hkey
  refine ⟨feature, rfl, ?_⟩
  rw [heldBy_of_entry hsets hforeign hentry]
  exact .self feature

def ItemsSingle (store : PersistentStoreContext β) : Prop :=
  store.cacheMilliseconds ≠ 0 → ∀ kind key, (store.entries (cacheKeyOf kind key)).length ≤ 1

theorem ItemsSingle.of_same (h : store.ItemsSingle)
    (hmilliseconds : next.cacheMilliseconds = store.cacheMilliseconds)
    (hentries : ∀ kind key, next.entries (cacheKeyOf kind key) = store.entries (cacheKeyOf kind key)) :
    next.ItemsSingle := by
  intro hnonzero kind key
  rw [hentries]
  exact h (hmilliseconds ▸ hnonzero) kind key

theorem ItemsSingle.replaceItem (h : store.ItemsSingle) (kind : FeatureKind) (key : String)
    (replacement : Json) : (store.replaceItem kind key replacement).ItemsSingle := by
  have hsettings := sameSettings_replaceItem kind key replacement store
  intro hnonzero kind' key'
  have hsingle := h (hsettings.cacheMilliseconds ▸ hnonzero) kind' key'
  by_cases heq : kind' = kind ∧ key' = key
  · obtain ⟨rfl, rfl⟩ := heq
    rw [entries_replaceItem_cacheKey, List.length_cons, List.length_tail]
    omega
  · rwa [entries_replaceItem_of_ne (allKeyOf_ne_cacheKeyOf _ _ _).symm
      fun hsame => heq (cacheKeyOf_inj.mp hsame)]

theorem itemEntries_of_carries (name : String) {inner : List (String × Json)}
    (h : ∀ key item, (key, item) ∈ inner → Carries key item) :
    itemEntries name (inner.map Prod.snd) =
      inner.map fun field => (featureStoreCacheKey name field.1, field.2) := by
  induction inner with
  | nil => rfl
  | cons field inner ih =>
      rw [List.map_cons, itemEntries_cons (h field.1 field.2 (by simp)).textKey_eq,
        ih fun key item hitem => h key item (List.mem_cons_of_mem _ hitem)]
      rfl

theorem length_filter_itemEntries (name : String) {inner : List (String × Json)}
    (hkeys : (inner.map Prod.fst).Nodup) (h : ∀ key item, (key, item) ∈ inner → Carries key item)
    (k : String) :
    ((itemEntries name (inner.map Prod.snd)).filter fun entry => entry.1 = k).length ≤ 1 := by
  have hinjective : Function.Injective (featureStoreCacheKey name) := by
    intro key key' heq
    rwa [featureStoreCacheKey, featureStoreCacheKey, String.append_right_inj] at heq
  have hnodup : ((itemEntries name (inner.map Prod.snd)).map Prod.fst).Nodup := by
    rw [itemEntries_of_carries name h, List.map_map]
    have hmapped := hkeys.map hinjective
    rwa [List.map_map] at hmapped
  have hcount : ((itemEntries name (inner.map Prod.snd)).filter fun entry => entry.1 = k).length =
      ((itemEntries name (inner.map Prod.snd)).map Prod.fst).count k := by
    rw [← List.countP_eq_length_filter, List.count, List.countP_map]
    congr 1
  rw [hcount]
  exact List.nodup_iff_count_le_one.mp hnodup k

theorem filter_itemEntries_of_ne {sets : Json} (hsets : WellFormedSets sets)
    (hforeign : ForeignFree sets) {field : String × Json} (hfield : field ∈ sets.iterFields)
    (hname : field.1 ≠ featureKindToString kind) :
    (itemEntries field.1 field.2.getIter).filter (fun entry => entry.1 = cacheKeyOf kind key) = [] := by
  obtain ⟨⟨⟨inner, hinner⟩, -⟩, hcarries⟩ := hsets.items field.1 field.2 hfield
  rw [List.filter_eq_nil_iff]
  intro entry hentry
  rw [hinner] at hentry hcarries
  change entry ∈ itemEntries field.1 (inner.map Prod.snd) at hentry
  have hentries : itemEntries field.1 (inner.map Prod.snd) = _ := itemEntries_of_carries field.1 hcarries
  rw [hentries] at hentry
  obtain ⟨⟨k, item⟩, hmem, rfl⟩ := List.mem_map.mp hentry
  rw [decide_eq_true_eq]
  by_cases hkind : ∃ kind', field.1 = featureKindToString kind'
  · obtain ⟨kind', hkind'⟩ := hkind
    intro hsame
    rw [hkind'] at hsame hname
    exact hname (congrArg featureKindToString (cacheKeyOf_inj.mp hsame).1)
  · have hmem : (k, item) ∈ field.2.iterFields := by
      rw [hinner]
      exact hmem
    exact hforeign field.1 field.2 hfield (fun kind' heq => hkind ⟨kind', heq⟩) k item hmem kind key

theorem length_filter_setEntries {sets : Json} (hsets : WellFormedSets sets)
    (hforeign : ForeignFree sets) (kind : FeatureKind) (key : String)
    {fields : List (String × Json)} (hfields : ∀ field ∈ fields, field ∈ sets.iterFields)
    (hnames : (fields.map Prod.fst).Nodup) :
    ((setEntries fields).filter fun entry => entry.1 = cacheKeyOf kind key).length ≤ 1 := by
  induction fields with
  | nil => exact Nat.zero_le 1
  | cons field fields ih =>
      obtain ⟨hfirst, hnames⟩ := List.nodup_cons.mp (List.map_cons ▸ hnames)
      have hrest : ∀ other ∈ fields, other ∈ sets.iterFields :=
        fun other hother => hfields other (List.mem_cons_of_mem _ hother)
      have hfield := hfields field List.mem_cons_self
      rw [setEntries_cons, List.filter_append, List.filter_cons_of_neg
        (by simpa using featureStoreAllCacheKey_ne_cacheKeyOf field.1 kind key), List.length_append]
      by_cases hname : field.1 = featureKindToString kind
      · have hnone : (setEntries fields).filter (fun entry => entry.1 = cacheKeyOf kind key) = [] := by
          rw [setEntries, List.filter_flatMap, List.flatMap_eq_nil_iff]
          intro other hother
          have hne : other.1 ≠ featureKindToString kind :=
            fun heq => hfirst (List.mem_map.mpr ⟨other, hother, heq.trans hname.symm⟩)
          rw [List.filter_cons_of_neg
            (by simpa using featureStoreAllCacheKey_ne_cacheKeyOf other.1 kind key)]
          exact filter_itemEntries_of_ne hsets hforeign (hrest other hother) hne
        obtain ⟨⟨⟨inner, hinner⟩, hkeys⟩, hcarries⟩ := hsets.items field.1 field.2 hfield
        rw [hnone, List.length_nil, Nat.add_zero, hinner]
        rw [hinner] at hkeys hcarries
        exact length_filter_itemEntries field.1 hkeys hcarries _
      · rw [filter_itemEntries_of_ne hsets hforeign hfield hname, List.length_nil, Nat.zero_add]
        exact ih hrest hnames

theorem itemsSingle_memoryInit {sets : Json} (hsets : WellFormedSets sets)
    (hforeign : ForeignFree sets) (h : memoryInit sets store = .ok next) : next.ItemsSingle := by
  intro _ kind key
  rw [entries_memoryInit h, List.length_reverse, List.length_map]
  obtain ⟨⟨fields, rfl⟩, hnames⟩ := hsets.unique
  exact length_filter_setEntries hsets hforeign kind key (fun _ hfield => hfield) hnames

theorem ItemsSingle.query (h : store.ItemsSingle) : store.storeInitialized.2.ItemsSingle := by
  rcases storeInitialized_cases store with ⟨_, _, hpair⟩ | ⟨_, hpair⟩
  · rw [hpair]
    exact h
  · have hmilliseconds := (@storeInitialized_configuration β store).cacheMilliseconds
    rw [hpair] at hmilliseconds ⊢
    exact h.of_same hmilliseconds fun kind key =>
      entries_queryAndUpdate (featureStoreCacheKey_ne_initCheckedKey _ _)

theorem CachedMirrors.rehashed (h : store.CachedMirrors map) (hsingle : store.ItemsSingle)
    (order : Reordering CacheItem) : (store.rehashed order).CachedMirrors map := by
  by_cases hzero : store.cacheMilliseconds = 0
  · have hexpired : (store.rehashed order).cacheMilliseconds = 0 := hzero
    exact .of_zero hexpired map
  · exact h.of_same (sameSettings_rehashed order store) fun kind key =>
      entries_rehashed_of_single order (hsingle hzero kind key)

theorem ItemsSingle.rehashed (h : store.ItemsSingle) (order : Reordering CacheItem) :
    (store.rehashed order).ItemsSingle := by
  intro hnonzero kind key
  rw [(entries_rehashed order store _).length_eq]
  exact h hnonzero kind key

theorem CachedMirrors.query (h : store.CachedMirrors map) :
    store.storeInitialized.2.CachedMirrors map := by
  rcases storeInitialized_cases store with ⟨_, _, hpair⟩ | ⟨_, hpair⟩
  · rw [hpair]
    exact h
  · rw [hpair]
    refine h.of_fewer ?_
    intro kind key item hitem
    have hentries : store.queryAndUpdateInitialization.2.entries (cacheKeyOf kind key) =
        store.entries (cacheKeyOf kind key) :=
      entries_queryAndUpdate (featureStoreCacheKey_ne_initCheckedKey _ _)
    rw [findCurrent_eq_some] at hitem ⊢
    rw [hentries] at hitem
    exact ⟨hitem.1, (expiration_queryAndUpdate item).symm.trans hitem.2⟩

theorem holds_storeInitialized {holds : β → BackendContent}
    (hconforms : Conforms store.persistentStore holds) :
    holds store.storeInitialized.2.backend = holds store.backend := by
  rcases storeInitialized_cases store with ⟨_, _, hpair⟩ | ⟨_, hpair⟩
  · rw [hpair]
  · rw [hpair, backend_queryAndUpdate]
    exact hconforms.initialized_keeps store.backend

section Refinement

variable [Parsing]

structure Synced (holds : β → BackendContent) (store : PersistentStoreContext β) (map : ItemMap) :
    Prop where
  serializes : Serializes (holds store.backend) map
  cached : store.CachedMirrors map

variable {holds : β → BackendContent}

theorem Synced.fetch (hconforms : Conforms store.persistentStore holds)
    (h : store.Synced holds map) (kind : FeatureKind) (key : String) :
    (∀ feature, (store.fetchItem kind key).1 = some feature →
      feature = fetchedOf key (map (kind, key))) ∧
    (store.fetchItem kind key).2.Synced holds map := by
  constructor
  · intro feature hfeature
    obtain ⟨item, hitem, hdecoded⟩ := Option.bind_eq_some_iff.mp hfeature
    have hheld := hconforms.get (featureKindToString kind) key store.backend item hitem
    rw [h.serializes.content] at hheld
    cases hmap : map (kind, key) with
    | none =>
        rw [hmap] at hheld
        subst hheld
        cases hdecoded
        rfl
    | some held =>
        obtain ⟨hcarries, hstorable⟩ := h.serializes.items kind key held hmap
        rw [hmap] at hheld
        subst hheld
        have hself := decodeItem_collectionItem hcarries hstorable
        exact Option.some.inj (hdecoded.symm.trans hself)
  · refine ⟨?_, h.cached⟩
    have hkeeps := hconforms.get_keeps (featureKindToString kind) key store.backend
    change Serializes (holds (store.persistentStore.get _ _ _).2) map
    rw [hkeeps]
    exact h.serializes

theorem fetchedOf_carries (h : Serializes (holds store.backend) map) (kind : FeatureKind)
    (key : String) : Carries key (fetchedOf key (map (kind, key))) := by
  cases hmap : map (kind, key) with
  | none => exact makeDeletedData_carries key 0
  | some held => exact (h.items kind key held hmap).1

theorem Synced.get (hconforms : Conforms store.persistentStore holds) (h : store.Synced holds map)
    {answer : Option (Option Json)} (hget : store.storeGet kind key = .ok (answer, next)) :
    next.Synced holds map ∧ ∀ result, answer = some result → result = (map (kind, key)).bind visible := by
  rcases storeGet_cases hget with ⟨item, feature, hfind, hfeature, rfl, rfl⟩ | ⟨_, hcached⟩
  · refine ⟨h, ?_⟩
    intro result hresult
    cases hresult
    obtain ⟨other, hother, hmirrors⟩ := h.cached kind key item hfind
    cases hfeature.symm.trans hother
    exact hmirrors.visible
  · obtain ⟨hfetched, hsynced⟩ := h.fetch hconforms kind key
    rcases cacheFetched_cases hcached with ⟨_, rfl, rfl⟩ | ⟨feature, hfeature, rfl, hupdated⟩
    · exact ⟨hsynced, fun _ hresult => by cases hresult⟩
    · cases hfetched feature hfeature
      have hmirrors := mirrors_fetchedOf key (map (kind, key))
      refine ⟨?_, fun result hresult => by cases hresult; exact hmirrors.visible⟩
      have hcarries := fetchedOf_carries hsynced.serializes kind key
      obtain ⟨other, hother, hcases⟩ := upsertMemory_cases hupdated
      cases hcarries.textKey_eq.symm.trans hother
      rcases hcases with ⟨_, rfl⟩ | ⟨_, rfl⟩
      · exact hsynced
      · exact ⟨hsynced.serializes, hsynced.cached.replaceItem (fun _ _ => rfl) hmirrors⟩

theorem Synced.all (hconforms : Conforms store.persistentStore holds) (h : store.Synced holds map)
    {answer : Option (Option Json)} (hall : store.storeAll kind = .ok (answer, next)) :
    next.Synced holds map := by
  rcases storeAll_cases hall with ⟨_, _, _, _, _, rfl⟩ | ⟨_, hcached⟩
  · exact h
  · have hserializes : Serializes (holds (store.fetchAll kind).2.backend) map := by
      have hkeeps := hconforms.all_keeps (featureKindToString kind) store.backend
      change Serializes (holds (store.persistentStore.all _ _).2) map
      rw [hkeeps]
      exact h.serializes
    rcases cacheListed_cases hcached with ⟨_, rfl, _⟩ | ⟨_, rawItems, _, _, _, rfl⟩
    · exact ⟨hserializes, h.cached⟩
    · refine ⟨hserializes, ?_⟩
      have hfetched : (store.fetchAll kind).2.CachedMirrors map := h.cached
      refine hfetched.of_same (sameSettings_addItem _ _ _) ?_
      intro kind' key'
      rw [installAll, entries_addItem, if_neg (allKeyOf_ne_cacheKeyOf _ _ _)]

structure SafeWrite (holds : β → BackendContent) (store : PersistentStoreContext β)
    (kind : FeatureKind) (key : String) (item : Json) : Prop where
  uncached : store.cacheMilliseconds ≠ 0 → store.findCurrent (cacheKeyOf kind key) = none →
    ∀ held, decodedItem (holds store.backend) kind key = some held →
      getDataVersion held < getDataVersion item ∨ held = item
  placeholder : (store.findCurrent (cacheKeyOf kind key)).isSome →
    decodedItem (holds store.backend) kind key = none →
      0 < getDataVersion item ∨ isDataDeleted item = true

theorem Synced.written (hconforms : Conforms store.persistentStore holds)
    (h : store.Synced holds map) {item : Json} {status : Bool}
    (hwritten : store.Written kind key item status next) (hstorable : Storable item)
    (hsafe : status = true → store.SafeWrite holds kind key item) :
    next.Synced holds (if status then VersionedMap.apply getDataVersion map (.offer (kind, key) item)
      else map) := by
  have hdecoded := h.serializes.decodedItem_eq kind key
  have hoffered : status = true → Serializes (holds (store.upsertBackend kind key item).2)
      (VersionedMap.apply getDataVersion map (.offer (kind, key) item)) := by
    intro htrue
    have haccepted := hconforms.upsert (featureKindToString kind) (collectionItem item) key
      store.backend (hwritten.accepted.symm.trans htrue)
    rw [upsertBackend, haccepted]
    exact h.serializes.offer hwritten.carries hstorable
  have hcached : (store.withBackend (store.upsertBackend kind key item).2).CachedMirrors map :=
    h.cached
  rcases hwritten.cached with ⟨rfl, rfl⟩ | ⟨rfl, hkept, rfl⟩ | ⟨rfl, hkept, rfl⟩
  · have hrefused := hconforms.upsert_failed (featureKindToString kind) (collectionItem item) key
      store.backend hwritten.accepted.symm
    refine ⟨?_, h.cached⟩
    change Serializes (holds (store.upsertBackend kind key item).2) map
    rw [upsertBackend, hrefused]
    exact h.serializes
  · refine ⟨hoffered rfl, hcached.kept (kept_withBackend.mpr hkept) ?_⟩
    intro hnone
    obtain ⟨found, _, hfound, _⟩ := hkept.held
    exact (hsafe rfl).placeholder (by rw [hfound]; rfl) (hdecoded.trans hnone)
  · refine ⟨hoffered rfl, ?_⟩
    by_cases hzero : store.cacheMilliseconds = 0
    · have hexpired : ((store.withBackend (store.upsertBackend kind key item).2).replaceItem kind
          key item).cacheMilliseconds = 0 := hzero
      exact .of_zero hexpired _
    · refine hcached.replaced (fun hheld => hkept (kept_withBackend.mp hheld)) ?_
      intro hfind old hold
      exact (hsafe rfl).uncached hzero hfind old (hdecoded.trans hold)

theorem Synced.init (hconforms : Conforms store.persistentStore holds) (h : store.Synced holds map)
    {sets : Json} (hsets : WellFormedSets sets)
    (hstorable : ∀ index item, heldBy sets index = some item → Storable item) {status : Bool}
    (hinit : store.storeInit sets = .ok (status, next))
    (hforeign : status = true → store.cacheMilliseconds = 0 ∨ ForeignFree sets) :
    next.Synced holds (if status then heldBy sets else map) := by
  obtain ⟨offered, hoffered, hcases⟩ := storeInit_cases hinit
  obtain ⟨collections, hcollections, hstatus, rfl⟩ := offerSets_cases hoffered
  obtain ⟨hserializes, hdistinct⟩ := serializes_init hsets hstorable hcollections
  rcases hcases with ⟨rfl, rfl⟩ | ⟨rfl, hmemory⟩
  · refine ⟨?_, h.cached⟩
    change Serializes (holds (store.persistentStore.init collections store.backend).2) map
    rw [hconforms.init_failed collections store.backend hstatus.symm]
    exact h.serializes
  · obtain ⟨hsettings, hbackend⟩ := memoryInit_frame hmemory
    refine ⟨?_, ?_⟩
    · rw [hbackend, backend_withBackend,
        hconforms.init collections store.backend hdistinct hstatus.symm]
      exact hserializes
    · rcases hforeign rfl with hzero | hforeign
      · exact .of_zero (hsettings.cacheMilliseconds.trans hzero) _
      · exact cachedMirrors_memoryInit hsets hforeign hmemory

def ValidItems : WrapperCall → Prop
  | .init sets => WellFormedSets sets ∧ ∀ index item, heldBy sets index = some item → Storable item
  | .upsert _ feature => validateData feature = true → Storable feature
  | .remove _ key version => Storable (Store.deletedItem key version)
  | _ => True

def StaysInStep (holds : β → BackendContent) (store : PersistentStoreContext β) :
    WrapperCall → Prop
  | .init sets => (∃ offered, store.offerSets sets = .ok (true, offered)) →
      store.cacheMilliseconds = 0 ∨ ForeignFree sets
  | .upsert kind feature => ∀ key, Carries key feature →
      (store.upsertBackend kind key feature).1 = true → store.SafeWrite holds kind key feature
  | .remove kind key version =>
      (store.upsertBackend kind key (Store.deletedItem key version)).1 = true →
        store.SafeWrite holds kind key (Store.deletedItem key version)
  | _ => True

theorem Synced.perform (hconforms : Conforms store.persistentStore holds)
    (h : store.Synced holds map) {call : WrapperCall} (hvalid : ValidItems call)
    (hstep : store.StaysInStep holds call) {answer : Answer}
    (hperform : store.perform call = .ok (answer, next)) :
    next.Synced holds
      ((stepsOf (acknowledge (call, answer))).foldl (VersionedMap.apply getDataVersion) map) := by
  cases call with
  | init sets =>
      obtain ⟨status, rfl, hinit⟩ := perform_init hperform
      have hoffered : status = true → ∃ offered, store.offerSets sets = .ok (true, offered) := by
        rintro rfl
        obtain ⟨offered, hoffered, _⟩ := storeInit_cases hinit
        exact ⟨offered, hoffered⟩
      rw [acknowledge_init]
      exact h.init hconforms hvalid.1 hvalid.2 hinit fun htrue => hstep (hoffered htrue)
  | upsert kind feature =>
      rcases perform_upsert hperform with ⟨_, rfl, rfl⟩ | ⟨key, status, rfl, hwritten⟩
      · exact h
      · have hcarries := hwritten.carries
        rw [acknowledge_upsert hcarries]
        exact h.written hconforms hwritten (hvalid hcarries.valid)
          fun htrue => hstep key hcarries (hwritten.accepted.symm.trans htrue)
  | remove kind key version =>
      obtain ⟨status, rfl, hwritten⟩ := perform_remove hperform
      rw [acknowledge_remove]
      exact h.written hconforms hwritten hvalid
        fun htrue => hstep (hwritten.accepted.symm.trans htrue)
  | get kind key =>
      obtain ⟨result, rfl, hget⟩ := perform_get hperform
      exact (h.get hconforms hget).1
  | all kind =>
      obtain ⟨result, rfl, hall⟩ := perform_all hperform
      exact h.all hconforms hall
  | initialized =>
      obtain ⟨rfl, rfl⟩ := perform_initialized hperform
      refine ⟨?_, h.cached.query⟩
      rw [holds_storeInitialized hconforms]
      exact h.serializes
  | wait time =>
      cases hperform
      exact ⟨h.serializes, h.cached.of_fewer fun _ _ _ hitem => findCurrent_of_tick hitem⟩

theorem ItemsSingle.written (h : store.ItemsSingle) {item : Json} {status : Bool}
    (hwritten : store.Written kind key item status next) : next.ItemsSingle := by
  have hoffered : (store.withBackend (store.upsertBackend kind key item).2).ItemsSingle := h
  rcases hwritten.cached with ⟨_, rfl⟩ | ⟨_, _, rfl⟩ | ⟨_, _, rfl⟩
  · exact hoffered
  · exact hoffered
  · exact hoffered.replaceItem kind key item

theorem ItemsSingle.init (h : store.ItemsSingle) {sets : Json} (hsets : WellFormedSets sets)
    {status : Bool} (hinit : store.storeInit sets = .ok (status, next))
    (hforeign : status = true → store.cacheMilliseconds = 0 ∨ ForeignFree sets) :
    next.ItemsSingle := by
  obtain ⟨offered, hoffered, hcases⟩ := storeInit_cases hinit
  obtain ⟨collections, _, _, rfl⟩ := offerSets_cases hoffered
  rcases hcases with ⟨_, rfl⟩ | ⟨rfl, hmemory⟩
  · exact h
  · rcases hforeign rfl with hzero | hforeign
    · intro hnonzero
      exact absurd ((memoryInit_frame hmemory).1.cacheMilliseconds.trans hzero) hnonzero
    · exact itemsSingle_memoryInit hsets hforeign hmemory

theorem ItemsSingle.perform (h : store.ItemsSingle) {call : WrapperCall} (hvalid : ValidItems call)
    (hstep : store.StaysInStep holds call) {answer : Answer}
    (hperform : store.perform call = .ok (answer, next)) : next.ItemsSingle := by
  cases call with
  | init sets =>
      obtain ⟨status, _, hinit⟩ := perform_init hperform
      refine h.init hvalid.1 hinit ?_
      rintro rfl
      obtain ⟨offered, hoffered, _⟩ := storeInit_cases hinit
      exact hstep ⟨offered, hoffered⟩
  | upsert kind feature =>
      rcases perform_upsert hperform with ⟨_, _, rfl⟩ | ⟨key, status, _, hwritten⟩
      · exact h
      · exact h.written hwritten
  | remove kind key version =>
      obtain ⟨status, _, hwritten⟩ := perform_remove hperform
      exact h.written hwritten
  | get kind key =>
      obtain ⟨result, _, hget⟩ := perform_get hperform
      rcases storeGet_cases hget with ⟨_, _, _, _, _, rfl⟩ | ⟨_, hcached⟩
      · exact h
      · have hfetched : (store.fetchItem kind key).2.ItemsSingle := h
        rcases cacheFetched_cases hcached with ⟨_, _, rfl⟩ | ⟨feature, _, _, hupdated⟩
        · exact hfetched
        · obtain ⟨other, _, ⟨_, rfl⟩ | ⟨_, rfl⟩⟩ := upsertMemory_cases hupdated
          · exact hfetched
          · exact hfetched.replaceItem kind other feature
  | all kind =>
      obtain ⟨result, _, hall⟩ := perform_all hperform
      rcases storeAll_cases hall with ⟨_, _, _, _, _, rfl⟩ | ⟨_, hcached⟩
      · exact h
      · have hfetched : (store.fetchAll kind).2.ItemsSingle := h
        rcases cacheListed_cases hcached with ⟨_, rfl, _⟩ | ⟨_, rawItems, _, _, _, rfl⟩
        · exact hfetched
        · refine hfetched.of_same rfl fun kind' key' => ?_
          rw [installAll, entries_addItem, if_neg (allKeyOf_ne_cacheKeyOf _ _ _)]
  | initialized =>
      obtain ⟨_, rfl⟩ := perform_initialized hperform
      exact h.query
  | wait time =>
      cases hperform
      exact h

structure InSync (holds : β → BackendContent) (persistentStore : StoreInterface β)
    (trace : List (WrapperCall × Answer)) (store : PersistentStoreContext β) : Prop where
  persistentStore : store.persistentStore = persistentStore
  synced : store.Synced holds (mapAfter trace)
  single : store.ItemsSingle
  valid : ∀ call ∈ acknowledged trace, call.Valid

theorem acknowledge_valid {call : WrapperCall} (h : ValidItems call) (answer : Answer) :
    ∀ acknowledged ∈ acknowledge (call, answer), acknowledged.Valid := by
  intro acknowledged hmem
  cases call <;> rcases answer with (_ | _) | _ | _ <;> simp [acknowledge] at hmem
  all_goals subst hmem
  · exact h.1.valid
  · trivial
  · trivial

theorem InSync.perform {persistentStore : StoreInterface β}
    (hconforms : Conforms persistentStore holds) {trace : List (WrapperCall × Answer)}
    (h : InSync holds persistentStore trace store) {call : WrapperCall} (hitems : ValidItems call)
    (hstep : store.StaysInStep holds call) {answer : Answer}
    (hperform : store.perform call = .ok (answer, next)) :
    InSync holds persistentStore (trace ++ [(call, answer)]) next := by
  have hsame := (perform_configuration hperform).persistentStore
  refine ⟨hsame.trans h.persistentStore, ?_, h.single.perform hitems hstep hperform, ?_⟩
  · rw [mapAfter_concat]
    exact h.synced.perform (h.persistentStore ▸ hconforms) hitems hstep hperform
  · intro acknowledged hmem
    rw [ServerSdk.acknowledged, List.flatMap_append, List.mem_append] at hmem
    rcases hmem with hmem | hmem
    · exact h.valid acknowledged hmem
    · rw [List.flatMap_singleton] at hmem
      exact acknowledge_valid hitems answer acknowledged hmem

theorem InSync.rehashed {persistentStore : StoreInterface β} {trace : List (WrapperCall × Answer)}
    (h : InSync holds persistentStore trace store) (order : Reordering CacheItem) :
    InSync holds persistentStore trace (store.rehashed order) :=
  ⟨h.persistentStore, ⟨h.synced.serializes, h.synced.cached.rehashed h.single order⟩,
    h.single.rehashed order, h.valid⟩

theorem Runs.inSync {persistentStore : StoreInterface β} (hconforms : Conforms persistentStore holds)
    {backend : β} (hempty : holds backend = fun _ _ => none) {cacheMilliseconds : Nat} {now : Rat}
    {trace : List (WrapperCall × Answer)}
    (hrun : Runs (fun store call => ValidItems call ∧ store.StaysInStep holds call)
      (storeCachingWrapperNew persistentStore backend cacheMilliseconds now).context trace store) :
    InSync holds persistentStore trace store := by
  refine Runs.induct (P := InSync holds persistentStore) ?_ ?_ ?_ hrun
  · refine ⟨rfl, ⟨?_, ?_⟩, fun _ _ _ => Nat.zero_le 1, by simp [acknowledged]⟩
    · change Serializes (holds backend) _
      rw [hempty]
      exact Serializes.empty
    · intro kind key item hitem
      cases hitem
  · intro trace store call answer next hsync hallowed hperform
    exact hsync.perform hconforms hallowed.1 hallowed.2 hperform
  · intro trace store order hsync
    exact hsync.rehashed order

theorem InSync.memory {persistentStore : StoreInterface β} {trace : List (WrapperCall × Answer)}
    (h : InSync holds persistentStore trace store) (kind : FeatureKind) (key : String) :
    ∃ memory, Store.performAll (acknowledged trace) Store.newMemory = .ok memory ∧
      memory.get kind key = .ok (some ((mapAfter trace (kind, key)).bind visible), memory) := by
  obtain ⟨⟨implementation, context⟩, hrun, hmemory, _, hkeeps⟩ := performAll_newMemory h.valid
  have hmemory : implementation = storeMemoryNew.1 := hmemory
  subst hmemory
  refine ⟨_, hrun, ?_⟩
  have hcontent : context.getFromStore kind key = mapAfter trace (kind, key) :=
    hkeeps.content kind key
  change Except.ok (some (MemoryStoreContext.storeGet kind key context), _) = _
  rw [MemoryStoreContext.storeGet, hcontent]
  cases mapAfter trace (kind, key) <;> rfl

theorem wrapper_get_refines_backend {persistentStore : StoreInterface β}
    (hconforms : Conforms persistentStore holds) {backend : β}
    (hempty : holds backend = fun _ _ => none) {cacheMilliseconds : Nat} {now : Rat}
    {trace : List (WrapperCall × Answer)}
    (hrun : Runs (fun store call => ValidItems call ∧ store.StaysInStep holds call)
      (storeCachingWrapperNew persistentStore backend cacheMilliseconds now).context trace store)
    {answer : Option Json} {after : Store (PersistentStoreContext β)}
    (hget : store.wrapped.get kind key = .ok (some answer, after)) :
    answer = (decodedItem (holds store.backend) kind key).bind visible ∧
      ∃ memory, Store.performAll (acknowledged trace) Store.newMemory = .ok memory ∧
        memory.get kind key = .ok (some answer, memory) := by
  have hsync := hrun.inSync hconforms hempty
  obtain ⟨context, hcontext, _⟩ := wrapped_get.mp hget
  have hanswer : answer = (mapAfter trace (kind, key)).bind visible :=
    (hsync.synced.get (hsync.persistentStore ▸ hconforms) hcontext).2 answer rfl
  rw [hsync.synced.serializes.decodedItem_eq, hanswer]
  exact ⟨rfl, hsync.memory kind key⟩

end Refinement

def firstFlag : Json := .object [("key", .text "a"), ("version", .number 1)]

def secondFlag : Json := .object [("key", .text "a"), ("version", .number 2)]

@[reducible] def flagParsing : Parsing := literalParsing [firstFlag, secondFlag]

def staleUpdateCalls : List WrapperCall :=
  [.upsert .flag secondFlag, .wait 40000, .upsert .flag firstFlag]

theorem firstFlag_storable : let _ := flagParsing; Storable firstFlag := by
  intro _
  rfl

theorem secondFlag_storable : let _ := flagParsing; Storable secondFlag := by
  intro _
  rfl

theorem get_refines_backend_after_update :
    let _ := flagParsing
    let last := (newTableWrapper 30000).reached [.upsert .flag firstFlag, .wait 40000]
    Runs (fun store call => ValidItems call ∧ store.StaysInStep Table.holds call)
      (newTableWrapper 30000) last.1 last.2 ∧
    (∃ after, last.2.wrapped.get .flag "a" = .ok (some (some firstFlag), after)) ∧
    some firstFlag = (decodedItem (Table.holds last.2.backend) .flag "a").bind visible ∧
      ∃ memory, Store.performAll (acknowledged last.1) Store.newMemory = .ok memory ∧
        memory.get .flag "a" = .ok (some (some firstFlag), memory) := by
  intro _ last
  have hrun : Runs (fun store call => ValidItems call ∧ store.StaysInStep Table.holds call)
      (newTableWrapper 30000) last.1 last.2 := by
    refine runs_reached ⟨⟨fun _ => firstFlag_storable, ?_⟩, ⟨trivial, trivial⟩, trivial⟩
      (by decide +kernel)
    intro key hcarries _
    refine ⟨?_, ?_⟩
    · intro _ _ held hheld
      cases hheld
    · intro hcached
      cases hcached
  obtain ⟨after, hget⟩ : ∃ after, last.2.wrapped.get .flag "a" =
      .ok (some (some firstFlag), after) := Checked.exists_of_value (by decide +kernel)
  exact ⟨hrun, ⟨after, hget⟩, wrapper_get_refines_backend Table.conforms Table.holds_empty hrun hget⟩

theorem stale_update_served : ¬ ∀ [Parsing] (β : Type) (persistentStore : StoreInterface β)
    (holds : β → BackendContent), Conforms persistentStore holds → ∀ (backend : β),
    holds backend = (fun _ _ => none) → ∀ (cacheMilliseconds : Nat) (now : Rat)
    (trace : List (WrapperCall × Answer)) (store : PersistentStoreContext β),
    Runs (fun _ call => ValidItems call)
      (storeCachingWrapperNew persistentStore backend cacheMilliseconds now).context trace store →
    ∀ (kind : FeatureKind) (key : String) (answer : Option Json)
      (after : Store (PersistentStoreContext β)),
      store.wrapped.get kind key = .ok (some answer, after) →
      answer = (decodedItem (holds store.backend) kind key).bind visible := by
  intro hclaim
  let _ := flagParsing
  have hrun : Runs (fun _ call => ValidItems call) (newTableWrapper 30000)
      ((newTableWrapper 30000).reached staleUpdateCalls).1
      ((newTableWrapper 30000).reached staleUpdateCalls).2 :=
    runs_reached ⟨fun _ => secondFlag_storable, trivial, fun _ => firstFlag_storable, trivial⟩
      (by decide +kernel)
  obtain ⟨after, hget⟩ : ∃ after,
      ((newTableWrapper 30000).reached staleUpdateCalls).2.wrapped.get .flag "a" =
        .ok (some (some firstFlag), after) := Checked.exists_of_value (by decide +kernel)
  have hanswer := hclaim Table Table.interface Table.holds Table.conforms Table.empty
    Table.holds_empty 30000 0 _ _ hrun .flag "a" _ _ hget
  revert hanswer
  decide +kernel

end PersistentStoreContext

end ServerSdk
