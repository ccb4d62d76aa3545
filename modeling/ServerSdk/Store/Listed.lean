import ServerSdk.Store.Listing
import ServerSdk.Store.Synced

namespace ServerSdk

open Program

structure ListsVisible (object : Json) (map : ItemMap) (kind : FeatureKind) : Prop where
  unique : object.Unique
  lookup : ∀ key, object.objectLookup key = (map (kind, key)).bind visible

theorem visible_eq_some {feature item : Json} :
    visible feature = some item ↔ isDataDeleted feature = false ∧ feature = item := by
  rw [visible]
  cases isDataDeleted feature <;> simp

theorem ListsVisible.live {object : Json} {map : ItemMap} {kind : FeatureKind}
    (h : ListsVisible object map kind) {key : String} {item : Json}
    (hitem : (key, item) ∈ object.iterFields) : isDataDeleted item = false := by
  obtain ⟨⟨fields, rfl⟩, hkeys⟩ := h.unique
  have hlookup : (map (kind, key)).bind visible = some item :=
    (h.lookup key).symm.trans ((Json.mem_iff_lookup hkeys).mp hitem)
  obtain ⟨held, _, hheld⟩ := Option.bind_eq_some_iff.mp hlookup
  obtain ⟨hlive, rfl⟩ := visible_eq_some.mp hheld
  exact hlive

theorem ListsVisible.of_map {object : Json} {map map' : ItemMap} {kind : FeatureKind}
    (h : ListsVisible object map kind)
    (hvisible : ∀ key, (map' (kind, key)).bind visible = (map (kind, key)).bind visible) :
    ListsVisible object map' kind :=
  ⟨h.unique, fun key => (h.lookup key).trans (hvisible key).symm⟩

section Backend

variable [Parsing] {content : BackendContent} {map : ItemMap} {kind : FeatureKind}
  {items : List StoreCollectionItem}

theorem liveOf_collectionItem {key : String} {feature : Json} (hcarries : Carries key feature)
    (hstorable : Storable feature) : liveOf (collectionItem feature) = visible feature := by
  have hparsed : Parsing.deserialize (Externals.serialize feature) = some feature := hstorable
  rw [liveOf, collectionItem, Option.bind_some, hparsed, Option.filter_some, hcarries.valid, visible]
  cases isDataDeleted feature <;> rfl

theorem Serializes.mem_live (h : Serializes content map) (hlists : Lists (content (featureKindToString kind)) items)
    {feature : Json} : feature ∈ items.filterMap liveOf ↔
      ∃ key, map (kind, key) = some feature ∧ isDataDeleted feature = false := by
  obtain ⟨keyed, rfl, _, hkeyed⟩ := hlists
  rw [List.mem_filterMap]
  constructor
  · rintro ⟨item, hmem, hlive⟩
    obtain ⟨⟨key, _⟩, hpair, rfl⟩ := List.mem_map.mp hmem
    have hheld := (hkeyed _ _).mp hpair
    rw [h.content] at hheld
    obtain ⟨held, hmap, hitem⟩ := Option.map_eq_some_iff.mp hheld
    obtain ⟨hcarries, hstorable⟩ := h.items kind key held hmap
    rw [← hitem, liveOf_collectionItem hcarries hstorable] at hlive
    obtain ⟨hnot, rfl⟩ := visible_eq_some.mp hlive
    exact ⟨key, hmap, hnot⟩
  · rintro ⟨key, hmap, hnot⟩
    obtain ⟨hcarries, hstorable⟩ := h.items kind key feature hmap
    have hheld : content (featureKindToString kind) key = some (collectionItem feature) := by
      rw [h.content, hmap]
      rfl
    refine ⟨_, List.mem_map.mpr ⟨_, (hkeyed _ _).mpr hheld, rfl⟩, ?_⟩
    rw [liveOf_collectionItem hcarries hstorable]
    exact visible_eq_some.mpr ⟨hnot, rfl⟩

theorem Serializes.lists (h : Serializes content map)
    (hlists : Lists (content (featureKindToString kind)) items) :
    ListsVisible (listedObject items) map kind := by
  obtain ⟨hunique, hlookup⟩ := listedObject_spec items
  refine ⟨hunique, ?_⟩
  intro key
  have hfound : ∀ feature, lastCarrying key (items.filterMap liveOf) = some feature →
      (map (kind, key)).bind visible = some feature := by
    intro feature hfeature
    have hkey : textKey feature = some key := by simpa using List.find?_some hfeature
    have hmem := List.mem_reverse.mp (List.mem_of_find?_eq_some hfeature)
    obtain ⟨other, hmap, hlive⟩ := (h.mem_live hlists).mp hmem
    have hother := (h.items kind other feature hmap).1.textKey_eq
    cases hother.symm.trans hkey
    rw [hmap]
    exact visible_eq_some.mpr ⟨hlive, rfl⟩
  rw [hlookup]
  cases hlast : lastCarrying key (items.filterMap liveOf) with
  | some feature => exact (hfound feature hlast).symm
  | none =>
      cases hmap : map (kind, key) with
      | none => rfl
      | some feature =>
          cases hlive : isDataDeleted feature with
          | true => simp [visible, hlive]
          | false =>
              have hmem := List.mem_reverse.mpr ((h.mem_live hlists).mpr ⟨key, hmap, hlive⟩)
              have hcarried := (h.items kind key feature hmap).1.textKey_eq
              have hnone := List.find?_eq_none.mp hlast feature hmem
              exact absurd hcarried (by simpa using hnone)

end Backend

namespace PersistentStoreContext

variable {β : Type} {store next : PersistentStoreContext β} {kind : FeatureKind} {key : String}
  {map : ItemMap}

def ListsCached (store : PersistentStoreContext β) (map : ItemMap) : Prop :=
  ∀ kind, ∀ item ∈ store.entries (allKeyOf kind), store.getExpirationState item = .current →
    ∃ object, item.feature = some object ∧ ListsVisible object map kind

theorem ListsCached.of_same (h : store.ListsCached map) {map' : ItemMap}
    (hvisible : ∀ index, (map' index).bind visible = (map index).bind visible)
    (hexpiration : ∀ item, next.getExpirationState item = store.getExpirationState item)
    (hentries : ∀ kind, next.entries (allKeyOf kind) = store.entries (allKeyOf kind)) :
    next.ListsCached map' := by
  intro kind item hitem hcurrent
  rw [hentries] at hitem
  rw [hexpiration] at hcurrent
  obtain ⟨object, hobject, hlists⟩ := h kind item hitem hcurrent
  exact ⟨object, hobject, hlists.of_map fun key => hvisible (kind, key)⟩

theorem ListsCached.replaceItem (h : store.ListsCached map) {map' : ItemMap} {replacement : Json}
    (hsame : ∀ index, index ≠ (kind, key) → map' index = map index)
    (hshown : (store.entries (allKeyOf kind)).length ≤ 1 ∨
      ∀ item ∈ store.entries (allKeyOf kind), store.getExpirationState item = .current →
        ∀ object, item.feature = some object →
          object.objectLookup key = (map' (kind, key)).bind visible) :
    (store.replaceItem kind key replacement).ListsCached map' := by
  have hsettings := sameSettings_replaceItem kind key replacement store
  intro kind' item hitem hcurrent
  rw [hsettings.expiration] at hcurrent
  by_cases hkind : kind' = kind
  · subst hkind
    rw [entries_replaceItem_allKey] at hitem
    rcases hshown with hlength | hshown
    · rw [tail_eq_nil hlength] at hitem
      cases hitem
    · have hmem := List.mem_of_mem_tail hitem
      obtain ⟨object, hobject, hlists⟩ := h kind' item hmem hcurrent
      refine ⟨object, hobject, hlists.unique, fun key' => ?_⟩
      by_cases hkey : key' = key
      · rw [hkey]
        exact hshown item hmem hcurrent object hobject
      · rw [hsame (kind', key') (by simp [hkey])]
        exact hlists.lookup key'
  · rw [entries_replaceItem_of_ne (fun heq => hkind (allKeyOf_inj.mp heq))
      (allKeyOf_ne_cacheKeyOf _ _ _)] at hitem
    obtain ⟨object, hobject, hlists⟩ := h kind' item hitem hcurrent
    refine ⟨object, hobject, hlists.of_map fun key' => ?_⟩
    rw [hsame (kind', key') (by simp [hkind])]

theorem ListsCached.refreshed (h : store.ListsCached map) (kind : FeatureKind) (key : String)
    (replacement : Json) : (store.replaceItem kind key replacement).ListsCached map := by
  refine h.replaceItem (fun _ _ => rfl) (.inr ?_)
  intro item hitem hcurrent object hobject
  obtain ⟨other, hother, hlists⟩ := h kind item hitem hcurrent
  cases hobject.symm.trans hother
  exact hlists.lookup key

theorem ListsCached.installAll (h : store.ListsCached map) {object : Json}
    (hlists : ListsVisible object map kind) : (store.installAll kind object).ListsCached map := by
  have hsettings : SameSettings store (store.installAll kind object) := sameSettings_addItem _ _ _
  intro kind' item hitem hcurrent
  rw [hsettings.expiration] at hcurrent
  rw [PersistentStoreContext.installAll, entries_addItem] at hitem
  split_ifs at hitem with hkey
  · cases allKeyOf_inj.mp hkey
    rcases List.mem_cons.mp hitem with rfl | hitem
    · exact ⟨object, rfl, hlists⟩
    · exact h kind item hitem hcurrent
  · exact h kind' item hitem hcurrent

theorem ListsCached.of_zero (hzero : store.cacheMilliseconds = 0) (map : ItemMap) :
    store.ListsCached map := by
  intro kind item _ hcurrent
  exact absurd hzero (expiration_eq_current.mp hcurrent).1

theorem ListsCached.rehashed (h : store.ListsCached map) (order : Reordering CacheItem) :
    (store.rehashed order).ListsCached map := by
  intro kind item hitem hcurrent
  exact h kind item ((entries_rehashed order store _).mem_iff.mp hitem) hcurrent

def AllForeignFree (sets : Json) : Prop :=
  ∀ name items, (name, items) ∈ sets.iterFields → (∀ kind, name ≠ featureKindToString kind) →
    ∀ key item, (key, item) ∈ items.iterFields →
      ∀ kind, featureStoreCacheKey name key ≠ allKeyOf kind

theorem itemEntries_ne_allKey {name : String} {items : Json}
    (hcarries : ∀ key item, (key, item) ∈ items.iterFields → Carries key item)
    (hobject : items.Unique) (hforeign : (∀ kind, name ≠ featureKindToString kind) →
      ∀ key item, (key, item) ∈ items.iterFields →
        ∀ kind, featureStoreCacheKey name key ≠ allKeyOf kind)
    {entry : String × Json} (h : entry ∈ itemEntries name items.getIter) (kind : FeatureKind) :
    entry.1 ≠ allKeyOf kind := by
  obtain ⟨⟨inner, rfl⟩, _⟩ := hobject
  obtain ⟨item, hmem, hentry⟩ := List.mem_filterMap.mp h
  obtain ⟨k, hk, rfl⟩ := Option.map_eq_some_iff.mp hentry
  obtain ⟨⟨k', item'⟩, hinner, rfl⟩ := List.mem_map.mp hmem
  cases (hcarries k' item' hinner).textKey_eq.symm.trans hk
  by_cases hname : ∃ kind', name = featureKindToString kind'
  · obtain ⟨kind', rfl⟩ := hname
    exact (allKeyOf_ne_cacheKeyOf kind kind' k).symm
  · exact hforeign (fun kind' heq => hname ⟨kind', heq⟩) k _ hinner kind

theorem filter_setEntries_allKey {fields : List (String × Json)}
    (h : ∀ field ∈ fields, ∀ entry ∈ itemEntries field.1 field.2.getIter, entry.1 ≠ allKeyOf kind) :
    (setEntries fields).filter (fun entry => entry.1 = allKeyOf kind) =
      (fields.filter fun field => field.1 = featureKindToString kind).map fun field =>
        (allKeyOf kind, field.2) := by
  induction fields with
  | nil => rfl
  | cons field fields ih =>
      have hitems : (itemEntries field.1 field.2.getIter).filter
          (fun entry => entry.1 = allKeyOf kind) = [] := by
        rw [List.filter_eq_nil_iff]
        intro entry hentry
        simpa using h field (by simp) entry hentry
      have hrest := ih fun other hother => h other (by simp [hother])
      rw [setEntries_cons, List.filter_append, hrest]
      by_cases hname : field.1 = featureKindToString kind
      · rw [List.filter_cons_of_pos (by simp [hname, allKeyOf]), hitems,
          List.filter_cons_of_pos (by simpa using hname), hname]
        rfl
      · have hkey : featureStoreAllCacheKey field.1 ≠ allKeyOf kind :=
          fun heq => hname (featureStoreAllCacheKey_inj.mp heq)
        rw [List.filter_cons_of_neg (by simpa using hkey), hitems,
          List.filter_cons_of_neg (by simpa using hname)]
        rfl

theorem filter_of_nodup {fields : List (String × Json)} (h : (fields.map Prod.fst).Nodup)
    (name : String) : fields.filter (fun field => field.1 = name) =
      (fields.lookup name).toList.map fun items => (name, items) := by
  induction fields with
  | nil => rfl
  | cons field fields ih =>
      obtain ⟨k, v⟩ := field
      rw [List.map_cons, List.nodup_cons] at h
      rw [List.lookup_cons]
      by_cases hk : k = name
      · subst hk
        have hnone : fields.filter (fun field => field.1 = k) = [] := by
          rw [List.filter_eq_nil_iff]
          intro other hother
          have hne : other.1 ≠ k := fun heq => h.1 (List.mem_map.mpr ⟨other, hother, heq⟩)
          simpa using hne
        rw [List.filter_cons_of_pos (by simp), hnone, beq_self_eq_true]
        rfl
      · rw [List.filter_cons_of_neg (by simpa using hk), beq_false_of_ne (Ne.symm hk)]
        exact ih h.2

theorem entries_allKey_memoryInit {fields : List (String × Json)}
    (hsets : WellFormedSets (.object fields)) (hforeign : AllForeignFree (.object fields))
    (h : memoryInit (.object fields) store = .ok next) (kind : FeatureKind) :
    next.entries (allKeyOf kind) = (fields.lookup (featureKindToString kind)).toList.map fun items =>
      ⟨allKeyOf kind, some items, store.now⟩ := by
  have hkeys : ∀ field ∈ fields, ∀ entry ∈ itemEntries field.1 field.2.getIter,
      entry.1 ≠ allKeyOf kind := by
    intro field hfield entry hentry
    obtain ⟨hunique, hcarries⟩ := hsets.items field.1 field.2 hfield
    exact itemEntries_ne_allKey hcarries hunique (hforeign field.1 field.2 hfield) hentry kind
  rw [entries_memoryInit h]
  change (((setEntries fields).filter _).map _).reverse = _
  have hnames : (fields.map Prod.fst).Nodup := hsets.unique.keys
  rw [filter_setEntries_allKey hkeys, filter_of_nodup hnames]
  cases fields.lookup (featureKindToString kind) <;> rfl

theorem lookup_eq_visible {fields : List (String × Json)} {items : Json}
    (hlookup : fields.lookup (featureKindToString kind) = some items)
    (hlive : ∀ index item, heldBy (.object fields) index = some item → isDataDeleted item = false)
    (key : String) :
    items.objectLookup key = (heldBy (.object fields) (kind, key)).bind visible := by
  have hheld : heldBy (.object fields) (kind, key) = items.objectLookup key := by
    rw [heldBy, Json.objectLookup, hlookup]
    rfl
  rw [hheld]
  cases hitem : items.objectLookup key with
  | none => rfl
  | some item =>
      have hnot := hlive (kind, key) item (hheld.trans hitem)
      exact (visible_eq_some.mpr ⟨hnot, rfl⟩).symm

theorem listsCached_memoryInit {sets : Json} (hsets : WellFormedSets sets)
    (hforeign : AllForeignFree sets)
    (hlive : ∀ index item, heldBy sets index = some item → isDataDeleted item = false)
    (h : memoryInit sets store = .ok next) : next.ListsCached (heldBy sets) := by
  obtain ⟨fields, rfl⟩ := hsets.unique.object
  intro kind item hitem _
  rw [entries_allKey_memoryInit hsets hforeign h] at hitem
  cases hlookup : fields.lookup (featureKindToString kind) with
  | none =>
      rw [hlookup] at hitem
      cases hitem
  | some items =>
      rw [hlookup] at hitem
      cases List.mem_singleton.mp hitem
      obtain ⟨hunique, _⟩ := hsets.valid.items kind items hlookup
      exact ⟨items, rfl, hunique, lookup_eq_visible hlookup hlive⟩

theorem visible_newer_of_kept {item : Json} (h : store.CachedMirrors map)
    (hkept : store.Kept kind key item)
    (hafter : store.CachedMirrors
      (VersionedMap.apply getDataVersion map (.offer (kind, key) item)))
    (index : FeatureKind × String) :
    (VersionedMap.apply getDataVersion map (.offer (kind, key) item) index).bind visible =
      (map index).bind visible := by
  by_cases hindex : index = (kind, key)
  · subst hindex
    obtain ⟨found, current, hfound, hcurrent, _⟩ := hkept.held
    obtain ⟨feature, hfeature, hmirrors⟩ := h kind key found hfound
    obtain ⟨feature', hfeature', hmirrors'⟩ := hafter kind key found hfound
    cases hfeature.symm.trans hfeature'
    exact hmirrors'.visible.symm.trans hmirrors.visible
  · rw [VersionedMap.apply_offer_of_ne hindex]

theorem ListsCached.query (h : store.ListsCached map) :
    store.storeInitialized.2.ListsCached map := by
  rcases storeInitialized_cases store with ⟨_, _, hpair⟩ | ⟨_, hpair⟩
  · rw [hpair]
    exact h
  · rw [hpair]
    refine h.of_same (fun _ => rfl) (fun item => expiration_queryAndUpdate item) ?_
    intro kind
    exact entries_queryAndUpdate (featureStoreAllCacheKey_ne_initCheckedKey _)

theorem ListsCached.tick (h : store.ListsCached map) (time : Rat) :
    (store.tick time).ListsCached map := by
  intro kind item hitem hcurrent
  exact h kind item hitem (current_of_tick hcurrent)

section Agreement

variable [Parsing] {holds : β → BackendContent}

structure SafeLists (holds : β → BackendContent) (store : PersistentStoreContext β)
    (kind : FeatureKind) (key : String) (item : Json) : Prop where
  shown : ¬store.Kept kind key item → 1 < (store.entries (allKeyOf kind)).length →
    ∀ entry ∈ store.entries (allKeyOf kind), store.getExpirationState entry = .current →
      ∀ object, entry.feature = some object → object.objectLookup key =
        (VersionedMap.newer getDataVersion (decodedItem (holds store.backend) kind key) item).bind
          visible

def ListsStayInStep (holds : β → BackendContent) (store : PersistentStoreContext β) :
    WrapperCall → Prop
  | .init sets => (∃ offered, store.offerSets sets = .ok (true, offered)) →
      store.cacheMilliseconds = 0 ∨ AllForeignFree sets ∧
        ∀ index item, heldBy sets index = some item → isDataDeleted item = false
  | .upsert kind feature => ∀ key, Carries key feature →
      (store.upsertBackend kind key feature).1 = true → store.SafeLists holds kind key feature
  | .remove kind key version =>
      (store.upsertBackend kind key (Store.deletedItem key version)).1 = true →
        store.SafeLists holds kind key (Store.deletedItem key version)
  | _ => True

theorem ListsCached.written (h : store.ListsCached map) (hsynced : store.Synced holds map)
    {item : Json} {status : Bool} (hwritten : store.Written kind key item status next)
    (hsafe : status = true → store.SafeLists holds kind key item)
    (hafter : next.CachedMirrors
      (if status then VersionedMap.apply getDataVersion map (.offer (kind, key) item) else map)) :
    next.ListsCached
      (if status then VersionedMap.apply getDataVersion map (.offer (kind, key) item) else map) := by
  rcases hwritten.cached with ⟨rfl, rfl⟩ | ⟨rfl, hkept, rfl⟩ | ⟨rfl, hkept, rfl⟩
  · exact h.of_same (fun _ => rfl) (fun _ => rfl) fun _ => rfl
  · exact h.of_same (visible_newer_of_kept hsynced.cached hkept hafter) (fun _ => rfl) fun _ => rfl
  · have hoffered : (store.withBackend (store.upsertBackend kind key item).2).ListsCached map :=
      h.of_same (fun _ => rfl) (fun _ => rfl) fun _ => rfl
    refine hoffered.replaceItem (fun _ hindex => VersionedMap.apply_offer_of_ne hindex) ?_
    by_cases hseveral : 1 < (store.entries (allKeyOf kind)).length
    · refine .inr fun entry hentry hcurrent object hobject => ?_
      rw [if_pos rfl, VersionedMap.apply_offer_self, ← hsynced.serializes.decodedItem_eq]
      exact (hsafe rfl).shown hkept hseveral entry hentry hcurrent object hobject
    · exact .inl (not_lt.mp hseveral)

theorem ListsCached.get (h : store.ListsCached map) {answer : Option (Option Json)}
    (hget : store.storeGet kind key = .ok (answer, next)) : next.ListsCached map := by
  rcases storeGet_cases hget with ⟨_, _, _, _, _, rfl⟩ | ⟨_, hcached⟩
  · exact h
  · have hfetched : (store.fetchItem kind key).2.ListsCached map :=
      h.of_same (fun _ => rfl) (fun _ => rfl) fun _ => rfl
    rcases cacheFetched_cases hcached with ⟨_, _, rfl⟩ | ⟨feature, _, _, hupdated⟩
    · exact hfetched
    · obtain ⟨other, _, ⟨_, rfl⟩ | ⟨_, rfl⟩⟩ := upsertMemory_cases hupdated
      · exact hfetched
      · exact hfetched.refreshed kind other feature

theorem ListsCached.all (hconforms : Conforms store.persistentStore holds)
    (h : store.ListsCached map) (hserializes : Serializes (holds store.backend) map)
    {answer : Option (Option Json)} (hall : store.storeAll kind = .ok (answer, next)) :
    next.ListsCached map ∧ ∀ result, answer = some result →
      ∃ object, result = some object ∧ ListsVisible object map kind := by
  rcases storeAll_cases hall with ⟨item, feature, hfind, hfeature, rfl, rfl⟩ | ⟨_, hcached⟩
  · refine ⟨h, ?_⟩
    intro result hresult
    cases hresult
    obtain ⟨hhead, hcurrent⟩ := findCurrent_eq_some.mp hfind
    obtain ⟨object, hobject, hlists⟩ := h kind item (List.mem_of_head? hhead) hcurrent
    cases hfeature.symm.trans hobject
    exact ⟨feature, rfl, hlists⟩
  · have hfetched : (store.fetchAll kind).2.ListsCached map :=
      h.of_same (fun _ => rfl) (fun _ => rfl) fun _ => rfl
    rcases cacheListed_cases hcached with ⟨rfl, rfl, _⟩ | ⟨items, rawItems, hitems, hraw, rfl, rfl⟩
    · exact ⟨hfetched, fun _ hresult => by cases hresult⟩
    · obtain ⟨_, rfl⟩ := collectItems_eq_some hraw
      have hlists := hserializes.lists (hconforms.all _ _ items hitems)
      refine ⟨hfetched.installAll hlists, ?_⟩
      intro result hresult
      cases hresult
      exact ⟨_, rfl, hlists⟩

theorem ListsCached.init (h : store.ListsCached map) {sets : Json} (hsets : WellFormedSets sets)
    {status : Bool} (hinit : store.storeInit sets = .ok (status, next))
    (hstep : status = true → store.cacheMilliseconds = 0 ∨ AllForeignFree sets ∧
      ∀ index item, heldBy sets index = some item → isDataDeleted item = false) :
    next.ListsCached (if status then heldBy sets else map) := by
  obtain ⟨offered, hoffered, hcases⟩ := storeInit_cases hinit
  obtain ⟨collections, _, _, rfl⟩ := offerSets_cases hoffered
  rcases hcases with ⟨rfl, rfl⟩ | ⟨rfl, hmemory⟩
  · exact h.of_same (fun _ => rfl) (fun _ => rfl) fun _ => rfl
  · rcases hstep rfl with hzero | ⟨hforeign, hlive⟩
    · exact .of_zero ((memoryInit_frame hmemory).1.cacheMilliseconds.trans hzero) _
    · exact listsCached_memoryInit hsets hforeign hlive hmemory

theorem ListsCached.perform (hconforms : Conforms store.persistentStore holds)
    (h : store.ListsCached map) (hsynced : store.Synced holds map) {call : WrapperCall}
    (hvalid : ValidItems call) (hstep : store.ListsStayInStep holds call) {answer : Answer}
    (hperform : store.perform call = .ok (answer, next))
    (hafter : next.Synced holds
      ((stepsOf (acknowledge (call, answer))).foldl (VersionedMap.apply getDataVersion) map)) :
    next.ListsCached
      ((stepsOf (acknowledge (call, answer))).foldl (VersionedMap.apply getDataVersion) map) := by
  cases call with
  | init sets =>
      obtain ⟨status, rfl, hinit⟩ := perform_init hperform
      have hoffered : status = true → ∃ offered, store.offerSets sets = .ok (true, offered) := by
        rintro rfl
        obtain ⟨offered, hoffered, _⟩ := storeInit_cases hinit
        exact ⟨offered, hoffered⟩
      rw [acknowledge_init]
      exact h.init hvalid.1 hinit fun htrue => hstep (hoffered htrue)
  | upsert kind feature =>
      rcases perform_upsert hperform with ⟨_, rfl, rfl⟩ | ⟨key, status, rfl, hwritten⟩
      · exact h
      · rw [acknowledge_upsert hwritten.carries] at hafter ⊢
        exact h.written hsynced hwritten
          (fun htrue => hstep key hwritten.carries (hwritten.accepted.symm.trans htrue)) hafter.cached
  | remove kind key version =>
      obtain ⟨status, rfl, hwritten⟩ := perform_remove hperform
      rw [acknowledge_remove] at hafter ⊢
      exact h.written hsynced hwritten
        (fun htrue => hstep (hwritten.accepted.symm.trans htrue)) hafter.cached
  | get kind key =>
      obtain ⟨result, rfl, hget⟩ := perform_get hperform
      exact h.get hget
  | all kind =>
      obtain ⟨result, rfl, hall⟩ := perform_all hperform
      exact (h.all hconforms hsynced.serializes hall).1
  | initialized =>
      obtain ⟨rfl, rfl⟩ := perform_initialized hperform
      exact h.query
  | wait time =>
      cases hperform
      exact h.tick time

def AgreementKept (holds : β → BackendContent) (store : PersistentStoreContext β)
    (call : WrapperCall) : Prop :=
  store.StaysInStep holds call ∧ store.ListsStayInStep holds call

theorem Runs.listsCached {persistentStore : StoreInterface β}
    (hconforms : Conforms persistentStore holds) {backend : β}
    (hempty : holds backend = fun _ _ => none) {cacheMilliseconds : Nat} {now : Rat}
    {trace : List (WrapperCall × Answer)}
    (hrun : Runs (fun store call => ValidItems call ∧ store.AgreementKept holds call)
      (storeCachingWrapperNew persistentStore backend cacheMilliseconds now).context trace store) :
    InSync holds persistentStore trace store ∧ store.ListsCached (mapAfter trace) := by
  refine Runs.induct (P := fun trace store => InSync holds persistentStore trace store ∧
    store.ListsCached (mapAfter trace)) ?_ ?_ ?_ hrun
  · refine ⟨Runs.inSync hconforms hempty .start, ?_⟩
    intro kind item hitem
    cases hitem
  · rintro trace store call answer next ⟨hsync, hlists⟩ ⟨hitems, hstep, hlistsStep⟩ hperform
    have hafter := hsync.perform hconforms hitems hstep hperform
    refine ⟨hafter, ?_⟩
    have hsynced := hafter.synced
    rw [mapAfter_concat] at hsynced ⊢
    exact hlists.perform (hsync.persistentStore ▸ hconforms) hsync.synced hitems hlistsStep hperform
      hsynced
  · rintro trace store order ⟨hsync, hlists⟩
    exact ⟨hsync.rehashed order, hlists.rehashed order⟩

theorem get_and_all_agree {persistentStore : StoreInterface β}
    (hconforms : Conforms persistentStore holds) {backend : β}
    (hempty : holds backend = fun _ _ => none) {cacheMilliseconds : Nat} {now : Rat}
    {trace : List (WrapperCall × Answer)}
    (hrun : Runs (fun store call => ValidItems call ∧ store.AgreementKept holds call)
      (storeCachingWrapperNew persistentStore backend cacheMilliseconds now).context trace store)
    {result answer : Option Json} {afterAll afterGet : Store (PersistentStoreContext β)}
    (hall : store.wrapped.all kind = .ok (some result, afterAll))
    (hget : store.wrapped.get kind key = .ok (some answer, afterGet)) :
    ∃ items, result = some items ∧ items.objectLookup key = answer ∧
      ∀ k item, (k, item) ∈ items.iterFields → isDataDeleted item = false := by
  obtain ⟨hsync, hlists⟩ := hrun.listsCached hconforms hempty
  have hconforms : Conforms store.persistentStore holds := hsync.persistentStore ▸ hconforms
  obtain ⟨_, hall, _⟩ := wrapped_all.mp hall
  obtain ⟨_, hget, _⟩ := wrapped_get.mp hget
  obtain ⟨items, rfl, hvisible⟩ := (hlists.all hconforms hsync.synced.serializes hall).2 result rfl
  have hanswer := (hsync.synced.get hconforms hget).2 answer rfl
  refine ⟨items, rfl, ?_, ?_⟩
  · rw [hvisible.lookup, hanswer]
  · intro k item hitem
    exact hvisible.live hitem

end Agreement

def deletedFlag : Json :=
  .object [("key", .text "a"), ("version", .number 1), ("deleted", .bool true)]

def oneFlagSets (flag : Json) : Json :=
  .object [("features", .object [("a", flag)]), ("segments", .object [])]

theorem oneFlagSets_wellFormed {flag : Json} (h : Carries "a" flag) :
    WellFormedSets (oneFlagSets flag) := by
  refine ⟨⟨⟨_, rfl⟩, (by decide : ["features", "segments"].Nodup)⟩, ?_⟩
  intro name items hfield
  rcases List.mem_cons.mp hfield with heq | hfield
  · cases heq
    refine ⟨⟨⟨_, rfl⟩, List.nodup_singleton "a"⟩, ?_⟩
    intro key item hitem
    cases List.mem_singleton.mp hitem
    exact h
  · cases List.mem_singleton.mp hfield
    refine ⟨Json.unique_empty, ?_⟩
    intro key item hitem
    cases hitem

theorem heldBy_oneFlagSets {flag item : Json} {index : FeatureKind × String}
    (h : heldBy (oneFlagSets flag) index = some item) : item = flag := by
  obtain ⟨kind, key⟩ := index
  cases kind with
  | flag =>
      have hlookup : [("a", flag)].lookup key = some item := h
      rw [List.lookup_cons] at hlookup
      cases hkey : key == "a" with
      | true =>
          rw [hkey] at hlookup
          exact (Option.some.inj hlookup).symm
      | false =>
          rw [hkey] at hlookup
          cases hlookup
  | segment => cases h

theorem oneFlagSets_known {flag : Json} {name : String} {items : Json}
    (h : (name, items) ∈ (oneFlagSets flag).iterFields)
    (hname : ∀ kind, name ≠ featureKindToString kind) : False := by
  rcases List.mem_cons.mp h with heq | h
  · cases heq
    exact hname .flag rfl
  · cases List.mem_singleton.mp h
    exact hname .segment rfl

theorem firstFlag_carries : Carries "a" firstFlag := ⟨rfl, rfl⟩

theorem deletedFlag_carries : Carries "a" deletedFlag := ⟨rfl, rfl⟩

theorem get_and_all_agree_after_init :
    let _ := flagParsing
    let last := (newTableWrapper 30000).reached [.init (oneFlagSets firstFlag), .wait 20000]
    Runs (fun store call => ValidItems call ∧ store.AgreementKept Table.holds call)
      (newTableWrapper 30000) last.1 last.2 ∧
    (∃ after, last.2.wrapped.all .flag = .ok (some (some (.object [("a", firstFlag)])), after)) ∧
    (∃ after, last.2.wrapped.get .flag "a" = .ok (some (some firstFlag), after)) ∧
    ∃ items : Json, some (.object [("a", firstFlag)]) = some items ∧
      items.objectLookup "a" = some firstFlag ∧
      ∀ k item, (k, item) ∈ items.iterFields → isDataDeleted item = false := by
  intro _ last
  have hrun : Runs (fun store call => ValidItems call ∧ store.AgreementKept Table.holds call)
      (newTableWrapper 30000) last.1 last.2 := by
    refine runs_reached ⟨⟨⟨oneFlagSets_wellFormed firstFlag_carries, ?_⟩, ?_, ?_⟩,
      ⟨trivial, trivial, trivial⟩, trivial⟩ (by decide +kernel)
    · intro index item hitem
      rw [heldBy_oneFlagSets hitem]
      exact firstFlag_storable
    · intro _
      exact .inr fun name items hfield hname => (oneFlagSets_known hfield hname).elim
    · intro _
      refine .inr ⟨fun name items hfield hname => (oneFlagSets_known hfield hname).elim, ?_⟩
      intro index item hitem
      rw [heldBy_oneFlagSets hitem]
      rfl
  obtain ⟨afterAll, hall⟩ : ∃ after, last.2.wrapped.all .flag =
      .ok (some (some (.object [("a", firstFlag)])), after) :=
    Checked.exists_of_value (by decide +kernel)
  obtain ⟨afterGet, hget⟩ : ∃ after, last.2.wrapped.get .flag "a" =
      .ok (some (some firstFlag), after) := Checked.exists_of_value (by decide +kernel)
  exact ⟨hrun, ⟨afterAll, hall⟩, ⟨afterGet, hget⟩,
    get_and_all_agree Table.conforms Table.holds_empty hrun hall hget⟩

theorem deleted_item_listed : ¬ ∀ [Parsing] (β : Type) (persistentStore : StoreInterface β)
    (holds : β → BackendContent), Conforms persistentStore holds → ∀ (backend : β),
    holds backend = (fun _ _ => none) → ∀ (cacheMilliseconds : Nat) (now : Rat)
    (trace : List (WrapperCall × Answer)) (store : PersistentStoreContext β),
    Runs (fun _ call => ValidItems call)
      (storeCachingWrapperNew persistentStore backend cacheMilliseconds now).context trace store →
    ∀ (kind : FeatureKind) (key : String) (result answer : Option Json)
      (afterAll afterGet : Store (PersistentStoreContext β)),
      store.wrapped.all kind = .ok (some result, afterAll) →
      store.wrapped.get kind key = .ok (some answer, afterGet) →
      ∃ items, result = some items ∧ items.objectLookup key = answer ∧
        ∀ k item, (k, item) ∈ items.iterFields → isDataDeleted item = false := by
  intro hclaim
  let _ := literalParsing [deletedFlag]
  have hrun : Runs (fun _ call => ValidItems call) (newTableWrapper 30000)
      ((newTableWrapper 30000).reached [.init (oneFlagSets deletedFlag)]).1
      ((newTableWrapper 30000).reached [.init (oneFlagSets deletedFlag)]).2 := by
    refine runs_reached ⟨⟨oneFlagSets_wellFormed deletedFlag_carries, ?_⟩, trivial⟩
      (by decide +kernel)
    intro index item hitem
    rw [heldBy_oneFlagSets hitem]
    exact (rfl : _ = some deletedFlag)
  obtain ⟨afterAll, hall⟩ : ∃ after,
      ((newTableWrapper 30000).reached [.init (oneFlagSets deletedFlag)]).2.wrapped.all .flag =
        .ok (some (some (.object [("a", deletedFlag)])), after) :=
    Checked.exists_of_value (by decide +kernel)
  obtain ⟨afterGet, hget⟩ : ∃ after,
      ((newTableWrapper 30000).reached [.init (oneFlagSets deletedFlag)]).2.wrapped.get .flag "a" =
        .ok (some none, after) := Checked.exists_of_value (by decide +kernel)
  obtain ⟨items, hitems, hlookup, _⟩ := hclaim Table Table.interface Table.holds Table.conforms
    Table.empty Table.holds_empty 30000 0 _ _ hrun .flag "a" _ _ _ _ hall hget
  cases hitems
  cases hlookup

end PersistentStoreContext

end ServerSdk
