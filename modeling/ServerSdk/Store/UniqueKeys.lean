import ServerSdk.Store.Calls

namespace ServerSdk

open Program

namespace PersistentStoreContext

variable {β : Type} {store next : PersistentStoreContext β} {kind : FeatureKind} {key : String}

def Single (store : PersistentStoreContext β) : Prop := ∀ k, (store.entries k).length ≤ 1

theorem single_iff : store.Single ↔ store.cache.UniqueKeys :=
  MemoryContext.uniqueKeys_iff.symm

theorem Single.removeItem (h : store.Single) (key : String) : (store.removeItem key).Single := by
  intro k
  rw [entries_removeItem]
  split_ifs
  · rw [tail_eq_nil (h k)]
    simp
  · exact h k

theorem Single.addItem (h : store.Single) {feature : Option Json} (hfree : store.entries key = []) :
    (store.addItem key feature).Single := by
  intro k
  rw [entries_addItem]
  split_ifs with hkey
  · subst hkey
    rw [hfree]
    simp
  · exact h k

theorem Single.entries_removeItem (h : store.Single) (key : String) :
    (store.removeItem key).entries key = [] := by
  rw [PersistentStoreContext.entries_removeItem, if_pos rfl]
  exact tail_eq_nil (h key)

theorem Single.replaceItem (h : store.Single) (kind : FeatureKind) (key : String)
    (replacement : Json) : (store.replaceItem kind key replacement).Single :=
  ((h.removeItem _).removeItem _).addItem ((h.removeItem _).entries_removeItem _)

theorem Single.upsertMemory (h : store.Single) {replacement : Json}
    (hupdated : store.upsertMemory kind replacement = .ok next) : next.Single := by
  obtain ⟨key, _, ⟨_, rfl⟩ | ⟨_, rfl⟩⟩ := upsertMemory_cases hupdated
  · exact h
  · exact h.replaceItem kind key replacement

theorem Single.query (h : store.Single) : store.queryAndUpdateInitialization.2.Single := by
  intro k
  by_cases hkey : k = initCheckedKey
  · subst hkey
    rw [entries_queryAndUpdate_initChecked, tail_eq_nil (h _), List.append_nil]
    split_ifs <;> simp
  · rw [entries_queryAndUpdate hkey]
    exact h k

theorem Single.initialized (h : store.Single) : store.storeInitialized.2.Single := by
  rcases storeInitialized_cases store with ⟨initialized, _, hquick⟩ | ⟨_, hasked⟩
  · rw [hquick]
    exact h
  · rw [hasked]
    exact h.query

theorem single_memoryInit {sets : Json} (h : memoryInit sets store = .ok next)
    (hkeys : ((setEntries sets.iterFields).map Prod.fst).Nodup) : next.Single := by
  intro k
  have hcount : ((setEntries sets.iterFields).filter fun entry => entry.1 = k).length =
      ((setEntries sets.iterFields).map Prod.fst).count k := by
    rw [← List.countP_eq_length_filter, List.count, List.countP_map]
    congr 1
  rw [entries_memoryInit h, List.length_reverse, List.length_map, hcount]
  exact List.nodup_iff_count_le_one.mp hkeys k

theorem Single.cacheFetched (h : store.Single) {fetched : Option Json}
    {answer : Option (Option Json)} (hcached : store.cacheFetched kind fetched = .ok (answer, next)) :
    next.Single := by
  rcases cacheFetched_cases hcached with ⟨_, _, rfl⟩ | ⟨feature, _, _, hupdated⟩
  · exact h
  · exact h.upsertMemory hupdated

theorem Single.rehashed (h : store.Single) (order : Reordering CacheItem) :
    (store.rehashed order).Single := by
  intro k
  rw [(entries_rehashed order store k).length_eq]
  exact h k

section Runs

variable [Parsing]

theorem Single.written (h : store.Single) {item : Json} {status : Bool}
    (hwritten : store.Written kind key item status next) : next.Single := by
  have hoffered : (store.withBackend (store.upsertBackend kind key item).2).Single := h
  rcases hwritten.cached with ⟨_, rfl⟩ | ⟨_, _, rfl⟩ | ⟨_, _, rfl⟩
  · exact hoffered
  · exact hoffered
  · exact hoffered.replaceItem kind key item

def Duplicates (store : PersistentStoreContext β) : WrapperCall → Prop
  | .all kind => store.findCurrent (allKeyOf kind) = none ∧ store.entries (allKeyOf kind) ≠ [] ∧
      ∃ items rawItems, (store.fetchAll kind).1 = some items ∧
        collectItems items (.object []) = .ok (some rawItems)
  | .init sets => ¬((setEntries sets.iterFields).map Prod.fst).Nodup ∧
      ∃ offered, store.offerSets sets = .ok (true, offered)
  | _ => False

theorem Single.perform (h : store.Single) {call : WrapperCall} {answer : Answer}
    (hallowed : ¬store.Duplicates call) (hperform : store.perform call = .ok (answer, next)) :
    next.Single := by
  cases call with
  | init sets =>
      obtain ⟨status, _, hinit⟩ := perform_init hperform
      obtain ⟨offered, hoffered, ⟨_, rfl⟩ | ⟨rfl, hmemory⟩⟩ := storeInit_cases hinit
      · obtain ⟨collections, _, _, rfl⟩ := offerSets_cases hoffered
        exact h
      · refine single_memoryInit hmemory ?_
        by_contra hkeys
        exact hallowed ⟨hkeys, offered, hoffered⟩
  | upsert kind feature =>
      rcases perform_upsert hperform with ⟨_, _, rfl⟩ | ⟨key, status, _, hwritten⟩
      · exact h
      · exact h.written hwritten
  | remove kind key version =>
      obtain ⟨status, _, hwritten⟩ := perform_remove hperform
      exact h.written hwritten
  | get kind key =>
      obtain ⟨result, _, hget⟩ := perform_get hperform
      rcases storeGet_cases hget with ⟨item, feature, _, _, _, rfl⟩ | ⟨_, hcached⟩
      · exact h
      · have hfetched : (store.fetchItem kind key).2.Single := h
        exact hfetched.cacheFetched hcached
  | all kind =>
      obtain ⟨result, _, hall⟩ := perform_all hperform
      rcases storeAll_cases hall with ⟨item, feature, _, _, _, rfl⟩ | ⟨hmissed, hcached⟩
      · exact h
      · have hfetched : (store.fetchAll kind).2.Single := h
        rcases cacheListed_cases hcached with ⟨_, rfl, _⟩ | ⟨items, rawItems, hitems, hraw, _, rfl⟩
        · exact hfetched
        · refine hfetched.addItem ?_
          by_contra hcachedItem
          exact hallowed ⟨hmissed, hcachedItem, items, rawItems, hitems, hraw⟩
  | initialized =>
      obtain ⟨_, rfl⟩ := perform_initialized hperform
      exact h.initialized
  | wait time =>
      cases hperform
      exact h

theorem cache_keys_unique {persistentStore : StoreInterface β} {backend : β}
    {cacheMilliseconds : Nat} {now : Rat} {trace : List (WrapperCall × Answer)}
    (hrun : Runs (fun store call => ¬store.Duplicates call)
      (storeCachingWrapperNew persistentStore backend cacheMilliseconds now).context trace store) :
    store.cache.UniqueKeys ∧
      (∀ name, (store.entries (featureStoreAllCacheKey name)).length ≤ 1) ∧
      (store.entries initCheckedKey).length ≤ 1 := by
  have hsingle : store.Single := by
    refine Runs.induct (P := fun _ store => store.Single) ?_ ?_ ?_ hrun
    · intro k
      exact Nat.zero_le 1
    · intro _ _ _ _ _ hsingle hallowed hperform
      exact hsingle.perform hallowed hperform
    · intro _ _ order hsingle
      exact hsingle.rehashed order
  exact ⟨single_iff.mp hsingle, fun name => hsingle _, hsingle _⟩

end Runs

def mixedCalls : List WrapperCall := [.initialized, .all .flag, .get .flag "a", .all .flag]

theorem cache_keys_unique_mixedCalls :
    let _ := literalParsing []
    let last := (newTableWrapper 30000).reached mixedCalls
    Runs (fun store call => ¬store.Duplicates call) (newTableWrapper 30000) last.1 last.2 ∧
      last.2.cache.UniqueKeys ∧
      (∀ name, (last.2.entries (featureStoreAllCacheKey name)).length ≤ 1) ∧
      (last.2.entries initCheckedKey).length ≤ 1 := by
  intro _ last
  have hrun : Runs (fun store call => ¬store.Duplicates call) (newTableWrapper 30000)
      last.1 last.2 := by
    refine runs_reached ⟨id, ?_, id, ?_, trivial⟩ ⟨_, rfl⟩
    · rintro ⟨_, hcached, _⟩
      exact hcached rfl
    · rintro ⟨_, hcached, _⟩
      exact hcached (by decide +kernel)
  exact ⟨hrun, cache_keys_unique hrun⟩

theorem all_items_duplicated : ¬ ∀ [Parsing] (β : Type) (persistentStore : StoreInterface β)
    (backend : β) (cacheMilliseconds : Nat) (now : Rat) (trace : List (WrapperCall × Answer))
    (store : PersistentStoreContext β), Runs (fun _ _ => True)
      (storeCachingWrapperNew persistentStore backend cacheMilliseconds now).context trace store →
    store.cache.UniqueKeys := by
  intro hclaim
  let _ := literalParsing []
  have hrun := runs_reached (allowedAlong_of_forall (fun _ _ => trivial) [.all .flag, .all .flag]
    (newTableWrapper 0)) ⟨_, rfl⟩
  have hunique := hclaim Table Table.interface Table.empty 0 0 _ _ hrun
  revert hunique
  decide

end PersistentStoreContext

end ServerSdk
