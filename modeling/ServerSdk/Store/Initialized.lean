import ServerSdk.Store.Calls

namespace ServerSdk

open Program

namespace PersistentStoreContext

variable {β : Type} {store next : PersistentStoreContext β} {kind : FeatureKind} {key : String}

def sentinels (store : PersistentStoreContext β) : List CacheItem := store.entries initCheckedKey

theorem sentinels_addItem {feature : Option Json} (h : key ≠ initCheckedKey) :
    (store.addItem key feature).sentinels = store.sentinels := by
  rw [sentinels, entries_addItem, if_neg h]
  rfl

theorem sentinels_replaceItem (kind : FeatureKind) (key : String) (replacement : Json)
    (store : PersistentStoreContext β) :
    (store.replaceItem kind key replacement).sentinels = store.sentinels :=
  entries_replaceItem_of_ne (featureStoreAllCacheKey_ne_initCheckedKey _).symm
    (featureStoreCacheKey_ne_initCheckedKey _ _).symm

theorem setEntries_ne_initCheckedKey {fields : List (String × Json)} {entry : String × Json}
    (h : entry ∈ setEntries fields) : entry.1 ≠ initCheckedKey := by
  obtain ⟨field, _, hentry⟩ := List.mem_flatMap.mp h
  rcases List.mem_cons.mp hentry with rfl | hitem
  · exact featureStoreAllCacheKey_ne_initCheckedKey _
  · obtain ⟨item, _, hitem⟩ := List.mem_filterMap.mp hitem
    obtain ⟨key, _, rfl⟩ := Option.map_eq_some_iff.mp hitem
    exact featureStoreCacheKey_ne_initCheckedKey _ _

theorem sentinels_memoryInit {sets : Json} (h : memoryInit sets store = .ok next) :
    next.sentinels = [] := by
  have hnone : (setEntries sets.iterFields).filter (fun entry => entry.1 = initCheckedKey) = [] := by
    rw [List.filter_eq_nil_iff]
    intro entry hentry
    simpa using setEntries_ne_initCheckedKey hentry
  rw [sentinels, entries_memoryInit h, hnone]
  rfl

structure KeepsStatus (store next : PersistentStoreContext β) : Prop where
  sentinels : next.sentinels = store.sentinels
  initialized : next.cache.initialized = store.cache.initialized

theorem KeepsStatus.refl (store : PersistentStoreContext β) : KeepsStatus store store :=
  ⟨rfl, rfl⟩

theorem keepsStatus_replaceItem (backend : β) (kind : FeatureKind) (key : String)
    (replacement : Json) (store : PersistentStoreContext β) :
    KeepsStatus store ((store.withBackend backend).replaceItem kind key replacement) :=
  ⟨sentinels_replaceItem kind key replacement _,
    (sameSettings_replaceItem kind key replacement (store.withBackend backend)).initialized⟩

def asked (store : PersistentStoreContext β) : WrapperCall → Option Bool
  | .initialized =>
      if store.quickCheckInitialization.isSome then none else some store.askInitialized.1
  | _ => none

structure Watch where
  call : WrapperCall
  answer : Answer
  asked : Option Bool
  time : Rat

structure Reflects (history : List Watch) (store : PersistentStoreContext β) : Prop where
  latch : store.cache.initialized = true ↔ ∃ watch ∈ history, watch.asked = some true
  sentinel : ∀ item ∈ store.sentinels,
    ∃ watch ∈ history, watch.asked = some false ∧ watch.time = item.updatedOn
  answered : store.cache.initialized = true ↔
    ∃ watch ∈ history, watch.call = .initialized ∧ watch.answer = .status true

theorem exists_mem_concat {history : List Watch} {last : Watch} {p : Watch → Prop}
    (h : ¬p last) : (∃ watch ∈ history ++ [last], p watch) ↔ ∃ watch ∈ history, p watch := by
  constructor
  · rintro ⟨watch, hmem, hp⟩
    rcases List.mem_append.mp hmem with hmem | hmem
    · exact ⟨watch, hmem, hp⟩
    · rw [List.mem_singleton.mp hmem] at hp
      exact absurd hp h
  · rintro ⟨watch, hmem, hp⟩
    exact ⟨watch, List.mem_append_left _ hmem, hp⟩

theorem Reflects.quiet {history : List Watch} (h : Reflects history store) {last : Watch}
    (hasked : last.asked = none)
    (hlast : last.call = .initialized → last.answer = .status true →
      store.cache.initialized = true)
    (hlatch : next.cache.initialized = store.cache.initialized)
    (hsentinels : ∀ item ∈ next.sentinels, item ∈ store.sentinels) :
    Reflects (history ++ [last]) next := by
  refine ⟨?_, ?_, ?_⟩
  · rw [hlatch, exists_mem_concat (by simp [hasked])]
    exact h.latch
  · intro item hitem
    obtain ⟨watch, hmem, hwatch⟩ := h.sentinel item (hsentinels item hitem)
    exact ⟨watch, List.mem_append_left _ hmem, hwatch⟩
  · rw [hlatch]
    constructor
    · intro hlatched
      obtain ⟨watch, hmem, hwatch⟩ := h.answered.mp hlatched
      exact ⟨watch, List.mem_append_left _ hmem, hwatch⟩
    · rintro ⟨watch, hmem, hcall, hanswer⟩
      rcases List.mem_append.mp hmem with hmem | hmem
      · exact h.answered.mpr ⟨watch, hmem, hcall, hanswer⟩
      · rw [List.mem_singleton.mp hmem] at hcall hanswer
        exact hlast hcall hanswer

theorem Reflects.kept {history : List Watch} (h : Reflects history store) {call : WrapperCall}
    {answer : Answer} {time : Rat} (hcall : call ≠ .initialized) (hkeeps : KeepsStatus store next) :
    Reflects (history ++ [⟨call, answer, none, time⟩]) next := by
  refine h.quiet rfl (fun heq => absurd heq hcall) hkeeps.initialized ?_
  intro item hitem
  rw [← hkeeps.sentinels]
  exact hitem

theorem asked_of_quick {initialized : Bool}
    (h : store.quickCheckInitialization = some initialized) : store.asked .initialized = none := by
  rw [asked, h]
  rfl

theorem asked_of_missed (h : store.quickCheckInitialization = none) :
    store.asked .initialized = some store.askInitialized.1 := by
  rw [asked, h]
  rfl

theorem quickCheck_eq_true (h : store.cache.initialized = true) :
    store.quickCheckInitialization = some true := by
  rw [quickCheckInitialization, if_pos h]

theorem quickCheck_eq_none (hlatch : store.cache.initialized = false)
    (hsentinels : ∀ item ∈ store.sentinels, store.cacheMilliseconds = 0 ∨
      store.cacheMilliseconds < store.now - item.updatedOn) :
    store.quickCheckInitialization = none := by
  have hexpired : store.cacheContainsUnexpired initCheckedKey = false := by
    rw [cacheContainsUnexpired, MemoryContext.getCollectionItem_eq]
    split_ifs with hzero
    · rfl
    · cases hhead : (store.cache.entries initCheckedKey).head? with
      | none => rfl
      | some item =>
          rcases hsentinels item (List.mem_of_head? hhead) with h | h
          · exact absurd h hzero
          · simpa using h
  rw [quickCheckInitialization, hlatch, hexpired]
  rfl

theorem storeInitialized_eq_true
    (hquick : store.cache.initialized = false → store.quickCheckInitialization = none)
    (hasked : store.askInitialized.1 = true) : store.storeInitialized.1 = true := by
  cases hlatch : store.cache.initialized with
  | true => rw [storeInitialized_of_quick (quickCheck_eq_true hlatch)]
  | false => rw [storeInitialized_of_asked (hquick hlatch), queryAndUpdate_of_true hasked]

theorem initialized_of_quickCheck_true (h : store.quickCheckInitialization = some true) :
    store.cache.initialized = true := by
  rw [quickCheckInitialization] at h
  split_ifs at h with hlatch
  · exact hlatch
  · cases h

theorem Reflects.query {history : List Watch} (h : Reflects history store)
    (hquick : store.quickCheckInitialization = none) :
    Reflects (history ++ [⟨.initialized, .status store.queryAndUpdateInitialization.1,
      some store.askInitialized.1, store.now⟩]) store.queryAndUpdateInitialization.2 := by
  have hlatch : store.cache.initialized = false := by
    cases hlatch : store.cache.initialized with
    | true =>
        rw [quickCheck_eq_true hlatch] at hquick
        cases hquick
    | false => rfl
  have hold : ∀ watch ∈ history, watch.asked ≠ some true := by
    intro watch hmem hasked
    rw [h.latch.mpr ⟨watch, hmem, hasked⟩] at hlatch
    cases hlatch
  have holdSentinel : ∀ item ∈ store.sentinels.tail, ∃ watch ∈ history ++
      [⟨.initialized, .status store.queryAndUpdateInitialization.1, some store.askInitialized.1,
        store.now⟩], watch.asked = some false ∧ watch.time = item.updatedOn := by
    intro item hitem
    obtain ⟨watch, hmem, hwatch⟩ := h.sentinel item (List.mem_of_mem_tail hitem)
    exact ⟨watch, List.mem_append_left _ hmem, hwatch⟩
  have hentries : store.queryAndUpdateInitialization.2.sentinels = _ :=
    entries_queryAndUpdate_initChecked
  cases hasked : store.askInitialized.1 with
  | true =>
      rw [hasked] at holdSentinel hentries
      have hlatched : store.queryAndUpdateInitialization.2.cache.initialized = true := by
        rw [queryAndUpdate_of_true hasked]
      have hanswer : store.queryAndUpdateInitialization.1 = true := by
        rw [queryAndUpdate_of_true hasked]
      refine ⟨?_, ?_, ?_⟩
      · exact iff_of_true hlatched ⟨_, List.mem_append_right _ (List.mem_singleton.mpr rfl), rfl⟩
      · intro item hitem
        rw [hentries] at hitem
        exact holdSentinel item hitem
      · refine iff_of_true hlatched ⟨_, List.mem_append_right _ (List.mem_singleton.mpr rfl), rfl, ?_⟩
        rw [hanswer]
  | false =>
      rw [hasked] at holdSentinel hentries
      have hunlatched : store.queryAndUpdateInitialization.2.cache.initialized = false := by
        rw [queryAndUpdate_of_false hasked, (sameSettings_addItem _ _ _).initialized]
        exact (MemoryContext.initialized_findAndRemove store.cache _).trans hlatch
      refine ⟨?_, ?_, ?_⟩
      · rw [exists_mem_concat (by simp), hunlatched]
        refine iff_of_false (by simp) ?_
        rintro ⟨watch, hmem, hwatch⟩
        exact hold watch hmem hwatch
      · intro item hitem
        rw [hentries] at hitem
        rcases List.mem_append.mp hitem with hitem | hitem
        · cases List.mem_singleton.mp hitem
          exact ⟨_, List.mem_append_right _ (List.mem_singleton.mpr rfl), rfl, rfl⟩
        · exact holdSentinel item hitem
      · rw [exists_mem_concat (by simp [queryAndUpdate_of_false hasked]), hunlatched, ← hlatch]
        exact h.answered

section Watching

variable [Parsing]

theorem keepsStatus_written {item : Json} {status : Bool}
    (h : store.Written kind key item status next) : KeepsStatus store next := by
  rcases h.cached with ⟨_, rfl⟩ | ⟨_, _, rfl⟩ | ⟨_, _, rfl⟩
  · exact ⟨rfl, rfl⟩
  · exact ⟨rfl, rfl⟩
  · exact keepsStatus_replaceItem _ kind key item store

theorem keepsStatus_get {result : Option (Option Json)}
    (h : store.storeGet kind key = .ok (result, next)) : KeepsStatus store next := by
  rcases storeGet_cases h with ⟨_, _, _, _, _, rfl⟩ | ⟨_, hcached⟩
  · exact .refl _
  · rcases cacheFetched_cases hcached with ⟨_, _, rfl⟩ | ⟨feature, _, _, hupdated⟩
    · exact ⟨rfl, rfl⟩
    · obtain ⟨other, _, ⟨_, rfl⟩ | ⟨_, rfl⟩⟩ := upsertMemory_cases hupdated
      · exact ⟨rfl, rfl⟩
      · exact keepsStatus_replaceItem _ kind other feature store

theorem keepsStatus_all {result : Option (Option Json)}
    (h : store.storeAll kind = .ok (result, next)) : KeepsStatus store next := by
  rcases storeAll_cases h with ⟨_, _, _, _, _, rfl⟩ | ⟨_, hcached⟩
  · exact .refl _
  · rcases cacheListed_cases hcached with ⟨_, rfl, _⟩ | ⟨_, _, _, _, _, rfl⟩
    · exact ⟨rfl, rfl⟩
    · exact ⟨sentinels_addItem (featureStoreAllCacheKey_ne_initCheckedKey _), rfl⟩

theorem storeInit_status {sets : Json} {status : Bool}
    (h : store.storeInit sets = .ok (status, next)) :
    next.sentinels = (if status then [] else store.sentinels) ∧
      next.cache.initialized = store.cache.initialized := by
  obtain ⟨offered, hoffered, hcases⟩ := storeInit_cases h
  obtain ⟨collections, _, _, rfl⟩ := offerSets_cases hoffered
  rcases hcases with ⟨rfl, rfl⟩ | ⟨rfl, hmemory⟩
  · exact ⟨rfl, rfl⟩
  · obtain ⟨hsettings, _⟩ := memoryInit_frame hmemory
    exact ⟨sentinels_memoryInit hmemory, hsettings.initialized⟩

inductive Watched (start : PersistentStoreContext β) :
    List Watch → PersistentStoreContext β → Prop
  | start : Watched start [] start
  | step {history : List Watch} {store next : PersistentStoreContext β} {call : WrapperCall}
      {answer : Answer} : Watched start history store →
      store.perform call = .ok (answer, next) →
      Watched start (history ++ [⟨call, answer, store.asked call, store.now⟩]) next

theorem Reflects.perform {history : List Watch} (h : Reflects history store) {call : WrapperCall}
    {answer : Answer} (hperform : store.perform call = .ok (answer, next)) :
    Reflects (history ++ [⟨call, answer, store.asked call, store.now⟩]) next := by
  cases call with
  | init sets =>
      obtain ⟨status, rfl, hinit⟩ := perform_init hperform
      obtain ⟨hsentinels, hlatch⟩ := storeInit_status hinit
      refine h.quiet rfl (fun heq => by cases heq) hlatch ?_
      intro item hitem
      rw [hsentinels] at hitem
      split_ifs at hitem
      · cases hitem
      · exact hitem
  | upsert kind feature =>
      rcases perform_upsert hperform with ⟨_, rfl, rfl⟩ | ⟨key, status, rfl, hwritten⟩
      · exact h.kept (by simp) (.refl _)
      · exact h.kept (by simp) (keepsStatus_written hwritten)
  | remove kind key version =>
      obtain ⟨status, rfl, hwritten⟩ := perform_remove hperform
      exact h.kept (by simp) (keepsStatus_written hwritten)
  | get kind key =>
      obtain ⟨result, rfl, hget⟩ := perform_get hperform
      exact h.kept (by simp) (keepsStatus_get hget)
  | all kind =>
      obtain ⟨result, rfl, hall⟩ := perform_all hperform
      exact h.kept (by simp) (keepsStatus_all hall)
  | initialized =>
      obtain ⟨rfl, rfl⟩ := perform_initialized hperform
      rcases storeInitialized_cases store with ⟨initialized, hquick, hpair⟩ | ⟨hquick, hpair⟩
      · rw [hpair, asked_of_quick hquick]
        refine h.quiet rfl ?_ rfl (fun _ hitem => hitem)
        rintro - hanswer
        cases hanswer
        exact initialized_of_quickCheck_true hquick
      · rw [hpair, asked_of_missed hquick]
        exact h.query hquick
  | wait time =>
      cases hperform
      exact h.kept (by simp) ⟨rfl, rfl⟩

theorem sentinels_of_perform {call : WrapperCall} {answer : Answer}
    (hcall : call ≠ .initialized) (hperform : store.perform call = .ok (answer, next)) :
    next.sentinels = store.sentinels ∨ next.sentinels = [] := by
  cases call with
  | init sets =>
      obtain ⟨status, _, hinit⟩ := perform_init hperform
      have hsentinels := (storeInit_status hinit).1
      split_ifs at hsentinels
      · exact .inr hsentinels
      · exact .inl hsentinels
  | upsert kind feature =>
      rcases perform_upsert hperform with ⟨_, _, rfl⟩ | ⟨key, status, _, hwritten⟩
      · exact .inl rfl
      · exact .inl (keepsStatus_written hwritten).sentinels
  | remove kind key version =>
      obtain ⟨status, _, hwritten⟩ := perform_remove hperform
      exact .inl (keepsStatus_written hwritten).sentinels
  | get kind key =>
      obtain ⟨result, _, hget⟩ := perform_get hperform
      exact .inl (keepsStatus_get hget).sentinels
  | all kind =>
      obtain ⟨result, _, hall⟩ := perform_all hperform
      exact .inl (keepsStatus_all hall).sentinels
  | initialized => exact absurd rfl hcall
  | wait time =>
      cases hperform
      exact .inl rfl

theorem Watched.sentinels_since_init {start : PersistentStoreContext β} {history : List Watch}
    (h : Watched start history store) {before later : List Watch} {init : Watch} {sets : Json}
    (hhistory : history = before ++ init :: later) (hcall : init.call = .init sets)
    (hanswer : init.answer = .status true)
    (hlater : ∀ watch ∈ later, watch.call ≠ .initialized) : store.sentinels = [] := by
  induction h generalizing later with
  | start => simp at hhistory
  | @step history store next call answer _ hperform ih =>
      rcases List.eq_nil_or_concat later with rfl | ⟨middle, last, rfl⟩
      · obtain ⟨_, hlast⟩ := List.append_inj' hhistory rfl
        cases List.singleton_injective hlast
        cases hcall
        obtain ⟨status, rfl, hinit⟩ := perform_init hperform
        cases hanswer
        exact (storeInit_status hinit).1
      · rw [List.concat_eq_append, ← List.cons_append, ← List.append_assoc] at hhistory
        obtain ⟨hfront, hlast⟩ := List.append_inj' hhistory rfl
        have hmiddle := ih hfront fun watch hmem => hlater watch (by simp [hmem])
        have hlastCall : call ≠ .initialized := by
          have hne := hlater last (by simp)
          rw [← List.singleton_injective hlast] at hne
          exact hne
        rcases sentinels_of_perform hlastCall hperform with hsame | hnone
        · rw [hsame, hmiddle]
        · exact hnone

theorem Watched.cacheMilliseconds {start : PersistentStoreContext β} {history : List Watch}
    (h : Watched start history store) : store.cacheMilliseconds = start.cacheMilliseconds := by
  induction h with
  | start => rfl
  | step _ hperform ih => exact (perform_configuration hperform).cacheMilliseconds.trans ih

theorem Watched.reflects {persistentStore : StoreInterface β} {backend : β}
    {cacheMilliseconds : Nat} {now : Rat} {history : List Watch}
    (h : Watched (storeCachingWrapperNew persistentStore backend cacheMilliseconds now).context
      history store) : Reflects history store := by
  induction h with
  | start =>
      refine ⟨?_, ?_, ?_⟩
      · simp [storeCachingWrapperNew]
      · intro item hitem
        cases hitem
      · simp [storeCachingWrapperNew]
  | step _ hperform ih => exact ih.perform hperform

theorem perform_initialized_eq (store : PersistentStoreContext β) : store.perform .initialized =
    .ok (.status store.storeInitialized.1, store.storeInitialized.2) := rfl

end Watching

end PersistentStoreContext

end ServerSdk
