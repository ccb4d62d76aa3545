import ServerSdk.Program.Interleaving
import ServerSdk.Store.Calls
import ServerSdk.Store.Listing

namespace ServerSdk

open Program

-- Where an operation of some thread stands: between two of its lock-protected sections or backend
-- calls. A removal is the upsert of its deleted item.
inductive Task where
  | get (kind : FeatureKind) (key : String)
  | getMissed (kind : FeatureKind) (key : String)
  | getFetched (kind : FeatureKind) (key : String) (feature : Json)
  | got (kind : FeatureKind) (key : String) (answer : Option (Option Json))
  | all (kind : FeatureKind)
  | allMissed (kind : FeatureKind)
  | allFetched (kind : FeatureKind) (items : List StoreCollectionItem)
  | listed (kind : FeatureKind) (answer : Option Json)
  | upsert (kind : FeatureKind) (item : Json)
  | upsertOffered (kind : FeatureKind) (item : Json)
  | upserted (kind : FeatureKind) (item : Json) (status : Bool)
  | init (sets : Json)
  | initAccepted (sets : Json)
  | inited (sets : Json) (status : Bool)
  deriving DecidableEq

inductive Operation where
  | get (kind : FeatureKind) (key : String)
  | all (kind : FeatureKind)
  | upsert (kind : FeatureKind) (item : Json)
  | remove (kind : FeatureKind) (key : String) (version : UInt32)
  | init (sets : Json)

def Operation.begin : Operation → Task
  | .get kind key => .get kind key
  | .all kind => .all kind
  | .upsert kind item => .upsert kind item
  | .remove kind key version => .upsert kind (Store.deletedItem key version)
  | .init sets => .init sets

section Steps

variable [Parsing] {β : Type}

open PersistentStoreContext

def Task.step : Task → PersistentStoreContext β → Checked (Task × PersistentStoreContext β)
  | .get kind key, store => do
      match ← store.readItem kind key with
      | some result => pure (.got kind key (some result), store)
      | none => pure (.getMissed kind key, store)
  | .getMissed kind key, store =>
      let (fetched, store) := store.fetchItem kind key
      match fetched with
      | none => .ok (.got kind key none, store)
      | some feature => .ok (.getFetched kind key feature, store)
  | .getFetched kind key feature, store => do
      let store ← store.upsertMemory kind feature
      pure (.got kind key (some (visible feature)), store)
  | .all kind, store => do
      match ← store.readAll kind with
      | some items => pure (.listed kind (some items), store)
      | none => pure (.allMissed kind, store)
  | .allMissed kind, store =>
      let (fetched, store) := store.fetchAll kind
      match fetched with
      | none => .ok (.listed kind none, store)
      | some items => .ok (.allFetched kind items, store)
  | .allFetched kind items, store => do
      match ← collectItems items (.object []) with
      | none => pure (.listed kind none, store)
      | some rawItems => pure (.listed kind (some rawItems), store.installAll kind rawItems)
  | .upsert kind item, store =>
      if validateData item then do
        let (status, store) ← store.offerItem kind item
        if status then pure (.upsertOffered kind item, store)
        else pure (.upserted kind item false, store)
      else .ok (.upserted kind item false, store)
  | .upsertOffered kind item, store => do
      let store ← store.upsertMemory kind item
      pure (.upserted kind item true, store)
  | .init sets, store => do
      let (status, store) ← store.offerSets sets
      if status then pure (.initAccepted sets, store) else pure (.inited sets false, store)
  | .initAccepted sets, store => do
      let store ← store.memoryInit sets
      pure (.inited sets true, store)
  | task, store => .ok (task, store)

def wrapperMachine (β : Type) : Machine (PersistentStoreContext β) Task Operation Rat where
  begin := Operation.begin
  step := Task.step
  environment := tick

abbrev WrapperPool (β : Type) := Pool (PersistentStoreContext β) Task

abbrev WrapperEvent := PoolEvent Operation Rat

def newTablePool (cacheMilliseconds : Nat) : WrapperPool Table :=
  .idle (newTableWrapper cacheMilliseconds)

def stepTimes : Nat → Task → PersistentStoreContext β → Checked (Task × PersistentStoreContext β)
  | 0, task, store => .ok (task, store)
  | n + 1, task, store => do
      let (task, store) ← task.step store
      stepTimes n task store

inductive Task.Finished : Task → Prop
  | got (kind : FeatureKind) (key : String) (answer : Option (Option Json)) :
      Finished (.got kind key answer)
  | listed (kind : FeatureKind) (answer : Option Json) : Finished (.listed kind answer)
  | upserted (kind : FeatureKind) (item : Json) (status : Bool) :
      Finished (.upserted kind item status)
  | inited (sets : Json) (status : Bool) : Finished (.inited sets status)

inductive Advances (store : PersistentStoreContext β) :
    Task → Task → PersistentStoreContext β → Prop
  | hit {kind : FeatureKind} {key : String} {item : CacheItem} {feature : Json} :
      store.findCurrent (cacheKeyOf kind key) = some item → item.feature = some feature →
      Advances store (.get kind key) (.got kind key (some (visible feature))) store
  | missed {kind : FeatureKind} {key : String} :
      store.findCurrent (cacheKeyOf kind key) = none →
      Advances store (.get kind key) (.getMissed kind key) store
  | unfetched {kind : FeatureKind} {key : String} : (store.fetchItem kind key).1 = none →
      Advances store (.getMissed kind key) (.got kind key none) (store.fetchItem kind key).2
  | fetched {kind : FeatureKind} {key : String} {feature : Json} :
      (store.fetchItem kind key).1 = some feature →
      Advances store (.getMissed kind key) (.getFetched kind key feature)
        (store.fetchItem kind key).2
  | installed {kind : FeatureKind} {key : String} {feature : Json}
      {next : PersistentStoreContext β} : store.upsertMemory kind feature = .ok next →
      Advances store (.getFetched kind key feature) (.got kind key (some (visible feature))) next
  | listHit {kind : FeatureKind} {item : CacheItem} {object : Json} :
      store.findCurrent (allKeyOf kind) = some item → item.feature = some object →
      Advances store (.all kind) (.listed kind (some object)) store
  | listMissed {kind : FeatureKind} : store.findCurrent (allKeyOf kind) = none →
      Advances store (.all kind) (.allMissed kind) store
  | listUnfetched {kind : FeatureKind} : (store.fetchAll kind).1 = none →
      Advances store (.allMissed kind) (.listed kind none) (store.fetchAll kind).2
  | listFetched {kind : FeatureKind} {items : List StoreCollectionItem} :
      (store.fetchAll kind).1 = some items →
      Advances store (.allMissed kind) (.allFetched kind items) (store.fetchAll kind).2
  | listUnusable {kind : FeatureKind} {items : List StoreCollectionItem} :
      collectItems items (.object []) = .ok none →
      Advances store (.allFetched kind items) (.listed kind none) store
  | listInstalled {kind : FeatureKind} {items : List StoreCollectionItem} :
      Advances store (.allFetched kind items) (.listed kind (some (listedObject items)))
        (store.installAll kind (listedObject items))
  | rejected {kind : FeatureKind} {item : Json} : validateData item = false →
      Advances store (.upsert kind item) (.upserted kind item false) store
  | refused {kind : FeatureKind} {key : String} {item : Json} : Carries key item →
      (store.upsertBackend kind key item).1 = false →
      Advances store (.upsert kind item) (.upserted kind item false)
        (store.withBackend (store.upsertBackend kind key item).2)
  | offered {kind : FeatureKind} {key : String} {item : Json} : Carries key item →
      (store.upsertBackend kind key item).1 = true →
      Advances store (.upsert kind item) (.upsertOffered kind item)
        (store.withBackend (store.upsertBackend kind key item).2)
  | cached {kind : FeatureKind} {item : Json} {next : PersistentStoreContext β} :
      store.upsertMemory kind item = .ok next →
      Advances store (.upsertOffered kind item) (.upserted kind item true) next
  | initRefused {sets : Json} {next : PersistentStoreContext β} :
      store.offerSets sets = .ok (false, next) →
      Advances store (.init sets) (.inited sets false) next
  | initAccepted {sets : Json} {next : PersistentStoreContext β} :
      store.offerSets sets = .ok (true, next) →
      Advances store (.init sets) (.initAccepted sets) next
  | initCached {sets : Json} {next : PersistentStoreContext β} :
      store.memoryInit sets = .ok next →
      Advances store (.initAccepted sets) (.inited sets true) next
  | finished {task : Task} : task.Finished → Advances store task task store

variable {store next : PersistentStoreContext β} {task task' : Task}

theorem step_getMissed_of_none {kind : FeatureKind} {key : String}
    (h : (store.fetchItem kind key).1 = none) : (Task.getMissed kind key).step store =
      .ok (.got kind key none, (store.fetchItem kind key).2) := by
  rw [Task.step]
  simp only [h]

theorem step_getMissed_of_some {kind : FeatureKind} {key : String} {feature : Json}
    (h : (store.fetchItem kind key).1 = some feature) : (Task.getMissed kind key).step store =
      .ok (.getFetched kind key feature, (store.fetchItem kind key).2) := by
  rw [Task.step]
  simp only [h]

theorem step_allMissed_of_none {kind : FeatureKind} (h : (store.fetchAll kind).1 = none) :
    (Task.allMissed kind).step store = .ok (.listed kind none, (store.fetchAll kind).2) := by
  rw [Task.step]
  simp only [h]

theorem step_allMissed_of_some {kind : FeatureKind} {items : List StoreCollectionItem}
    (h : (store.fetchAll kind).1 = some items) :
    (Task.allMissed kind).step store = .ok (.allFetched kind items, (store.fetchAll kind).2) := by
  rw [Task.step]
  simp only [h]

theorem advances_get {kind : FeatureKind} {key : String}
    (h : (Task.get kind key).step store = .ok (task', next)) :
    Advances store (.get kind key) task' next := by
  obtain ⟨result, hread, h⟩ := Checked.bind_eq_ok.mp h
  rcases readItem_cases hread with ⟨hfind, rfl⟩ | ⟨item, feature, hfind, hfeature, rfl⟩
  · cases h
    exact .missed hfind
  · cases h
    exact .hit hfind hfeature

theorem advances_all {kind : FeatureKind} (h : (Task.all kind).step store = .ok (task', next)) :
    Advances store (.all kind) task' next := by
  obtain ⟨result, hread, h⟩ := Checked.bind_eq_ok.mp h
  rcases readAll_cases hread with ⟨hfind, rfl⟩ | ⟨item, object, hfind, hobject, rfl⟩
  · cases h
    exact .listMissed hfind
  · cases h
    exact .listHit hfind hobject

theorem advances_getMissed {kind : FeatureKind} {key : String}
    (h : (Task.getMissed kind key).step store = .ok (task', next)) :
    Advances store (.getMissed kind key) task' next := by
  cases hfetched : (store.fetchItem kind key).1 with
  | none =>
      rw [step_getMissed_of_none hfetched] at h
      cases h
      exact .unfetched hfetched
  | some feature =>
      rw [step_getMissed_of_some hfetched] at h
      cases h
      exact .fetched hfetched

theorem advances_allMissed {kind : FeatureKind}
    (h : (Task.allMissed kind).step store = .ok (task', next)) :
    Advances store (.allMissed kind) task' next := by
  cases hfetched : (store.fetchAll kind).1 with
  | none =>
      rw [step_allMissed_of_none hfetched] at h
      cases h
      exact .listUnfetched hfetched
  | some items =>
      rw [step_allMissed_of_some hfetched] at h
      cases h
      exact .listFetched hfetched

theorem advances_allFetched {kind : FeatureKind} {items : List StoreCollectionItem}
    (h : (Task.allFetched kind items).step store = .ok (task', next)) :
    Advances store (.allFetched kind items) task' next := by
  obtain ⟨collected, hcollected, h⟩ := Checked.bind_eq_ok.mp h
  cases collected with
  | none =>
      cases h
      exact .listUnusable hcollected
  | some rawItems =>
      cases h
      obtain ⟨_, rfl⟩ := collectItems_eq_some hcollected
      exact .listInstalled

theorem advances_upsert {kind : FeatureKind} {item : Json}
    (h : (Task.upsert kind item).step store = .ok (task', next)) :
    Advances store (.upsert kind item) task' next := by
  rw [Task.step] at h
  split_ifs at h with hvalid
  · obtain ⟨⟨status, offered⟩, hoffered, h⟩ := Checked.bind_eq_ok.mp h
    obtain ⟨key, hcarries⟩ := exists_carries hvalid
    obtain ⟨other, hother, hstatus, rfl⟩ := offerItem_cases hoffered
    cases hcarries.textKey_eq.symm.trans hother
    cases status with
    | false =>
        cases h
        exact .refused hcarries hstatus.symm
    | true =>
        cases h
        exact .offered hcarries hstatus.symm
  · cases h
    exact .rejected (by simpa using hvalid)

theorem advances_init {sets : Json} (h : (Task.init sets).step store = .ok (task', next)) :
    Advances store (.init sets) task' next := by
  obtain ⟨⟨status, offered⟩, hoffered, h⟩ := Checked.bind_eq_ok.mp h
  cases status with
  | false =>
      cases h
      exact .initRefused hoffered
  | true =>
      cases h
      exact .initAccepted hoffered

theorem advances_of_step (h : task.step store = .ok (task', next)) :
    Advances store task task' next := by
  cases task with
  | get kind key => exact advances_get h
  | getMissed kind key => exact advances_getMissed h
  | getFetched kind key feature =>
      obtain ⟨updated, hupdated, h⟩ := Checked.bind_eq_ok.mp h
      cases h
      exact .installed hupdated
  | all kind => exact advances_all h
  | allMissed kind => exact advances_allMissed h
  | allFetched kind items => exact advances_allFetched h
  | upsert kind item => exact advances_upsert h
  | upsertOffered kind item =>
      obtain ⟨updated, hupdated, h⟩ := Checked.bind_eq_ok.mp h
      cases h
      exact .cached hupdated
  | init sets => exact advances_init h
  | initAccepted sets =>
      obtain ⟨updated, hupdated, h⟩ := Checked.bind_eq_ok.mp h
      cases h
      exact .initCached hupdated
  | got kind key answer =>
      cases h
      exact .finished (.got kind key answer)
  | listed kind answer =>
      cases h
      exact .finished (.listed kind answer)
  | upserted kind item status =>
      cases h
      exact .finished (.upserted kind item status)
  | inited sets status =>
      cases h
      exact .finished (.inited sets status)

theorem stepTimes_succ {n : Nat} {last : Task × PersistentStoreContext β}
    (h : task.step store = .ok (task', next)) (hrest : stepTimes n task' next = .ok last) :
    stepTimes (n + 1) task store = .ok last :=
  Checked.bind_eq_ok.mpr ⟨(task', next), h, hrest⟩

theorem stepTimes_storeGet {kind : FeatureKind} {key : String} {answer : Option (Option Json)}
    (h : store.storeGet kind key = .ok (answer, next)) :
    stepTimes 3 (.get kind key) store = .ok (.got kind key answer, next) := by
  rw [storeGet] at h
  obtain ⟨result, hread, h⟩ := Checked.bind_eq_ok.mp h
  cases result with
  | some found =>
      cases h
      exact stepTimes_succ (Checked.bind_eq_ok.mpr ⟨_, hread, rfl⟩) rfl
  | none =>
      refine stepTimes_succ (Checked.bind_eq_ok.mpr ⟨_, hread, rfl⟩) ?_
      have hcached : (store.fetchItem kind key).2.cacheFetched kind (store.fetchItem kind key).1 =
          .ok (answer, next) := h
      rcases cacheFetched_cases hcached with ⟨hnone, rfl, rfl⟩ | ⟨feature, hsome, rfl, hupdated⟩
      · exact stepTimes_succ (step_getMissed_of_none hnone) rfl
      · exact stepTimes_succ (step_getMissed_of_some hsome)
          (stepTimes_succ (Checked.bind_eq_ok.mpr ⟨next, hupdated, rfl⟩) rfl)

theorem stepTimes_storeAll {kind : FeatureKind} {answer : Option (Option Json)}
    (h : store.storeAll kind = .ok (answer, next)) :
    stepTimes 3 (.all kind) store = .ok (.listed kind (answer.bind id), next) := by
  rw [storeAll] at h
  obtain ⟨result, hread, h⟩ := Checked.bind_eq_ok.mp h
  cases result with
  | some found =>
      cases h
      exact stepTimes_succ (Checked.bind_eq_ok.mpr ⟨_, hread, rfl⟩) rfl
  | none =>
      refine stepTimes_succ (Checked.bind_eq_ok.mpr ⟨_, hread, rfl⟩) ?_
      have hcached : (store.fetchAll kind).2.cacheListed kind (store.fetchAll kind).1 =
          .ok (answer, next) := h
      rcases cacheListed_cases hcached with
        ⟨rfl, rfl, hnone | ⟨items, hsome, hunusable⟩⟩ | ⟨items, rawItems, hsome, hraw, rfl, rfl⟩
      · exact stepTimes_succ (step_allMissed_of_none hnone) rfl
      · exact stepTimes_succ (step_allMissed_of_some hsome)
          (stepTimes_succ (Checked.bind_eq_ok.mpr ⟨_, hunusable, rfl⟩) rfl)
      · exact stepTimes_succ (step_allMissed_of_some hsome)
          (stepTimes_succ (Checked.bind_eq_ok.mpr ⟨_, hraw, rfl⟩) rfl)

theorem stepTimes_storeUpsert {kind : FeatureKind} {given : Option String} {item : Json}
    {status : Bool} (hvalid : validateData item = true)
    (h : store.storeUpsert kind given item = .ok (status, next)) :
    stepTimes 2 (.upsert kind item) store = .ok (.upserted kind item status, next) := by
  obtain ⟨offered, hoffered, hcases⟩ := storeUpsert_cases h
  have hstep : (Task.upsert kind item).step store = .ok
      (if status then .upsertOffered kind item else .upserted kind item false, offered) := by
    rw [Task.step, if_pos hvalid, hoffered]
    cases status <;> rfl
  rcases hcases with ⟨rfl, rfl⟩ | ⟨rfl, hupdated⟩
  · exact stepTimes_succ hstep rfl
  · exact stepTimes_succ hstep
      (stepTimes_succ (Checked.bind_eq_ok.mpr ⟨next, hupdated, rfl⟩) rfl)

theorem stepTimes_storeInit {sets : Json} {status : Bool}
    (h : store.storeInit sets = .ok (status, next)) :
    stepTimes 2 (.init sets) store = .ok (.inited sets status, next) := by
  obtain ⟨offered, hoffered, hcases⟩ := storeInit_cases h
  have hstep : (Task.init sets).step store = .ok
      (if status then .initAccepted sets else .inited sets false, offered) := by
    rw [Task.step, hoffered]
    cases status <;> rfl
  rcases hcases with ⟨rfl, rfl⟩ | ⟨rfl, hmemory⟩
  · exact stepTimes_succ hstep rfl
  · exact stepTimes_succ hstep
      (stepTimes_succ (Checked.bind_eq_ok.mpr ⟨next, hmemory, rfl⟩) rfl)

end Steps

end ServerSdk
