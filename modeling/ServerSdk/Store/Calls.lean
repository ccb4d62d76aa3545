import ServerSdk.Store.Refinement
import ServerSdk.Store.Sections
import ServerSdk.Store.Table

namespace ServerSdk

open Program

inductive WrapperCall where
  | init (sets : Json)
  | upsert (kind : FeatureKind) (feature : Json)
  | remove (kind : FeatureKind) (key : String) (version : UInt32)
  | get (kind : FeatureKind) (key : String)
  | all (kind : FeatureKind)
  | initialized
  | wait (time : Rat)

inductive Answer where
  | status (success : Bool)
  | found (result : Option (Option Json))
  | waited
  deriving DecidableEq, Repr

namespace PersistentStoreContext

variable {β : Type} {store next : PersistentStoreContext β} {kind : FeatureKind} {key : String}

def tick (time : Rat) (store : PersistentStoreContext β) : PersistentStoreContext β :=
  { store with now := max store.now time }

def rehashed (order : Reordering CacheItem) (store : PersistentStoreContext β) :
    PersistentStoreContext β := { store with cache := store.cache.rehashed order }

theorem tail_eq_nil {items : List CacheItem} (h : items.length ≤ 1) : items.tail = [] := by
  apply List.eq_nil_of_length_eq_zero
  rw [List.length_tail]
  omega

theorem entries_rehashed (order : Reordering CacheItem) (store : PersistentStoreContext β)
    (key : String) : ((store.rehashed order).entries key).Perm (store.entries key) :=
  MemoryContext.entries_rehashed order store.cache key

theorem entries_rehashed_of_single (order : Reordering CacheItem)
    (h : (store.entries key).length ≤ 1) : (store.rehashed order).entries key = store.entries key :=
  eq_of_perm_of_length_le (entries_rehashed order store key) h

theorem sameSettings_rehashed (order : Reordering CacheItem) (store : PersistentStoreContext β) :
    SameSettings store (store.rehashed order) := ⟨rfl, rfl, rfl, rfl⟩

theorem current_of_tick {time : Rat} {item : CacheItem}
    (h : (store.tick time).getExpirationState item = .current) :
    store.getExpirationState item = .current := by
  rw [expiration_eq_current] at h ⊢
  have hnow : store.now ≤ (store.tick time).now := le_max_left _ _
  exact ⟨h.1, le_trans (sub_le_sub_right hnow item.updatedOn) h.2⟩

theorem findCurrent_of_tick {time : Rat} {item : CacheItem}
    (h : (store.tick time).findCurrent key = some item) : store.findCurrent key = some item := by
  rw [findCurrent_eq_some] at h ⊢
  exact ⟨h.1, current_of_tick h.2⟩

theorem kept_withBackend {backend : β} {item : Json} :
    (store.withBackend backend).Kept kind key item ↔ store.Kept kind key item :=
  ⟨fun ⟨h⟩ => ⟨h⟩, fun ⟨h⟩ => ⟨h⟩⟩

structure SameConfiguration (store next : PersistentStoreContext β) : Prop where
  persistentStore : next.persistentStore = store.persistentStore
  cacheMilliseconds : next.cacheMilliseconds = store.cacheMilliseconds

theorem storeInitialized_configuration : SameConfiguration store store.storeInitialized.2 := by
  rcases storeInitialized_cases store with ⟨_, _, hpair⟩ | ⟨_, hpair⟩
  · rw [hpair]
    exact ⟨rfl, rfl⟩
  · rw [hpair]
    cases hasked : store.askInitialized.1 with
    | true =>
        rw [queryAndUpdate_of_true hasked]
        exact ⟨rfl, rfl⟩
    | false =>
        rw [queryAndUpdate_of_false hasked]
        exact ⟨rfl, rfl⟩

variable [Parsing]

def wrapped (store : PersistentStoreContext β) : Store (PersistentStoreContext β) :=
  ⟨cachingWrapper β, store⟩

def perform (store : PersistentStoreContext β) :
    WrapperCall → Checked (Answer × PersistentStoreContext β)
  | .init sets => do
      let (status, next) ← store.wrapped.init sets
      pure (.status status, next.context)
  | .upsert kind feature => do
      let (status, next) ← store.wrapped.upsert kind feature
      pure (.status status, next.context)
  | .remove kind key version => do
      let (status, next) ← store.wrapped.remove kind key version
      pure (.status status, next.context)
  | .get kind key => do
      let (result, next) ← store.wrapped.get kind key
      pure (.found result, next.context)
  | .all kind => do
      let (result, next) ← store.wrapped.all kind
      pure (.found result, next.context)
  | .initialized => do
      let (status, next) ← store.wrapped.initialized
      pure (.status status, next.context)
  | .wait time => pure (.waited, store.tick time)

inductive Runs (allowed : PersistentStoreContext β → WrapperCall → Prop)
    (start : PersistentStoreContext β) :
    List (WrapperCall × Answer) → PersistentStoreContext β → Prop
  | start : Runs allowed start [] start
  | step {trace : List (WrapperCall × Answer)} {store next : PersistentStoreContext β}
      {call : WrapperCall} {answer : Answer} : Runs allowed start trace store →
      allowed store call → store.perform call = .ok (answer, next) →
      Runs allowed start (trace ++ [(call, answer)]) next
  | rehashed {trace : List (WrapperCall × Answer)} {store : PersistentStoreContext β}
      (order : Reordering CacheItem) : Runs allowed start trace store →
      Runs allowed start trace (store.rehashed order)

theorem Runs.induct {allowed : PersistentStoreContext β → WrapperCall → Prop}
    {start : PersistentStoreContext β} {P : List (WrapperCall × Answer) → PersistentStoreContext β → Prop}
    (hstart : P [] start)
    (hstep : ∀ trace store call answer next, P trace store → allowed store call →
      store.perform call = .ok (answer, next) → P (trace ++ [(call, answer)]) next)
    (hrehashed : ∀ trace store order, P trace store → P trace (store.rehashed order))
    {trace : List (WrapperCall × Answer)} (h : Runs allowed start trace store) : P trace store := by
  induction h with
  | start => exact hstart
  | step _ hallowed hperform ih => exact hstep _ _ _ _ _ ih hallowed hperform
  | rehashed order _ ih => exact hrehashed _ _ order ih

theorem Runs.append {allowed : PersistentStoreContext β → WrapperCall → Prop}
    {start last : PersistentStoreContext β} {trace later : List (WrapperCall × Answer)}
    (h : Runs allowed start trace store) (h' : Runs allowed store later last) :
    Runs allowed start (trace ++ later) last := by
  induction h' with
  | start =>
      rw [List.append_nil]
      exact h
  | step _ hallowed hperform ih =>
      rw [← List.append_assoc]
      exact .step ih hallowed hperform
  | rehashed order _ ih => exact .rehashed order ih

def performAll : List WrapperCall → PersistentStoreContext β →
    Checked (List (WrapperCall × Answer) × PersistentStoreContext β)
  | [], store => .ok ([], store)
  | call :: calls, store => do
      let (answer, store) ← store.perform call
      let (trace, store) ← performAll calls store
      pure ((call, answer) :: trace, store)

def reached (calls : List WrapperCall) (store : PersistentStoreContext β) :
    List (WrapperCall × Answer) × PersistentStoreContext β :=
  match performAll calls store with
  | .ok result => result
  | .error _ => ([], store)

def AllowedAlong (allowed : PersistentStoreContext β → WrapperCall → Prop) :
    List WrapperCall → PersistentStoreContext β → Prop
  | [], _ => True
  | call :: calls, store => allowed store call ∧
      AllowedAlong allowed calls (store.reached [call]).2

theorem runs_of_performAll {allowed : PersistentStoreContext β → WrapperCall → Prop}
    {calls : List WrapperCall} {trace : List (WrapperCall × Answer)}
    (hallowed : AllowedAlong allowed calls store) (h : performAll calls store = .ok (trace, next)) :
    Runs allowed store trace next := by
  induction calls generalizing store trace with
  | nil =>
      cases h
      exact .start
  | cons call calls ih =>
      obtain ⟨⟨answer, middle⟩, hperform, h⟩ := Checked.bind_eq_ok.mp h
      obtain ⟨⟨later, last⟩, hlater, h⟩ := Checked.bind_eq_ok.mp h
      cases h
      have hfirst : Runs allowed store [(call, answer)] middle :=
        Runs.step .start hallowed.1 hperform
      have hmiddle : (store.reached [call]).2 = middle := by
        rw [reached, performAll, hperform]
        rfl
      exact hfirst.append (ih (hmiddle ▸ hallowed.2) hlater)

theorem runs_reached {allowed : PersistentStoreContext β → WrapperCall → Prop}
    {calls : List WrapperCall} (hallowed : AllowedAlong allowed calls store)
    (h : Checked.Returns (performAll calls store)) :
    Runs allowed store (store.reached calls).1 (store.reached calls).2 := by
  obtain ⟨result, hresult⟩ := h
  have hreached : store.reached calls = result := by
    rw [reached, hresult]
  rw [hreached]
  exact runs_of_performAll hallowed hresult

theorem allowedAlong_of_forall {allowed : PersistentStoreContext β → WrapperCall → Prop}
    (h : ∀ store call, allowed store call) (calls : List WrapperCall)
    (store : PersistentStoreContext β) : AllowedAlong allowed calls store := by
  induction calls generalizing store with
  | nil => trivial
  | cons call calls ih => exact ⟨h store call, ih _⟩

def newTableWrapper (cacheMilliseconds : Nat) : PersistentStoreContext Table :=
  (storeCachingWrapperNew Table.interface Table.empty cacheMilliseconds 0).context

theorem ran_eq_ok {α : Type} {result : Checked (α × PersistentStoreContext β)} {a : α}
    {after : Store (PersistentStoreContext β)} :
    store.wrapped.ran result = .ok (a, after) ↔
      ∃ context, result = .ok (a, context) ∧ after = context.wrapped := by
  rw [Store.ran, Checked.bind_eq_ok]
  constructor
  · rintro ⟨⟨value, context⟩, hresult, h⟩
    cases h
    exact ⟨context, hresult, rfl⟩
  · rintro ⟨context, hresult, rfl⟩
    exact ⟨_, hresult, rfl⟩

theorem wrapped_get {answer : Option (Option Json)} {after : Store (PersistentStoreContext β)} :
    store.wrapped.get kind key = .ok (answer, after) ↔
      ∃ context, store.storeGet kind key = .ok (answer, context) ∧ after = context.wrapped :=
  ran_eq_ok

theorem wrapped_all {answer : Option (Option Json)} {after : Store (PersistentStoreContext β)} :
    store.wrapped.all kind = .ok (answer, after) ↔
      ∃ context, store.storeAll kind = .ok (answer, context) ∧ after = context.wrapped :=
  ran_eq_ok

theorem wrapped_init {sets : Json} {status : Bool} {after : Store (PersistentStoreContext β)} :
    store.wrapped.init sets = .ok (status, after) ↔
      ∃ context, store.storeInit sets = .ok (status, context) ∧ after = context.wrapped :=
  ran_eq_ok

structure Written (store : PersistentStoreContext β) (kind : FeatureKind) (key : String)
    (item : Json) (status : Bool) (next : PersistentStoreContext β) : Prop where
  carries : Carries key item
  accepted : status = (store.upsertBackend kind key item).1
  cached : (status = false ∧ next = store.withBackend (store.upsertBackend kind key item).2) ∨
    (status = true ∧ store.Kept kind key item ∧
      next = store.withBackend (store.upsertBackend kind key item).2) ∨
    (status = true ∧ ¬store.Kept kind key item ∧
      next = (store.withBackend (store.upsertBackend kind key item).2).replaceItem kind key item)

theorem written_of_storeUpsert {given : Option String} {item : Json} {status : Bool}
    (hcarries : Carries key item) (h : store.storeUpsert kind given item = .ok (status, next)) :
    store.Written kind key item status next := by
  obtain ⟨offered, hoffered, hcached⟩ := storeUpsert_cases h
  obtain ⟨other, hother, hstatus, rfl⟩ := offerItem_cases hoffered
  cases hcarries.textKey_eq.symm.trans hother
  refine ⟨hcarries, hstatus, ?_⟩
  rcases hcached with hrefused | ⟨haccepted, hupdated⟩
  · exact .inl hrefused
  · obtain ⟨other, hother, hcases⟩ := upsertMemory_cases hupdated
    cases hcarries.textKey_eq.symm.trans hother
    rw [kept_withBackend] at hcases
    rcases hcases with ⟨hkept, hnext⟩ | ⟨hkept, hnext⟩
    · exact .inr (.inl ⟨haccepted, hkept, hnext⟩)
    · exact .inr (.inr ⟨haccepted, hkept, hnext⟩)

theorem perform_init {sets : Json} {answer : Answer}
    (h : store.perform (.init sets) = .ok (answer, next)) :
    ∃ status, answer = .status status ∧ store.storeInit sets = .ok (status, next) := by
  obtain ⟨⟨status, after⟩, hinit, h⟩ := Checked.bind_eq_ok.mp h
  cases h
  obtain ⟨context, hcontext, rfl⟩ := ran_eq_ok.mp hinit
  exact ⟨status, rfl, hcontext⟩

theorem perform_upsert {feature : Json} {answer : Answer}
    (h : store.perform (.upsert kind feature) = .ok (answer, next)) :
    (validateData feature = false ∧ answer = .status false ∧ next = store) ∨
      ∃ key status, answer = .status status ∧ store.Written kind key feature status next := by
  obtain ⟨⟨status, after⟩, hupsert, h⟩ := Checked.bind_eq_ok.mp h
  cases h
  rw [Store.upsert] at hupsert
  split_ifs at hupsert with hvalid
  · obtain ⟨key, hcarries⟩ := exists_carries hvalid
    rw [hcarries.getDataKey_eq, Checked.ok_bind] at hupsert
    obtain ⟨context, hcontext, rfl⟩ := ran_eq_ok.mp hupsert
    exact .inr ⟨key, status, rfl, written_of_storeUpsert hcarries hcontext⟩
  · cases hupsert
    exact .inl ⟨by simpa using hvalid, rfl, rfl⟩

theorem perform_remove {version : UInt32} {answer : Answer}
    (h : store.perform (.remove kind key version) = .ok (answer, next)) :
    ∃ status, answer = .status status ∧
      store.Written kind key (Store.deletedItem key version) status next := by
  obtain ⟨⟨status, after⟩, hupsert, h⟩ := Checked.bind_eq_ok.mp h
  cases h
  obtain ⟨context, hcontext, rfl⟩ := ran_eq_ok.mp hupsert
  exact ⟨status, rfl, written_of_storeUpsert (deletedItem_carries key version) hcontext⟩

theorem perform_get {answer : Answer} (h : store.perform (.get kind key) = .ok (answer, next)) :
    ∃ result, answer = .found result ∧ store.storeGet kind key = .ok (result, next) := by
  obtain ⟨⟨result, after⟩, hget, h⟩ := Checked.bind_eq_ok.mp h
  cases h
  obtain ⟨context, hcontext, rfl⟩ := ran_eq_ok.mp hget
  exact ⟨result, rfl, hcontext⟩

theorem perform_all {answer : Answer} (h : store.perform (.all kind) = .ok (answer, next)) :
    ∃ result, answer = .found result ∧ store.storeAll kind = .ok (result, next) := by
  obtain ⟨⟨result, after⟩, hall, h⟩ := Checked.bind_eq_ok.mp h
  cases h
  obtain ⟨context, hcontext, rfl⟩ := ran_eq_ok.mp hall
  exact ⟨result, rfl, hcontext⟩

theorem perform_init_of_ok {sets : Json} {status : Bool}
    (h : store.storeInit sets = .ok (status, next)) :
    store.perform (.init sets) = .ok (.status status, next) :=
  Checked.bind_eq_ok.mpr ⟨_, wrapped_init.mpr ⟨next, h, rfl⟩, rfl⟩

theorem perform_get_of_ok {result : Option (Option Json)}
    (h : store.storeGet kind key = .ok (result, next)) :
    store.perform (.get kind key) = .ok (.found result, next) :=
  Checked.bind_eq_ok.mpr ⟨_, wrapped_get.mpr ⟨next, h, rfl⟩, rfl⟩

theorem perform_all_of_ok {result : Option (Option Json)}
    (h : store.storeAll kind = .ok (result, next)) :
    store.perform (.all kind) = .ok (.found result, next) :=
  Checked.bind_eq_ok.mpr ⟨_, wrapped_all.mpr ⟨next, h, rfl⟩, rfl⟩

theorem perform_upsert_of_ok {feature : Json} {status : Bool} (hcarries : Carries key feature)
    (h : store.storeUpsert kind (some key) feature = .ok (status, next)) :
    store.perform (.upsert kind feature) = .ok (.status status, next) := by
  refine Checked.bind_eq_ok.mpr ⟨(status, next.wrapped), ?_, rfl⟩
  rw [Store.upsert, hcarries.valid, if_pos rfl, hcarries.getDataKey_eq, Checked.ok_bind]
  exact ran_eq_ok.mpr ⟨next, h, rfl⟩

theorem perform_remove_of_ok {version : UInt32} {status : Bool}
    (h : store.storeUpsert kind (some key) (Store.deletedItem key version) = .ok (status, next)) :
    store.perform (.remove kind key version) = .ok (.status status, next) :=
  Checked.bind_eq_ok.mpr ⟨_, ran_eq_ok.mpr ⟨next, h, rfl⟩, rfl⟩

theorem perform_initialized {answer : Answer}
    (h : store.perform .initialized = .ok (answer, next)) :
    answer = .status store.storeInitialized.1 ∧ next = store.storeInitialized.2 := by
  obtain ⟨⟨status, after⟩, hinitialized, h⟩ := Checked.bind_eq_ok.mp h
  cases h
  obtain ⟨context, hcontext, rfl⟩ := ran_eq_ok.mp hinitialized
  have hpair : store.storeInitialized = (status, context) := Except.ok.inj hcontext
  rw [hpair]
  exact ⟨rfl, rfl⟩

theorem Written.configuration {item : Json} {status : Bool}
    (h : store.Written kind key item status next) : SameConfiguration store next := by
  rcases h.cached with ⟨_, rfl⟩ | ⟨_, _, rfl⟩ | ⟨_, _, rfl⟩
  · exact ⟨rfl, rfl⟩
  · exact ⟨rfl, rfl⟩
  · exact ⟨rfl, rfl⟩

theorem perform_configuration {call : WrapperCall} {answer : Answer}
    (h : store.perform call = .ok (answer, next)) : SameConfiguration store next := by
  cases call with
  | init sets =>
      obtain ⟨status, _, hinit⟩ := perform_init h
      obtain ⟨offered, hoffered, hcases⟩ := storeInit_cases hinit
      obtain ⟨collections, _, _, rfl⟩ := offerSets_cases hoffered
      rcases hcases with ⟨_, rfl⟩ | ⟨_, hmemory⟩
      · exact ⟨rfl, rfl⟩
      · have hsettings := (memoryInit_frame hmemory).1
        exact ⟨hsettings.persistentStore, hsettings.cacheMilliseconds⟩
  | upsert kind feature =>
      rcases perform_upsert h with ⟨_, _, rfl⟩ | ⟨key, status, _, hwritten⟩
      · exact ⟨rfl, rfl⟩
      · exact hwritten.configuration
  | remove kind key version =>
      obtain ⟨status, _, hwritten⟩ := perform_remove h
      exact hwritten.configuration
  | get kind key =>
      obtain ⟨result, _, hget⟩ := perform_get h
      rcases storeGet_cases hget with ⟨_, _, _, _, _, rfl⟩ | ⟨_, hcached⟩
      · exact ⟨rfl, rfl⟩
      · rcases cacheFetched_cases hcached with ⟨_, _, rfl⟩ | ⟨feature, _, _, hupdated⟩
        · exact ⟨rfl, rfl⟩
        · have hsettings := upsertMemory_settings hupdated
          exact ⟨hsettings.persistentStore, hsettings.cacheMilliseconds⟩
  | all kind =>
      obtain ⟨result, _, hall⟩ := perform_all h
      rcases storeAll_cases hall with ⟨_, _, _, _, _, rfl⟩ | ⟨_, hcached⟩
      · exact ⟨rfl, rfl⟩
      · rcases cacheListed_cases hcached with ⟨_, rfl, _⟩ | ⟨_, _, _, _, _, rfl⟩ <;>
          exact ⟨rfl, rfl⟩
  | initialized =>
      obtain ⟨_, rfl⟩ := perform_initialized h
      exact storeInitialized_configuration
  | wait time =>
      cases h
      exact ⟨rfl, rfl⟩

end PersistentStoreContext

end ServerSdk
