import ServerSdk.Store.Interleaving
import ServerSdk.Store.Listed

namespace ServerSdk

open Program PersistentStoreContext

variable {β : Type}

def Operation.readsOrInits (sets : Json) : Operation → Prop
  | .get _ _ => True
  | .init other => other = sets
  | _ => False

inductive Task.ReadsOrInits (sets : Json) : Task → Prop
  | get (kind : FeatureKind) (key : String) : ReadsOrInits sets (.get kind key)
  | getMissed (kind : FeatureKind) (key : String) : ReadsOrInits sets (.getMissed kind key)
  | getFetched (kind : FeatureKind) (key : String) (feature : Json) :
      ReadsOrInits sets (.getFetched kind key feature)
  | got (kind : FeatureKind) (key : String) (answer : Option (Option Json)) :
      ReadsOrInits sets (.got kind key answer)
  | init : ReadsOrInits sets (.init sets)
  | initAccepted : ReadsOrInits sets (.initAccepted sets)
  | inited (status : Bool) : ReadsOrInits sets (.inited sets status)

def Readers (sets : Json) (_ : WrapperPool β) : WrapperEvent → Prop
  | .start _ operation => operation.readsOrInits sets
  | _ => True

def Accepted (sets : Json) (pool : WrapperPool β) : Prop :=
  ∃ id, pool.tasks id = some (.initAccepted sets) ∨ pool.tasks id = some (.inited sets true)

def Returned (sets : Json) (pool : WrapperPool β) : Prop :=
  ∃ id, pool.tasks id = some (.inited sets true)

def Harmless (sets : Json) (pool : WrapperPool β) : WrapperEvent → Prop
  | .step id => ∀ kind key feature k, pool.tasks id = some (.getFetched kind key feature) →
      Returned sets pool → pool.shared.cacheMilliseconds ≠ 0 → textKey feature = some k →
      pool.shared.Kept kind k feature ∨ feature = fetchedOf k (heldBy sets (kind, k))
  | _ => True

variable {sets : Json} {pool next : WrapperPool β} {id : ℕ} {task task' : Task}
  {shared : PersistentStoreContext β}

theorem Returned.accepted (h : Returned sets pool) : Accepted sets pool := by
  obtain ⟨id, hid⟩ := h
  exact ⟨id, .inr hid⟩

theorem accepted_put (h : Accepted sets (({ pool with shared } : WrapperPool β).put id task')) :
    task' = .initAccepted sets ∨ task' = .inited sets true ∨ Accepted sets pool := by
  obtain ⟨other, hother | hother⟩ := h
  · rcases Pool.tasks_put_eq_some hother with ⟨_, heq⟩ | ⟨_, hother⟩
    · exact .inl heq.symm
    · exact .inr (.inr ⟨other, .inl hother⟩)
  · rcases Pool.tasks_put_eq_some hother with ⟨_, heq⟩ | ⟨_, hother⟩
    · exact .inr (.inl heq.symm)
    · exact .inr (.inr ⟨other, .inr hother⟩)

theorem returned_put (h : Returned sets (({ pool with shared } : WrapperPool β).put id task')) :
    task' = .inited sets true ∨ Returned sets pool := by
  obtain ⟨other, hother⟩ := h
  rcases Pool.tasks_put_eq_some hother with ⟨_, heq⟩ | ⟨_, hother⟩
  · exact .inl heq.symm
  · exact .inr ⟨other, hother⟩

section Run

variable [Parsing]

structure InPlace (holds : β → BackendContent) (persistentStore : StoreInterface β) (sets : Json)
    (pool : WrapperPool β) : Prop where
  persistentStore : pool.shared.persistentStore = persistentStore
  separate : pool.shared.cacheMilliseconds = 0 ∨ ForeignFree sets
  tasks : ∀ id task, pool.tasks id = some task → task.ReadsOrInits sets
  accepted : Accepted sets pool → Serializes (holds pool.shared.backend) (heldBy sets)
  returned : Returned sets pool → pool.shared.CachedMirrors (heldBy sets)

variable {holds : β → BackendContent} {persistentStore : StoreInterface β}

theorem InPlace.quiet (h : InPlace holds persistentStore sets pool)
    (htask : task'.ReadsOrInits sets) (hnot : task' ≠ .initAccepted sets)
    (hnotDone : task' = .inited sets true → Returned sets pool)
    (hsame : shared.persistentStore = pool.shared.persistentStore)
    (hmilliseconds : shared.cacheMilliseconds = pool.shared.cacheMilliseconds)
    (hholds : holds shared.backend = holds pool.shared.backend)
    (hcached : ∀ map, pool.shared.CachedMirrors map → shared.CachedMirrors map) :
    InPlace holds persistentStore sets (({ pool with shared } : WrapperPool β).put id task') := by
  refine ⟨hsame.trans h.persistentStore, hmilliseconds ▸ h.separate,
    Pool.forall_tasks_put h.tasks htask, ?_, ?_⟩
  · intro haccepted
    rw [Pool.shared_put, hholds]
    rcases accepted_put haccepted with heq | heq | haccepted
    · exact absurd heq hnot
    · exact h.accepted (hnotDone heq).accepted
    · exact h.accepted haccepted
  · intro hreturned
    apply hcached
    rcases returned_put hreturned with heq | hreturned
    · exact h.returned (hnotDone heq)
    · exact h.returned hreturned

theorem InPlace.installed (h : InPlace holds persistentStore sets pool) {kind : FeatureKind}
    {key : String} {feature : Json} (hid : pool.tasks id = some (.getFetched kind key feature))
    (hharmless : Harmless sets pool (.step id))
    (hupdated : pool.shared.upsertMemory kind feature = .ok shared) :
    InPlace holds persistentStore sets
      (({ pool with shared } : WrapperPool β).put id (.got kind key (some (visible feature)))) := by
  obtain ⟨k, hk, hcases⟩ := upsertMemory_cases hupdated
  rcases hcases with ⟨_, rfl⟩ | ⟨hkept, rfl⟩
  · exact h.quiet (.got kind key _) nofun nofun rfl rfl rfl fun _ hcached => hcached
  · refine ⟨h.persistentStore, h.separate, Pool.forall_tasks_put h.tasks (.got kind key _), ?_, ?_⟩
    · intro haccepted
      rcases accepted_put haccepted with heq | heq | haccepted
      · cases heq
      · cases heq
      · exact h.accepted haccepted
    · intro hreturned
      rcases returned_put hreturned with heq | hreturned
      · cases heq
      · by_cases hzero : pool.shared.cacheMilliseconds = 0
        · have hreplaced : (pool.shared.replaceItem kind k feature).cacheMilliseconds = 0 := hzero
          exact .of_zero hreplaced _
        · have hmirrors : Mirrors feature (heldBy sets (kind, k)) := by
            rcases hharmless kind key feature k hid hreturned hzero hk with hkept' | rfl
            · exact absurd hkept' hkept
            · exact mirrors_fetchedOf k _
          exact (h.returned hreturned).replaceItem (fun _ _ => rfl) hmirrors

theorem InPlace.initAccepted (hconforms : Conforms persistentStore holds)
    (hsets : WellFormedSets sets)
    (hstorable : ∀ index item, heldBy sets index = some item → Storable item)
    (h : InPlace holds persistentStore sets pool)
    (hoffered : pool.shared.offerSets sets = .ok (true, shared)) :
    InPlace holds persistentStore sets
      (({ pool with shared } : WrapperPool β).put id (.initAccepted sets)) := by
  obtain ⟨collections, hcollections, hstatus, rfl⟩ := offerSets_cases hoffered
  obtain ⟨hserializes, hdistinct⟩ := serializes_init hsets hstorable hcollections
  rw [h.persistentStore] at hstatus
  refine ⟨h.persistentStore, h.separate, Pool.forall_tasks_put h.tasks .initAccepted, ?_, ?_⟩
  · intro _
    rw [Pool.shared_put, backend_withBackend, h.persistentStore,
      hconforms.init collections _ hdistinct hstatus.symm]
    exact hserializes
  · intro hreturned
    rcases returned_put hreturned with heq | hreturned
    · cases heq
    · exact h.returned hreturned

theorem InPlace.initRefused (hconforms : Conforms persistentStore holds)
    (h : InPlace holds persistentStore sets pool)
    (hoffered : pool.shared.offerSets sets = .ok (false, shared)) :
    InPlace holds persistentStore sets
      (({ pool with shared } : WrapperPool β).put id (.inited sets false)) := by
  obtain ⟨collections, _, hstatus, rfl⟩ := offerSets_cases hoffered
  refine h.quiet (.inited false) nofun nofun rfl rfl ?_ fun _ hcached => hcached
  rw [h.persistentStore] at hstatus ⊢
  exact hconforms.init_failed collections _ hstatus.symm

theorem InPlace.initCached (hsets : WellFormedSets sets)
    (h : InPlace holds persistentStore sets pool)
    (hid : pool.tasks id = some (.initAccepted sets))
    (hmemory : pool.shared.memoryInit sets = .ok shared) :
    InPlace holds persistentStore sets
      (({ pool with shared } : WrapperPool β).put id (.inited sets true)) := by
  obtain ⟨hsettings, hbackend⟩ := memoryInit_frame hmemory
  refine ⟨hsettings.persistentStore.trans h.persistentStore,
    hsettings.cacheMilliseconds ▸ h.separate, Pool.forall_tasks_put h.tasks (.inited true), ?_, ?_⟩
  · intro _
    rw [Pool.shared_put, hbackend]
    exact h.accepted ⟨id, .inl hid⟩
  · intro _
    rcases h.separate with hzero | hforeign
    · exact .of_zero (hsettings.cacheMilliseconds.trans hzero) _
    · exact cachedMirrors_memoryInit hsets hforeign hmemory

theorem InPlace.fetched (hconforms : Conforms persistentStore holds)
    (h : InPlace holds persistentStore sets pool) (kind : FeatureKind) (key : String)
    (htask : task'.ReadsOrInits sets) (hnot : task' ≠ .initAccepted sets)
    (hnotDone : task' ≠ .inited sets true) :
    InPlace holds persistentStore sets
      (({ pool with shared := (pool.shared.fetchItem kind key).2 } : WrapperPool β).put id task') := by
  refine h.quiet htask hnot (fun heq => absurd heq hnotDone) rfl rfl ?_ fun _ hcached => hcached
  have hkeeps := hconforms.get_keeps (featureKindToString kind) key pool.shared.backend
  rw [← h.persistentStore] at hkeeps
  exact hkeeps

theorem InPlace.stepped (hconforms : Conforms persistentStore holds) (hsets : WellFormedSets sets)
    (hstorable : ∀ index item, heldBy sets index = some item → Storable item)
    (h : InPlace holds persistentStore sets pool) (hid : pool.tasks id = some task)
    (hharmless : Harmless sets pool (.step id))
    (hstep : Advances pool.shared task task' shared) :
    InPlace holds persistentStore sets (({ pool with shared } : WrapperPool β).put id task') := by
  have htask := h.tasks id task hid
  cases hstep with
  | hit => exact h.quiet (.got _ _ _) nofun nofun rfl rfl rfl fun _ hcached => hcached
  | missed => exact h.quiet (.getMissed _ _) nofun nofun rfl rfl rfl fun _ hcached => hcached
  | unfetched => exact h.fetched hconforms _ _ (.got _ _ _) nofun nofun
  | fetched => exact h.fetched hconforms _ _ (.getFetched _ _ _) nofun nofun
  | installed hupdated => exact h.installed hid hharmless hupdated
  | initRefused hoffered =>
      cases htask
      exact h.initRefused hconforms hoffered
  | initAccepted hoffered =>
      cases htask
      exact h.initAccepted hconforms hsets hstorable hoffered
  | initCached hmemory =>
      cases htask
      exact h.initCached hsets hid hmemory
  | finished hfinished =>
      refine h.quiet htask ?_ ?_ rfl rfl rfl fun _ hcached => hcached
      · rintro rfl
        cases hfinished
      · rintro rfl
        exact ⟨id, hid⟩
  | _ => cases htask

theorem InPlace.started (h : InPlace holds persistentStore sets pool) {operation : Operation}
    (hoperation : operation.readsOrInits sets) :
    InPlace holds persistentStore sets (pool.put id operation.begin) := by
  cases operation with
  | get kind key => exact h.quiet (.get kind key) nofun nofun rfl rfl rfl fun _ hcached => hcached
  | init other =>
      cases hoperation
      exact h.quiet .init nofun nofun rfl rfl rfl fun _ hcached => hcached
  | _ => cases hoperation

theorem InPlace.performed (hconforms : Conforms persistentStore holds) (hsets : WellFormedSets sets)
    (hstorable : ∀ index item, heldBy sets index = some item → Storable item)
    {event : WrapperEvent} (h : InPlace holds persistentStore sets pool)
    (hreaders : Readers sets pool event) (hharmless : Harmless sets pool event)
    (hperformed : Pool.Performed (wrapperMachine β) pool event next) :
    InPlace holds persistentStore sets next := by
  cases hperformed with
  | started hid => exact h.started hreaders
  | stepped hid hstep =>
      exact h.stepped hconforms hsets hstorable hid hharmless (advances_of_step hstep)
  | moved time =>
      refine ⟨h.persistentStore, h.separate, h.tasks, h.accepted, ?_⟩
      intro hreturned
      refine (h.returned hreturned).of_fewer ?_
      intro kind key item hitem
      exact findCurrent_of_tick hitem
  | ignored => exact h

def Task.Faithful (map : ItemMap) : Task → Prop
  | .getFetched kind key feature => feature = fetchedOf key (map (kind, key))
  | .got kind key (some result) => result = (map (kind, key)).bind visible
  | _ => True

theorem InPlace.faithful (hconforms : Conforms persistentStore holds)
    (h : InPlace holds persistentStore sets pool) (hreturned : Returned sets pool)
    (hid : pool.tasks id = some task) (htask : task.Faithful (heldBy sets))
    (hstep : Advances pool.shared task task' shared) : task'.Faithful (heldBy sets) := by
  have hsynced : pool.shared.Synced holds (heldBy sets) :=
    ⟨h.accepted hreturned.accepted, h.returned hreturned⟩
  rw [← h.persistentStore] at hconforms
  have hallowed := h.tasks id task hid
  cases hstep with
  | @hit kind key item feature hfind hfeature =>
      obtain ⟨other, hother, hmirrors⟩ := hsynced.cached kind key item hfind
      cases hfeature.symm.trans hother
      exact hmirrors.visible
  | @fetched kind key feature hfetched => exact (hsynced.fetch hconforms kind key).1 feature hfetched
  | @installed kind key feature =>
      cases (show feature = fetchedOf key (heldBy sets (kind, key)) from htask)
      exact (mirrors_fetchedOf key _).visible
  | missed | unfetched | initRefused | initAccepted | initCached => trivial
  | finished => exact htask
  | _ => cases hallowed

theorem returned_of_performed {event : WrapperEvent} (h : Returned sets pool)
    (hperformed : Pool.Performed (wrapperMachine β) pool event next) : Returned sets next := by
  obtain ⟨initializer, hinit⟩ := h
  exact ⟨initializer, hperformed.tasks_of_final hinit fun _ => rfl⟩

structure Reading (holds : β → BackendContent) (persistentStore : StoreInterface β) (sets : Json)
    (reader : ℕ) (pool : WrapperPool β) : Prop where
  inPlace : InPlace holds persistentStore sets pool
  returned : Returned sets pool
  faithful : ∀ task, pool.tasks reader = some task → task.Faithful (heldBy sets)

theorem Reading.performed (hconforms : Conforms persistentStore holds) (hsets : WellFormedSets sets)
    (hstorable : ∀ index item, heldBy sets index = some item → Storable item)
    {event : WrapperEvent} {reader : ℕ} (h : Reading holds persistentStore sets reader pool)
    (hreaders : Readers sets pool event) (hharmless : Harmless sets pool event)
    (hperformed : Pool.Performed (wrapperMachine β) pool event next) :
    Reading holds persistentStore sets reader next := by
  refine ⟨h.inPlace.performed hconforms hsets hstorable hreaders hharmless hperformed,
    returned_of_performed h.returned hperformed, ?_⟩
  intro task htask
  cases hperformed with
  | @started id operation hid =>
      rcases Pool.tasks_put_eq_some htask with ⟨_, rfl⟩ | ⟨_, htask⟩
      · cases operation <;> trivial
      · exact h.faithful task htask
  | @stepped id before after shared hid hstep =>
      rcases Pool.tasks_put_eq_some htask with ⟨rfl, rfl⟩ | ⟨_, htask⟩
      · exact h.inPlace.faithful hconforms h.returned hid (h.faithful before hid)
          (advances_of_step hstep)
      · exact h.faithful task htask
  | moved => exact h.faithful task htask
  | ignored => exact h.faithful task htask

theorem new_data_set_not_undone {store : PersistentStoreContext β}
    (hconforms : Conforms store.persistentStore holds) (hsets : WellFormedSets sets)
    (hstorable : ∀ index item, heldBy sets index = some item → Storable item)
    (hseparate : store.cacheMilliseconds = 0 ∨ ForeignFree sets) {middle last : WrapperPool β}
    (hbefore : Pool.Reaches (wrapperMachine β)
      (fun pool event => Readers sets pool event ∧ Harmless sets pool event) (.idle store) middle)
    {initializer reader : ℕ} (hinit : middle.tasks initializer = some (.inited sets true))
    (hreader : middle.tasks reader = none)
    (hafter : Pool.Reaches (wrapperMachine β)
      (fun pool event => Readers sets pool event ∧ Harmless sets pool event) middle last)
    {kind : FeatureKind} {key : String} {result : Option Json}
    (hgot : last.tasks reader = some (.got kind key (some result))) :
    result = (heldBy sets (kind, key)).bind visible := by
  have hidle : InPlace holds store.persistentStore sets (.idle store) := by
    refine ⟨rfl, hseparate, nofun, ?_, ?_⟩
    · rintro ⟨_, h | h⟩ <;> cases h
    · rintro ⟨_, h⟩
      cases h
  have hmiddle : InPlace holds store.persistentStore sets middle := by
    refine hbefore.invariant (I := InPlace holds store.persistentStore sets) hidle ?_
    rintro pool event next h ⟨hreaders, hharmless⟩ hperformed
    exact h.performed hconforms hsets hstorable hreaders hharmless hperformed
  have hstart : Reading holds store.persistentStore sets reader middle := by
    refine ⟨hmiddle, ⟨initializer, hinit⟩, ?_⟩
    intro task htask
    cases hreader.symm.trans htask
  have hlast : Reading holds store.persistentStore sets reader last := by
    refine hafter.invariant (I := Reading holds store.persistentStore sets reader) hstart ?_
    rintro pool event next h ⟨hreaders, hharmless⟩ hperformed
    exact h.performed hconforms hsets hstorable hreaders hharmless hperformed
  exact hlast.faithful _ hgot

end Run

@[reducible] def firstFlagTable : Table :=
  let _ := flagParsing
  ⟨[⟨"features", [⟨"a", collectionItem firstFlag⟩]⟩], true⟩

def firstFlagWrapper [Parsing] : PersistentStoreContext Table :=
  (storeCachingWrapperNew Table.interface firstFlagTable 30000 0).context

def fetchThenInit (sets : Json) : List WrapperEvent :=
  [.start 0 (.get .flag "a"), .step 0, .step 0, .start 1 (.init sets), .step 1, .step 1]

def installThenGet : List WrapperEvent := [.step 0, .start 2 (.get .flag "a"), .step 2]

theorem reader_of_same_data_set :
    let _ := flagParsing
    let sets := oneFlagSets firstFlag
    let allowed : WrapperPool Table → WrapperEvent → Prop :=
      fun pool event => Readers sets pool event ∧ Harmless sets pool event
    let middle := (Pool.idle firstFlagWrapper).after (wrapperMachine Table) (fetchThenInit sets)
    let last := middle.after (wrapperMachine Table) installThenGet
    Pool.Reaches (wrapperMachine Table) allowed (.idle firstFlagWrapper) middle ∧
    middle.tasks 1 = some (.inited sets true) ∧ middle.tasks 2 = none ∧
    Pool.Reaches (wrapperMachine Table) allowed middle last ∧
    last.tasks 2 = some (.got .flag "a" (some (some firstFlag))) ∧
    some firstFlag = (heldBy sets (.flag, "a")).bind visible := by
  intro _ sets allowed middle last
  have hbefore : Pool.Reaches (wrapperMachine Table) allowed (.idle firstFlagWrapper) middle := by
    refine Pool.reaches_after ⟨⟨trivial, trivial⟩, ⟨trivial, ?_⟩, ⟨trivial, ?_⟩, ⟨rfl, trivial⟩,
      ⟨trivial, ?_⟩, ⟨trivial, ?_⟩, trivial⟩ (by decide +kernel)
    all_goals
      intro _ _ _ _ htask
      cases htask
  have hinit : middle.tasks 1 = some (.inited sets true) := rfl
  have hreader : middle.tasks 2 = none := rfl
  have hafter : Pool.Reaches (wrapperMachine Table) allowed middle last := by
    refine Pool.reaches_after ⟨⟨trivial, ?_⟩, ⟨trivial, trivial⟩, ⟨trivial, ?_⟩, trivial⟩
      (by decide +kernel)
    · intro _ _ _ _ htask _ _ hkey
      cases htask
      cases hkey
      exact .inr rfl
    · intro _ _ _ _ htask
      have hget : ((middle.after (wrapperMachine Table) [.step 0]).after (wrapperMachine Table)
          [.start 2 (.get .flag "a")]).tasks 2 = some (.get .flag "a") := by decide +kernel
      cases hget.symm.trans htask
  have hgot : last.tasks 2 = some (.got .flag "a" (some (some firstFlag))) := by decide +kernel
  refine ⟨hbefore, hinit, hreader, hafter, hgot, ?_⟩
  refine new_data_set_not_undone Table.conforms (oneFlagSets_wellFormed firstFlag_carries) ?_
    (.inr ?_) hbefore hinit hreader hafter hgot
  · intro index item hitem
    rw [heldBy_oneFlagSets hitem]
    exact firstFlag_storable
  · intro name items hfield hname
    exact (oneFlagSets_known hfield hname).elim

def emptySets : Json := .object [("features", .object []), ("segments", .object [])]

theorem emptySets_wellFormed : WellFormedSets emptySets := by
  refine ⟨⟨⟨_, rfl⟩, (by decide : ["features", "segments"].Nodup)⟩, ?_⟩
  intro name items hfield
  have hitems : items = .object [] := by
    rcases List.mem_cons.mp hfield with heq | hfield
    · exact (Prod.mk.inj heq).2
    · exact (Prod.mk.inj (List.mem_singleton.mp hfield)).2
  subst hitems
  exact ⟨⟨⟨_, rfl⟩, List.nodup_nil⟩, nofun⟩

theorem heldBy_emptySets (index : FeatureKind × String) : heldBy emptySets index = none := by
  obtain ⟨kind, key⟩ := index
  cases kind <;> rfl

theorem removed_item_returned : ¬ ∀ [Parsing] (β : Type) (holds : β → BackendContent)
    (store : PersistentStoreContext β), Conforms store.persistentStore holds → ∀ (sets : Json),
    WellFormedSets sets →
    (∀ index item, heldBy sets index = some item → Storable item) → ForeignFree sets →
    ∀ (middle last : WrapperPool β),
    Pool.Reaches (wrapperMachine β) (Readers sets) (.idle store) middle →
    ∀ (initializer reader : ℕ), middle.tasks initializer = some (.inited sets true) →
    middle.tasks reader = none → Pool.Reaches (wrapperMachine β) (Readers sets) middle last →
    ∀ (kind : FeatureKind) (key : String) (result : Option Json),
    last.tasks reader = some (.got kind key (some result)) →
    result = (heldBy sets (kind, key)).bind visible := by
  intro hclaim
  let _ := flagParsing
  have hbefore : Pool.Reaches (wrapperMachine Table) (Readers emptySets) (.idle firstFlagWrapper)
      ((Pool.idle firstFlagWrapper).after (wrapperMachine Table) (fetchThenInit emptySets)) :=
    Pool.reaches_after ⟨trivial, trivial, trivial, rfl, trivial, trivial, trivial⟩
      (by decide +kernel)
  have hafter : Pool.Reaches (wrapperMachine Table) (Readers emptySets)
      ((Pool.idle firstFlagWrapper).after (wrapperMachine Table) (fetchThenInit emptySets))
      (((Pool.idle firstFlagWrapper).after (wrapperMachine Table) (fetchThenInit emptySets)).after
        (wrapperMachine Table) installThenGet) :=
    Pool.reaches_after ⟨trivial, trivial, trivial, trivial⟩ (by decide +kernel)
  have hresult := hclaim Table Table.holds firstFlagWrapper Table.conforms emptySets
    emptySets_wellFormed ?_ ?_ _ _ hbefore 1 2 rfl rfl hafter .flag "a" (some firstFlag)
    (by decide +kernel)
  · cases hresult
  · intro index item hitem
    rw [heldBy_emptySets] at hitem
    cases hitem
  · intro name items hfield hname
    rcases List.mem_cons.mp hfield with heq | hfield
    · cases heq
      exact (hname .flag rfl).elim
    · cases List.mem_singleton.mp hfield
      exact (hname .segment rfl).elim

end ServerSdk
