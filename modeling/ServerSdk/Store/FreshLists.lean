import ServerSdk.Store.Interleaving
import ServerSdk.Store.Listed

namespace ServerSdk

open Program PersistentStoreContext

variable {β : Type}

structure Supersedes (held item : Json) : Prop where
  version : getDataVersion item ≤ getDataVersion held
  deleted : isDataDeleted held = true →
    isDataDeleted item = true ∨ getDataVersion item < getDataVersion held

theorem Supersedes.self (item : Json) : Supersedes item item := ⟨le_rfl, .inl⟩

theorem Supersedes.of_lt {held item later : Json} (h : Supersedes held item)
    (hlt : getDataVersion held < getDataVersion later) : Supersedes later item := by
  have hversion := lt_of_le_of_lt h.version hlt
  exact ⟨hversion.le, fun _ => .inr hversion⟩

theorem newer_eq_some {kept : Option Json} {item other : Json}
    (h : VersionedMap.newer getDataVersion kept item = some other) :
    other = item ∨ kept = some other := by
  cases kept with
  | none =>
      cases h
      exact .inl rfl
  | some old =>
      rw [VersionedMap.newer] at h
      split_ifs at h
      · cases h
        exact .inl rfl
      · cases h
        exact .inr rfl

theorem supersedes_newer {old item other : Json} (h : Supersedes old other) :
    ∃ held, VersionedMap.newer getDataVersion (some old) item = some held ∧ Supersedes held other := by
  rw [VersionedMap.newer]
  split_ifs with hlt
  · exact ⟨item, rfl, h.of_lt hlt⟩
  · exact ⟨old, rfl, h⟩

theorem supersedes_newer_self {kept : Option Json} {item : Json}
    (hnotie : ∀ old, kept = some old → isDataDeleted old = true →
      isDataDeleted item = true ∨ getDataVersion old ≠ getDataVersion item) :
    ∃ held, VersionedMap.newer getDataVersion kept item = some held ∧ Supersedes held item := by
  cases kept with
  | none => exact ⟨item, rfl, .self item⟩
  | some old =>
      rw [VersionedMap.newer]
      split_ifs with hlt
      · exact ⟨item, rfl, .self item⟩
      · refine ⟨old, rfl, not_lt.mp hlt, ?_⟩
        intro hdeleted
        rcases hnotie old rfl hdeleted with hitem | hne
        · exact .inl hitem
        · right
          omega

inductive Task.Wrote (kind : FeatureKind) (item : Json) : Task → Prop
  | offered : Wrote kind item (.upsertOffered kind item)
  | completed : Wrote kind item (.upserted kind item true)

inductive Task.Silent : Task → Prop
  | all (kind : FeatureKind) : Silent (.all kind)
  | allMissed (kind : FeatureKind) : Silent (.allMissed kind)
  | listed (kind : FeatureKind) (answer : Option Json) : Silent (.listed kind answer)
  | upsert (kind : FeatureKind) (item : Json) : Silent (.upsert kind item)
  | failed (kind : FeatureKind) (item : Json) : Silent (.upserted kind item false)

theorem Task.Silent.not_wrote {task : Task} (h : task.Silent) (kind : FeatureKind) (item : Json) :
    ¬ task.Wrote kind item := by
  intro hwrote
  cases hwrote with
  | offered => cases h
  | completed => cases h

theorem Task.Silent.not_fetched {task : Task} (h : task.Silent) (kind : FeatureKind)
    (items : List StoreCollectionItem) : task ≠ .allFetched kind items := by
  rintro rfl
  cases h

def Made (initial : ItemMap) (pool : WrapperPool β) (kind : FeatureKind) (key : String)
    (item : Json) : Prop :=
  initial (kind, key) = some item ∨
    (textKey item = some key ∧ ∃ id task, pool.tasks id = some task ∧ task.Wrote kind item)

structure Completed (pool : WrapperPool β) (kind : FeatureKind) (key : String) (item : Json) :
    Prop where
  key : textKey item = some key
  done : ∃ id, pool.tasks id = some (.upserted kind item true)

def NewerDeletion (initial : ItemMap) (pool : WrapperPool β) (kind : FeatureKind) (key : String)
    (item : Json) : Prop :=
  ∃ deletion, Made initial pool kind key deletion ∧ isDataDeleted deletion = true ∧
    getDataVersion item < getDataVersion deletion

def Shows (initial : ItemMap) (pool : WrapperPool β) (kind : FeatureKind) (key : String)
    (item object : Json) : Prop :=
  match object.objectLookup key with
  | some found => getDataVersion item ≤ getDataVersion found
  | none => isDataDeleted item = true ∨ NewerDeletion initial pool kind key item

def ShowsCompleted (initial : ItemMap) (pool : WrapperPool β) (kind : FeatureKind) (object : Json) :
    Prop :=
  ∀ key item, Completed pool kind key item → Shows initial pool kind key item object

variable {initial : ItemMap} {pool next : WrapperPool β} {kind : FeatureKind} {key : String}
  {item object : Json}

theorem Shows.of_found {found : Json} (hlookup : object.objectLookup key = some found)
    (hversion : getDataVersion item ≤ getDataVersion found) :
    Shows initial pool kind key item object := by
  rw [Shows, hlookup]
  exact hversion

theorem Shows.mono (h : Shows initial pool kind key item object)
    (hmade : ∀ other, Made initial pool kind key other → Made initial next kind key other) :
    Shows initial next kind key item object := by
  rw [Shows] at h ⊢
  cases hlookup : object.objectLookup key with
  | some found =>
      rw [hlookup] at h
      exact h
  | none =>
      rw [hlookup] at h
      rcases h with hdeleted | ⟨deletion, hdeletion, hnewer⟩
      · exact .inl hdeleted
      · exact .inr ⟨deletion, hmade deletion hdeletion, hnewer⟩

theorem ShowsCompleted.mono (h : ShowsCompleted initial pool kind object)
    (hmade : ∀ kind key other, Made initial pool kind key other → Made initial next kind key other)
    (hcompleted : ∀ key item, Completed next kind key item → Completed pool kind key item) :
    ShowsCompleted initial next kind object := by
  intro key item hdone
  exact (h key item (hcompleted key item hdone)).mono (hmade kind key)

theorem Completed.made (h : Completed pool kind key item) : Made initial pool kind key item := by
  obtain ⟨id, hid⟩ := h.done
  exact .inr ⟨h.key, id, _, hid, .completed⟩

theorem entries_left {store next : PersistentStoreContext β} {replacement : Json}
    (hupdated : store.upsertMemory kind replacement = .ok next)
    (hkey : textKey replacement = some key) {kind' : FeatureKind} {entry : CacheItem}
    (hentry : entry ∈ next.entries (allKeyOf kind')) :
    entry ∈ store.entries (allKeyOf kind') ∧ (kind' = kind →
      store.Kept kind key replacement ∨ 1 < (store.entries (allKeyOf kind)).length) := by
  obtain ⟨other, hother, hcases⟩ := upsertMemory_cases hupdated
  cases hkey.symm.trans hother
  rcases hcases with ⟨hkept, rfl⟩ | ⟨_, rfl⟩
  · exact ⟨hentry, fun _ => .inl hkept⟩
  · by_cases hkind : kind' = kind
    · subst hkind
      rw [entries_replaceItem_allKey] at hentry
      have htail := List.length_pos_of_mem hentry
      rw [List.length_tail] at htail
      exact ⟨List.mem_of_mem_tail hentry, fun _ => .inr (by omega)⟩
    · rw [entries_replaceItem_of_ne (fun heq => hkind (allKeyOf_inj.mp heq))
        (allKeyOf_ne_cacheKeyOf _ _ _)] at hentry
      exact ⟨hentry, fun heq => absurd heq hkind⟩

section Put

variable {id : ℕ} {task' : Task} {shared : PersistentStoreContext β}

theorem made_put (hkeeps : ∀ task, pool.tasks id = some task →
      ∀ kind item, task.Wrote kind item → task'.Wrote kind item)
    (h : Made initial pool kind key item) :
    Made initial (({ pool with shared } : WrapperPool β).put id task') kind key item := by
  rcases h with hinitial | ⟨hkey, other, task, htask, hwrote⟩
  · exact .inl hinitial
  · refine .inr ⟨hkey, ?_⟩
    by_cases heq : other = id
    · subst heq
      exact ⟨other, task', Pool.tasks_put_self _ _ _, hkeeps task htask kind item hwrote⟩
    · refine ⟨other, task, ?_, hwrote⟩
      rw [Pool.tasks_put_of_ne heq]
      exact htask

theorem made_of_put
    (h : Made initial (({ pool with shared } : WrapperPool β).put id task') kind key item) :
    Made initial pool kind key item ∨ (textKey item = some key ∧ task'.Wrote kind item) := by
  rcases h with hinitial | ⟨hkey, other, task, htask, hwrote⟩
  · exact .inl (.inl hinitial)
  · rcases Pool.tasks_put_eq_some htask with ⟨_, rfl⟩ | ⟨_, htask⟩
    · exact .inr ⟨hkey, hwrote⟩
    · exact .inl (.inr ⟨hkey, other, task, htask, hwrote⟩)

theorem completed_of_put
    (h : Completed (({ pool with shared } : WrapperPool β).put id task') kind key item) :
    Completed pool kind key item ∨ (textKey item = some key ∧ task' = .upserted kind item true) := by
  obtain ⟨other, hother⟩ := h.done
  rcases Pool.tasks_put_eq_some hother with ⟨_, heq⟩ | ⟨_, hother⟩
  · exact .inr ⟨h.key, heq.symm⟩
  · exact .inl ⟨h.key, other, hother⟩

theorem made_upserted (hid : pool.tasks id = some (.upsertOffered kind item))
    {kind' : FeatureKind} {key' : String} {item' : Json} (h : Made initial pool kind' key' item') :
    Made initial (({ pool with shared } : WrapperPool β).put id (.upserted kind item true)) kind'
      key' item' := by
  refine made_put ?_ h
  intro task htask kind' item' hwrote
  cases hid.symm.trans htask
  cases hwrote
  exact .completed

theorem made_of_upserted (hid : pool.tasks id = some (.upsertOffered kind item))
    {kind' : FeatureKind} {key' : String} {item' : Json}
    (h : Made initial (({ pool with shared } : WrapperPool β).put id (.upserted kind item true))
      kind' key' item') : Made initial pool kind' key' item' := by
  rcases made_of_put h with hmade | ⟨hkey', hwrote⟩
  · exact hmade
  · cases hwrote
    exact .inr ⟨hkey', id, _, hid, .offered⟩

theorem showsCompleted_upserted (hid : pool.tasks id = some (.upsertOffered kind item))
    (hkey : textKey item = some key) {kind' : FeatureKind}
    (hcompleted : ShowsCompleted initial pool kind' object)
    (hitem : kind' = kind → Shows initial pool kind key item object) :
    ShowsCompleted initial
      (({ pool with shared } : WrapperPool β).put id (.upserted kind item true)) kind' object := by
  intro key' item' hdone
  refine Shows.mono ?_ fun other => made_upserted hid
  rcases completed_of_put hdone with hdone | ⟨hkey', heq⟩
  · exact hcompleted key' item' hdone
  · cases heq
    cases hkey.symm.trans hkey'
    exact hitem rfl

end Put

inductive WrapperMove where
  | waited (time : Rat)
  | rehashed (order : Reordering CacheItem)

def WrapperMove.perform : WrapperMove → PersistentStoreContext β → PersistentStoreContext β
  | .waited time, store => store.tick time
  | .rehashed order, store => store.rehashed order

theorem entry_of_moved {store : PersistentStoreContext β} (move : WrapperMove) {entry : CacheItem}
    {k : String} (hentry : entry ∈ (move.perform store).entries k)
    (hcurrent : (move.perform store).getExpirationState entry = .current) :
    entry ∈ store.entries k ∧ store.getExpirationState entry = .current := by
  cases move with
  | waited time => exact ⟨hentry, current_of_tick hcurrent⟩
  | rehashed order => exact ⟨(entries_rehashed order store k).mem_iff.mp hentry, hcurrent⟩

theorem sameConfiguration_moved (move : WrapperMove) (store : PersistentStoreContext β) :
    SameConfiguration store (move.perform store) ∧ (move.perform store).backend = store.backend := by
  cases move <;> exact ⟨⟨rfl, rfl⟩, rfl⟩

section Run

variable [Parsing]

def Operation.listsOrWrites : Operation → Prop
  | .all _ => True
  | .upsert _ item => validateData item = true → Storable item
  | .remove _ key version => Storable (Store.deletedItem key version)
  | _ => False

inductive Task.ListsOrWrites : Task → Prop
  | all (kind : FeatureKind) : ListsOrWrites (.all kind)
  | allMissed (kind : FeatureKind) : ListsOrWrites (.allMissed kind)
  | allFetched (kind : FeatureKind) (items : List StoreCollectionItem) :
      ListsOrWrites (.allFetched kind items)
  | listed (kind : FeatureKind) (answer : Option Json) : ListsOrWrites (.listed kind answer)
  | upsert {kind : FeatureKind} {item : Json} : (validateData item = true → Storable item) →
      ListsOrWrites (.upsert kind item)
  | upsertOffered (kind : FeatureKind) (item : Json) : ListsOrWrites (.upsertOffered kind item)
  | upserted (kind : FeatureKind) (item : Json) (status : Bool) :
      ListsOrWrites (.upserted kind item status)

def listingMachine (β : Type) : Machine (PersistentStoreContext β) Task Operation WrapperMove where
  begin := Operation.begin
  step := Task.step
  environment := WrapperMove.perform

abbrev ListingEvent := PoolEvent Operation WrapperMove

def ListersAndWriters (_ : WrapperPool β) : ListingEvent → Prop
  | .start _ operation => operation.listsOrWrites
  | _ => True

def NoTie (holds : β → BackendContent) (pool : WrapperPool β) : ListingEvent → Prop
  | .step id => ∀ kind key item held, pool.tasks id = some (.upsert kind item) → Carries key item →
      decodedItem (holds pool.shared.backend) kind key = some held → isDataDeleted held = true →
      isDataDeleted item = true ∨ getDataVersion held ≠ getDataVersion item
  | _ => True

def NoStaleList (initial : ItemMap) (pool : WrapperPool β) : ListingEvent → Prop
  | .step id => ∀ kind key item, pool.tasks id = some (.upsertOffered kind item) →
      textKey item = some key → pool.shared.cacheMilliseconds ≠ 0 →
      (∀ other items, pool.tasks other = some (.allFetched kind items) →
        Shows initial pool kind key item (listedObject items)) ∧
      ∀ entry object, entry ∈ pool.shared.entries (allKeyOf kind) →
        pool.shared.getExpirationState entry = .current → entry.feature = some object →
        pool.shared.Kept kind key item ∨ 1 < (pool.shared.entries (allKeyOf kind)).length →
        Shows initial pool kind key item object
  | _ => True

structure Held (content : BackendContent) (initial : ItemMap) (pool : WrapperPool β)
    (map : ItemMap) : Prop where
  serializes : Serializes content map
  made : ∀ kind key item, map (kind, key) = some item → Made initial pool kind key item
  superseded : ∀ kind key item, Made initial pool kind key item →
    ∃ held, map (kind, key) = some held ∧ Supersedes held item

theorem Held.transfer {content : BackendContent} {map : ItemMap} (h : Held content initial pool map)
    (hmade : ∀ kind key item, Made initial pool kind key item → Made initial next kind key item)
    (hback : ∀ kind key item, Made initial next kind key item → Made initial pool kind key item) :
    Held content initial next map := by
  refine ⟨h.serializes, ?_, ?_⟩
  · intro kind key item hitem
    exact hmade kind key item (h.made kind key item hitem)
  · intro kind key item hitem
    exact h.superseded kind key item (hback kind key item hitem)

theorem Held.shows {content : BackendContent} {map : ItemMap} (h : Held content initial pool map)
    {items : List StoreCollectionItem} (hlists : Lists (content (featureKindToString kind)) items)
    (hitem : Made initial pool kind key item) :
    Shows initial pool kind key item (listedObject items) := by
  obtain ⟨held, hheld, hsupersedes⟩ := h.superseded kind key item hitem
  have hlookup := (h.serializes.lists hlists).lookup key
  rw [hheld, Option.bind_some, visible] at hlookup
  rw [Shows, hlookup]
  cases hdeleted : isDataDeleted held with
  | false => exact hsupersedes.version
  | true =>
      rcases hsupersedes.deleted hdeleted with hitemDeleted | hlt
      · exact .inl hitemDeleted
      · exact .inr ⟨held, h.made kind key held hheld, hdeleted, hlt⟩

theorem Held.offer {content : BackendContent} {map : ItemMap} (h : Held content initial pool map)
    (hcarries : Carries key item) (hstorable : Storable item)
    (hnotie : ∀ old, map (kind, key) = some old → isDataDeleted old = true →
      isDataDeleted item = true ∨ getDataVersion old ≠ getDataVersion item)
    (hmade : ∀ kind key item, Made initial pool kind key item → Made initial next kind key item)
    (hnew : Made initial next kind key item)
    (hback : ∀ kind' key' item', Made initial next kind' key' item' →
      Made initial pool kind' key' item' ∨ ((kind', key') = (kind, key) ∧ item' = item)) :
    Held (content.offer (featureKindToString kind) key (collectionItem item)) initial next
      (VersionedMap.apply getDataVersion map (.offer (kind, key) item)) := by
  refine ⟨h.serializes.offer hcarries hstorable, ?_, ?_⟩
  · intro kind' key' item' hitem'
    by_cases hindex : (kind', key') = (kind, key)
    · cases hindex
      rw [VersionedMap.apply_offer_self] at hitem'
      rcases newer_eq_some hitem' with rfl | hold
      · exact hnew
      · exact hmade kind key item' (h.made kind key item' hold)
    · rw [VersionedMap.apply_offer_of_ne hindex] at hitem'
      exact hmade kind' key' item' (h.made kind' key' item' hitem')
  · intro kind' key' item' hitem'
    by_cases hindex : (kind', key') = (kind, key)
    · cases hindex
      rw [VersionedMap.apply_offer_self]
      rcases hback kind key item' hitem' with hmade | ⟨_, rfl⟩
      · obtain ⟨held, hheld, hsupersedes⟩ := h.superseded kind key item' hmade
        rw [hheld]
        exact supersedes_newer hsupersedes
      · exact supersedes_newer_self hnotie
    · rw [VersionedMap.apply_offer_of_ne hindex]
      rcases hback kind' key' item' hitem' with hmade | ⟨heq, _⟩
      · exact h.superseded kind' key' item' hmade
      · exact absurd heq hindex

structure UpToDate (holds : β → BackendContent) (persistentStore : StoreInterface β)
    (initial : ItemMap) (pool : WrapperPool β) : Prop where
  persistentStore : pool.shared.persistentStore = persistentStore
  tasks : ∀ id task, pool.tasks id = some task → task.ListsOrWrites
  held : ∃ map, Held (holds pool.shared.backend) initial pool map
  fetched : pool.shared.cacheMilliseconds ≠ 0 → ∀ id kind items,
    pool.tasks id = some (.allFetched kind items) →
    ShowsCompleted initial pool kind (listedObject items)
  cached : ∀ kind entry, entry ∈ pool.shared.entries (allKeyOf kind) →
    pool.shared.getExpirationState entry = .current →
    ∃ object, entry.feature = some object ∧ ShowsCompleted initial pool kind object

variable {holds : β → BackendContent} {persistentStore : StoreInterface β} {id : ℕ}
  {task task' : Task} {shared : PersistentStoreContext β}

theorem UpToDate.put (h : UpToDate holds persistentStore initial pool)
    (htask : task'.ListsOrWrites)
    (hkeeps : ∀ task, pool.tasks id = some task →
      ∀ kind item, task.Wrote kind item → task'.Wrote kind item)
    (hdone : ∀ kind key item, task' = .upserted kind item true → textKey item = some key →
      Completed pool kind key item)
    (hsame : shared.persistentStore = pool.shared.persistentStore)
    (hmilliseconds : shared.cacheMilliseconds = pool.shared.cacheMilliseconds)
    (hheld : ∃ map, Held (holds shared.backend) initial
      (({ pool with shared } : WrapperPool β).put id task') map)
    (hfetched : ∀ kind items, task' = .allFetched kind items →
      ShowsCompleted initial pool kind (listedObject items))
    (hcached : ∀ kind entry, entry ∈ shared.entries (allKeyOf kind) →
      shared.getExpirationState entry = .current →
      ∃ object, entry.feature = some object ∧ ShowsCompleted initial pool kind object) :
    UpToDate holds persistentStore initial (({ pool with shared } : WrapperPool β).put id task') := by
  have hmono : ∀ kind object, ShowsCompleted initial pool kind object → ShowsCompleted initial
      (({ pool with shared } : WrapperPool β).put id task') kind object := by
    intro kind object hshows
    refine hshows.mono (fun kind key other hmade => made_put hkeeps hmade) ?_
    intro key item hcompleted
    rcases completed_of_put hcompleted with hcompleted | ⟨hkey, heq⟩
    · exact hcompleted
    · exact hdone kind key item heq hkey
  refine ⟨hsame.trans h.persistentStore, Pool.forall_tasks_put h.tasks htask, hheld, ?_, ?_⟩
  · intro hzero other kind items hother
    apply hmono
    rcases Pool.tasks_put_eq_some hother with ⟨_, heq⟩ | ⟨_, hother⟩
    · exact hfetched kind items heq.symm
    · exact h.fetched (hmilliseconds ▸ hzero) other kind items hother
  · intro kind entry hentry hcurrent
    obtain ⟨object, hobject, hshows⟩ := hcached kind entry hentry hcurrent
    exact ⟨object, hobject, hmono kind object hshows⟩

theorem UpToDate.quiet (h : UpToDate holds persistentStore initial pool)
    (htask : task'.ListsOrWrites)
    (hkeeps : ∀ task, pool.tasks id = some task →
      ∀ kind item, task.Wrote kind item → task'.Wrote kind item)
    (hwrote : ∀ kind item, task'.Wrote kind item → pool.tasks id = some task')
    (hsame : shared.persistentStore = pool.shared.persistentStore)
    (hmilliseconds : shared.cacheMilliseconds = pool.shared.cacheMilliseconds)
    (hholds : holds shared.backend = holds pool.shared.backend)
    (hfetched : ∀ kind items, task' = .allFetched kind items →
      ShowsCompleted initial pool kind (listedObject items))
    (hcached : ∀ kind entry, entry ∈ shared.entries (allKeyOf kind) →
      shared.getExpirationState entry = .current →
      ∃ object, entry.feature = some object ∧ ShowsCompleted initial pool kind object) :
    UpToDate holds persistentStore initial (({ pool with shared } : WrapperPool β).put id task') := by
  refine h.put htask hkeeps ?_ hsame hmilliseconds ?_ hfetched hcached
  · intro kind key item heq hkey
    refine ⟨hkey, id, ?_⟩
    rw [hwrote kind item (heq ▸ .completed), heq]
  · obtain ⟨map, hmap⟩ := h.held
    rw [hholds]
    refine ⟨map, hmap.transfer (fun kind key item hmade => made_put hkeeps hmade) ?_⟩
    intro kind key item hmade
    rcases made_of_put hmade with hmade | ⟨hkey, hnew⟩
    · exact hmade
    · exact .inr ⟨hkey, id, task', hwrote kind item hnew, hnew⟩

theorem UpToDate.silent (h : UpToDate holds persistentStore initial pool)
    (htask : task'.ListsOrWrites) (hsilent : task'.Silent)
    (hkeeps : ∀ task, pool.tasks id = some task →
      ∀ kind item, task.Wrote kind item → task'.Wrote kind item)
    (hsame : shared.persistentStore = pool.shared.persistentStore)
    (hmilliseconds : shared.cacheMilliseconds = pool.shared.cacheMilliseconds)
    (hholds : holds shared.backend = holds pool.shared.backend)
    (hcached : ∀ kind entry, entry ∈ shared.entries (allKeyOf kind) →
      shared.getExpirationState entry = .current →
      ∃ object, entry.feature = some object ∧ ShowsCompleted initial pool kind object) :
    UpToDate holds persistentStore initial (({ pool with shared } : WrapperPool β).put id task') := by
  refine h.quiet htask hkeeps ?_ hsame hmilliseconds hholds ?_ hcached
  · intro kind item hwrote
    exact absurd hwrote (hsilent.not_wrote kind item)
  · intro kind items heq
    exact absurd heq (hsilent.not_fetched kind items)

theorem wrote_of_advances {store next : PersistentStoreContext β}
    (hstep : Advances store task task' next) (h : task.Wrote kind item) : task'.Wrote kind item := by
  cases h with
  | offered =>
      cases hstep with
      | cached => exact .completed
      | finished => exact .offered
  | completed =>
      cases hstep with
      | finished => exact .completed

theorem UpToDate.offered (hconforms : Conforms persistentStore holds)
    (h : UpToDate holds persistentStore initial pool) (hid : pool.tasks id = some (.upsert kind item))
    (hcarries : Carries key item) (hnotie : NoTie holds pool (.step id))
    (haccepted : (pool.shared.upsertBackend kind key item).1 = true) :
    UpToDate holds persistentStore initial
      (({ pool with shared := pool.shared.withBackend (pool.shared.upsertBackend kind key item).2 } :
        WrapperPool β).put id (.upsertOffered kind item)) := by
  have hkeeps : ∀ task, pool.tasks id = some task → ∀ kind' item', task.Wrote kind' item' →
      (Task.upsertOffered kind item).Wrote kind' item' := by
    intro task htask kind' item' hwrote
    cases hid.symm.trans htask
    cases hwrote
  have hdone : ∀ kind' key' item', Task.upsertOffered kind item = .upserted kind' item' true →
      textKey item' = some key' → Completed pool kind' key' item' := by
    intro kind' key' item' heq
    cases heq
  have hlist : ∀ kind' items, Task.upsertOffered kind item = .allFetched kind' items →
      ShowsCompleted initial pool kind' (listedObject items) := by
    intro kind' items heq
    cases heq
  refine h.put (.upsertOffered kind item) hkeeps hdone rfl rfl ?_ hlist h.cached
  obtain ⟨map, hmap⟩ := h.held
  have hstorable : Storable item := by
    cases h.tasks id _ hid with
    | upsert hstorable => exact hstorable hcarries.valid
  rw [backend_withBackend, upsertBackend, h.persistentStore, hconforms.upsert _ _ _ _ (by
    rw [← h.persistentStore]
    exact haccepted)]
  refine ⟨_, hmap.offer hcarries hstorable ?_ (fun _ _ _ hmade => made_put hkeeps hmade) ?_ ?_⟩
  · intro held hheld
    refine hnotie kind key item held hid hcarries ?_
    rw [hmap.serializes.decodedItem_eq]
    exact hheld
  · exact .inr ⟨hcarries.textKey_eq, id, _, Pool.tasks_put_self _ _ _, .offered⟩
  · intro kind' key' item' hmade
    rcases made_of_put hmade with hmade | ⟨hkey, hwrote⟩
    · exact .inl hmade
    · cases hwrote
      cases hcarries.textKey_eq.symm.trans hkey
      exact .inr ⟨rfl, rfl⟩

theorem UpToDate.completed (h : UpToDate holds persistentStore initial pool)
    (hid : pool.tasks id = some (.upsertOffered kind item))
    (hfresh : NoStaleList initial pool (.step id))
    (hupdated : pool.shared.upsertMemory kind item = .ok shared) :
    UpToDate holds persistentStore initial
      (({ pool with shared } : WrapperPool β).put id (.upserted kind item true)) := by
  obtain ⟨key, hkey, _⟩ := upsertMemory_cases hupdated
  have hsettings := upsertMemory_settings hupdated
  refine ⟨hsettings.persistentStore.trans h.persistentStore,
    Pool.forall_tasks_put h.tasks (.upserted kind item true), ?_, ?_, ?_⟩
  · obtain ⟨map, hmap⟩ := h.held
    rw [Pool.shared_put, backend_upsertMemory hupdated]
    exact ⟨map, hmap.transfer (fun _ _ _ => made_upserted hid) fun _ _ _ => made_of_upserted hid⟩
  · intro hnonzero other kind' items hput
    have hzero : pool.shared.cacheMilliseconds ≠ 0 := hsettings.cacheMilliseconds ▸ hnonzero
    rcases Pool.tasks_put_eq_some hput with ⟨_, heq⟩ | ⟨_, hother⟩
    · cases heq
    · refine showsCompleted_upserted hid hkey (h.fetched hzero other kind' items hother) ?_
      rintro rfl
      exact (hfresh kind' key item hid hkey hzero).1 other items hother
  · intro kind' entry hentry hunexpired
    have hcurrent : pool.shared.getExpirationState entry = .current := by
      rw [← hsettings.expiration]
      exact hunexpired
    obtain ⟨hbefore, hleft⟩ := entries_left hupdated hkey hentry
    obtain ⟨object, hobject, hcompleted⟩ := h.cached kind' entry hbefore hcurrent
    refine ⟨object, hobject, showsCompleted_upserted hid hkey hcompleted ?_⟩
    rintro rfl
    have hzero := (expiration_eq_current.mp hcurrent).1
    exact (hfresh kind' key item hid hkey hzero).2 entry object hbefore hcurrent hobject (hleft rfl)

theorem UpToDate.showsListed (hconforms : Conforms persistentStore holds)
    (h : UpToDate holds persistentStore initial pool) {items : List StoreCollectionItem}
    (hfetched : (pool.shared.fetchAll kind).1 = some items)
    (hitem : Made initial pool kind key item) :
    Shows initial pool kind key item (listedObject items) := by
  obtain ⟨map, hmap⟩ := h.held
  have hlists := hconforms.all (featureKindToString kind) pool.shared.backend items (by
    rw [← h.persistentStore]
    exact hfetched)
  exact hmap.shows hlists hitem

theorem UpToDate.installed (h : UpToDate holds persistentStore initial pool)
    {items : List StoreCollectionItem} (hid : pool.tasks id = some (.allFetched kind items)) :
    UpToDate holds persistentStore initial
      (({ pool with shared := pool.shared.installAll kind (listedObject items) } : WrapperPool β).put id
        (.listed kind (some (listedObject items)))) := by
  refine h.silent (.listed _ _) (.listed _ _) ?_ rfl rfl rfl ?_
  · intro task htask kind' item' hwrote
    cases hid.symm.trans htask
    cases hwrote
  · intro kind' entry hentry hcurrent
    rw [installAll, entries_addItem] at hentry
    have hbefore : pool.shared.getExpirationState entry = .current := hcurrent
    split_ifs at hentry with hkind
    · rcases List.mem_cons.mp hentry with rfl | hentry
      · cases allKeyOf_inj.mp hkind
        have hzero := (expiration_eq_current.mp hbefore).1
        exact ⟨_, rfl, h.fetched hzero id kind items hid⟩
      · exact h.cached kind' entry hentry hbefore
    · exact h.cached kind' entry hentry hbefore

theorem UpToDate.stepped (hconforms : Conforms persistentStore holds)
    (h : UpToDate holds persistentStore initial pool) (hid : pool.tasks id = some task)
    (hnotie : NoTie holds pool (.step id)) (hfresh : NoStaleList initial pool (.step id))
    (hstep : Advances pool.shared task task' shared) :
    UpToDate holds persistentStore initial (({ pool with shared } : WrapperPool β).put id task') := by
  have htask := h.tasks id task hid
  have hkeeps : ∀ other, pool.tasks id = some other →
      ∀ kind item, other.Wrote kind item → task'.Wrote kind item := by
    intro other hother kind item hwrote
    cases hid.symm.trans hother
    exact wrote_of_advances hstep hwrote
  have hall : ∀ kind, holds (pool.shared.fetchAll kind).2.backend = holds pool.shared.backend := by
    intro kind
    have hkeeps := hconforms.all_keeps (featureKindToString kind) pool.shared.backend
    rw [← h.persistentStore] at hkeeps
    exact hkeeps
  cases hstep with
  | listHit => exact h.silent (.listed _ _) (.listed _ _) hkeeps rfl rfl rfl h.cached
  | listMissed => exact h.silent (.allMissed _) (.allMissed _) hkeeps rfl rfl rfl h.cached
  | listUnfetched => exact h.silent (.listed _ _) (.listed _ _) hkeeps rfl rfl (hall _) h.cached
  | listFetched hfetched =>
      refine h.quiet (.allFetched _ _) hkeeps ?_ rfl rfl (hall _) ?_ h.cached
      · intro kind item hwrote
        cases hwrote
      · intro kind items heq key item hdone
        cases heq
        exact h.showsListed hconforms hfetched hdone.made
  | listUnusable => exact h.silent (.listed _ _) (.listed _ _) hkeeps rfl rfl rfl h.cached
  | listInstalled => exact h.installed hid
  | rejected => exact h.silent (.upserted _ _ _) (.failed _ _) hkeeps rfl rfl rfl h.cached
  | @refused kind key item _ hrefused =>
      refine h.silent (.upserted _ _ _) (.failed _ _) hkeeps rfl rfl ?_ h.cached
      rw [upsertBackend, h.persistentStore] at hrefused
      rw [backend_withBackend, upsertBackend, h.persistentStore]
      exact hconforms.upsert_failed _ _ _ _ hrefused
  | offered hcarries haccepted => exact h.offered hconforms hid hcarries hnotie haccepted
  | cached hupdated => exact h.completed hid hfresh hupdated
  | finished hfinished =>
      refine h.quiet htask hkeeps (fun _ _ _ => hid) rfl rfl rfl ?_ h.cached
      intro kind items heq
      subst heq
      cases hfinished
  | _ => cases htask

theorem UpToDate.started (h : UpToDate holds persistentStore initial pool) {operation : Operation}
    (hid : pool.tasks id = none) (hoperation : operation.listsOrWrites) :
    UpToDate holds persistentStore initial (pool.put id operation.begin) := by
  have hkeeps : ∀ task, pool.tasks id = some task →
      ∀ kind item, task.Wrote kind item → operation.begin.Wrote kind item := by
    intro task htask
    cases hid.symm.trans htask
  cases operation with
  | all kind => exact h.silent (.all kind) (.all kind) hkeeps rfl rfl rfl h.cached
  | upsert kind item =>
      exact h.silent (.upsert hoperation) (.upsert kind item) hkeeps rfl rfl rfl h.cached
  | remove kind key version =>
      exact h.silent (.upsert fun _ => hoperation) (.upsert _ _) hkeeps rfl rfl rfl h.cached
  | _ => cases hoperation

theorem UpToDate.moved (h : UpToDate holds persistentStore initial pool) (move : WrapperMove) :
    UpToDate holds persistentStore initial { pool with shared := move.perform pool.shared } := by
  obtain ⟨hconfiguration, hbackend⟩ := sameConfiguration_moved move pool.shared
  have hshows : ∀ kind object, ShowsCompleted initial pool kind object → ShowsCompleted initial
      { pool with shared := move.perform pool.shared } kind object := by
    intro kind object hcompleted
    exact hcompleted.mono (fun _ _ _ hmade => hmade) fun _ _ hdone => ⟨hdone.key, hdone.done⟩
  refine ⟨hconfiguration.persistentStore.trans h.persistentStore, h.tasks, ?_, ?_, ?_⟩
  · obtain ⟨map, hmap⟩ := h.held
    exact ⟨map, hbackend ▸ hmap.transfer (fun _ _ _ hmade => hmade) fun _ _ _ hmade => hmade⟩
  · intro hnonzero id kind items hid
    exact hshows kind _ (h.fetched (hconfiguration.cacheMilliseconds ▸ hnonzero) id kind items hid)
  · intro kind entry hentry hcurrent
    obtain ⟨hbefore, hunexpired⟩ := entry_of_moved move hentry hcurrent
    obtain ⟨object, hobject, hcompleted⟩ := h.cached kind entry hbefore hunexpired
    exact ⟨object, hobject, hshows kind object hcompleted⟩

theorem UpToDate.performed (hconforms : Conforms persistentStore holds)
    (h : UpToDate holds persistentStore initial pool) {event : ListingEvent}
    (hallowed : ListersAndWriters pool event) (hnotie : NoTie holds pool event)
    (hfresh : NoStaleList initial pool event)
    (hperformed : Pool.Performed (listingMachine β) pool event next) :
    UpToDate holds persistentStore initial next := by
  cases hperformed with
  | started hid => exact h.started hid hallowed
  | stepped hid hstep => exact h.stepped hconforms hid hnotie hfresh (advances_of_step hstep)
  | moved move => exact h.moved move
  | ignored => exact h

def Task.ShowsItem (initial : ItemMap) (pool : WrapperPool β) (kind : FeatureKind) (key : String)
    (item : Json) : Task → Prop
  | .allFetched kind' items => kind' = kind → Shows initial pool kind key item (listedObject items)
  | .listed kind' (some object) => kind' = kind → Shows initial pool kind key item object
  | _ => True

theorem Task.ShowsItem.mono (h : task.ShowsItem initial pool kind key item)
    (hmade : ∀ other, Made initial pool kind key other → Made initial next kind key other) :
    task.ShowsItem initial next kind key item := by
  cases task with
  | allFetched kind' items => exact fun heq => (h heq).mono hmade
  | listed kind' answer =>
      cases answer with
      | none => trivial
      | some object => exact fun heq => (h heq).mono hmade
  | _ => trivial

theorem UpToDate.showsItem (hconforms : Conforms persistentStore holds)
    (h : UpToDate holds persistentStore initial pool) (hdone : Completed pool kind key item)
    (htask : task.ShowsItem initial pool kind key item)
    (hstep : Advances pool.shared task task' shared) :
    task'.ShowsItem initial pool kind key item := by
  cases hstep with
  | @listHit kind' entry object hfind hobject =>
      rintro rfl
      obtain ⟨hhead, hcurrent⟩ := findCurrent_eq_some.mp hfind
      obtain ⟨other, hother, hshows⟩ := h.cached kind' entry (List.mem_of_head? hhead) hcurrent
      cases hobject.symm.trans hother
      exact hshows key item hdone
  | listFetched hfetched =>
      rintro rfl
      exact h.showsListed hconforms hfetched hdone.made
  | listInstalled => exact htask
  | finished => exact htask
  | _ => trivial

theorem made_of_performed {event : ListingEvent}
    (hperformed : Pool.Performed (listingMachine β) pool event next)
    (h : Made initial pool kind key item) : Made initial next kind key item := by
  cases hperformed with
  | started hid =>
      refine made_put ?_ h
      intro task htask
      cases hid.symm.trans htask
  | stepped hid hstep =>
      refine made_put ?_ h
      intro task htask kind item hwrote
      cases hid.symm.trans htask
      exact wrote_of_advances (advances_of_step hstep) hwrote
  | moved => exact h
  | ignored => exact h

theorem Completed.performed {event : ListingEvent} (h : Completed pool kind key item)
    (hperformed : Pool.Performed (listingMachine β) pool event next) :
    Completed next kind key item := by
  obtain ⟨writer, hwriter⟩ := h.done
  exact ⟨h.key, writer, hperformed.tasks_of_final hwriter fun _ => rfl⟩

structure Listing (holds : β → BackendContent) (persistentStore : StoreInterface β)
    (initial : ItemMap) (kind : FeatureKind) (key : String) (item : Json) (lister : ℕ)
    (pool : WrapperPool β) : Prop where
  upToDate : UpToDate holds persistentStore initial pool
  completed : Completed pool kind key item
  shows : ∀ task, pool.tasks lister = some task → task.ShowsItem initial pool kind key item

theorem Listing.performed (hconforms : Conforms persistentStore holds) {lister : ℕ}
    (h : Listing holds persistentStore initial kind key item lister pool) {event : ListingEvent}
    (hallowed : ListersAndWriters pool event) (hnotie : NoTie holds pool event)
    (hfresh : NoStaleList initial pool event)
    (hperformed : Pool.Performed (listingMachine β) pool event next) :
    Listing holds persistentStore initial kind key item lister next := by
  refine ⟨h.upToDate.performed hconforms hallowed hnotie hfresh hperformed,
    h.completed.performed hperformed, ?_⟩
  intro task htask
  refine Task.ShowsItem.mono ?_ fun other hmade => made_of_performed hperformed hmade
  cases hperformed with
  | @started id operation hid =>
      rcases Pool.tasks_put_eq_some htask with ⟨_, rfl⟩ | ⟨_, htask⟩
      · cases operation <;> trivial
      · exact h.shows task htask
  | @stepped id before after shared hid hstep =>
      rcases Pool.tasks_put_eq_some htask with ⟨rfl, rfl⟩ | ⟨_, htask⟩
      · exact h.upToDate.showsItem hconforms h.completed (h.shows before hid)
          (advances_of_step hstep)
      · exact h.shows task htask
  | moved => exact h.shows task htask
  | ignored => exact h.shows task htask

def FreshEvent (holds : β → BackendContent) (initial : ItemMap) (pool : WrapperPool β)
    (event : ListingEvent) : Prop :=
  ListersAndWriters pool event ∧ NoTie holds pool event ∧ NoStaleList initial pool event

theorem FreshEvent.of_reader {t : Task} (hid : pool.tasks id = some t)
    (hupsert : ∀ kind item, t ≠ .upsert kind item)
    (hoffered : ∀ kind item, t ≠ .upsertOffered kind item) :
    FreshEvent holds initial pool (.step id) := by
  refine ⟨trivial, ?_, ?_⟩
  · intro kind key item held htask
    exact absurd (Option.some.inj (hid.symm.trans htask)) (hupsert kind item)
  · intro kind key item htask
    exact absurd (Option.some.inj (hid.symm.trans htask)) (hoffered kind item)

theorem upToDate_idle {backend : β} (hinitial : Serializes (holds backend) initial)
    (cacheMilliseconds : Nat) (now : Rat) :
    UpToDate holds persistentStore initial
      (.idle (storeCachingWrapperNew persistentStore backend cacheMilliseconds now).context) := by
  refine ⟨rfl, ?_, ⟨initial, hinitial, fun _ _ _ => .inl, ?_⟩, ?_, ?_⟩
  · intro id task htask
    cases htask
  · rintro kind key item (hitem | ⟨_, _, _, htask, _⟩)
    · exact ⟨item, hitem, .self item⟩
    · cases htask
  · intro _ id kind items hid
    cases hid
  · intro kind entry hentry
    cases hentry

theorem all_fresh_after_upsert {backend : β} (hconforms : Conforms persistentStore holds)
    (hinitial : Serializes (holds backend) initial) {cacheMilliseconds : Nat} {now : Rat}
    {middle last : WrapperPool β}
    (hbefore : Pool.Reaches (listingMachine β) (FreshEvent holds initial)
      (.idle (storeCachingWrapperNew persistentStore backend cacheMilliseconds now).context) middle)
    {writer lister : ℕ} (hdone : middle.tasks writer = some (.upserted kind item true))
    (hkey : textKey item = some key) (hlister : middle.tasks lister = none)
    (hafter : Pool.Reaches (listingMachine β) (FreshEvent holds initial) middle last)
    (hlisted : last.tasks lister = some (.listed kind (some object))) :
    Shows initial last kind key item object := by
  have hmiddle : UpToDate holds persistentStore initial middle := by
    refine hbefore.invariant (I := UpToDate holds persistentStore initial)
      (upToDate_idle hinitial cacheMilliseconds now) ?_
    rintro pool event next h ⟨hallowed, hnotie, hfresh⟩ hperformed
    exact h.performed hconforms hallowed hnotie hfresh hperformed
  have hstart : Listing holds persistentStore initial kind key item lister middle := by
    refine ⟨hmiddle, ⟨hkey, writer, hdone⟩, ?_⟩
    intro task htask
    cases hlister.symm.trans htask
  have hlast : Listing holds persistentStore initial kind key item lister last := by
    refine hafter.invariant (I := Listing holds persistentStore initial kind key item lister)
      hstart ?_
    rintro pool event next h ⟨hallowed, hnotie, hfresh⟩ hperformed
    exact h.performed hconforms hallowed hnotie hfresh hperformed
  exact hlast.shows _ hlisted rfl

end Run

def listOffered : List ListingEvent :=
  [.start 1 (.upsert .flag firstFlag), .step 1, .start 0 (.all .flag), .step 0, .step 0, .step 1]

def installThenList : List ListingEvent := [.step 0, .start 2 (.all .flag), .step 2]

theorem offered_item_listed :
    let _ := flagParsing
    let middle := (newTablePool 30000).after (listingMachine Table) listOffered
    let last := middle.after (listingMachine Table) installThenList
    Pool.Reaches (listingMachine Table) (FreshEvent Table.holds fun _ => none) (newTablePool 30000)
      middle ∧
    middle.tasks 1 = some (.upserted .flag firstFlag true) ∧ middle.tasks 2 = none ∧
    Pool.Reaches (listingMachine Table) (FreshEvent Table.holds fun _ => none) middle last ∧
    last.tasks 2 = some (.listed .flag (some (.object [("a", firstFlag)]))) ∧
    Shows (fun _ => none) last .flag "a" firstFlag (.object [("a", firstFlag)]) := by
  intro _ middle last
  have hbefore : Pool.Reaches (listingMachine Table) (FreshEvent Table.holds fun _ => none)
      (newTablePool 30000) middle := by
    refine Pool.reaches_after ⟨⟨fun _ => firstFlag_storable, trivial, trivial⟩,
      ⟨trivial, ?_, ?_⟩, ⟨trivial, trivial, trivial⟩, .of_reader (t := .all .flag) ?_ ?_ ?_,
      .of_reader (t := .allMissed .flag) ?_ ?_ ?_, ⟨trivial, ?_, ?_⟩, trivial⟩
      (by decide +kernel)
    · intro kind key item held htask _ hheld
      cases hheld
    · intro kind key item htask
      cases htask
    · decide +kernel
    · simp
    · simp
    · decide +kernel
    · simp
    · simp
    · intro kind key item held htask
      cases htask
    · intro kind key item htask hkey _
      cases htask
      cases hkey
      refine ⟨?_, ?_⟩
      · intro other items hother
        rcases other with _ | _ | other
        · have hfetched : ((newTablePool 30000).after (listingMachine Table)
              (listOffered.take 5)).tasks 0 = some (.allFetched .flag [collectionItem firstFlag]) := by
            decide +kernel
          cases hfetched.symm.trans hother
          exact Shows.of_found (by decide +kernel) (le_refl (getDataVersion firstFlag))
        · cases hother
        · cases hother
      · intro entry object hentry
        cases hentry
  have hafter : Pool.Reaches (listingMachine Table) (FreshEvent Table.holds fun _ => none)
      middle last := by
    refine Pool.reaches_after ⟨.of_reader (t := .allFetched .flag [collectionItem firstFlag])
      ?_ ?_ ?_, ⟨trivial, trivial, trivial⟩, .of_reader (t := .all .flag) ?_ ?_ ?_, trivial⟩
      (by decide +kernel)
    · decide +kernel
    · simp
    · simp
    · decide +kernel
    · simp
    · simp
  have hlisted : last.tasks 2 = some (.listed .flag (some (.object [("a", firstFlag)]))) := by
    decide +kernel
  have hdone : middle.tasks 1 = some (.upserted .flag firstFlag true) := by decide +kernel
  have hlister : middle.tasks 2 = none := by decide +kernel
  exact ⟨hbefore, hdone, hlister, hafter, hlisted, all_fresh_after_upsert Table.conforms
    (Table.holds_empty ▸ Serializes.empty) hbefore hdone rfl hlister hafter hlisted⟩

def listWhileUpserting : List ListingEvent :=
  [.start 0 (.all .flag), .step 0, .step 0, .start 1 (.upsert .flag firstFlag), .step 1, .step 1]

def listFetchedEarlier [Parsing] : WrapperPool Table :=
  (newTablePool 30000).after (listingMachine Table) listWhileUpserting

def staleListPool [Parsing] : WrapperPool Table :=
  listFetchedEarlier.after (listingMachine Table) installThenList

theorem empty_list_returned : ¬ ∀ [Parsing] (β : Type) (persistentStore : StoreInterface β)
    (holds : β → BackendContent), Conforms persistentStore holds → ∀ (backend : β)
    (initial : ItemMap), Serializes (holds backend) initial → ∀ (cacheMilliseconds : Nat) (now : Rat)
    (middle last : WrapperPool β),
    Pool.Reaches (listingMachine β) ListersAndWriters
      (.idle (storeCachingWrapperNew persistentStore backend cacheMilliseconds now).context) middle →
    ∀ (writer lister : ℕ) (kind : FeatureKind) (key : String) (item object : Json),
    middle.tasks writer = some (.upserted kind item true) → textKey item = some key →
    middle.tasks lister = none → Pool.Reaches (listingMachine β) ListersAndWriters middle last →
    last.tasks lister = some (.listed kind (some object)) →
    Shows initial last kind key item object := by
  intro hclaim
  let _ := flagParsing
  have hbefore : Pool.Reaches (listingMachine Table) ListersAndWriters (newTablePool 30000)
      listFetchedEarlier :=
    Pool.reaches_after ⟨trivial, trivial, trivial, fun _ => firstFlag_storable, trivial, trivial,
      trivial⟩ (by decide +kernel)
  have hafter : Pool.Reaches (listingMachine Table) ListersAndWriters listFetchedEarlier
      staleListPool :=
    Pool.reaches_after ⟨trivial, trivial, trivial, trivial⟩ (by decide +kernel)
  have hshows := hclaim Table Table.interface Table.holds Table.conforms Table.empty
    (fun _ => none) (Table.holds_empty ▸ Serializes.empty) 30000 0 _ _ hbefore 1 2 .flag "a" firstFlag
    (.object []) rfl rfl rfl hafter (by decide +kernel)
  rcases hshows with hdeleted | ⟨deletion, hinitial | ⟨_, id, task, htask, hwrote⟩, hdeleted, _⟩
  · cases hdeleted
  · cases hinitial
  · have hfirst : staleListPool.tasks 0 = some (.listed .flag (some (.object []))) := by
      decide +kernel
    have hsecond : staleListPool.tasks 1 = some (.upserted .flag firstFlag true) := by
      decide +kernel
    have hthird : staleListPool.tasks 2 = some (.listed .flag (some (.object []))) := by
      decide +kernel
    rcases id with _ | _ | _ | id
    · cases hfirst.symm.trans htask
      cases hwrote
    · cases hsecond.symm.trans htask
      cases hwrote
      cases hdeleted
    · cases hthird.symm.trans htask
      cases hwrote
    · rw [staleListPool, Pool.tasks_after _ _ (by simp [installThenList, PoolEvent.named]),
        listFetchedEarlier, Pool.tasks_after _ _ (by simp [listWhileUpserting, PoolEvent.named])] at htask
      cases htask

end ServerSdk
