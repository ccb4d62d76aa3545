import ServerSdk.Store.Cache
import ServerSdk.Store.Collections

namespace ServerSdk

open Program

def featureStoreAllCacheKey (kind : String) : String := "all:" ++ kind

def featureStoreCacheKey (kind key : String) : String := kind ++ ":" ++ key

def initCheckedKey : String := "$initChecked"

def allKeyOf (kind : FeatureKind) : String := featureStoreAllCacheKey (featureKindToString kind)

def cacheKeyOf (kind : FeatureKind) (key : String) : String :=
  featureStoreCacheKey (featureKindToString kind) key

def visible (feature : Json) : Option Json :=
  if isDataDeleted feature then none else some feature

def rcGet : Option Json → Checked Json
  | none => .error .assertion
  | some feature => .ok feature

inductive ExpirationState where
  | current
  | expired
  deriving DecidableEq, Repr

structure PersistentStoreContext (β : Type) where
  persistentStore : StoreInterface β
  backend : β
  cache : MemoryContext
  cacheMilliseconds : Nat
  now : Rat

namespace PersistentStoreContext

variable {β : Type}

def getExpirationState (store : PersistentStoreContext β) (item : CacheItem) : ExpirationState :=
  if store.cacheMilliseconds = 0 then .expired
  else if store.cacheMilliseconds < store.now - item.updatedOn then .expired
  else .current

def addItem (store : PersistentStoreContext β) (key : String) (feature : Option Json) :
    PersistentStoreContext β :=
  { store with cache := store.cache.addToCache ⟨key, feature, store.now⟩ }

def withBackend (store : PersistentStoreContext β) (backend : β) : PersistentStoreContext β :=
  { store with backend }

def findCurrent (store : PersistentStoreContext β) (key : String) : Option CacheItem :=
  (store.cache.getCollectionItem key).filter fun item => store.getExpirationState item = .current

section Memory

def removeItem (key : String) (store : PersistentStoreContext β) : PersistentStoreContext β :=
  { store with cache := store.cache.findAndRemoveCacheItem key }

def replaceItem (kind : FeatureKind) (key : String) (replacement : Json)
    (store : PersistentStoreContext β) : PersistentStoreContext β :=
  ((store.removeItem (allKeyOf kind)).removeItem (cacheKeyOf kind key)).addItem
    (cacheKeyOf kind key) (some replacement)

def upsertKeyed (kind : FeatureKind) (key : String) (replacement : Json)
    (store : PersistentStoreContext β) : Checked (PersistentStoreContext β) :=
  match store.cache.getCollectionItem (cacheKeyOf kind key) with
  | none => pure (store.replaceItem kind key replacement)
  | some currentItem => do
      let current ← rcGet currentItem.feature
      if store.getExpirationState currentItem = .current ∧
          getDataVersion replacement ≤ getDataVersion current then pure store
      else pure (store.replaceItem kind key replacement)

def upsertMemory (kind : FeatureKind) (replacement : Json) (store : PersistentStoreContext β) :
    Checked (PersistentStoreContext β) := do
  match ← getDataKey replacement with
  | none => .error .assertion
  | some key => store.upsertKeyed kind key replacement

def memoryInitItems (kind : String) :
    List Json → PersistentStoreContext β → Checked (PersistentStoreContext β)
  | [], store => .ok store
  | item :: items, store => do
      match ← getDataKey item with
      | none => .error .assertion
      | some key =>
          memoryInitItems kind items (store.addItem (featureStoreCacheKey kind key) (some item))

def memoryInitKinds :
    List (Option String × Json) → PersistentStoreContext β → Checked (PersistentStoreContext β)
  | [], store => .ok store
  | (none, _) :: _, _ => .error .assertion
  | (some kind, items) :: kinds, store => do
      let store ← memoryInitItems kind items.getIter
        (store.addItem (featureStoreAllCacheKey kind) (some items))
      memoryInitKinds kinds store

def flushed (store : PersistentStoreContext β) : PersistentStoreContext β :=
  { store with cache := store.cache.flush }

def memoryInit (sets : Json) (store : PersistentStoreContext β) :
    Checked (PersistentStoreContext β) := do
  Checked.check (sets.getType = .object)
  memoryInitKinds sets.iterEntries store.flushed

end Memory

section Reading

def readItem (kind : FeatureKind) (key : String) (store : PersistentStoreContext β) :
    Checked (Option (Option Json)) :=
  match store.findCurrent (cacheKeyOf kind key) with
  | none => .ok none
  | some item => do
      let feature ← rcGet item.feature
      pure (some (visible feature))

def readAll (kind : FeatureKind) (store : PersistentStoreContext β) : Checked (Option Json) :=
  match store.findCurrent (allKeyOf kind) with
  | none => .ok none
  | some item => do
      let feature ← rcGet item.feature
      pure (some feature)

end Reading

section Backend

variable [Parsing]

def decodeItem (key : String) (item : StoreCollectionItem) : Option Json :=
  match item.buffer with
  | none => some (makeDeletedData key item.version)
  | some buffer =>
      match Parsing.deserialize buffer with
      | none => none
      | some deserialized => if validateData deserialized = false then none else some deserialized

def fetchItem (kind : FeatureKind) (key : String) (store : PersistentStoreContext β) :
    Option Json × PersistentStoreContext β :=
  let (answer, backend) := store.persistentStore.get (featureKindToString kind) key store.backend
  (answer.bind (decodeItem key), store.withBackend backend)

def cacheFetched (kind : FeatureKind) (fetched : Option Json) (store : PersistentStoreContext β) :
    Checked (Option (Option Json) × PersistentStoreContext β) :=
  match fetched with
  | none => .ok (none, store)
  | some feature => do
      let store ← store.upsertMemory kind feature
      pure (some (visible feature), store)

def getSingleItemFromBackend (kind : FeatureKind) (key : String)
    (store : PersistentStoreContext β) :
    Checked (Option (Option Json) × PersistentStoreContext β) :=
  let (fetched, store) := store.fetchItem kind key
  store.cacheFetched kind fetched

def storeGet (kind : FeatureKind) (key : String) (store : PersistentStoreContext β) :
    Checked (Option (Option Json) × PersistentStoreContext β) := do
  match ← store.readItem kind key with
  | some result => pure (some result, store)
  | none => store.getSingleItemFromBackend kind key

def collectItems : List StoreCollectionItem → Json → Checked (Option Json)
  | [], rawItems => .ok (some rawItems)
  | item :: items, rawItems =>
      match item.buffer with
      | none => collectItems items rawItems
      | some buffer =>
          match Parsing.deserialize buffer with
          | none => .ok none
          | some deserialized =>
              if validateData deserialized = false then collectItems items rawItems
              else if isDataDeleted deserialized then collectItems items rawItems
              else match (deserialized.objectLookup "key").bind Json.getText with
                | none => .error .assertion
                | some key => collectItems items (rawItems.objectSetKey key deserialized)

def fetchAll (kind : FeatureKind) (store : PersistentStoreContext β) :
    Option (List StoreCollectionItem) × PersistentStoreContext β :=
  let (answer, backend) := store.persistentStore.all (featureKindToString kind) store.backend
  (answer, store.withBackend backend)

def installAll (kind : FeatureKind) (rawItems : Json) (store : PersistentStoreContext β) :
    PersistentStoreContext β :=
  store.addItem (allKeyOf kind) (some rawItems)

def cacheListed (kind : FeatureKind) (fetched : Option (List StoreCollectionItem))
    (store : PersistentStoreContext β) :
    Checked (Option (Option Json) × PersistentStoreContext β) :=
  match fetched with
  | none => .ok (none, store)
  | some items => do
      match ← collectItems items (.object []) with
      | none => pure (none, store)
      | some rawItems => pure (some (some rawItems), store.installAll kind rawItems)

def getAllItemsFromBackend (kind : FeatureKind) (store : PersistentStoreContext β) :
    Checked (Option (Option Json) × PersistentStoreContext β) :=
  let (fetched, store) := store.fetchAll kind
  store.cacheListed kind fetched

def storeAll (kind : FeatureKind) (store : PersistentStoreContext β) :
    Checked (Option (Option Json) × PersistentStoreContext β) := do
  match ← store.readAll kind with
  | some items => pure (some (some items), store)
  | none => store.getAllItemsFromBackend kind

def offerItem (kind : FeatureKind) (item : Json) (store : PersistentStoreContext β) :
    Checked (Bool × PersistentStoreContext β) := do
  match ← getDataKey item with
  | none => .error .nullText
  | some key =>
      let (status, backend) := store.persistentStore.upsert (featureKindToString kind)
        (collectionItem item) key store.backend
      pure (status, store.withBackend backend)

def storeUpsert (kind : FeatureKind) (key : Option String) (item : Json)
    (store : PersistentStoreContext β) : Checked (Bool × PersistentStoreContext β) := do
  Checked.check key.isSome
  match ← store.offerItem kind item with
  | (false, store) => pure (false, store)
  | (true, store) => do
      let store ← store.upsertMemory kind item
      pure (true, store)

def offerSets (newData : Json) (store : PersistentStoreContext β) :
    Checked (Bool × PersistentStoreContext β) := do
  let collections ← makeCollections newData
  let (success, backend) := store.persistentStore.init collections store.backend
  pure (success, store.withBackend backend)

def storeInit (newData : Json) (store : PersistentStoreContext β) :
    Checked (Bool × PersistentStoreContext β) := do
  match ← store.offerSets newData with
  | (false, store) => pure (false, store)
  | (true, store) => do
      let store ← store.memoryInit newData
      pure (true, store)

end Backend

section Initialization

def cacheContainsUnexpired (store : PersistentStoreContext β) (key : String) : Bool :=
  if store.cacheMilliseconds = 0 then false
  else match store.cache.getCollectionItem key with
    | none => false
    | some item => !decide (store.cacheMilliseconds < store.now - item.updatedOn)

def quickCheckInitialization (store : PersistentStoreContext β) : Option Bool :=
  if store.cache.initialized then some true
  else if store.cacheContainsUnexpired initCheckedKey then some false
  else none

def queryAndUpdateInitialization (store : PersistentStoreContext β) :
    Bool × PersistentStoreContext β :=
  let store := store.removeItem initCheckedKey
  let (initialized, backend) := store.persistentStore.initialized store.backend
  let store := store.withBackend backend
  if initialized then (true, { store with cache := { store.cache with initialized := true } })
  else (false, store.addItem initCheckedKey none)

def storeInitialized (store : PersistentStoreContext β) : Bool × PersistentStoreContext β :=
  match store.quickCheckInitialization with
  | some initialized => (initialized, store)
  | none => store.queryAndUpdateInitialization

end Initialization

end PersistentStoreContext

open PersistentStoreContext in
def cachingWrapper [Parsing] (β : Type) : InternalStoreInterface (PersistentStoreContext β) where
  init := storeInit
  get := storeGet
  all := storeAll
  upsert := storeUpsert
  initialized := fun store => .ok store.storeInitialized

def storeCachingWrapperNew [Parsing] {β : Type} (persistentStore : StoreInterface β) (backend : β)
    (cacheMilliseconds : Nat) (now : Rat) : Store (PersistentStoreContext β) where
  implementation := cachingWrapper β
  context := ⟨persistentStore, backend, ⟨false, []⟩, cacheMilliseconds, now⟩

end ServerSdk
