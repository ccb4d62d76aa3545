import ServerSdk.Store.Utilities

namespace ServerSdk

open Program

structure InternalStoreInterface (σ : Type) where
  init : Json → σ → Checked (Bool × σ)
  get : FeatureKind → String → σ → Checked (Option (Option Json) × σ)
  all : FeatureKind → σ → Checked (Option (Option Json) × σ)
  upsert : FeatureKind → Option String → Json → σ → Checked (Bool × σ)
  initialized : σ → Checked (Bool × σ)

-- The items of each hash table, the most recently added one first: the order in which the table finds
-- them as long as it does not grow. An iteration visits the oldest item first.
structure MemoryStoreContext where
  initialized : Bool
  features : List (String × Json)
  segments : List (String × Json)
  deriving Repr

namespace MemoryStoreContext

def items (store : MemoryStoreContext) : FeatureKind → List (String × Json)
  | .flag => store.features
  | .segment => store.segments

def withItems (store : MemoryStoreContext) (kind : FeatureKind) (items : List (String × Json)) :
    MemoryStoreContext :=
  match kind with
  | .flag => { store with features := items }
  | .segment => { store with segments := items }

@[simp] theorem items_withItems (store : MemoryStoreContext) (kind other : FeatureKind)
    (items : List (String × Json)) :
    (store.withItems kind items).items other = if other = kind then items else store.items other := by
  cases kind <;> cases other <;> rfl

@[simp] theorem initialized_withItems (store : MemoryStoreContext) (kind : FeatureKind)
    (items : List (String × Json)) : (store.withItems kind items).initialized = store.initialized := by
  cases kind <;> rfl

def clearStore (store : MemoryStoreContext) : MemoryStoreContext :=
  { store with features := [], segments := [] }

def addToStore (store : MemoryStoreContext) (kind : FeatureKind) (item : String × Json) :
    MemoryStoreContext :=
  store.withItems kind (item :: store.items kind)

def getFromStore (store : MemoryStoreContext) (kind : FeatureKind) (key : String) : Option Json :=
  (store.items kind).lookup key

def removeAndDeleteItem (store : MemoryStoreContext) (kind : FeatureKind) (key : String) :
    MemoryStoreContext :=
  store.withItems kind (Json.eraseField key (store.items kind))

def makeMemoryItem (key : Option String) (value : Json) : Checked (String × Json) :=
  match key with
  | none => .error .assertion
  | some key => .ok (key, value)

def storeItems (kind : FeatureKind) : List Json → MemoryStoreContext → Checked MemoryStoreContext
  | [], store => .ok store
  | item :: items, store => do
      let key ← getDataKey item
      let newItem ← makeMemoryItem key item
      storeItems kind items (store.addToStore kind newItem)

def storeKinds :
    List (Option String × Json) → MemoryStoreContext → Checked MemoryStoreContext
  | [], store => .ok store
  | (name, items) :: kinds, store => do
      let store ← match ← stringToFeatureKind name with
        | some kind => storeItems kind items.getIter store
        | none => pure store
      storeKinds kinds store

def storeInit (newData : Json) (store : MemoryStoreContext) : Checked (Bool × MemoryStoreContext) := do
  let filled ← storeKinds newData.iterEntries store.clearStore
  pure (true, { filled with initialized := true })

def storeGet (kind : FeatureKind) (key : String) (store : MemoryStoreContext) : Option Json :=
  match store.getFromStore kind key with
  | none => none
  | some value => if isDataDeleted value then none else some value

def addUnlessDeleted (all : Json) (item : String × Json) : Json :=
  if isDataDeleted item.2 then all else all.objectSetReference item.1 item.2

def storeAll (kind : FeatureKind) (store : MemoryStoreContext) : Json :=
  (store.items kind).reverse.foldl addUnlessDeleted (.object [])

def storeUpsert (kind : FeatureKind) (key : Option String) (item : Json)
    (store : MemoryStoreContext) : Checked (Bool × MemoryStoreContext) :=
  match key with
  | none => .error .assertion
  | some key =>
      let add (store : MemoryStoreContext) : Checked (Bool × MemoryStoreContext) := do
        let newItem ← makeMemoryItem (← getDataKey item) item
        pure (true, store.addToStore kind newItem)
      if validateData item = false then .ok (false, store)
      else match store.getFromStore kind key with
        | some existing =>
            if getDataVersion item ≤ getDataVersion existing then .ok (true, store)
            else add (store.removeAndDeleteItem kind key)
        | none => add store

def storeInitialized (store : MemoryStoreContext) : Bool := store.initialized

end MemoryStoreContext

open MemoryStoreContext in
def storeMemoryNew : InternalStoreInterface MemoryStoreContext × MemoryStoreContext :=
  ({ init := storeInit
     get := fun kind key store => .ok (some (storeGet kind key store), store)
     all := fun kind store => .ok (some (some (storeAll kind store)), store)
     upsert := storeUpsert
     initialized := fun store => .ok (storeInitialized store, store) },
   { initialized := false, features := [], segments := [] })

structure Store (σ : Type) where
  implementation : InternalStoreInterface σ
  context : σ

namespace Store

variable {σ : Type}

def ran (store : Store σ) {α : Type} (result : Checked (α × σ)) : Checked (α × Store σ) := do
  let (value, context) ← result
  pure (value, { store with context })

def init (store : Store σ) (sets : Json) : Checked (Bool × Store σ) :=
  store.ran (store.implementation.init sets store.context)

def get (store : Store σ) (kind : FeatureKind) (key : String) :
    Checked (Option (Option Json) × Store σ) :=
  store.ran (store.implementation.get kind key store.context)

def all (store : Store σ) (kind : FeatureKind) : Checked (Option (Option Json) × Store σ) :=
  store.ran (store.implementation.all kind store.context)

def deletedItem (key : String) (version : UInt32) : Json :=
  (((Json.object []).objectSetKey "version" (.number version.toNat)).objectSetKey "key"
    (.text key)).objectSetKey "deleted" (.bool true)

def remove (store : Store σ) (kind : FeatureKind) (key : String) (version : UInt32) :
    Checked (Bool × Store σ) :=
  store.ran (store.implementation.upsert kind (some key) (deletedItem key version) store.context)

def upsert (store : Store σ) (kind : FeatureKind) (feature : Json) : Checked (Bool × Store σ) :=
  if validateData feature then do
    let key ← getDataKey feature
    store.ran (store.implementation.upsert kind key feature store.context)
  else .ok (false, store)

def initialized (store : Store σ) : Checked (Bool × Store σ) :=
  store.ran (store.implementation.initialized store.context)

def initEmpty (store : Store σ) : Checked (Bool × Store σ) := store.init (.object [])

end Store

end ServerSdk
