import ServerSdk.Program.ReferenceCounts
import ServerSdk.Store.Memory

namespace ServerSdk

open Program

structure CountedStore where
  heap : CountedHeap Json
  initialized : Bool
  features : List (String × ℕ)
  segments : List (String × ℕ)

namespace CountedStore

def items (store : CountedStore) : FeatureKind → List (String × ℕ)
  | .flag => store.features
  | .segment => store.segments

def withItems (store : CountedStore) (kind : FeatureKind) (items : List (String × ℕ)) :
    CountedStore :=
  match kind with
  | .flag => { store with features := items }
  | .segment => { store with segments := items }

def created : CountedStore := ⟨.empty, false, [], []⟩

def retain (rc : ℕ) (store : CountedStore) : Counting CountedStore := do
  let heap ← store.heap.retain rc
  pure { store with heap }

def release (rc : ℕ) (store : CountedStore) : Counting CountedStore := do
  let heap ← store.heap.release rc
  pure { store with heap }

def clearItems : List (String × ℕ) → CountedHeap Json → Counting (CountedHeap Json)
  | [], heap => pure heap
  | item :: items, heap => do
      let heap ← heap.release item.2
      clearItems items heap

def clearStore (store : CountedStore) : Counting CountedStore := do
  let heap ← clearItems store.features.reverse store.heap
  let heap ← clearItems store.segments.reverse heap
  pure { store with heap, features := [], segments := [] }

def addToStore (store : CountedStore) (kind : FeatureKind) (key : String) (value : Json) :
    CountedStore :=
  let (rc, heap) := store.heap.new value
  ({ store with heap } : CountedStore).withItems kind ((key, rc) :: store.items kind)

def getFromStore (store : CountedStore) (kind : FeatureKind) (key : String) : Option ℕ :=
  (store.items kind).lookup key

def removeAndDeleteItem (store : CountedStore) (kind : FeatureKind) (key : String) (rc : ℕ) :
    Counting CountedStore :=
  (store.withItems kind ((store.items kind).eraseP fun item => item.1 == key)).release rc

def makeMemoryItem (key : Option String) : Counting String :=
  match key with
  | none => .error (.halted .assertion)
  | some key => .ok key

def storeItems (kind : FeatureKind) : List Json → CountedStore → Counting CountedStore
  | [], store => pure store
  | item :: items, store => do
      let key ← makeMemoryItem (← Counting.lift (getDataKey item))
      storeItems kind items (store.addToStore kind key item)

def storeKinds : List (Option String × Json) → CountedStore → Counting CountedStore
  | [], store => pure store
  | (name, items) :: kinds, store => do
      let store ← match ← Counting.lift (stringToFeatureKind name) with
        | some kind => storeItems kind items.getIter store
        | none => pure store
      storeKinds kinds store

def storeInit (newData : Json) (store : CountedStore) : Counting CountedStore := do
  let store ← store.clearStore
  let store ← storeKinds newData.iterEntries store
  pure { store with initialized := true }

def readItems : List (String × ℕ) → CountedStore → Counting (List ((String × ℕ) × Json))
  | [], _ => pure []
  | item :: items, store => do
      let value ← store.heap.get item.2
      let rest ← readItems items store
      pure ((item, value) :: rest)

structure AllResult where
  all : Json
  associated : List ℕ

def collect (kind : FeatureKind) (store : CountedStore) : Counting AllResult := do
  let listing ← readItems (store.items kind).reverse store
  let present := listing.filter fun entry => !isDataDeleted entry.2
  pure
    { all := present.foldl (fun all entry => all.objectSetReference entry.1.1 entry.2) (.object [])
      associated := present.map fun entry => entry.1.2 }

def storeUpsert (kind : FeatureKind) (key : String) (item : Json) (store : CountedStore) :
    Counting CountedStore :=
  let add (store : CountedStore) : Counting CountedStore := do
    let newKey ← makeMemoryItem (← Counting.lift (getDataKey item))
    pure (store.addToStore kind newKey item)
  if validateData item = false then pure store
  else match store.getFromStore kind key with
    | some existing => do
        let value ← store.heap.get existing
        if getDataVersion item ≤ getDataVersion value then pure store
        else add (← store.removeAndDeleteItem kind key existing)
    | none => add store

end CountedStore

inductive MemoryTask where
  | init (sets : Json)
  | upsert (kind : FeatureKind) (feature : Json)
  | remove (kind : FeatureKind) (key : String) (version : UInt32)
  | all (kind : FeatureKind)
  | associating (result : CountedStore.AllResult) (index : ℕ)
  | holding (result : CountedStore.AllResult)
  | releasing (result : CountedStore.AllResult) (index : ℕ)
  | returned

namespace MemoryTask

open CountedStore

def step : MemoryTask → CountedStore → Counting (MemoryTask × CountedStore)
  | .init sets, store => do
      let store ← storeInit sets store
      pure (.returned, store)
  | .upsert kind feature, store =>
      if validateData feature then do
        let key ← makeMemoryItem (← Counting.lift (getDataKey feature))
        let store ← storeUpsert kind key feature store
        pure (.returned, store)
      else pure (.returned, store)
  | .remove kind key version, store => do
      let store ← storeUpsert kind key (Store.deletedItem key version) store
      pure (.returned, store)
  | .all kind, store => do
      let result ← store.collect kind
      pure (.associating result 0, store)
  | .associating result index, store =>
      match result.associated[index]? with
      | none => pure (.holding result, store)
      | some rc => do
          let store ← store.retain rc
          pure (.associating result (index + 1), store)
  | .holding result, store => pure (.releasing result 0, store)
  | .releasing result index, store =>
      match result.associated[index]? with
      | none => pure (.returned, store)
      | some rc => do
          let store ← store.release rc
          pure (.releasing result (index + 1), store)
  | .returned, store => pure (.returned, store)

def refersTo : MemoryTask → List ℕ
  | .associating result _ | .holding result => result.associated
  | .releasing result index => result.associated.drop index
  | _ => []

end MemoryTask

inductive MemoryCall where
  | init (sets : Json)
  | upsert (kind : FeatureKind) (feature : Json)
  | remove (kind : FeatureKind) (key : String) (version : UInt32)
  | all (kind : FeatureKind)

def MemoryCall.begin : MemoryCall → MemoryTask
  | .init sets => .init sets
  | .upsert kind feature => .upsert kind feature
  | .remove kind key version => .remove kind key version
  | .all kind => .all kind

inductive MemoryEvent where
  | start (call : MemoryCall)
  | step (id : ℕ)

structure MemoryThreads where
  store : CountedStore
  tasks : List MemoryTask

namespace MemoryThreads

def idle : MemoryThreads := ⟨.created, []⟩

def perform (threads : MemoryThreads) : MemoryEvent → Counting MemoryThreads
  | .start call => pure { threads with tasks := threads.tasks ++ [call.begin] }
  | .step id =>
      match threads.tasks[id]? with
      | none => pure threads
      | some task => do
          let (task, store) ← task.step threads.store
          pure ⟨store, threads.tasks.set id task⟩

end MemoryThreads

end ServerSdk
