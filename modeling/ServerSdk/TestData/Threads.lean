import ServerSdk.Program.Steps
import ServerSdk.TestData.Flags

namespace ServerSdk

open Program

inductive StartPhase where
  | created
  | copied (flags : Json)
  | initialised
  | started
  | failed
  deriving DecidableEq

structure TestClient where
  phase : StartPhase
  store : Store MemoryStoreContext

structure NewFlag where
  key : String
  flag : Json
  allocation : ℕ
  deriving DecidableEq

inductive UpdatePhase where
  | requested (flagBuilder : FlagBuilder)
  | changed (newFlag : NewFlag)
  | notifying (newFlag : NewFlag) (remaining : List ℕ)
  | upserting (newFlag : NewFlag) (client : ℕ) (remaining : List ℕ)
  | updated

def UpdatePhase.completed : UpdatePhase → Bool
  | .updated => true
  | .requested _ | .changed _ | .notifying _ _ | .upserting _ _ _ => false

-- `owner` is the allocation of the flag that currentFlags holds under a key: setting the key again
-- frees it.
structure TestData where
  currentFlags : Json
  owner : String → Option ℕ
  allocated : ℕ
  instances : List ℕ
  clients : List TestClient
  updates : List UpdatePhase

def testDataInit : TestData := ⟨.object [], fun _ => none, 0, [], [], []⟩

inductive TestDataEvent where
  | createDataSource
  | start (client : ℕ)
  | request (flagBuilder : FlagBuilder)
  | update (id : ℕ) (freedMemory : Json)

def startStep (currentFlags : Json) (client : TestClient) : Checked TestClient :=
  match client.phase with
  | .created => .ok { client with phase := .copied currentFlags }
  | .copied flags => do
      let (status, store) ← client.store.init (dataSet flags)
      pure ⟨if status then .initialised else .failed, store⟩
  | .initialised => .ok { client with phase := .started }
  | .started | .failed => .ok client

namespace TestData

def hasStore (testData : TestData) (client : ℕ) : Bool :=
  (testData.clients[client]?).any fun client => decide (client.phase = .started)

def changeFlags (testData : TestData) (flagBuilder : FlagBuilder) : NewFlag × TestData :=
  let flag := createNewFlag testData.currentFlags flagBuilder
  (⟨flagBuilder.key, flag, testData.allocated⟩,
    { testData with
      currentFlags := testData.currentFlags.objectSetKey flagBuilder.key flag
      owner := Function.update testData.owner flagBuilder.key (some testData.allocated)
      allocated := testData.allocated + 1 })

def upsertInto (testData : TestData) (client : ℕ) (flag : Json) : Checked TestData :=
  match testData.clients[client]? with
  | none => .ok testData
  | some found => do
      let (_, store) ← found.store.upsert .flag flag
      pure { testData with clients := testData.clients.set client { found with store } }

def advance (testData : TestData) (freedMemory : Json) :
    UpdatePhase → Checked (UpdatePhase × TestData)
  | .requested flagBuilder =>
      let (newFlag, testData) := testData.changeFlags flagBuilder
      .ok (.changed newFlag, testData)
  | .changed newFlag => .ok (.notifying newFlag testData.instances, testData)
  | .notifying _ [] => .ok (.updated, testData)
  | .notifying newFlag (client :: remaining) =>
      .ok (if testData.hasStore client then .upserting newFlag client remaining
        else .notifying newFlag remaining, testData)
  | .upserting newFlag client remaining => do
      let duplicate := if testData.owner newFlag.key = some newFlag.allocation then newFlag.flag
        else freedMemory
      let testData ← testData.upsertInto client duplicate
      pure (.notifying newFlag remaining, testData)
  | .updated => .ok (.updated, testData)

def perform (testData : TestData) : TestDataEvent → Checked TestData
  | .createDataSource =>
      .ok { testData with
        instances := testData.clients.length :: testData.instances
        clients := testData.clients ++ [⟨.created, Store.newMemory⟩] }
  | .start client =>
      match testData.clients[client]? with
      | none => .ok testData
      | some found => do
          let found ← startStep testData.currentFlags found
          pure { testData with clients := testData.clients.set client found }
  | .request flagBuilder =>
      .ok { testData with updates := testData.updates ++ [.requested flagBuilder] }
  | .update id freedMemory =>
      match testData.updates[id]? with
      | none => .ok testData
      | some phase => do
          let (phase, testData) ← testData.advance freedMemory phase
          pure { testData with updates := testData.updates.set id phase }

structure AllCompleted (testData : TestData) : Prop where
  clients : ∀ client ∈ testData.clients, client.phase = .started ∨ client.phase = .failed
  updates : ∀ phase ∈ testData.updates, phase.completed = true

def Delivered (testData : TestData) : Prop :=
  ∀ client ∈ testData.clients, client.phase = .started → ∀ key,
    client.store.context.getFromStore .flag key = testData.currentFlags.objectLookup key

end TestData

def TestClient.view (client : TestClient) : Option (String → Option Json) :=
  match client.phase with
  | .created | .failed => none
  | .copied flags => some flags.objectLookup
  | .initialised | .started => some (client.store.context.getFromStore .flag)

def Misses (view : String → Option Json) (newFlag : NewFlag) : Prop :=
  ∀ held ∈ view newFlag.key, getDataVersion held < getDataVersion newFlag.flag

instance (view : String → Option Json) : DecidablePred (Misses view) := fun newFlag =>
  inferInstanceAs (Decidable (∀ held ∈ view newFlag.key, _))

namespace TestData

def InTime (testData : TestData) : UpdatePhase → Prop
  | .requested flagBuilder => getPreviousFlagVersion testData.currentFlags flagBuilder < 2 ^ 31 - 1
  | .notifying newFlag (client :: _) =>
      testData.hasStore client = false → ∀ found ∈ testData.clients[client]?,
        ∀ view ∈ found.view, ¬ Misses view newFlag
  | .upserting newFlag _ _ => testData.owner newFlag.key = some newFlag.allocation
  | .changed _ | .notifying _ [] | .updated => True

instance (testData : TestData) : DecidablePred testData.InTime
  | .requested flagBuilder =>
      inferInstanceAs (Decidable (getPreviousFlagVersion testData.currentFlags flagBuilder < _))
  | .notifying newFlag (client :: _) =>
      inferInstanceAs (Decidable (testData.hasStore client = false →
        ∀ found ∈ testData.clients[client]?, ∀ view ∈ found.view, ¬ Misses view newFlag))
  | .upserting newFlag _ _ => inferInstanceAs (Decidable (_ = some newFlag.allocation))
  | .changed _ | .notifying _ [] | .updated => .isTrue trivial

def Timely (testData : TestData) : TestDataEvent → Prop
  | .update id _ => ∀ phase ∈ testData.updates[id]?, testData.InTime phase
  | .createDataSource | .start _ | .request _ => True

instance (testData : TestData) : DecidablePred testData.Timely
  | .update id _ => inferInstanceAs (Decidable (∀ phase ∈ testData.updates[id]?, testData.InTime phase))
  | .createDataSource | .start _ | .request _ => .isTrue trivial

instance : DecidablePred AllCompleted := fun testData =>
  decidable_of_iff ((∀ client ∈ testData.clients, client.phase = .started ∨ client.phase = .failed) ∧
      ∀ phase ∈ testData.updates, phase.completed = true)
    ⟨fun ⟨hclients, hupdates⟩ => ⟨hclients, hupdates⟩, fun ⟨hclients, hupdates⟩ => ⟨hclients, hupdates⟩⟩

end TestData

end ServerSdk
