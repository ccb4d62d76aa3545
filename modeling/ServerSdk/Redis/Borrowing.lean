import ServerSdk.Program.ResourcePool
import ServerSdk.Redis.ConnectionPool

namespace ServerSdk

open Program

inductive ConnectAttempt where
  | unallocated
  | unconnected
  | erroneous
  | connected
  deriving DecidableEq, Repr

structure BorrowContext where
  context : RedisContext
  err : ℕ → Bool
  opened : ℕ
  attempt : ConnectAttempt

inductive BorrowEvent where
  | attempts (attempt : ConnectAttempt)
  | fails (connection : ℕ)

inductive BorrowTask where
  | borrowing
  | waiting
  | opening
  | failing
  | holding (connection : ℕ)
  | finished
  deriving DecidableEq, Repr

namespace BorrowContext

def new (poolSize : ℕ) : BorrowContext := ⟨⟨[], 0, poolSize⟩, fun _ => false, 0, .connected⟩

def environment : BorrowEvent → BorrowContext → BorrowContext
  | .attempts attempt, pool => { pool with attempt }
  | .fails connection, pool => { pool with err := Function.update pool.err connection true }

def look (pool : BorrowContext) : BorrowTask × BorrowContext :=
  match pool.context.connections with
  | connection :: connections =>
      (.holding connection, { pool with context := { pool.context with connections } })
  | [] =>
      if pool.context.count < pool.context.poolSize then
        (.opening, { pool with context := { pool.context with count := pool.context.count + 1 } })
      else (.waiting, pool)

def redisConnect (pool : BorrowContext) : BorrowTask × BorrowContext :=
  match pool.attempt with
  | .connected =>
      (.holding pool.opened,
        { pool with opened := pool.opened + 1, err := Function.update pool.err pool.opened false })
  | .unallocated | .unconnected | .erroneous => (.failing, pool)

def uncount (pool : BorrowContext) : BorrowContext :=
  { pool with context := { pool.context with count := pool.context.count - 1 } }

def returnConnection (pool : BorrowContext) (connection : ℕ) : BorrowContext :=
  if pool.err connection then pool.uncount
  else { pool with
    context := { pool.context with connections := connection :: pool.context.connections } }

end BorrowContext

def BorrowTask.step : BorrowTask → BorrowContext → BorrowTask × BorrowContext
  | .borrowing, pool | .waiting, pool => pool.look
  | .opening, pool => pool.redisConnect
  | .failing, pool => (.finished, pool.uncount)
  | .holding connection, pool => (.finished, pool.returnConnection connection)
  | .finished, pool => (.finished, pool)

def borrowMachine : Machine BorrowContext BorrowTask Unit BorrowEvent where
  begin _ := .borrowing
  step task pool := pure (task.step pool)
  environment := BorrowContext.environment

abbrev BorrowThreads := Pool BorrowContext BorrowTask

def BorrowTask.connection? : BorrowTask → Option ℕ
  | .holding connection => some connection
  | _ => none

def BorrowTask.isOpening : BorrowTask → Bool
  | .opening | .failing => true
  | _ => false

def borrowedBy (threads : List ℕ) (pool : BorrowThreads) : List ℕ :=
  threads.filterMap fun id => (pool.tasks id).bind BorrowTask.connection?

def openedBy (threads : List ℕ) (pool : BorrowThreads) : ℕ :=
  threads.countP fun id => (pool.tasks id).any BorrowTask.isOpening

structure KeepsAccounts (poolSize : ℕ) (threads : List ℕ) (pool : BorrowThreads) : Prop where
  once : threads.Nodup
  started : ∀ id, pool.tasks id ≠ none ↔ id ∈ threads
  count : pool.shared.context.count = pool.shared.context.connections.length +
    (borrowedBy threads pool).length + openedBy threads pool
  bounded : pool.shared.context.count ≤ poolSize
  exclusive : (pool.shared.context.connections ++ borrowedBy threads pool).Nodup

def RedisContext.stock (context : RedisContext) (opened : ℕ) : Stock :=
  ⟨context.connections, context.count, context.poolSize, opened⟩

def BorrowContext.stock (pool : BorrowContext) : Stock := pool.context.stock pool.opened

def BorrowTask.share : BorrowTask → Share
  | .opening | .failing => .opening
  | .holding connection => .holding connection
  | .borrowing | .waiting | .finished => .idle

theorem BorrowTask.held_share (task : BorrowTask) : task.share.held = task.connection? := by
  cases task <;> rfl

theorem BorrowTask.isOpening_share (task : BorrowTask) : task.share.isOpening = task.isOpening := by
  cases task <;> rfl

section Moving

variable {pool : BorrowContext}

theorem moves_look (pool : BorrowContext) :
    Moves .idle pool.stock pool.look.1.share pool.look.2.stock := by
  rw [BorrowContext.look]
  cases hfree : pool.context.connections with
  | cons connection connections => exact .take hfree
  | nil =>
      simp only
      split_ifs with hroom
      · exact .reserve hroom
      · exact .stay _ _

theorem moves_redisConnect (pool : BorrowContext) :
    Moves .opening pool.stock pool.redisConnect.1.share pool.redisConnect.2.stock := by
  rw [BorrowContext.redisConnect]
  cases pool.attempt with
  | connected => exact .acquire _
  | unallocated => exact .stay _ _
  | unconnected => exact .stay _ _
  | erroneous => exact .stay _ _

theorem moves_returnConnection (pool : BorrowContext) (connection : ℕ) :
    Moves (.holding connection) pool.stock .idle (pool.returnConnection connection).stock := by
  rw [BorrowContext.returnConnection]
  split_ifs
  · exact .discard _ _
  · exact .giveBack _ _

theorem BorrowTask.moves_step (task : BorrowTask) (pool : BorrowContext) :
    Moves task.share pool.stock (task.step pool).1.share (task.step pool).2.stock := by
  cases task with
  | borrowing => exact moves_look pool
  | waiting => exact moves_look pool
  | opening => exact moves_redisConnect pool
  | failing => exact .abandon _
  | holding connection => exact moves_returnConnection pool connection
  | finished => exact .stay _ _

theorem borrowMachine_shares : Shares borrowMachine BorrowContext.stock BorrowTask.share := by
  refine ⟨fun _ => rfl, ?_, ?_⟩
  · intro task pool task' pool' hstep
    have hnext : task.step pool = (task', pool') := Except.ok.inj hstep
    have hmoves := task.moves_step pool
    rw [hnext] at hmoves
    exact hmoves
  · intro event pool
    cases event <;> rfl

end Moving

theorem borrowedBy_eq (threads : List ℕ) (pool : BorrowThreads) :
    borrowedBy threads pool = resourcesOf threads (pool.shareOf BorrowTask.share) := by
  refine List.filterMap_congr fun id _ => ?_
  rw [Pool.shareOf]
  cases pool.tasks id with
  | none => rfl
  | some task => exact task.held_share.symm

theorem openedBy_eq (threads : List ℕ) (pool : BorrowThreads) :
    openedBy threads pool = openingsOf threads (pool.shareOf BorrowTask.share) := by
  refine List.countP_congr fun id _ => ?_
  rw [Pool.shareOf]
  cases pool.tasks id with
  | none => rfl
  | some task =>
      rw [Option.elim_some, BorrowTask.isOpening_share]
      rfl

theorem redis_pool_keeps_accounts (poolSize : ℕ) (events : List (PoolEvent Unit BorrowEvent)) :
    ∃ pool threads, Pool.performAll borrowMachine events (.idle (.new poolSize)) = .ok pool ∧
      KeepsAccounts poolSize threads pool := by
  have htotal : ∀ task pool, Checked.Returns (borrowMachine.step task pool) :=
    fun _ _ => Checked.returns_pure _
  obtain ⟨pool, hperform, hreaches⟩ := Pool.reaches_of_total htotal events (.idle (.new poolSize))
  obtain ⟨threads, hstarted, haccounts⟩ := hreaches.accounted borrowMachine_shares rfl rfl
  have hlimit := hreaches.limit_eq borrowMachine_shares
  refine ⟨pool, threads, hperform, haccounts.nodup, hstarted, ?_, ?_, ?_⟩
  · rw [borrowedBy_eq, openedBy_eq]
    exact haccounts.count
  · exact haccounts.limit.trans_eq hlimit
  · rw [borrowedBy_eq]
    exact haccounts.exclusive

def PooledTask.share : PooledTask → Share
  | .connecting _ => .opening
  | .running connection _ => .holding connection
  | .borrowing _ | .finished _ => .idle

def RedisNetwork.stock (network : RedisNetwork) : Stock := network.context.stock network.opened

theorem stock_redisCommand (network : RedisNetwork) (connection : ℕ) (command : Redis.Command) :
    (network.redisCommand connection command).2.stock = network.stock := by
  rw [RedisNetwork.redisCommand]
  cases network.answer <;> rfl

section Operations

variable [Parsing] {network : RedisNetwork} {task : PooledTask}

theorem PooledTask.moves_step {after : PooledTask} {changed : RedisNetwork}
    (h : task.step network = .ok (after, changed)) :
    Moves task.share network.stock after.share changed.stock := by
  cases task with
  | borrowing call =>
      rw [step] at h
      cases hconnections : network.context.connections with
      | cons connection connections =>
          simp only [hconnections] at h
          cases h
          exact .take hconnections
      | nil =>
          simp only [hconnections] at h
          split_ifs at h with hroom
          · cases h
            have hlt : network.stock.count < network.stock.limit := hroom
            rw [← hconnections]
            exact .reserve hlt
          · cases h
            exact .stay _ _
  | connecting call =>
      rw [step] at h
      split_ifs at h
      · cases h
        exact .acquire _
      · cases h
        exact .abandon _
  | running connection task =>
      rw [step] at h
      cases hresult : task.result with
      | some result =>
          rw [hresult] at h
          cases h
          rw [RedisNetwork.returnConnection]
          split_ifs
          · exact .discard _ _
          · exact .giveBack _ _
      | none =>
          rw [hresult] at h
          obtain ⟨sent, -, h⟩ := Checked.bind_eq_ok.mp h
          cases sent with
          | none =>
              cases h
              exact .stay _ _
          | some command =>
              obtain ⟨received, -, h⟩ := Checked.bind_eq_ok.mp h
              cases h
              exact stock_redisCommand network connection command ▸ .stay _ _
  | finished result =>
      cases h
      exact .stay _ _

theorem pooledMachine_shares : Shares pooledMachine RedisNetwork.stock PooledTask.share := by
  refine ⟨fun _ => rfl, fun _ _ _ _ hstep => PooledTask.moves_step hstep, ?_⟩
  intro event network
  cases event <;> rfl

theorem pooled_operations_keep_accounts {poolSize : ℕ} {pool : Pool RedisNetwork PooledTask}
    {allowed : Pool RedisNetwork PooledTask → PoolEvent RedisCall NetworkEvent → Prop}
    (h : Pool.Reaches pooledMachine allowed (.idle (.new poolSize)) pool) :
    ∃ threads, Pool.Accounted RedisNetwork.stock PooledTask.share threads pool ∧
      pool.shared.context.count ≤ poolSize := by
  obtain ⟨threads, haccounted⟩ := h.accounted pooledMachine_shares rfl rfl
  have hlimit := h.limit_eq pooledMachine_shares
  exact ⟨threads, haccounted, haccounted.accounts.limit.trans_eq hlimit⟩

end Operations

end ServerSdk
