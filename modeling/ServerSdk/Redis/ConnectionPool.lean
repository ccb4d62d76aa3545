import ServerSdk.Redis.NoLostUpdate

namespace Redis

-- EXEC answers so when the transaction was discarded.
def discarded (text : String) : Bool := "EXECABORT".toList.isPrefixOf text.toList

def Connection.observe (connection : Connection) (command : Command) (reply : Reply) : Connection :=
  match command, reply with
  | .watch key, .status text =>
      if text = "OK" then { connection with watched := key :: connection.watched } else connection
  | .multi, .status text => if text = "OK" then { connection with queue := some [] } else connection
  | .exec, .array _ => .fresh
  | .exec, .nil => .fresh
  | .exec, .error text => if discarded text then .fresh else connection
  | .exec, _ => connection
  | command, .status text =>
      if text = "QUEUED" then
        { connection with queue := connection.queue.map (· ++ [command]) }
      else connection
  | _, _ => connection

theorem Connection.observe_of_idle {connection : Connection} {command : Command}
    (hqueue : connection.queue = none) (h : ServerSdk.Enqueues (some command)) (reply : Reply) :
    connection.observe command reply = connection := by
  obtain ⟨watched, dirty, queue⟩ := connection
  cases hqueue
  cases command with
  | watch key => cases h
  | multi => cases h
  | exec => cases h
  | _ =>
      cases reply with
      | status text => simp [observe]
      | _ => rfl

end Redis

namespace ServerSdk

open Program Redis PersistentStoreContext

structure RedisContext where
  connections : List ℕ
  count : ℕ
  poolSize : ℕ
  deriving DecidableEq, Repr

structure RedisHandle where
  session : Connection
  err : Bool
  deriving DecidableEq, Repr

structure RedisNetwork where
  context : RedisContext
  handles : ℕ → RedisHandle
  opened : ℕ
  answer : Option Reply
  reachable : Bool

inductive NetworkEvent where
  | answers (reply : Option Reply)
  | reaches (reachable : Bool)
  | modifies (key : String)

inductive PooledTask where
  | borrowing (call : RedisCall)
  | connecting (call : RedisCall)
  | running (connection : ℕ) (task : RedisTask)
  | finished (result : RedisResult)
  deriving DecidableEq, Repr

def RedisCall.failed : RedisCall → RedisResult
  | .init _ _ | .upsert _ | .initialized _ => .status false
  | .get _ _ _ => .item none
  | .all _ _ => .items none

namespace RedisNetwork

def new (poolSize : ℕ) : RedisNetwork where
  context := ⟨[], 0, poolSize⟩
  handles _ := ⟨.fresh, false⟩
  opened := 0
  answer := none
  reachable := true

def setHandle (network : RedisNetwork) (connection : ℕ) (handle : RedisHandle) : RedisNetwork :=
  { network with handles := Function.update network.handles connection handle }

def environment : NetworkEvent → RedisNetwork → RedisNetwork
  | .answers reply, network => { network with answer := reply }
  | .reaches reachable, network => { network with reachable }
  | .modifies key, network =>
      { network with handles := fun connection =>
          { network.handles connection with
            session := Server.touched key (network.handles connection).session } }

def returnConnection (network : RedisNetwork) (connection : ℕ) : RedisNetwork :=
  if (network.handles connection).err then
    { network with context := { network.context with count := network.context.count - 1 } }
  else
    { network with context :=
        { network.context with connections := connection :: network.context.connections } }

def redisCommand (network : RedisNetwork) (connection : ℕ) (command : Command) :
    Option Reply × RedisNetwork :=
  let handle := network.handles connection
  match network.answer with
  | none => (none, network.setHandle connection { handle with err := true })
  | some reply => (some reply, network.setHandle connection
      { handle with session := handle.session.observe command reply })

end RedisNetwork

section Pooling

variable [Parsing]

def PooledTask.step : PooledTask → RedisNetwork → Checked (PooledTask × RedisNetwork)
  | .borrowing call, network =>
      let context := network.context
      match context.connections with
      | connection :: connections =>
          pure (.running connection (RedisTask.begin call),
            { network with context := { context with connections } })
      | [] =>
          if context.count < context.poolSize then
            pure (.connecting call,
              { network with context := { context with count := context.count + 1 } })
          else pure (.borrowing call, network)
  | .connecting call, network =>
      if network.reachable then
        pure (.running network.opened (RedisTask.begin call),
          { network.setHandle network.opened ⟨.fresh, false⟩ with opened := network.opened + 1 })
      else
        pure (.finished call.failed, { network with
          context := { network.context with count := network.context.count - 1 } })
  | .running connection task, network =>
      match task.result with
      | some result => pure (.finished result, network.returnConnection connection)
      | none => do
          match ← task.command with
          | none => pure (.running connection task, network)
          | some command =>
              let (reply, network) := network.redisCommand connection command
              let task ← task.receive reply
              pure (.running connection task, network)
  | .finished result, network => pure (.finished result, network)

def pooledMachine : Machine RedisNetwork PooledTask RedisCall NetworkEvent where
  begin := PooledTask.borrowing
  step := PooledTask.step
  environment := RedisNetwork.environment

end Pooling

end ServerSdk
