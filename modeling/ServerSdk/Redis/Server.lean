import Mathlib.Data.List.AList
import Mathlib.Logic.Function.Basic

namespace Redis

inductive Command where
  | watch (key : String)
  | multi
  | exec
  | hget (key field : String)
  | hset (key field value : String)
  | hgetall (key : String)
  | del (key : String)
  | set (key value : String)
  | existsKey (key : String)
  deriving DecidableEq, Repr

inductive Reply where
  | status (text : String)
  | error (text : String)
  | nil
  | string (text : String)
  | integer (value : Int)
  | array (elements : List Reply)

inductive Value where
  | hash (fields : AList fun _ : String => String)
  | string (text : String)

structure Connection where
  watched : List String
  dirty : Bool
  queue : Option (List Command)
  deriving DecidableEq, Repr

def Connection.fresh : Connection := ⟨[], false, none⟩

structure Server where
  keyspace : String → Option Value
  connections : ℕ → Connection

namespace Server

def empty : Server := ⟨fun _ => none, fun _ => .fresh⟩

def setConnection (server : Server) (id : ℕ) (connection : Connection) : Server :=
  { server with connections := Function.update server.connections id connection }

def touched (key : String) (connection : Connection) : Connection :=
  if key ∈ connection.watched then { connection with dirty := true } else connection

def store (server : Server) (key : String) (value : Option Value) : Server where
  keyspace := Function.update server.keyspace key value
  connections id := touched key (server.connections id)

def wrongType : Reply :=
  .error "WRONGTYPE Operation against a key holding the wrong kind of value"

def hashFields (fields : AList fun _ : String => String) : List Reply :=
  fields.entries.flatMap fun entry => [.string entry.1, .string entry.2]

def apply (server : Server) : Command → Reply × Server
  | .hget key field =>
      match server.keyspace key with
      | none => (.nil, server)
      | some (.string _) => (wrongType, server)
      | some (.hash fields) =>
          match fields.lookup field with
          | none => (.nil, server)
          | some text => (.string text, server)
  | .hset key field value =>
      match server.keyspace key with
      | none => (.integer 1, server.store key (some (.hash (AList.singleton field value))))
      | some (.string _) => (wrongType, server)
      | some (.hash fields) =>
          (.integer (if field ∈ fields then 0 else 1),
            server.store key (some (.hash (fields.insert field value))))
  | .hgetall key =>
      match server.keyspace key with
      | none => (.array [], server)
      | some (.string _) => (wrongType, server)
      | some (.hash fields) => (.array (hashFields fields), server)
  | .del key =>
      match server.keyspace key with
      | none => (.integer 0, server)
      | some _ => (.integer 1, server.store key none)
  | .set key value => (.status "OK", server.store key (some (.string value)))
  | .existsKey key => (.integer (if (server.keyspace key).isSome then 1 else 0), server)
  | .watch _ | .multi | .exec => (.status "OK", server)

def applyAll : List Command → Server → List Reply × Server
  | [], server => ([], server)
  | command :: commands, server =>
      let (reply, server) := server.apply command
      let (replies, server) := applyAll commands server
      (reply :: replies, server)

def execute (server : Server) (id : ℕ) (command : Command) : Reply × Server :=
  let connection := server.connections id
  match connection.queue, command with
  | none, .watch key =>
      (.status "OK", server.setConnection id { connection with watched := key :: connection.watched })
  | none, .multi => (.status "OK", server.setConnection id { connection with queue := some [] })
  | none, .exec => (.error "ERR EXEC without MULTI", server)
  | none, command => server.apply command
  | some _, .watch _ => (.error "ERR WATCH inside MULTI is not allowed", server)
  | some _, .multi => (.error "ERR MULTI calls can not be nested", server)
  | some queue, .exec =>
      if connection.dirty then (.nil, server.setConnection id .fresh)
      else
        let (replies, server) := applyAll queue (server.setConnection id .fresh)
        (.array replies, server)
  | some queue, command =>
      (.status "QUEUED", server.setConnection id { connection with queue := some (queue ++ [command]) })

def field (server : Server) (key field : String) : Option String :=
  match server.keyspace key with
  | some (.hash fields) => fields.lookup field
  | _ => none

def Hashes (server : Server) (key : String) : Prop :=
  ∀ text, server.keyspace key ≠ some (.string text)

variable {server : Server} {key field value : String} {id : ℕ}

@[simp] theorem connections_setConnection (connection : Connection) :
    (server.setConnection id connection).connections id = connection :=
  Function.update_self _ _ _

theorem connections_setConnection_of_ne {connection : Connection} {other : ℕ} (h : other ≠ id) :
    (server.setConnection id connection).connections other = server.connections other :=
  Function.update_of_ne h _ _

@[simp] theorem setConnection_setConnection (first second : Connection) :
    (server.setConnection id first).setConnection id second = server.setConnection id second := by
  simp [setConnection]

theorem Hashes.setConnection (h : server.Hashes key) (connection : Connection) :
    (server.setConnection id connection).Hashes key := h

theorem queue_setConnection {connection : Connection} (hqueue : connection.queue = none) (other : ℕ)
    (h : other ≠ id → (server.connections other).queue = none) :
    ((server.setConnection id connection).connections other).queue = none := by
  by_cases heq : other = id
  · subst heq
    rw [connections_setConnection]
    exact hqueue
  · rw [connections_setConnection_of_ne heq]
    exact h heq

theorem queue_touched (key : String) (connection : Connection) :
    (touched key connection).queue = connection.queue := by
  rw [touched]
  split_ifs <;> rfl

theorem apply_hget (h : server.Hashes key) :
    server.apply (.hget key field) =
      ((server.field key field).elim .nil .string, server) := by
  rw [apply, Server.field]
  cases hkey : server.keyspace key with
  | none => rfl
  | some held =>
      cases held with
      | string text => exact absurd hkey (h text)
      | hash fields =>
          cases hlookup : fields.lookup field with
          | none => simp [hlookup]
          | some text => simp [hlookup]

structure Stores (server : Server) (key field value : String) (next : Server) : Prop where
  stored : next.field key field = some value
  others : ∀ key' field', (key', field') ≠ (key, field) → next.field key' field' = server.field key' field'
  hashes : ∀ key', server.Hashes key' → next.Hashes key'
  queue : ∀ id, (next.connections id).queue = (server.connections id).queue

theorem stores_store {fields : AList fun _ : String => String}
    (hfield : ∀ field', field' ≠ field → fields.lookup field' = server.field key field') :
    Stores server key field value
      (server.store key (some (.hash (fields.insert field value)))) := by
  have hself : (server.store key (some (.hash (fields.insert field value)))).keyspace key =
      some (.hash (fields.insert field value)) := Function.update_self _ _ _
  have hother : ∀ key', key' ≠ key →
      (server.store key (some (.hash (fields.insert field value)))).keyspace key' =
        server.keyspace key' := fun key' hne => Function.update_of_ne hne _ _
  refine ⟨?_, ?_, ?_, ?_⟩
  · rw [Server.field, hself]
    exact AList.lookup_insert fields
  · intro key' field' hne
    by_cases hkey : key' = key
    · subst hkey
      have hfield' : field' ≠ field := fun heq => hne (by rw [heq])
      rw [Server.field, hself]
      exact (AList.lookup_insert_ne hfield').trans (hfield field' hfield')
    · rw [Server.field, hother key' hkey]
      rfl
  · intro key' hhashes text
    by_cases hkey : key' = key
    · subst hkey
      rw [hself]
      simp
    · rw [hother key' hkey]
      exact hhashes text
  · intro id
    exact queue_touched key _

theorem apply_hset (h : server.Hashes key) :
    ∃ count, (server.apply (.hset key field value)).1 = .integer count ∧
      Stores server key field value (server.apply (.hset key field value)).2 := by
  rw [apply]
  cases hkey : server.keyspace key with
  | none =>
      refine ⟨1, rfl, @stores_store server key field value ∅ ?_⟩
      intro field' _
      rw [Server.field, hkey]
      rfl
  | some held =>
      cases held with
      | string text => exact absurd hkey (h text)
      | hash fields =>
          refine ⟨_, rfl, stores_store ?_⟩
          intro field' _
          rw [Server.field, hkey]

theorem execute_exec (queue : List Command) (hqueue : (server.connections id).queue = some queue) :
    ((server.connections id).dirty = true ∧
      server.execute id .exec = (.nil, server.setConnection id .fresh)) ∨
    ((server.connections id).dirty = false ∧
      server.execute id .exec = (.array (applyAll queue (server.setConnection id .fresh)).1,
        (applyAll queue (server.setConnection id .fresh)).2)) := by
  cases hdirty : (server.connections id).dirty with
  | true => simp [execute, hqueue, hdirty]
  | false => simp [execute, hqueue, hdirty]

def Queries : Command → Prop
  | .hget _ _ | .hgetall _ | .existsKey _ => True
  | _ => False

theorem keyspace_execute_of_queries {command : Command} (hqueue : (server.connections id).queue = none)
    (h : Queries command) : (server.execute id command).2.keyspace = server.keyspace := by
  cases command with
  | hget key field =>
      simp only [execute, hqueue, apply]
      split
      · rfl
      · rfl
      · split
        · rfl
        · rfl
  | hgetall key =>
      simp only [execute, hqueue, apply]
      split
      · rfl
      · rfl
      · rfl
  | existsKey key => simp only [execute, hqueue, apply]
  | _ => cases h

structure Leaves (server next : Server) (id : ℕ) : Prop where
  queue : (next.connections id).queue = (server.connections id).queue
  watched : (next.connections id).watched = (server.connections id).watched
  dirty : (server.connections id).dirty = true → (next.connections id).dirty = true
  keyspace : ∀ key ∈ (server.connections id).watched,
    (next.connections id).dirty = true ∨ next.keyspace key = server.keyspace key

theorem Leaves.refl (server : Server) (id : ℕ) : Leaves server server id :=
  ⟨rfl, rfl, fun h => h, fun _ _ => .inr rfl⟩

theorem Leaves.trans {next last : Server} (h : Leaves server next id) (h' : Leaves next last id) :
    Leaves server last id := by
  refine ⟨h'.queue.trans h.queue, h'.watched.trans h.watched, fun hdirty => h'.dirty (h.dirty hdirty),
    ?_⟩
  intro key hkey
  rcases h'.keyspace key (h.watched ▸ hkey) with hdirty | hlast
  · exact .inl hdirty
  · rcases h.keyspace key hkey with hdirty | hnext
    · exact .inl (h'.dirty hdirty)
    · exact .inr (hlast.trans hnext)

theorem leaves_setConnection {connection : Connection} {other : ℕ} (h : other ≠ id) :
    Leaves server (server.setConnection id connection) other := by
  have hsame : (server.setConnection id connection).connections other = server.connections other :=
    connections_setConnection_of_ne h
  exact ⟨by rw [hsame], by rw [hsame], fun hdirty => by rw [hsame]; exact hdirty,
    fun _ _ => .inr rfl⟩

theorem leaves_store (server : Server) (key : String) (held : Option Value) (id : ℕ) :
    Leaves server (server.store key held) id := by
  have hconnection : (server.store key held).connections id =
      touched key (server.connections id) := rfl
  rw [touched] at hconnection
  by_cases hwatched : key ∈ (server.connections id).watched
  · rw [if_pos hwatched] at hconnection
    exact ⟨by rw [hconnection], by rw [hconnection], fun _ => by rw [hconnection],
      fun _ _ => .inl (by rw [hconnection])⟩
  · rw [if_neg hwatched] at hconnection
    refine ⟨by rw [hconnection], by rw [hconnection], fun h => by rw [hconnection]; exact h, ?_⟩
    intro other hother
    have hne : other ≠ key := by
      rintro rfl
      exact hwatched hother
    exact .inr (Function.update_of_ne hne _ _)

theorem leaves_apply (server : Server) (command : Command) (id : ℕ) :
    Leaves server (server.apply command).2 id := by
  cases command with
  | hget key field =>
      rw [apply]
      split
      · exact .refl server id
      · exact .refl server id
      · split
        · exact .refl server id
        · exact .refl server id
  | hset key field value =>
      rw [apply]
      split
      · exact leaves_store server key _ id
      · exact .refl server id
      · exact leaves_store server key _ id
  | hgetall key =>
      rw [apply]
      split
      · exact .refl server id
      · exact .refl server id
      · exact .refl server id
  | del key =>
      rw [apply]
      split
      · exact .refl server id
      · exact leaves_store server key none id
  | set key value => exact leaves_store server key _ id
  | existsKey key => exact .refl server id
  | watch key => exact .refl server id
  | multi => exact .refl server id
  | exec => exact .refl server id

theorem leaves_applyAll (commands : List Command) (server : Server) (id : ℕ) :
    Leaves server (applyAll commands server).2 id := by
  induction commands generalizing server with
  | nil => exact .refl server id
  | cons command commands ih => exact (leaves_apply server command id).trans (ih _)

theorem leaves_execute (server : Server) (command : Command) {other : ℕ} (h : other ≠ id) :
    Leaves server (server.execute id command).2 other := by
  cases hqueue : (server.connections id).queue with
  | none =>
      cases command with
      | watch key =>
          simp only [execute, hqueue]
          exact leaves_setConnection h
      | multi =>
          simp only [execute, hqueue]
          exact leaves_setConnection h
      | exec =>
          simp only [execute, hqueue]
          exact .refl server other
      | _ =>
          simp only [execute, hqueue]
          exact leaves_apply server _ other
  | some queue =>
      cases command with
      | watch key =>
          simp only [execute, hqueue]
          exact .refl server other
      | multi =>
          simp only [execute, hqueue]
          exact .refl server other
      | exec =>
          simp only [execute, hqueue]
          split_ifs
          · exact leaves_setConnection h
          · exact (leaves_setConnection h).trans (leaves_applyAll _ _ other)
      | _ =>
          simp only [execute, hqueue]
          exact leaves_setConnection h

end Server

end Redis
