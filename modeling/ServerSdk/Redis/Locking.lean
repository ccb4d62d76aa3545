import ServerSdk.Redis.Monotone
import ServerSdk.Redis.Operations

namespace ServerSdk

open Program Redis

structure RedisClient where
  connection : ℕ
  task : RedisTask
  deriving DecidableEq, Repr

abbrev RedisPool := Pool Server RedisClient

abbrev RedisEvent := PoolEvent (ℕ × RedisCall) Empty

def RedisClient.running (client : RedisClient) : Prop := client.task.result = none

def Exclusive (pool : RedisPool) : RedisEvent → Prop
  | .start _ (connection, _) => ∀ id client, pool.tasks id = some client → client.running →
      client.connection ≠ connection
  | _ => True

def Enqueues : Option Command → Prop
  | some (.watch _) => False
  | some .multi => False
  | some .exec => False
  | _ => True

theorem enqueues_initCommands (config : RedisConfig) (collections : List StoreCollectionState) :
    ∀ command ∈ initCommands config collections, Enqueues command := by
  intro command hcommand
  rcases List.mem_append.mp hcommand with hcommand | hcommand
  · obtain ⟨collection, _, hcommand⟩ := List.mem_flatMap.mp hcommand
    rcases List.mem_cons.mp hcommand with rfl | hcommand
    · trivial
    · obtain ⟨item, _, rfl⟩ := List.mem_map.mp hcommand
      rw [initItem]
      cases item.item.buffer with
      | none => trivial
      | some buffer => trivial
  · cases List.mem_singleton.mp hcommand
    trivial

theorem queue_execute_of_idle {server : Server} {id : ℕ} {command : Command}
    (hqueue : (server.connections id).queue = none) (henqueues : Enqueues (some command)) :
    ((server.execute id command).2.connections id).queue = none := by
  have hexecute : server.execute id command = server.apply command := by
    cases command with
    | watch key => cases henqueues
    | multi => cases henqueues
    | exec => cases henqueues
    | _ => simp [Server.execute, hqueue]
  rw [hexecute]
  exact (Server.leaves_apply server command id).queue.trans hqueue

theorem execute_queued {server : Server} {id : ℕ} {command : Command} {queue : List Command} (henqueues : Enqueues (some command))
    (hqueue : (server.connections id).queue = some queue) :
    server.execute id command = (.status "QUEUED", server.setConnection id
      { server.connections id with queue := some (queue ++ [command]) }) := by
  cases command with
  | watch key => cases henqueues
  | multi => cases henqueues
  | exec => cases henqueues
  | _ => simp [Server.execute, hqueue]

theorem RedisTask.result_of_command {task : RedisTask} (h : task.command = .ok none) :
    ∃ result, task.result = some result := by
  cases task with
  | returned result => exact ⟨result, rfl⟩
  | queueing command rest =>
      cases command with
      | none => cases h
      | some command => cases h
  | upserting call task =>
      cases task with
      | returned success => exact ⟨_, rfl⟩
      | _ => cases h
  | _ => cases h

theorem RedisTask.result_of_sent {task : RedisTask} {command : Command}
    (h : task.command = .ok (some command)) : task.result = none := by
  cases task with
  | returned result => cases h
  | upserting call task =>
      cases task with
      | returned success => cases h
      | _ => rfl
  | _ => rfl

section Locking

variable [Parsing]

def RedisClient.step (client : RedisClient) (server : Server) : Checked (RedisClient × Server) := do
  match ← client.task.command with
  | none => pure (client, server)
  | some command =>
      let (reply, server) := server.execute client.connection command
      let task ← client.task.receive (some reply)
      pure ({ client with task }, server)

def redisMachine : Machine Server RedisClient (ℕ × RedisCall) Empty where
  begin := fun (connection, call) => ⟨connection, RedisTask.begin call⟩
  step := RedisClient.step
  environment := fun event => event.elim

namespace UpsertCall

def Current (call : UpsertCall) (server : Server) (id : ℕ) (text : String) : Prop :=
  call.hashKey ∈ (server.connections id).watched ∧ text = call.serialized ∧
    ((server.connections id).dirty = true ∨
      (server.Hashes call.hashKey ∧ call.answered (call.storedText server) = .opening text))

def Consistent (call : UpsertCall) (server : Server) (id : ℕ) : UpsertTask → Prop
  | .watching => (server.connections id).queue = none
  | .reading => (server.connections id).queue = none ∧
      call.hashKey ∈ (server.connections id).watched
  | .opening text => (server.connections id).queue = none ∧ call.Current server id text
  | .queueing text => (server.connections id).queue = some [] ∧ call.Current server id text
  | .executing => (server.connections id).queue =
        some [.hset call.hashKey call.featureKey call.serialized] ∧
      call.Current server id call.serialized
  | .returned _ => (server.connections id).queue = none

variable {call : UpsertCall} {server next : Server} {id : ℕ} {text : String} {task : UpsertTask}

theorem Current.leaves (h : call.Current server id text) (hleaves : server.Leaves next id) :
    call.Current next id text := by
  obtain ⟨hwatched, htext, hcases⟩ := h
  refine ⟨hleaves.watched ▸ hwatched, htext, ?_⟩
  rcases hcases with hdirty | ⟨hhashes, hanswered⟩
  · exact .inl (hleaves.dirty hdirty)
  · rcases hleaves.keyspace _ hwatched with hdirty | hsame
    · exact .inl hdirty
    · right
      have hstored : call.storedText next = call.storedText server := by
        rw [storedText, storedText, Server.field, Server.field, hsame]
      rw [hstored]
      refine ⟨?_, hanswered⟩
      intro string
      rw [hsame]
      exact hhashes string

theorem Consistent.leaves (h : call.Consistent server id task) (hleaves : server.Leaves next id) :
    call.Consistent next id task := by
  cases task with
  | watching => exact hleaves.queue.trans h
  | reading => exact ⟨hleaves.queue.trans h.1, hleaves.watched ▸ h.2⟩
  | opening text => exact ⟨hleaves.queue.trans h.1, h.2.leaves hleaves⟩
  | queueing text => exact ⟨hleaves.queue.trans h.1, h.2.leaves hleaves⟩
  | executing => exact ⟨hleaves.queue.trans h.1, h.2.leaves hleaves⟩
  | returned success => exact hleaves.queue.trans h

theorem Current.setConnection (h : call.Current server id text) {connection : Connection}
    (hwatched : connection.watched = (server.connections id).watched)
    (hdirty : connection.dirty = (server.connections id).dirty) :
    call.Current (server.setConnection id connection) id text := by
  rw [Current, Server.connections_setConnection, hwatched, hdirty]
  exact h

theorem consistent_answered (hqueue : (server.connections id).queue = none)
    (hwatched : call.hashKey ∈ (server.connections id).watched)
    (hhashes : server.Hashes call.hashKey) :
    call.Consistent server id (call.answered (call.storedText server)) := by
  rcases answered_cases call (call.storedText server) with hfalse | htrue | hopening
  · rw [hfalse]
    exact hqueue
  · rw [htrue]
    exact hqueue
  · rw [hopening]
    exact ⟨hqueue, hwatched, rfl, .inr ⟨hhashes, hopening⟩⟩

theorem execute_hget (hqueue : (server.connections id).queue = none) :
    (server.execute id (.hget call.hashKey call.featureKey)).2 = server ∧
      (call.receive .reading (some (server.execute id (.hget call.hashKey call.featureKey)).1) =
          .returned false ∨
        (server.Hashes call.hashKey ∧
          call.receive .reading (some (server.execute id (.hget call.hashKey call.featureKey)).1) =
            call.answered (call.storedText server))) := by
  have hexecute : server.execute id (.hget call.hashKey call.featureKey) =
      server.apply (.hget call.hashKey call.featureKey) := by simp [Server.execute, hqueue]
  rw [hexecute]
  by_cases hhashes : server.Hashes call.hashKey
  · rw [Server.apply_hget hhashes]
    refine ⟨rfl, .inr ⟨hhashes, ?_⟩⟩
    rw [storedText]
    cases server.field call.hashKey call.featureKey with
    | none => rfl
    | some text => rfl
  · obtain ⟨string, hstring⟩ := not_forall.mp hhashes
    rw [not_not] at hstring
    simp [Server.apply, hstring, receive, Server.wrongType]

theorem Consistent.step {command : Command} (h : call.Consistent server id task)
    (hcommand : call.command task = some command) :
    call.Consistent (server.execute id command).2 id
      (call.receive task (some (server.execute id command).1)) := by
  cases task with
  | watching =>
      cases hcommand
      have hqueue : (server.connections id).queue = none := h
      simp [Server.execute, hqueue, receive, redisCheckStatus, redisCheckReply, replyType, Consistent]
  | reading =>
      cases hcommand
      obtain ⟨hserver, hfalse | ⟨hhashes, hanswered⟩⟩ := execute_hget h.1
      · rw [hserver, hfalse]
        exact h.1
      · rw [hserver, hanswered]
        exact consistent_answered h.1 h.2 hhashes
  | opening text =>
      cases hcommand
      obtain ⟨hqueue, hcurrent⟩ := h
      have hnext : call.Current (server.setConnection id
          { server.connections id with queue := some [] }) id text := hcurrent.setConnection rfl rfl
      simp only [Server.execute, hqueue]
      exact ⟨by rw [Server.connections_setConnection], hnext⟩
  | queueing text =>
      cases hcommand
      obtain ⟨hqueue, hcurrent⟩ := h
      have htext := hcurrent.2.1
      subst htext
      have hnext : call.Current (server.setConnection id { server.connections id with
          queue := some [.hset call.hashKey call.featureKey call.serialized] }) id call.serialized :=
        hcurrent.setConnection rfl rfl
      simp only [Server.execute, hqueue]
      exact ⟨by rw [Server.connections_setConnection]; rfl, hnext⟩
  | executing =>
      cases hcommand
      rcases Server.execute_exec _ h.1 with ⟨_, hexecute⟩ | ⟨_, hexecute⟩
      · rw [hexecute]
        exact congrArg Connection.queue (Server.connections_setConnection _)
      · rw [hexecute]
        have hleaves := Server.leaves_applyAll [.hset call.hashKey call.featureKey call.serialized]
          (server.setConnection id .fresh) id
        exact hleaves.queue.trans (congrArg Connection.queue (Server.connections_setConnection _))
  | returned success => cases hcommand

end UpsertCall

namespace RedisTask

def Consistent (server : Server) (id : ℕ) : RedisTask → Prop
  | .opening commands => (server.connections id).queue = none ∧ ∀ command ∈ commands, Enqueues command
  | .queueing command rest => (∃ queue, (server.connections id).queue = some queue) ∧
      ∀ other ∈ command :: rest, Enqueues other
  | .committing => ∃ queue, (server.connections id).queue = some queue
  | .upserting call task => call.Consistent server id task
  | _ => (server.connections id).queue = none

variable {server next : Server} {id : ℕ} {task : RedisTask}

theorem Consistent.leaves (h : task.Consistent server id) (hleaves : server.Leaves next id) :
    task.Consistent next id := by
  cases task with
  | opening commands => exact ⟨hleaves.queue.trans h.1, h.2⟩
  | queueing command rest =>
      obtain ⟨⟨queue, hqueue⟩, henqueues⟩ := h
      exact ⟨⟨queue, hleaves.queue.trans hqueue⟩, henqueues⟩
  | committing =>
      obtain ⟨queue, hqueue⟩ := h
      exact ⟨queue, hleaves.queue.trans hqueue⟩
  | upserting call task => exact UpsertCall.Consistent.leaves h hleaves
  | _ => exact hleaves.queue.trans h

theorem Consistent.finished (h : task.Consistent server id) {result : RedisResult}
    (hresult : task.result = some result) : (server.connections id).queue = none := by
  cases task with
  | returned result => exact h
  | upserting call task =>
      cases task with
      | returned success => exact h
      | _ => cases hresult
  | _ => cases hresult

theorem consistent_begin (call : RedisCall) (hqueue : (server.connections id).queue = none) :
    (begin call).Consistent server id := by
  cases call with
  | init config collections => exact ⟨hqueue, enqueues_initCommands config collections⟩
  | _ => exact hqueue

theorem consistent_queue {commands : List (Option Command)} (queue : List Command)
    (hqueue : (server.connections id).queue = some queue)
    (henqueues : ∀ command ∈ commands, Enqueues command) :
    (RedisTask.queue commands).Consistent server id := by
  cases commands with
  | nil => exact ⟨queue, hqueue⟩
  | cons command rest => exact ⟨⟨queue, hqueue⟩, henqueues⟩

theorem Consistent.step {command : Command} (h : task.Consistent server id)
    (hcommand : task.command = .ok (some command)) {after : RedisTask}
    (hreceive : task.receive (some (server.execute id command).1) = .ok after) :
    after.Consistent (server.execute id command).2 id := by
  cases task with
  | opening commands =>
      cases hcommand
      cases hreceive
      obtain ⟨hqueue, henqueues⟩ := h
      simp only [Server.execute, hqueue]
      exact consistent_queue [] (by rw [Server.connections_setConnection]) henqueues
  | queueing sent rest =>
      obtain ⟨⟨queue, hqueue⟩, henqueues⟩ := h
      cases sent with
      | none => cases hcommand
      | some sent =>
          cases hcommand
          rw [execute_queued (henqueues _ (by simp)) hqueue] at hreceive ⊢
          cases hreceive
          exact consistent_queue _ (by rw [Server.connections_setConnection])
            fun other hother => henqueues other (by simp [hother])
  | committing =>
      cases hcommand
      cases hreceive
      obtain ⟨queue, hqueue⟩ := h
      rcases Server.execute_exec queue hqueue with ⟨_, hexecute⟩ | ⟨_, hexecute⟩
      · rw [hexecute]
        exact congrArg Connection.queue (Server.connections_setConnection _)
      · rw [hexecute]
        have hleaves := Server.leaves_applyAll queue (server.setConnection id .fresh) id
        exact hleaves.queue.trans (congrArg Connection.queue (Server.connections_setConnection _))
  | getting config kind key =>
      cases hcommand
      cases hreceive
      exact queue_execute_of_idle h trivial
  | listing config kind =>
      cases hcommand
      obtain ⟨items, _, hafter⟩ := Checked.bind_eq_ok.mp hreceive
      cases hafter
      exact queue_execute_of_idle h trivial
  | upserting call task =>
      have hsent : call.command task = some command := by simpa [RedisTask.command] using hcommand
      cases hreceive
      exact UpsertCall.Consistent.step h hsent
  | asking config =>
      cases hcommand
      cases hreceive
      exact queue_execute_of_idle h trivial
  | returned result => cases hcommand

end RedisTask

inductive RedisClient.Steps (client : RedisClient) (server : Server) : RedisClient → Server → Prop
  | idle : client.task.command = .ok none → Steps client server client server
  | sent {command : Command} {after : RedisTask} : client.task.command = .ok (some command) →
      client.task.receive (some (server.execute client.connection command).1) = .ok after →
      Steps client server { client with task := after } (server.execute client.connection command).2

theorem RedisClient.steps_of_step {client client' : RedisClient} {server next : Server}
    (h : client.step server = .ok (client', next)) : client.Steps server client' next := by
  obtain ⟨sent, hcommand, h⟩ := Checked.bind_eq_ok.mp h
  cases sent with
  | none =>
      cases h
      exact .idle hcommand
  | some command =>
      obtain ⟨after, hreceive, h⟩ := Checked.bind_eq_ok.mp h
      cases h
      exact .sent hcommand hreceive

structure Locked (pool : RedisPool) : Prop where
  exclusive : ∀ id other client client', pool.tasks id = some client →
    pool.tasks other = some client' → client.running → client'.running →
    client.connection = client'.connection → id = other
  idle : ∀ connection, (∀ id client, pool.tasks id = some client → client.running →
    client.connection ≠ connection) → (pool.shared.connections connection).queue = none
  consistent : ∀ id client, pool.tasks id = some client → client.running →
    client.task.Consistent pool.shared client.connection

theorem locked_idle {server : Server} (h : ∀ id, (server.connections id).queue = none) :
    Locked (.idle server) := by
  refine ⟨?_, fun connection _ => h connection, ?_⟩
  · intro id other client client' hid
    cases hid
  · intro id client hid
    cases hid

variable {pool next : RedisPool} {id : ℕ}

theorem Locked.started (h : Locked pool) {connection : ℕ} {call : RedisCall}
    (hid : pool.tasks id = none)
    (hfree : ∀ other client, pool.tasks other = some client → client.running →
      client.connection ≠ connection) :
    Locked (pool.put id ⟨connection, RedisTask.begin call⟩) := by
  refine ⟨?_, ?_, ?_⟩
  · intro first second client client' hfirst hsecond hrunning hrunning' hsame
    rcases Pool.tasks_put_eq_some hfirst with ⟨rfl, rfl⟩ | ⟨_, hold⟩
    · rcases Pool.tasks_put_eq_some hsecond with ⟨rfl, rfl⟩ | ⟨_, hold⟩
      · rfl
      · exact absurd hsame.symm (hfree second client' hold hrunning')
    · rcases Pool.tasks_put_eq_some hsecond with ⟨rfl, rfl⟩ | ⟨_, hold'⟩
      · exact absurd hsame (hfree first client hold hrunning)
      · exact h.exclusive first second client client' hold hold' hrunning hrunning' hsame
  · intro other hother
    refine h.idle other ?_
    intro holder client hholder hrunning
    have hne : holder ≠ id := by
      rintro rfl
      cases hid.symm.trans hholder
    exact hother holder client (by rw [Pool.tasks_put_of_ne hne]; exact hholder) hrunning
  · intro other client hother hrunning
    rcases Pool.tasks_put_eq_some hother with ⟨_, rfl⟩ | ⟨_, hother⟩
    · exact RedisTask.consistent_begin call (h.idle connection hfree)
    · exact h.consistent other client hother hrunning

theorem Locked.sent (h : Locked pool) {client : RedisClient} {command : Command}
    {after : RedisTask} (hid : pool.tasks id = some client)
    (hcommand : client.task.command = .ok (some command))
    (hreceive : client.task.receive (some (pool.shared.execute client.connection command).1) =
      .ok after) :
    Locked (({ pool with shared := (pool.shared.execute client.connection command).2 } :
      RedisPool).put id { client with task := after }) := by
  have hrunning : client.running := RedisTask.result_of_sent hcommand
  have hconsistent := (h.consistent id client hid hrunning).step hcommand hreceive
  have hback : ∀ other holder, (({ pool with shared := (pool.shared.execute client.connection
      command).2 } : RedisPool).put id { client with task := after }).tasks other = some holder →
      holder.running → ∃ old, pool.tasks other = some old ∧ old.running ∧
        old.connection = holder.connection := by
    intro other holder hholder hheld
    rcases Pool.tasks_put_eq_some hholder with ⟨rfl, rfl⟩ | ⟨_, hold⟩
    · exact ⟨client, hid, hrunning, rfl⟩
    · exact ⟨holder, hold, hheld, rfl⟩
  refine ⟨?_, ?_, ?_⟩
  · intro first second holder holder' hfirst hsecond hheld hheld' hsame
    obtain ⟨old, hold, hran, hconnection⟩ := hback first holder hfirst hheld
    obtain ⟨old', hold', hran', hconnection'⟩ := hback second holder' hsecond hheld'
    exact h.exclusive first second old old' hold hold' hran hran'
      (hconnection.trans (hsame.trans hconnection'.symm))
  · intro connection hfree
    by_cases heq : connection = client.connection
    · subst heq
      have hdone := hfree id { client with task := after } (Pool.tasks_put_self _ _ _)
      cases hresult : after.result with
      | none => exact absurd rfl (hdone hresult)
      | some result => exact hconsistent.finished hresult
    · have hleaves := Server.leaves_execute pool.shared command heq
      refine hleaves.queue.trans (h.idle connection ?_)
      intro holder old hold hran hconnection
      have hne : holder ≠ id := by
        rintro rfl
        cases hid.symm.trans hold
        exact heq hconnection.symm
      exact hfree holder old (by rw [Pool.tasks_put_of_ne hne]; exact hold) hran hconnection
  · intro other holder hholder hheld
    rcases Pool.tasks_put_eq_some hholder with ⟨rfl, rfl⟩ | ⟨hne, hold⟩
    · exact hconsistent
    · have hother : holder.connection ≠ client.connection := by
        intro hsame
        exact hne (h.exclusive other id holder client hold hid hheld hrunning hsame)
      exact (h.consistent other holder hold hheld).leaves
        (Server.leaves_execute pool.shared command hother)

theorem Locked.performed (h : Locked pool) {event : RedisEvent} (hexclusive : Exclusive pool event)
    (hperformed : Pool.Performed redisMachine pool event next) : Locked next := by
  cases hperformed with
  | started hid => exact h.started hid hexclusive
  | stepped hid hstep =>
      cases RedisClient.steps_of_step hstep with
      | idle => rw [Pool.put_of_tasks hid]; exact h
      | sent hcommand hreceive => exact h.sent hid hcommand hreceive
  | moved event => exact event.elim
  | ignored => exact h

theorem locked_of_reaches {server : Server} (hqueue : ∀ id, (server.connections id).queue = none)
    (h : Pool.Reaches redisMachine Exclusive (.idle server) pool) : Locked pool := by
  refine h.invariant (locked_idle hqueue) ?_
  intro pool event next hlocked hexclusive hperformed
  exact hlocked.performed hexclusive hperformed

end Locking

end ServerSdk
