import ServerSdk.Redis.ConnectionPool

namespace ServerSdk

open Program Redis PersistentStoreContext

abbrev ConnectionPool := Pool RedisNetwork PooledTask

abbrev ConnectionEvent := PoolEvent RedisCall NetworkEvent

def transacted : Reply → Bool
  | .array _ | .nil => true
  | .error text => discarded text
  | _ => false

theorem observe_exec_of_transacted {connection : Connection} {reply : Reply}
    (h : transacted reply = true) : connection.observe .exec reply = .fresh := by
  cases reply with
  | array elements => rfl
  | nil => rfl
  | error text =>
      have hdiscarded : discarded text = true := h
      simp [Connection.observe, hdiscarded]
  | _ => cases h

theorem observe_of_unchecked {connection : Connection} {command : Command} {reply : Reply}
    (hcommand : command = .multi ∨ ∃ key, command = .watch key)
    (h : redisCheckStatus (some reply) "OK" = false) : connection.observe command reply = connection := by
  cases reply with
  | status text =>
      have hother : text ≠ "OK" := by
        rintro rfl
        simp [redisCheckStatus, redisCheckReply, replyType] at h
      rcases hcommand with rfl | ⟨key, rfl⟩
      · simp [Connection.observe, hother]
      · simp [Connection.observe, hother]
  | _ =>
      rcases hcommand with rfl | ⟨key, rfl⟩
      · rfl
      · rfl

def RedisTask.Rests : RedisTask → Prop
  | .queueing _ _ | .committing => False
  | .upserting _ .reading | .upserting _ (.opening _) | .upserting _ (.queueing _)
  | .upserting _ .executing => False
  | _ => True

theorem RedisTask.rests_of_result {task : RedisTask} {result : RedisResult}
    (h : task.result = some result) : task.Rests := by
  cases task with
  | returned result => trivial
  | upserting call task =>
      cases task with
      | returned success => trivial
      | _ => cases h
  | _ => cases h

theorem RedisTask.not_rests_queue (commands : List (Option Command)) : ¬(queue commands).Rests := by
  cases commands with
  | nil => exact id
  | cons command rest => exact id

structure Tidy (pool : ConnectionPool) : Prop where
  free : ∀ connection ∈ pool.shared.context.connections,
    (pool.shared.handles connection).session = .fresh
  nodup : pool.shared.context.connections.Nodup
  known : ∀ connection ∈ pool.shared.context.connections, connection < pool.shared.opened
  lent : ∀ id connection task, pool.tasks id = some (.running connection task) →
    connection < pool.shared.opened ∧ connection ∉ pool.shared.context.connections
  exclusive : ∀ id other connection task task', pool.tasks id = some (.running connection task) →
    pool.tasks other = some (.running connection task') → id = other
  rests : ∀ id connection task, pool.tasks id = some (.running connection task) →
    (pool.shared.handles connection).err = false → task.Rests →
    (pool.shared.handles connection).session = .fresh

theorem tidy_idle (poolSize : ℕ) : Tidy (.idle (.new poolSize)) := by
  refine ⟨?_, List.nodup_nil, ?_, ?_, ?_, ?_⟩
  · intro connection hconnection
    cases hconnection
  · intro connection hconnection
    cases hconnection
  · intro id connection task hid
    cases hid
  · intro id other connection task task' hid
    cases hid
  · intro id connection task hid
    cases hid

variable {pool : ConnectionPool} {id : ℕ}

theorem Tidy.waits (h : Tidy pool) {task : PooledTask} {context : RedisContext}
    (htask : ∀ connection running, task ≠ .running connection running)
    (hcontext : context.connections = pool.shared.context.connections) :
    Tidy (({ pool with shared := { pool.shared with context } } : ConnectionPool).put id task) := by
  have hback : ∀ other connection running,
      (({ pool with shared := { pool.shared with context } } : ConnectionPool).put id task).tasks
        other = some (.running connection running) →
      pool.tasks other = some (.running connection running) := by
    intro other connection running hother
    rcases Pool.tasks_put_eq_some hother with ⟨_, hrunning⟩ | ⟨_, hold⟩
    · exact absurd hrunning.symm (htask connection running)
    · exact hold
  refine ⟨?_, ?_, ?_, ?_, ?_, ?_⟩
  · exact hcontext ▸ h.free
  · exact hcontext ▸ h.nodup
  · exact hcontext ▸ h.known
  · intro other connection running hother
    exact hcontext ▸ h.lent other connection running (hback other connection running hother)
  · intro other third connection running running' hother hthird
    exact h.exclusive other third connection running running' (hback other connection running hother)
      (hback third connection running' hthird)
  · intro other connection running hother
    exact h.rests other connection running (hback other connection running hother)

theorem Tidy.took (h : Tidy pool) {call : RedisCall} {connection : ℕ} {connections : List ℕ}
    (hconnections : pool.shared.context.connections = connection :: connections) :
    Tidy (({ pool with shared := { pool.shared with
      context := { pool.shared.context with connections } } } : ConnectionPool).put id
        (.running connection (RedisTask.begin call))) := by
  have hmem : connection ∈ pool.shared.context.connections := by simp [hconnections]
  have hsubset : ∀ other ∈ connections, other ∈ pool.shared.context.connections := by
    intro other hother
    simp [hconnections, hother]
  have hnodup : (connection :: connections).Nodup := hconnections ▸ h.nodup
  refine ⟨?_, hnodup.of_cons, ?_, ?_, ?_, ?_⟩
  · intro other hother
    exact h.free other (hsubset other hother)
  · intro other hother
    exact h.known other (hsubset other hother)
  · intro other held task hother
    rcases Pool.tasks_put_eq_some hother with ⟨_, hrunning⟩ | ⟨_, hold⟩
    · cases hrunning
      exact ⟨h.known connection hmem, (List.nodup_cons.mp hnodup).1⟩
    · obtain ⟨hknown, hlent⟩ := h.lent other held task hold
      exact ⟨hknown, fun hheld => hlent (hsubset held hheld)⟩
  · intro first second held task task' hfirst hsecond
    rcases Pool.tasks_put_eq_some hfirst with ⟨rfl, hrunning⟩ | ⟨_, hold⟩
    · rcases Pool.tasks_put_eq_some hsecond with ⟨rfl, _⟩ | ⟨_, hold'⟩
      · rfl
      · cases hrunning
        exact absurd hmem (h.lent second connection task' hold').2
    · rcases Pool.tasks_put_eq_some hsecond with ⟨rfl, hrunning⟩ | ⟨_, hold'⟩
      · cases hrunning
        exact absurd hmem (h.lent first connection task hold).2
      · exact h.exclusive first second held task task' hold hold'
  · intro other held task hother
    rcases Pool.tasks_put_eq_some hother with ⟨_, hrunning⟩ | ⟨_, hold⟩
    · cases hrunning
      exact fun _ _ => h.free connection hmem
    · exact h.rests other held task hold

theorem Tidy.connected (h : Tidy pool) {call : RedisCall} :
    Tidy (({ pool with shared := { pool.shared.setHandle pool.shared.opened ⟨.fresh, false⟩ with
      opened := pool.shared.opened + 1 } } : ConnectionPool).put id
        (.running pool.shared.opened (RedisTask.begin call))) := by
  have hhandles : ∀ connection < pool.shared.opened,
      (pool.shared.setHandle pool.shared.opened ⟨.fresh, false⟩).handles connection =
        pool.shared.handles connection := by
    intro connection hlt
    exact Function.update_of_ne hlt.ne _ _
  have hself : (pool.shared.setHandle pool.shared.opened ⟨.fresh, false⟩).handles
      pool.shared.opened = ⟨.fresh, false⟩ := Function.update_self _ _ _
  refine ⟨?_, h.nodup, ?_, ?_, ?_, ?_⟩
  · intro other hother
    have hsame := hhandles other (h.known other hother)
    exact (congrArg RedisHandle.session hsame).trans (h.free other hother)
  · intro other hother
    exact (h.known other hother).trans (Nat.lt_succ_self _)
  · intro other held task hother
    rcases Pool.tasks_put_eq_some hother with ⟨_, hrunning⟩ | ⟨_, hold⟩
    · cases hrunning
      exact ⟨Nat.lt_succ_self _, fun hmem => (h.known _ hmem).false⟩
    · obtain ⟨hknown, hlent⟩ := h.lent other held task hold
      exact ⟨hknown.trans (Nat.lt_succ_self _), hlent⟩
  · intro first second held task task' hfirst hsecond
    rcases Pool.tasks_put_eq_some hfirst with ⟨rfl, hrunning⟩ | ⟨_, hold⟩
    · rcases Pool.tasks_put_eq_some hsecond with ⟨rfl, _⟩ | ⟨_, hold'⟩
      · rfl
      · cases hrunning
        exact absurd (h.lent second _ task' hold').1 (lt_irrefl _)
    · rcases Pool.tasks_put_eq_some hsecond with ⟨rfl, hrunning⟩ | ⟨_, hold'⟩
      · cases hrunning
        exact absurd (h.lent first _ task hold).1 (lt_irrefl _)
      · exact h.exclusive first second held task task' hold hold'
  · intro other held task hother
    rcases Pool.tasks_put_eq_some hother with ⟨_, hrunning⟩ | ⟨_, hold⟩
    · cases hrunning
      exact fun _ _ => congrArg RedisHandle.session hself
    · have hsame := hhandles held (h.lent other held task hold).1
      intro herr hrests
      have herr' := (congrArg RedisHandle.err hsame).symm.trans herr
      exact (congrArg RedisHandle.session hsame).trans (h.rests other held task hold herr' hrests)

theorem Tidy.returned (h : Tidy pool) {connection : ℕ} {task : RedisTask} {result : RedisResult}
    (hid : pool.tasks id = some (.running connection task)) (hresult : task.result = some result)
    (herr : (pool.shared.handles connection).err = false) :
    Tidy (({ pool with shared := { pool.shared with context := { pool.shared.context with
      connections := connection :: pool.shared.context.connections } } } : ConnectionPool).put id
        (.finished result)) := by
  have hfresh := h.rests id connection task hid herr (RedisTask.rests_of_result hresult)
  obtain ⟨hknown, hlent⟩ := h.lent id connection task hid
  have hback : ∀ other held running, (({ pool with shared := { pool.shared with
      context := { pool.shared.context with
        connections := connection :: pool.shared.context.connections } } } : ConnectionPool).put id
          (.finished result)).tasks other = some (.running held running) →
      other ≠ id ∧ pool.tasks other = some (.running held running) := by
    intro other held running hother
    rcases Pool.tasks_put_eq_some hother with ⟨_, hrunning⟩ | hold
    · cases hrunning
    · exact hold
  refine ⟨?_, List.nodup_cons.mpr ⟨hlent, h.nodup⟩, ?_, ?_, ?_, ?_⟩
  · intro other hother
    rcases List.mem_cons.mp hother with rfl | hother
    · exact hfresh
    · exact h.free other hother
  · intro other hother
    rcases List.mem_cons.mp hother with rfl | hother
    · exact hknown
    · exact h.known other hother
  · intro other held running hother
    obtain ⟨hne, hold⟩ := hback other held running hother
    obtain ⟨hknown', hlent'⟩ := h.lent other held running hold
    refine ⟨hknown', ?_⟩
    intro hmem
    rcases List.mem_cons.mp hmem with rfl | hmem
    · exact hne (h.exclusive other id held running task hold hid)
    · exact hlent' hmem
  · intro first second held running running' hfirst hsecond
    exact h.exclusive first second held running running' (hback first held running hfirst).2
      (hback second held running' hsecond).2
  · intro other held running hother
    exact h.rests other held running (hback other held running hother).2

theorem Tidy.exchanged (h : Tidy pool) {connection : ℕ} {task after : RedisTask}
    {handle : RedisHandle} (hid : pool.tasks id = some (.running connection task))
    (hrests : handle.err = false → after.Rests → handle.session = .fresh) :
    Tidy (({ pool with shared := pool.shared.setHandle connection handle } : ConnectionPool).put id
      (.running connection after)) := by
  obtain ⟨hknown, hlent⟩ := h.lent id connection task hid
  have hother : ∀ other, other ≠ connection →
      (pool.shared.setHandle connection handle).handles other = pool.shared.handles other :=
    fun other hne => Function.update_of_ne hne _ _
  have hself : (pool.shared.setHandle connection handle).handles connection = handle :=
    Function.update_self _ _ _
  have hback : ∀ other held running, (({ pool with
      shared := pool.shared.setHandle connection handle } : ConnectionPool).put id
        (.running connection after)).tasks other = some (.running held running) →
      ∃ running', pool.tasks other = some (.running held running') := by
    intro other held running hheld
    rcases Pool.tasks_put_eq_some hheld with ⟨rfl, hrunning⟩ | ⟨_, hold⟩
    · cases hrunning
      exact ⟨task, hid⟩
    · exact ⟨running, hold⟩
  refine ⟨?_, h.nodup, h.known, ?_, ?_, ?_⟩
  · intro other hmem
    have hne : other ≠ connection := by
      rintro rfl
      exact hlent hmem
    exact (congrArg RedisHandle.session (hother other hne)).trans (h.free other hmem)
  · intro other held running hheld
    obtain ⟨running', hold⟩ := hback other held running hheld
    exact h.lent other held running' hold
  · intro first second held running running' hfirst hsecond
    obtain ⟨_, hold⟩ := hback first held running hfirst
    obtain ⟨_, hold'⟩ := hback second held running' hsecond
    exact h.exclusive first second held _ _ hold hold'
  · intro other held running hheld herr hrunning
    rcases Pool.tasks_put_eq_some hheld with ⟨rfl, hsame⟩ | ⟨hne, hold⟩
    · cases hsame
      have herr' : handle.err = false := (congrArg RedisHandle.err hself).symm.trans herr
      exact (congrArg RedisHandle.session hself).trans (hrests herr' hrunning)
    · have hheld' : held ≠ connection := by
        rintro rfl
        exact hne (h.exclusive other id held running task hold hid)
      have herr' := (congrArg RedisHandle.err (hother held hheld')).symm.trans herr
      exact (congrArg RedisHandle.session (hother held hheld')).trans
        (h.rests other held running hold herr' hrunning)

theorem Tidy.environment (h : Tidy pool) (event : NetworkEvent) :
    Tidy { pool with shared := RedisNetwork.environment event pool.shared } := by
  have htouched : ∀ key session, session = Connection.fresh →
      Server.touched key session = Connection.fresh := by
    rintro key _ rfl
    rfl
  cases event with
  | answers reply => exact ⟨h.free, h.nodup, h.known, h.lent, h.exclusive, h.rests⟩
  | reaches reachable => exact ⟨h.free, h.nodup, h.known, h.lent, h.exclusive, h.rests⟩
  | modifies key =>
      refine ⟨?_, h.nodup, h.known, h.lent, h.exclusive, ?_⟩
      · intro connection hmem
        exact htouched key _ (h.free connection hmem)
      · intro id connection task hid herr hrests
        exact htouched key _ (h.rests id connection task hid herr hrests)

section Clean

variable [Parsing]

def UpsertCall.proceeds (call : UpsertCall) : Reply → Bool
  | .nil => true
  | .string text =>
      match Parsing.deserialize text with
      | none => false
      | some held => isDataDeleted held || decide (getDataVersion held < call.feature.version)
  | _ => false

def settledReply (task : RedisTask) (reply : Reply) : Bool :=
  match task with
  | .queueing _ _ => redisCheckStatus (some reply) "QUEUED"
  | .committing => transacted reply
  | .upserting call .reading => call.proceeds reply
  | .upserting _ (.opening _) => redisCheckStatus (some reply) "OK"
  | .upserting _ (.queueing _) => redisCheckStatus (some reply) "QUEUED"
  | .upserting _ .executing => transacted reply
  | _ => true

def settledStep (pool : ConnectionPool) : ConnectionEvent → Bool
  | .step id =>
      match pool.tasks id, pool.shared.answer with
      | some (.running _ task), some reply => settledReply task reply
      | _, _ => true
  | _ => true

def Settled (pool : ConnectionPool) (event : ConnectionEvent) : Prop := settledStep pool event = true

instance (pool : ConnectionPool) (event : ConnectionEvent) : Decidable (Settled pool event) :=
  inferInstanceAs (Decidable (settledStep pool event = true))

theorem UpsertCall.receive_of_proceeds {call : UpsertCall} {reply : Reply}
    (h : call.proceeds reply = true) :
    call.receive .reading (some reply) = .opening call.serialized := by
  cases reply with
  | nil => rfl
  | string text =>
      rw [proceeds] at h
      rw [receive, answered]
      cases hheld : Parsing.deserialize text with
      | none =>
          rw [hheld] at h
          cases h
      | some held =>
          rw [hheld] at h
          cases hdeleted : isDataDeleted held with
          | true => simp [hdeleted, compared]
          | false =>
              have hlt : getDataVersion held < call.feature.version := by simpa [hdeleted] using h
              simp [hdeleted, compared, hlt]
  | _ => cases h

theorem upsert_session_of_settled {call : UpsertCall} {task : UpsertTask} {session : Connection}
    {command : Command} {reply : Reply}
    (hfresh : (RedisTask.upserting call task).Rests → session = .fresh)
    (hcommand : call.command task = some command)
    (hsettled : settledReply (.upserting call task) reply = true)
    (hrests : (RedisTask.upserting call (call.receive task (some reply))).Rests) :
    session.observe command reply = .fresh := by
  cases task with
  | watching =>
      cases hcommand
      cases hchecked : redisCheckStatus (some reply) "OK" with
      | true =>
          simp [UpsertCall.receive, hchecked, RedisTask.Rests] at hrests
      | false =>
          rw [observe_of_unchecked (.inr ⟨_, rfl⟩) hchecked]
          exact hfresh trivial
  | reading =>
      rw [UpsertCall.receive_of_proceeds hsettled] at hrests
      cases hrests
  | opening text =>
      have hchecked : redisCheckStatus (some reply) "OK" = true := hsettled
      simp [UpsertCall.receive, hchecked, RedisTask.Rests] at hrests
  | queueing text =>
      have hchecked : redisCheckStatus (some reply) "QUEUED" = true := hsettled
      simp [UpsertCall.receive, hchecked, RedisTask.Rests] at hrests
  | executing =>
      cases hcommand
      exact observe_exec_of_transacted hsettled
  | returned success => cases hcommand

theorem session_of_settled {task after : RedisTask} {session : Connection} {command : Command}
    {reply : Reply} (hfresh : task.Rests → session = .fresh)
    (hcommand : task.command = .ok (some command)) (hsettled : settledReply task reply = true)
    (hreceive : task.receive (some reply) = .ok after) (hrests : after.Rests) :
    session.observe command reply = .fresh := by
  have hidle : ∀ sent, Enqueues (some sent) → session = .fresh →
      session.observe sent reply = .fresh := by
    rintro sent hsent rfl
    exact Connection.observe_of_idle rfl hsent reply
  cases task with
  | opening commands =>
      cases hcommand
      cases hreceive
      cases hchecked : redisCheckStatus (some reply) "OK" with
      | true =>
          rw [hchecked] at hrests
          exact absurd hrests (RedisTask.not_rests_queue commands)
      | false =>
          rw [observe_of_unchecked (.inl rfl) hchecked]
          exact hfresh trivial
  | queueing sent rest =>
      have hchecked : redisCheckStatus (some reply) "QUEUED" = true := hsettled
      cases hreceive
      rw [hchecked] at hrests
      exact absurd hrests (RedisTask.not_rests_queue rest)
  | committing =>
      cases hcommand
      exact observe_exec_of_transacted hsettled
  | getting config kind key =>
      cases hcommand
      exact hidle _ trivial (hfresh trivial)
  | listing config kind =>
      cases hcommand
      exact hidle _ trivial (hfresh trivial)
  | upserting call task =>
      have hsent : call.command task = some command := by simpa [RedisTask.command] using hcommand
      cases hreceive
      exact upsert_session_of_settled hfresh hsent hsettled hrests
  | asking config =>
      cases hcommand
      exact hidle _ trivial (hfresh trivial)
  | returned result => cases hcommand

inductive PooledTask.Steps (network : RedisNetwork) :
    PooledTask → PooledTask → RedisNetwork → Prop
  | waited {task after : PooledTask} {context : RedisContext} :
      (∀ connection running, after ≠ .running connection running) →
      context.connections = network.context.connections →
      Steps network task after { network with context }
  | took {call : RedisCall} {connection : ℕ} {connections : List ℕ} :
      network.context.connections = connection :: connections →
      Steps network (.borrowing call) (.running connection (RedisTask.begin call))
        { network with context := { network.context with connections } }
  | connected {call : RedisCall} :
      Steps network (.connecting call) (.running network.opened (RedisTask.begin call))
        { network.setHandle network.opened ⟨.fresh, false⟩ with opened := network.opened + 1 }
  | returned {connection : ℕ} {task : RedisTask} {result : RedisResult} :
      task.result = some result → (network.handles connection).err = false →
      Steps network (.running connection task) (.finished result) { network with
        context := { network.context with connections := connection :: network.context.connections } }
  | exchanged {connection : ℕ} {task after : RedisTask} {command : Command} :
      task.result = none → task.command = .ok (some command) →
      task.receive network.answer = .ok after →
      Steps network (.running connection task) (.running connection after)
        (network.redisCommand connection command).2

theorem PooledTask.steps_of_step {task after : PooledTask} {network changed : RedisNetwork}
    (h : task.step network = .ok (after, changed)) : Steps network task after changed := by
  cases task with
  | borrowing call =>
      rw [step] at h
      cases hconnections : network.context.connections with
      | cons connection connections =>
          simp only [hconnections] at h
          cases h
          exact .took hconnections
      | nil =>
          simp only [hconnections] at h
          split_ifs at h
          · cases h
            exact .waited (by simp) hconnections.symm
          · cases h
            exact .waited (by simp) rfl
  | connecting call =>
      rw [step] at h
      split_ifs at h
      · cases h
        exact .connected
      · cases h
        exact .waited (by simp) rfl
  | running connection task =>
      rw [step] at h
      cases hresult : task.result with
      | some result =>
          rw [hresult] at h
          cases h
          rw [RedisNetwork.returnConnection]
          cases herr : (network.handles connection).err with
          | true => exact .waited (by simp) rfl
          | false => exact .returned hresult herr
      | none =>
          rw [hresult] at h
          obtain ⟨sent, hcommand, h⟩ := Checked.bind_eq_ok.mp h
          cases sent with
          | none =>
              obtain ⟨result, hreturned⟩ := RedisTask.result_of_command hcommand
              cases hresult.symm.trans hreturned
          | some command =>
              obtain ⟨task', hreceive, h⟩ := Checked.bind_eq_ok.mp h
              cases h
              have hanswer : (network.redisCommand connection command).1 = network.answer := by
                rw [RedisNetwork.redisCommand]
                cases network.answer with
                | none => rfl
                | some reply => rfl
              exact .exchanged hresult hcommand (hanswer ▸ hreceive)
  | finished result =>
      cases h
      exact .waited (by simp) rfl

variable {next : ConnectionPool}

theorem Tidy.stepped (h : Tidy pool) (hsettled : Settled pool (.step id)) {task after : PooledTask}
    {changed : RedisNetwork} (hid : pool.tasks id = some task)
    (hstep : task.step pool.shared = .ok (after, changed)) :
    Tidy (({ pool with shared := changed } : ConnectionPool).put id after) := by
  cases PooledTask.steps_of_step hstep with
  | waited hafter hcontext => exact h.waits hafter hcontext
  | took hconnections => exact h.took hconnections
  | connected => exact h.connected
  | returned hresult herr => exact h.returned hid hresult herr
  | @exchanged connection running running' command hresult hcommand hreceive =>
      rw [RedisNetwork.redisCommand]
      cases hanswer : pool.shared.answer with
      | none =>
          refine h.exchanged hid ?_
          intro herr
          cases herr
      | some reply =>
          refine h.exchanged hid ?_
          intro herr hrests
          rw [hanswer] at hreceive
          have hfresh := h.rests id connection running hid herr
          have hreply : settledReply running reply = true := by
            rw [Settled, settledStep, hid, hanswer] at hsettled
            exact hsettled
          exact session_of_settled hfresh hcommand hreply hreceive hrests

theorem Tidy.performed (h : Tidy pool) {event : ConnectionEvent} (hsettled : Settled pool event)
    (hperformed : Pool.Performed pooledMachine pool event next) : Tidy next := by
  cases hperformed with
  | @started id call hid => exact h.waits (by simp [pooledMachine]) rfl
  | stepped hid hstep => exact h.stepped hsettled hid hstep
  | moved event => exact h.environment event
  | ignored => exact h

theorem pooled_connections_fresh (poolSize : ℕ) (pool : ConnectionPool)
    (h : Pool.Reaches pooledMachine Settled (.idle (.new poolSize)) pool) :
    ∀ connection ∈ pool.shared.context.connections,
      (pool.shared.handles connection).session = .fresh := by
  have htidy : Tidy pool := by
    refine h.invariant (tidy_idle poolSize) ?_
    intro pool event next htidy hsettled hperformed
    exact htidy.performed hsettled hperformed
  exact htidy.free

end Clean

def staleUpsertEvents [Parsing] : List ConnectionEvent :=
  [.start 0 (.upsert firstUpsert), .step 0, .step 0, .environment (.answers (some (.status "OK"))),
    .step 0, .environment (.answers (some (.string (Externals.serialize secondFlag)))), .step 0, .step 0]

def staleUpsertPool [Parsing] : ConnectionPool :=
  (Pool.idle (.new 1)).after pooledMachine staleUpsertEvents

theorem stale_upsert_returns_watch : ¬ ∀ [Parsing] (poolSize : ℕ) (pool : ConnectionPool),
    Pool.Reaches pooledMachine (fun _ _ => True) (.idle (.new poolSize)) pool →
    ∀ connection ∈ pool.shared.context.connections,
      (pool.shared.handles connection).session.watched = [] ∧
        (pool.shared.handles connection).session.queue = none := by
  intro hclaim
  let _ := twoFlagParsing
  have hreaches : Pool.Reaches pooledMachine (fun _ _ => True) (.idle (.new 1)) staleUpsertPool :=
    Pool.reaches_after ⟨trivial, trivial, trivial, trivial, trivial, trivial, trivial, trivial, trivial⟩
      (by decide +kernel)
  have hfree : staleUpsertPool.shared.context.connections = [0] := by decide +kernel
  have hwatched : (staleUpsertPool.shared.handles 0).session.watched = [firstUpsert.hashKey] := by
    decide +kernel
  have hclean := (hclaim 1 staleUpsertPool hreaches 0 (by rw [hfree]; exact List.mem_singleton_self 0)).1
  rw [hwatched] at hclean
  cases hclean

def committedUpsertEvents [Parsing] : List ConnectionEvent :=
  [.start 0 (.upsert firstUpsert), .step 0, .step 0, .environment (.answers (some (.status "OK"))),
    .step 0, .environment (.answers (some .nil)), .step 0,
    .environment (.answers (some (.status "OK"))), .step 0,
    .environment (.answers (some (.status "QUEUED"))), .step 0,
    .environment (.answers (some (.array [.integer 1]))), .step 0, .step 0]

theorem committed_upsert_settled : Pool.AllowedAlong (@pooledMachine twoFlagParsing)
    (@Settled twoFlagParsing) (@committedUpsertEvents twoFlagParsing) (.idle (.new 1)) := by
  decide +kernel

theorem committed_upsert_returns_fresh :
    let _ := twoFlagParsing
    let pool := (Pool.idle (.new 1)).after pooledMachine committedUpsertEvents
    pool.shared.context.connections = [0] ∧ (pool.shared.handles 0).session = .fresh := by
  intro _ pool
  have hfree : pool.shared.context.connections = [0] := by decide +kernel
  have hreaches : Pool.Reaches pooledMachine Settled (.idle (.new 1)) pool :=
    Pool.reaches_after committed_upsert_settled (by decide +kernel)
  refine ⟨hfree, pooled_connections_fresh 1 pool hreaches 0 ?_⟩
  rw [hfree]
  exact List.mem_singleton_self 0

end ServerSdk
