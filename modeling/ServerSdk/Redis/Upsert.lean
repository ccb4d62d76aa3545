import ServerSdk.Redis.Server
import ServerSdk.Store.Backend

namespace ServerSdk

open Redis

structure RedisConfig where
  configPrefix : Option String
  deriving DecidableEq, Repr

def defaultPrefix : String := "launchdarkly"

namespace RedisConfig

def getPrefix (config : RedisConfig) : String := config.configPrefix.getD defaultPrefix

def hashKey (config : RedisConfig) (kind : String) : String := config.getPrefix ++ ":" ++ kind

end RedisConfig

inductive ReplyType where
  | status
  | error
  | nil
  | string
  | integer
  | array
  deriving DecidableEq, Repr

def replyType : Reply → ReplyType
  | .status _ => .status
  | .error _ => .error
  | .nil => .nil
  | .string _ => .string
  | .integer _ => .integer
  | .array _ => .array

def redisCheckReply (reply : Option Reply) (expectedStatus : ReplyType) : Bool :=
  match reply with
  | none => false
  | some reply =>
      if replyType reply = .error then false else decide (replyType reply = expectedStatus)

def redisCheckStatus (reply : Option Reply) (expectedStatus : String) : Bool :=
  if redisCheckReply reply .status then
    match reply with
    | some (.status text) => text = expectedStatus
    | _ => false
  else false

structure UpsertCall where
  config : RedisConfig
  kind : String
  feature : StoreCollectionItem
  featureKey : String
  deriving DecidableEq, Repr

inductive UpsertTask where
  | watching
  | reading
  | opening (serialized : String)
  | queueing (serialized : String)
  | executing
  | returned (success : Bool)
  deriving DecidableEq, Repr

namespace UpsertCall

def hashKey (call : UpsertCall) : String := call.config.hashKey call.kind

def storedText (call : UpsertCall) (server : Server) : Option String :=
  server.field call.hashKey call.featureKey

structure Outcome (call : UpsertCall) (server next : Server) (text : Option String) : Prop where
  stored : call.storedText next = text
  others : ∀ key field, (key, field) ≠ (call.hashKey, call.featureKey) →
    next.field key field = server.field key field
  hashes : ∀ key, server.Hashes key → next.Hashes key
  queue : ∀ id, (server.connections id).queue = none → (next.connections id).queue = none

variable {call : UpsertCall} {id : ℕ} {server next : Server}

theorem outcome_setConnection {connection : Connection} (h : connection.queue = none) :
    call.Outcome server (server.setConnection id connection) (call.storedText server) := by
  refine ⟨rfl, fun _ _ _ => rfl, fun _ hhashes => hhashes, ?_⟩
  intro other hother
  exact Server.queue_setConnection h other fun _ => hother

theorem Outcome.trans {last : Server} {text : Option String}
    (h : call.Outcome server next (call.storedText server)) (h' : call.Outcome next last text) :
    call.Outcome server last text := by
  refine ⟨h'.stored, ?_, fun key hkey => h'.hashes key (h.hashes key hkey),
    fun id hid => h'.queue id (h.queue id hid)⟩
  intro key field hne
  rw [h'.others key field hne, h.others key field hne]

theorem outcome_hset (hhashes : server.Hashes call.hashKey) (text : String) :
    call.Outcome server (server.apply (.hset call.hashKey call.featureKey text)).2 (some text) := by
  obtain ⟨_, _, hstores⟩ := Server.apply_hset hhashes
  refine ⟨hstores.stored, hstores.others, hstores.hashes, ?_⟩
  intro id hid
  rw [hstores.queue]
  exact hid

variable [Parsing]

def serialized (call : UpsertCall) : String :=
  match call.feature.buffer with
  | some buffer => buffer
  | none => Externals.serialize (makeDeletedData call.featureKey call.feature.version)

def compared (call : UpsertCall) (existing : Option Json) : UpsertTask :=
  match existing with
  | none => .opening call.serialized
  | some existing =>
      if call.feature.version ≤ getDataVersion existing then .returned true
      else .opening call.serialized

def answered (call : UpsertCall) (text : Option String) : UpsertTask :=
  match text with
  | none => call.compared none
  | some text =>
      match Parsing.deserialize text with
      | none => .returned false
      | some existing => call.compared (if isDataDeleted existing then none else some existing)

def command (call : UpsertCall) : UpsertTask → Option Command
  | .watching => some (.watch call.hashKey)
  | .reading => some (.hget call.hashKey call.featureKey)
  | .opening _ => some .multi
  | .queueing serialized => some (.hset call.hashKey call.featureKey serialized)
  | .executing => some .exec
  | .returned _ => none

def receive (call : UpsertCall) : UpsertTask → Option Reply → UpsertTask
  | .watching, reply => if redisCheckStatus reply "OK" then .reading else .returned false
  | .reading, none => .returned false
  | .reading, some .nil => call.answered none
  | .reading, some (.string text) => call.answered (some text)
  | .reading, some _ => .returned false
  | .opening serialized, reply =>
      if redisCheckStatus reply "OK" then .queueing serialized else .returned false
  | .queueing _, reply => if redisCheckStatus reply "QUEUED" then .executing else .returned false
  | .executing, some (.array _) => .returned true
  | .executing, some .nil => .watching
  | .executing, _ => .returned false
  | .returned success, _ => .returned success

def advance (call : UpsertCall) (id : ℕ) : UpsertTask × Server → UpsertTask × Server
  | (task, server) =>
      match call.command task with
      | none => (task, server)
      | some command =>
          let (reply, server) := server.execute id command
          (call.receive task (some reply), server)

def run (call : UpsertCall) (id : ℕ) (server : Server) : UpsertTask × Server :=
  (call.advance id)^[10] (.watching, server)

theorem advance_returned (success : Bool) :
    call.advance id (.returned success, server) = (.returned success, server) := rfl

theorem advance_watching (h : (server.connections id).queue = none) :
    call.advance id (.watching, server) = (.reading, server.setConnection id
      { server.connections id with watched := call.hashKey :: (server.connections id).watched }) := by
  simp [advance, command, Server.execute, h, receive, redisCheckStatus, redisCheckReply, replyType]

theorem advance_reading (h : (server.connections id).queue = none)
    (hhashes : server.Hashes call.hashKey) :
    call.advance id (.reading, server) = (call.answered (call.storedText server), server) := by
  simp only [advance, command, Server.execute, h, Server.apply_hget hhashes, storedText]
  cases server.field call.hashKey call.featureKey <;> rfl

theorem advance_opening {text : String} (h : (server.connections id).queue = none) :
    call.advance id (.opening text, server) = (.queueing text, server.setConnection id
      { server.connections id with queue := some [] }) := by
  simp [advance, command, Server.execute, h, receive, redisCheckStatus, redisCheckReply, replyType]

theorem advance_queueing {text : String} (queue : List Command)
    (h : (server.connections id).queue = some queue) :
    call.advance id (.queueing text, server) = (.executing, server.setConnection id
      { server.connections id with
        queue := some (queue ++ [.hset call.hashKey call.featureKey text]) }) := by
  simp [advance, command, Server.execute, h, receive, redisCheckStatus, redisCheckReply, replyType]

theorem advance_executing_of_dirty (queue : List Command)
    (h : (server.connections id).queue = some queue) (hdirty : (server.connections id).dirty = true) :
    call.advance id (.executing, server) = (.watching, server.setConnection id .fresh) := by
  simp [advance, command, Server.execute, h, hdirty, receive]

theorem advance_executing_of_clean (queue : List Command)
    (h : (server.connections id).queue = some queue)
    (hclean : (server.connections id).dirty = false) :
    call.advance id (.executing, server) =
      (.returned true, (Server.applyAll queue (server.setConnection id .fresh)).2) := by
  simp [advance, command, Server.execute, h, hclean, receive]

theorem answered_cases (call : UpsertCall) (text : Option String) :
    call.answered text = .returned false ∨ call.answered text = .returned true ∨
      call.answered text = .opening call.serialized := by
  have hcompared : ∀ existing, call.compared existing = .returned true ∨
      call.compared existing = .opening call.serialized := by
    intro existing
    cases existing with
    | none => exact .inr rfl
    | some existing =>
        rw [compared]
        split_ifs
        · exact .inl rfl
        · exact .inr rfl
  cases text with
  | none => exact .inr (hcompared none)
  | some text =>
      rw [answered]
      cases Parsing.deserialize text with
      | none => exact .inl rfl
      | some existing => exact .inr (hcompared _)

theorem transaction {text : String} (h : (server.connections id).queue = none) :
    (call.advance id)^[3] (.opening text, server) =
      if (server.connections id).dirty then (.watching, server.setConnection id .fresh)
      else (.returned true, ((server.setConnection id .fresh).apply
        (.hset call.hashKey call.featureKey text)).2) := by
  rw [Function.iterate_succ_apply, advance_opening h, Function.iterate_succ_apply,
    advance_queueing [] (by simp), Function.iterate_one]
  split_ifs with hdirty
  · rw [advance_executing_of_dirty [.hset call.hashKey call.featureKey text] (by simp)
      (by simpa using hdirty)]
    simp
  · rw [advance_executing_of_clean [.hset call.hashKey call.featureKey text] (by simp)
      (by simpa using hdirty)]
    simp [Server.applyAll]

def newText (call : UpsertCall) (server : Server) : Option String :=
  if call.answered (call.storedText server) = .opening call.serialized then some call.serialized
  else call.storedText server

theorem round (h : (server.connections id).queue = none) (hhashes : server.Hashes call.hashKey)
    (hanswered : call.answered (call.storedText server) ≠ .returned false) :
    (∃ next, (call.advance id)^[5] (.watching, server) = (.returned true, next) ∧
      call.Outcome server next (call.newText server)) ∨
    ((server.connections id).dirty = true ∧
      (call.advance id)^[5] (.watching, server) = (.watching, server.setConnection id .fresh)) := by
  have hread : (call.advance id)^[5] (.watching, server) = (call.advance id)^[3]
      (call.answered (call.storedText server), server.setConnection id
        { server.connections id with watched := call.hashKey :: (server.connections id).watched }) := by
    rw [Function.iterate_succ_apply, advance_watching h, Function.iterate_succ_apply,
      advance_reading (by simpa using h) (hhashes.setConnection _)]
    rfl
  rw [hread]
  rcases answered_cases call (call.storedText server) with hfalse | htrue | hopening
  · exact absurd hfalse hanswered
  · left
    rw [htrue, Function.iterate_fixed (advance_returned true)]
    refine ⟨_, rfl, ?_⟩
    rw [newText, htrue, if_neg (by simp)]
    exact outcome_setConnection h
  · rw [hopening, transaction (by simpa using h)]
    cases hdirty : (server.connections id).dirty with
    | true =>
        refine .inr ⟨rfl, ?_⟩
        simp [hdirty]
    | false =>
        left
        simp only [Server.connections_setConnection, hdirty, Server.setConnection_setConnection]
        refine ⟨_, rfl, ?_⟩
        rw [newText, hopening, if_pos rfl]
        exact (outcome_setConnection rfl).trans (outcome_hset (hhashes.setConnection _) _)

theorem run_spec (h : (server.connections id).queue = none) (hhashes : server.Hashes call.hashKey)
    (hanswered : call.answered (call.storedText server) ≠ .returned false) :
    (call.run id server).1 = .returned true ∧
      call.Outcome server (call.run id server).2 (call.newText server) := by
  have htwice : call.run id server =
      (call.advance id)^[5] ((call.advance id)^[5] (.watching, server)) :=
    Function.iterate_add_apply (call.advance id) 5 5 (.watching, server)
  rw [htwice]
  rcases round h hhashes hanswered with ⟨next, hreturned, houtcome⟩ | ⟨_, hretry⟩
  · rw [hreturned, Function.iterate_fixed (advance_returned true)]
    exact ⟨rfl, houtcome⟩
  · rw [hretry]
    have hfresh : ((server.setConnection id .fresh).connections id).queue = none := by
      rw [Server.connections_setConnection]
      rfl
    rcases round hfresh (hhashes.setConnection _) hanswered with
      ⟨next, hreturned, houtcome⟩ | ⟨hdirty, _⟩
    · rw [hreturned]
      exact ⟨rfl, (outcome_setConnection rfl).trans houtcome⟩
    · rw [Server.connections_setConnection] at hdirty
      cases hdirty

end UpsertCall

end ServerSdk
