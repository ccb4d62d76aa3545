import ServerSdk.Redis.Locking

namespace ServerSdk

open Program Redis PersistentStoreContext

def Offers (pool : RedisPool) (key field : String) (call : UpsertCall) (task : UpsertTask) : Prop :=
  ∃ id connection, pool.tasks id = some ⟨connection, .upserting call task⟩ ∧
    call.hashKey = key ∧ call.featureKey = field

variable {key field : String} {pool : RedisPool} {id : ℕ} {client : RedisClient} {call : UpsertCall}
  {task : UpsertTask}

theorem offers_put (h : Offers (pool.put id client) key field call task) :
    Offers pool key field call task ∨
      (client.task = .upserting call task ∧ call.hashKey = key ∧ call.featureKey = field) := by
  obtain ⟨other, connection, hother, hkey, hfield⟩ := h
  rcases Pool.tasks_put_eq_some hother with ⟨_, rfl⟩ | ⟨_, hold⟩
  · exact .inr ⟨rfl, hkey, hfield⟩
  · exact .inl ⟨other, connection, hold, hkey, hfield⟩

theorem Offers.put (h : Offers pool key field call task)
    (hkept : ∀ connection before, pool.tasks id = some ⟨connection, .upserting call before⟩ →
      ∃ after, client.task = .upserting call after) :
    ∃ after, Offers (pool.put id client) key field call after := by
  obtain ⟨other, connection, hother, hkey, hfield⟩ := h
  by_cases heq : other = id
  · subst heq
    obtain ⟨after, hafter⟩ := hkept connection task hother
    refine ⟨after, other, client.connection, ?_, hkey, hfield⟩
    rw [Pool.tasks_put_self, ← hafter]
  · refine ⟨task, other, connection, ?_, hkey, hfield⟩
    rw [Pool.tasks_put_of_ne heq]
    exact hother

section NoLostUpdate

variable [Parsing]

namespace UpsertCall

variable {server next : Server} {text : String} {held : Json}

theorem compared_ne_returned_true {existing : Option Json}
    (h : call.compared existing = .opening text) :
    ∀ held, existing = some held → getDataVersion held < call.feature.version := by
  rintro held rfl
  rw [compared] at h
  split_ifs at h with hle
  exact not_le.mp hle

theorem version_lt_of_opening {stored : String} (h : call.answered (some stored) = .opening text)
    (hheld : Parsing.deserialize stored = some held) (hlive : isDataDeleted held = false) :
    getDataVersion held < call.feature.version := by
  rw [answered, hheld] at h
  exact compared_ne_returned_true h held (by simp [hlive])

theorem held_of_returned_true {stored : Option String} (h : call.answered stored = .returned true) :
    ∃ text held, stored = some text ∧ Parsing.deserialize text = some held ∧
      call.feature.version ≤ getDataVersion held := by
  cases stored with
  | none => cases h
  | some text =>
      rw [answered] at h
      cases hheld : Parsing.deserialize text with
      | none =>
          rw [hheld] at h
          cases h
      | some held =>
          rw [hheld] at h
          refine ⟨text, held, rfl, hheld, ?_⟩
          cases hdeleted : isDataDeleted held with
          | true => simp [hdeleted, compared] at h
          | false =>
              by_contra hlt
              simp [hdeleted, compared, hlt] at h

inductive Effect (call : UpsertCall) (server next : Server) (after : UpsertTask) : Prop
  | kept : next.keyspace = server.keyspace →
      (after = .returned true → call.answered (call.storedText server) = .returned true) →
      Effect call server next after
  | committed : after = .returned true →
      call.answered (call.storedText server) = .opening call.serialized →
      call.Outcome server next (some call.serialized) → Effect call server next after

theorem Consistent.effect {command : Command} (h : call.Consistent server id task)
    (hcommand : call.command task = some command) :
    call.Effect server (server.execute id command).2
      (call.receive task (some (server.execute id command).1)) := by
  cases task with
  | watching =>
      cases hcommand
      have hqueue : (server.connections id).queue = none := h
      simp only [Server.execute, hqueue]
      exact .kept rfl (by simp [receive, redisCheckStatus, redisCheckReply, replyType])
  | reading =>
      cases hcommand
      obtain ⟨hserver, hfalse | ⟨_, hanswered⟩⟩ := execute_hget h.1
      · rw [hserver, hfalse]
        exact .kept rfl (by simp)
      · rw [hserver, hanswered]
        exact .kept rfl fun htrue => htrue
  | opening text =>
      cases hcommand
      simp only [Server.execute, h.1]
      exact .kept rfl (by simp [receive, redisCheckStatus, redisCheckReply, replyType])
  | queueing text =>
      cases hcommand
      simp only [Server.execute, h.1]
      exact .kept rfl (by simp [receive, redisCheckStatus, redisCheckReply, replyType])
  | executing =>
      cases hcommand
      obtain ⟨hqueue, _, _, hcurrent⟩ := h
      rcases Server.execute_exec _ hqueue with ⟨_, hexecute⟩ | ⟨hclean, hexecute⟩
      · rw [hexecute]
        exact .kept rfl (by simp [receive])
      · rw [hexecute]
        rcases hcurrent with hdirty | ⟨hhashes, hanswered⟩
        · cases hclean.symm.trans hdirty
        · refine .committed rfl hanswered ?_
          exact (outcome_setConnection rfl).trans (outcome_hset (hhashes.setConnection _) _)
  | returned success => cases hcommand

theorem Effect.field_cases {after : UpsertTask} (h : call.Effect server next after) (key field : String) :
    next.field key field = server.field key field ∨
      (key = call.hashKey ∧ field = call.featureKey ∧
        next.field key field = some call.serialized ∧
        ∀ text held, server.field key field = some text → Parsing.deserialize text = some held →
          isDataDeleted held = false → getDataVersion held < call.feature.version) := by
  cases h with
  | kept hkeyspace _ =>
      left
      rw [Server.field, Server.field, hkeyspace]
  | committed _ hanswered houtcome =>
      by_cases htarget : (key, field) = (call.hashKey, call.featureKey)
      · right
        cases htarget
        refine ⟨rfl, rfl, houtcome.stored, ?_⟩
        intro text held htext hheld hlive
        have hstored : call.storedText server = some text := htext
        rw [hstored] at hanswered
        exact version_lt_of_opening hanswered hheld hlive
      · exact .inl (houtcome.others key field htarget)

end UpsertCall

def RedisTask.Reads : RedisTask → Prop
  | .opening _ | .queueing _ _ | .committing => False
  | _ => True

theorem RedisTask.keyspace_of_reads {server : Server} {task after : RedisTask}
    {command : Command} (h : task.Consistent server id) (hreads : task.Reads)
    (hcommand : task.command = .ok (some command))
    (hreceive : task.receive (some (server.execute id command).1) = .ok after) :
    (∃ call before, task = .upserting call before ∧ ∃ next, after = .upserting call next ∧
      call.Effect server (server.execute id command).2 next) ∨
    ((∀ call before, task ≠ .upserting call before) ∧
      (server.execute id command).2.keyspace = server.keyspace ∧
      ∃ result, after = .returned result) := by
  cases task with
  | opening commands => cases hreads
  | queueing command rest => cases hreads
  | committing => cases hreads
  | getting config kind key =>
      cases hcommand
      cases hreceive
      exact .inr ⟨by simp, Server.keyspace_execute_of_queries h trivial, _, rfl⟩
  | listing config kind =>
      cases hcommand
      obtain ⟨items, _, hafter⟩ := Checked.bind_eq_ok.mp hreceive
      cases hafter
      exact .inr ⟨by simp, Server.keyspace_execute_of_queries h trivial, _, rfl⟩
  | upserting call task =>
      have hsent : call.command task = some command := by simpa [RedisTask.command] using hcommand
      cases hreceive
      exact .inl ⟨call, task, rfl, _, rfl, UpsertCall.Consistent.effect h hsent⟩
  | asking config =>
      cases hcommand
      cases hreceive
      exact .inr ⟨by simp, Server.keyspace_execute_of_queries h trivial, _, rfl⟩
  | returned result => cases hcommand

def itemAt (server : Server) (key field : String) : Option Json :=
  (server.field key field).bind Parsing.deserialize

def Candidate (server : Server) (pool : RedisPool) (key field : String) (item : Json) : Prop :=
  itemAt server key field = some item ∨
    ∃ call task, Offers pool key field call task ∧ call.Upserts item

def LiveCall (key field : String) : RedisCall → Prop
  | .init _ _ => False
  | .upsert call => call.hashKey = key → call.featureKey = field →
      ∃ item, call.Upserts item ∧ isDataDeleted item = false
  | _ => True

def LiveUpserts (key field : String) (pool : RedisPool) : RedisEvent → Prop
  | .start id call => Exclusive pool (.start id call) ∧ LiveCall key field call.2
  | _ => True

theorem LiveUpserts.exclusive {key field : String} {pool : RedisPool} {event : RedisEvent}
    (h : LiveUpserts key field pool event) : Exclusive pool event := by
  cases event with
  | start id call => exact h.1
  | _ => trivial

def HoldsLive (server : Server) (key field : String) : Prop :=
  ∀ text, server.field key field = some text →
    ∃ held, Parsing.deserialize text = some held ∧ isDataDeleted held = false

structure Progress (server : Server) (key field : String) (pool : RedisPool) : Prop where
  locked : Locked pool
  reads : ∀ id client, pool.tasks id = some client → client.task.Reads
  offered : ∀ call task, Offers pool key field call task →
    ∃ item, call.Upserts item ∧ isDataDeleted item = false
  live : HoldsLive pool.shared key field
  source : ∀ stored, itemAt pool.shared key field = some stored →
    Candidate server pool key field stored
  floor : ∀ item, itemAt server key field = some item →
    ∃ stored, itemAt pool.shared key field = some stored ∧ getDataVersion item ≤ getDataVersion stored
  done : ∀ call, Offers pool key field call (.returned true) →
    ∃ stored, itemAt pool.shared key field = some stored ∧
      call.feature.version ≤ getDataVersion stored

variable {server : Server} {next : RedisPool}

theorem progress_idle (hqueue : ∀ id, (server.connections id).queue = none)
    (hlive : HoldsLive server key field) : Progress server key field (.idle server) := by
  refine ⟨locked_idle hqueue, ?_, ?_, hlive, fun stored hstored => .inl hstored,
    fun item hitem => ⟨item, hitem, le_rfl⟩, ?_⟩
  · intro id client hid
    cases hid
  · rintro call task ⟨id, connection, hid, _⟩
    cases hid
  · rintro call ⟨id, connection, hid, _⟩
    cases hid

theorem Progress.moved (h : Progress server key field pool) (hlocked : Locked next)
    (hreads : ∀ id client, next.tasks id = some client → client.task.Reads)
    (hoffered : ∀ call task, Offers next key field call task →
      ∃ item, call.Upserts item ∧ isDataDeleted item = false)
    (hkept : ∀ call task, Offers pool key field call task →
      ∃ after, Offers next key field call after)
    (hlive : HoldsLive next.shared key field)
    (hstored : ∀ stored, itemAt next.shared key field = some stored →
      itemAt pool.shared key field = some stored ∨
        ∃ call task, Offers next key field call task ∧ call.Upserts stored)
    (hraised : ∀ held, itemAt pool.shared key field = some held →
      ∃ stored, itemAt next.shared key field = some stored ∧
        getDataVersion held ≤ getDataVersion stored)
    (hdone : ∀ call, Offers next key field call (.returned true) →
      Offers pool key field call (.returned true) ∨
        ∃ stored, itemAt next.shared key field = some stored ∧
          call.feature.version ≤ getDataVersion stored) :
    Progress server key field next := by
  refine ⟨hlocked, hreads, hoffered, hlive, ?_, ?_, ?_⟩
  · intro stored hitem
    rcases hstored stored hitem with hold | hnew
    · rcases h.source stored hold with hinitial | ⟨call, task, hoffers, hupserts⟩
      · exact .inl hinitial
      · obtain ⟨after, hafter⟩ := hkept call task hoffers
        exact .inr ⟨call, after, hafter, hupserts⟩
    · exact .inr hnew
  · intro item hitem
    obtain ⟨held, hheld, hle⟩ := h.floor item hitem
    obtain ⟨stored, hstored, hle'⟩ := hraised held hheld
    exact ⟨stored, hstored, hle.trans hle'⟩
  · intro call hoffers
    rcases hdone call hoffers with hold | hnew
    · obtain ⟨held, hheld, hle⟩ := h.done call hold
      obtain ⟨stored, hstored, hle'⟩ := hraised held hheld
      exact ⟨stored, hstored, hle.trans hle'⟩
    · exact hnew

theorem Progress.started (h : Progress server key field pool) {connection : ℕ} {call : RedisCall}
    (hid : pool.tasks id = none) (hfree : Exclusive pool (.start id (connection, call)))
    (hlive : LiveCall key field call) :
    Progress server key field (pool.put id ⟨connection, RedisTask.begin call⟩) := by
  refine h.moved (h.locked.started hid hfree) ?_ ?_ ?_ h.live (fun stored hstored => .inl hstored)
    (fun held hheld => ⟨held, hheld, le_rfl⟩) ?_
  · refine Pool.forall_tasks_put h.reads ?_
    cases call with
    | init config collections => cases hlive
    | _ => trivial
  · intro other task hoffers
    rcases offers_put hoffers with hold | ⟨htask, hkey, hfield⟩
    · exact h.offered other task hold
    · cases call with
      | upsert call =>
          cases htask
          exact hlive hkey hfield
      | _ => cases htask
  · intro other task hoffers
    refine hoffers.put ?_
    intro connection before hbefore
    cases hid.symm.trans hbefore
  · intro other hoffers
    rcases offers_put hoffers with hold | ⟨htask, _, _⟩
    · exact .inl hold
    · cases call with
      | _ => cases htask

theorem Progress.put (h : Progress server key field pool) {shared : Server} {after : RedisTask}
    (hid : pool.tasks id = some client)
    (hlocked : Locked (({ pool with shared } : RedisPool).put id { client with task := after }))
    (hreads : after.Reads)
    (hbefore : ∀ call task, after = .upserting call task → ∃ task', client.task = .upserting call task')
    (hafter : ∀ call task, client.task = .upserting call task → ∃ task', after = .upserting call task')
    (hlive : HoldsLive shared key field)
    (hstored : ∀ stored, itemAt shared key field = some stored →
      itemAt pool.shared key field = some stored ∨ ∃ call task, after = .upserting call task ∧
        call.hashKey = key ∧ call.featureKey = field ∧ call.Upserts stored)
    (hraised : ∀ held, itemAt pool.shared key field = some held →
      ∃ stored, itemAt shared key field = some stored ∧ getDataVersion held ≤ getDataVersion stored)
    (hdone : ∀ call, after = .upserting call (.returned true) → call.hashKey = key →
      call.featureKey = field → ∃ stored, itemAt shared key field = some stored ∧
        call.feature.version ≤ getDataVersion stored) :
    Progress server key field (({ pool with shared } : RedisPool).put id { client with task := after }) := by
  refine h.moved hlocked (Pool.forall_tasks_put h.reads hreads) ?_ ?_ hlive ?_ hraised ?_
  · intro call task hoffers
    rcases offers_put hoffers with hold | ⟨htask, hkey, hfield⟩
    · exact h.offered call task hold
    · obtain ⟨task', htask'⟩ := hbefore call task htask
      refine h.offered call task' ⟨id, client.connection, ?_, hkey, hfield⟩
      rw [hid, ← htask']
  · intro call task hoffers
    have hoffers' : Offers ({ pool with shared } : RedisPool) key field call task := hoffers
    refine hoffers'.put ?_
    intro connection before hheld
    cases hid.symm.trans hheld
    exact hafter call before rfl
  · intro stored hitem
    rcases hstored stored hitem with hold | ⟨call, task, htask, hkey, hfield, hupserts⟩
    · exact .inl hold
    · refine .inr ⟨call, task, ⟨id, client.connection, ?_, hkey, hfield⟩, hupserts⟩
      rw [Pool.tasks_put_self, htask]
  · intro call hoffers
    rcases offers_put hoffers with hold | ⟨htask, hkey, hfield⟩
    · exact .inl hold
    · exact .inr (hdone call htask hkey hfield)

theorem Progress.kept (h : Progress server key field pool) {shared : Server} {after : RedisTask}
    (hid : pool.tasks id = some client)
    (hlocked : Locked (({ pool with shared } : RedisPool).put id { client with task := after }))
    (hreads : after.Reads)
    (hbefore : ∀ call task, after = .upserting call task → ∃ task', client.task = .upserting call task')
    (hafter : ∀ call task, client.task = .upserting call task → ∃ task', after = .upserting call task')
    (hfield : shared.field key field = pool.shared.field key field)
    (hdone : ∀ call, after = .upserting call (.returned true) → call.hashKey = key →
      call.featureKey = field → ∃ stored, itemAt shared key field = some stored ∧
        call.feature.version ≤ getDataVersion stored) :
    Progress server key field (({ pool with shared } : RedisPool).put id { client with task := after }) := by
  have hitem : itemAt shared key field = itemAt pool.shared key field := by
    rw [itemAt, itemAt, hfield]
  refine h.put hid hlocked hreads hbefore hafter ?_ ?_ ?_ hdone
  · intro text htext
    exact h.live text (hfield ▸ htext)
  · intro stored hstored
    exact .inl (hitem ▸ hstored)
  · intro held hheld
    exact ⟨held, hitem.trans hheld, le_rfl⟩

theorem UpsertCall.Effect.done {next : Server} (h : call.Effect server next (.returned true))
    {item : Json} (hupserts : call.Upserts item) :
    ∃ stored, itemAt next call.hashKey call.featureKey = some stored ∧
      call.feature.version ≤ getDataVersion stored := by
  cases h with
  | kept hkeyspace hreturned =>
      obtain ⟨text, held, htext, hheld, hle⟩ := held_of_returned_true (hreturned rfl)
      refine ⟨held, ?_, hle⟩
      have hfield : server.field call.hashKey call.featureKey = some text := htext
      have hsame : next.field call.hashKey call.featureKey = some text := by
        rw [← hfield, Server.field, Server.field, hkeyspace]
      rw [itemAt, hsame]
      exact hheld
  | committed _ _ houtcome =>
      refine ⟨item, ?_, hupserts.version.le⟩
      have hstored : next.field call.hashKey call.featureKey = some call.serialized := houtcome.stored
      rw [itemAt, hstored]
      exact hupserts.decodes

theorem Progress.upserted (h : Progress server key field pool) {shared : Server}
    {before after : UpsertTask} (hid : pool.tasks id = some client)
    (hlocked : Locked (({ pool with shared } : RedisPool).put id
      { client with task := .upserting call after }))
    (htask : client.task = .upserting call before) (heffect : call.Effect pool.shared shared after) :
    Progress server key field (({ pool with shared } : RedisPool).put id
      { client with task := .upserting call after }) := by
  have hoffered : call.hashKey = key → call.featureKey = field →
      ∃ item, call.Upserts item ∧ isDataDeleted item = false := by
    intro hkey hfield
    refine h.offered call before ⟨id, client.connection, ?_, hkey, hfield⟩
    rw [hid, ← htask]
  have hdone : ∀ other, RedisTask.upserting call after = .upserting other (.returned true) →
      other.hashKey = key → other.featureKey = field →
      ∃ stored, itemAt shared key field = some stored ∧
        other.feature.version ≤ getDataVersion stored := by
    rintro _ ⟨⟩ rfl rfl
    obtain ⟨item, hupserts, _⟩ := hoffered rfl rfl
    exact heffect.done hupserts
  have hsame : ∀ other task, RedisTask.upserting call after = .upserting other task →
      ∃ task', client.task = .upserting other task' := by
    rintro _ _ ⟨⟩
    exact ⟨before, htask⟩
  have hsame' : ∀ other task, client.task = .upserting other task →
      ∃ task', RedisTask.upserting call after = .upserting other task' := by
    intro other task hother
    cases htask.symm.trans hother
    exact ⟨after, rfl⟩
  rcases heffect.field_cases key field with hfield | ⟨rfl, rfl, hfield, hlt⟩
  · exact h.kept hid hlocked trivial hsame hsame' hfield hdone
  · obtain ⟨item, hupserts, hlive⟩ := hoffered rfl rfl
    have hitem : itemAt shared call.hashKey call.featureKey = some item := by
      rw [itemAt, hfield]
      exact hupserts.decodes
    refine h.put hid hlocked trivial hsame hsame' ?_ ?_ ?_ hdone
    · intro text htext
      cases hfield.symm.trans htext
      exact ⟨item, hupserts.decodes, hlive⟩
    · intro stored hstored
      cases hitem.symm.trans hstored
      exact .inr ⟨call, after, rfl, rfl, rfl, hupserts⟩
    · intro held hheld
      obtain ⟨text, htext, hdecodes⟩ := Option.bind_eq_some_iff.mp hheld
      obtain ⟨held', hheld', hlive'⟩ := h.live text htext
      cases hdecodes.symm.trans hheld'
      have hversion := hlt text held htext hdecodes hlive'
      exact ⟨item, hitem, hupserts.version ▸ hversion.le⟩

theorem Progress.sent (h : Progress server key field pool) {command : Command} {after : RedisTask}
    (hid : pool.tasks id = some client) (hcommand : client.task.command = .ok (some command))
    (hreceive : client.task.receive (some (pool.shared.execute client.connection command).1) =
      .ok after) :
    Progress server key field (({ pool with shared := (pool.shared.execute client.connection
      command).2 } : RedisPool).put id { client with task := after }) := by
  have hrunning : client.running := RedisTask.result_of_sent hcommand
  have hlocked := h.locked.sent hid hcommand hreceive
  have hconsistent := h.locked.consistent id client hid hrunning
  rcases RedisTask.keyspace_of_reads hconsistent (h.reads id client hid) hcommand hreceive with
    ⟨call, before, htask, next, rfl, heffect⟩ | ⟨hother, hkeyspace, result, rfl⟩
  · exact h.upserted hid hlocked htask heffect
  · have hfield : (pool.shared.execute client.connection command).2.field key field =
        pool.shared.field key field := by
      rw [Server.field, Server.field, hkeyspace]
    refine h.kept hid hlocked trivial ?_ ?_ hfield ?_
    · intro call task htask
      cases htask
    · intro call task htask
      exact absurd htask (hother call task)
    · intro call htask
      cases htask

theorem Progress.performed (h : Progress server key field pool) {event : RedisEvent}
    (hallowed : LiveUpserts key field pool event)
    (hperformed : Pool.Performed redisMachine pool event next) : Progress server key field next := by
  cases hperformed with
  | started hid => exact h.started hid hallowed.1 hallowed.2
  | stepped hid hstep =>
      cases RedisClient.steps_of_step hstep with
      | idle => rw [Pool.put_of_tasks hid]; exact h
      | sent hcommand hreceive => exact h.sent hid hcommand hreceive
  | moved event => exact event.elim
  | ignored => exact h

theorem upsert_step_field (h : Locked pool) (hid : pool.tasks id = some client)
    (htask : client.task = .upserting call task)
    (hperform : pool.perform redisMachine (.step id) = .ok next) :
    next.shared.field key field = pool.shared.field key field ∨
      (key = call.hashKey ∧ field = call.featureKey ∧
        next.shared.field key field = some call.serialized ∧
        ∀ text held, pool.shared.field key field = some text → Parsing.deserialize text = some held →
          isDataDeleted held = false → getDataVersion held < call.feature.version) := by
  cases Pool.performed_of_perform hperform with
  | stepped hid' hstep =>
      cases hid.symm.trans hid'
      cases RedisClient.steps_of_step hstep with
      | idle => exact .inl rfl
      | @sent command after hcommand hreceive =>
          have hconsistent := h.consistent id client hid (RedisTask.result_of_sent hcommand)
          rw [htask] at hcommand hconsistent
          have hsent : call.command task = some command := by
            simpa [RedisTask.command] using hcommand
          exact (UpsertCall.Consistent.effect hconsistent hsent).field_cases key field
  | ignored => exact .inl rfl

theorem redis_loses_no_update (server : Server)
    (hqueue : ∀ id, (server.connections id).queue = none) :
    (∀ pool, Pool.Reaches redisMachine Exclusive (.idle server) pool →
      ∀ id client call task next, pool.tasks id = some client → client.task = .upserting call task →
        pool.perform redisMachine (.step id) = .ok next → ∀ key field,
          next.shared.field key field = pool.shared.field key field ∨
            (key = call.hashKey ∧ field = call.featureKey ∧
              next.shared.field key field = some call.serialized ∧
              ∀ text held, pool.shared.field key field = some text →
                Parsing.deserialize text = some held → isDataDeleted held = false →
                getDataVersion held < call.feature.version)) ∧
    ∀ key field, HoldsLive server key field → ∀ pool,
      Pool.Reaches redisMachine (LiveUpserts key field) (.idle server) pool →
      (∀ call task, Offers pool key field call task → task = .returned true) →
      (∀ stored, itemAt pool.shared key field = some stored →
        Candidate server pool key field stored) ∧
      ∀ item, Candidate server pool key field item →
        ∃ stored, itemAt pool.shared key field = some stored ∧
          getDataVersion item ≤ getDataVersion stored := by
  constructor
  · intro pool hreaches id client call task next hid htask hperform key field
    exact upsert_step_field (locked_of_reaches hqueue hreaches) hid htask hperform
  · intro key field hlive pool hreaches hreturned
    have hprogress : Progress server key field pool := by
      refine hreaches.invariant (progress_idle hqueue hlive) ?_
      intro pool event next hprogress hallowed hperformed
      exact hprogress.performed hallowed hperformed
    refine ⟨hprogress.source, ?_⟩
    rintro item (hinitial | ⟨call, task, hoffers, hupserts⟩)
    · exact hprogress.floor item hinitial
    · cases hreturned call task hoffers
      obtain ⟨stored, hstored, hle⟩ := hprogress.done call hoffers
      exact ⟨stored, hstored, hupserts.version ▸ hle⟩

end NoLostUpdate

@[reducible] def twoFlagParsing : Parsing := literalParsing [firstFlag, secondFlag]

def firstUpsert [Parsing] : UpsertCall := (RedisUpdate.upsert .flag firstFlag).call defaultConfig

def secondUpsert [Parsing] : UpsertCall := (RedisUpdate.upsert .flag secondFlag).call defaultConfig

def conflictingUpserts [Parsing] : List RedisEvent :=
  [.start 0 (0, .upsert secondUpsert), .start 1 (1, .upsert firstUpsert), .step 0, .step 1, .step 0,
    .step 1, .step 1, .step 1, .step 1, .step 0, .step 0, .step 0, .step 0, .step 0, .step 0, .step 0]

def conflictedPool [Parsing] : RedisPool :=
  (Pool.idle Server.empty).after redisMachine conflictingUpserts

theorem conflictedPool_idle [Parsing] {id : ℕ} (hzero : id ≠ 0) (hone : id ≠ 1) :
    conflictedPool.tasks id = none := by
  rw [conflictedPool, Pool.tasks_after _ _ (by
    simp [conflictingUpserts, PoolEvent.named, Ne.symm hzero, Ne.symm hone])]
  rfl

theorem second_flag_survives_conflict :
    let _ := twoFlagParsing
    let pool := conflictedPool
    let last := pool.after redisMachine [.step 0]
    Pool.Reaches redisMachine (LiveUpserts firstUpsert.hashKey "a") (.idle .empty) last ∧
      (last.shared.field firstUpsert.hashKey "a" = pool.shared.field firstUpsert.hashKey "a" ∨
        getDataVersion firstFlag < secondUpsert.feature.version) ∧
      ∃ stored, itemAt last.shared firstUpsert.hashKey "a" = some stored ∧
        getDataVersion secondFlag ≤ getDataVersion stored := by
  intro _ pool last
  have hnobody : Exclusive (Pool.idle Server.empty) (.start 0 (0, .upsert secondUpsert)) := by
    intro id client hid
    cases hid
  have hfree : Exclusive ((Pool.idle Server.empty).after redisMachine
      [.start 0 (0, .upsert secondUpsert)]) (.start 1 (1, .upsert firstUpsert)) := by
    intro id client hid _
    rcases Pool.tasks_put_eq_some hid with ⟨_, rfl⟩ | ⟨_, hnone⟩
    · decide
    · cases hnone
  have hfirst : firstUpsert.Upserts firstFlag := ⟨rfl, rfl⟩
  have hsecond : secondUpsert.Upserts secondFlag := ⟨rfl, rfl⟩
  have hupserts : Pool.Reaches redisMachine (LiveUpserts firstUpsert.hashKey "a") (.idle .empty) pool :=
    Pool.reaches_after ⟨⟨hnobody, fun _ _ => ⟨secondFlag, hsecond, rfl⟩⟩,
      ⟨hfree, fun _ _ => ⟨firstFlag, hfirst, rfl⟩⟩, trivial, trivial, trivial, trivial, trivial, trivial,
      trivial, trivial, trivial, trivial, trivial, trivial, trivial, trivial, trivial⟩
      (by decide +kernel)
  have hpool : Pool.Reaches redisMachine Exclusive (.idle .empty) pool :=
    hupserts.mono fun _ _ hevent => hevent.exclusive
  have hlast : Pool.Reaches redisMachine (LiveUpserts firstUpsert.hashKey "a") (.idle .empty) last :=
    hupserts.trans (Pool.reaches_after ⟨trivial, trivial⟩ (by decide +kernel))
  have htask : pool.tasks 0 = some ⟨0, .upserting secondUpsert .executing⟩ := by decide +kernel
  have hdone : last.tasks 0 = some ⟨0, .upserting secondUpsert (.returned true)⟩ := by decide +kernel
  have hdone' : last.tasks 1 = some ⟨1, .upserting firstUpsert (.returned true)⟩ := by decide +kernel
  have hothers : ∀ id, id ≠ 0 → id ≠ 1 → last.tasks id = none := by
    intro id hzero hone
    rw [Pool.tasks_after [.step 0] pool (by simp [PoolEvent.named, Ne.symm hzero])]
    exact conflictedPool_idle hzero hone
  have hreturned : ∀ call task, Offers last firstUpsert.hashKey "a" call task →
      task = .returned true := by
    rintro call task ⟨id, connection, hid, _⟩
    by_cases hzero : id = 0
    · subst hzero
      have hclient := RedisClient.mk.inj (Option.some.inj (hdone.symm.trans hid))
      exact (RedisTask.upserting.inj hclient.2).2.symm
    · by_cases hone : id = 1
      · subst hone
        have hclient := RedisClient.mk.inj (Option.some.inj (hdone'.symm.trans hid))
        exact (RedisTask.upserting.inj hclient.2).2.symm
      · cases (hothers id hzero hone).symm.trans hid
  have hperform : pool.perform redisMachine (.step 0) = .ok last := rfl
  obtain ⟨hcommitted, hhighest⟩ := redis_loses_no_update .empty fun _ => rfl
  refine ⟨hlast, ?_, ?_⟩
  · rcases hcommitted pool hpool 0 _ secondUpsert .executing last htask rfl hperform
      firstUpsert.hashKey "a" with hsame | ⟨_, _, _, hlt⟩
    · exact .inl hsame
    · have hheld : pool.shared.field firstUpsert.hashKey "a" = some firstFlag.compact := by
        decide +kernel
      exact .inr (hlt _ firstFlag hheld rfl rfl)
  · refine (hhighest _ "a" ?_ last hlast hreturned).2 secondFlag ?_
    · intro text htext
      cases htext
    · exact .inr ⟨secondUpsert, .returned true, ⟨0, 0, hdone, rfl, rfl⟩, hsecond⟩

end ServerSdk
