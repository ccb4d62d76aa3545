import ServerSdk.Redis.Operations
import ServerSdk.Store.Sections

namespace ServerSdk

open Program Redis PersistentStoreContext

def failedReply : Option Reply → Bool
  | none => true
  | some (.error _) => true
  | some _ => false

theorem redisCheckReply_of_failed {reply : Option Reply} (h : failedReply reply = true)
    {expected : ReplyType} : redisCheckReply reply expected = false := by
  cases reply with
  | none => rfl
  | some reply =>
      cases reply with
      | error text => rfl
      | _ => cases h

theorem redisCheckStatus_of_failed {reply : Option Reply} (h : failedReply reply = true)
    {expected : String} : redisCheckStatus reply expected = false := by
  simp [redisCheckStatus, redisCheckReply_of_failed h]

def RedisTask.ChecksReplies : RedisTask → Prop
  | .listing _ _ => False
  | .asking _ => False
  | _ => True

theorem RedisTask.checksReplies_queue (commands : List (Option Command)) :
    (queue commands).ChecksReplies := by
  cases commands with
  | nil => trivial
  | cons command rest => trivial

theorem latched_of_query {β : Type} {store : PersistentStoreContext β}
    (hbefore : store.cache.initialized = false)
    (h : store.queryAndUpdateInitialization.2.cache.initialized = true) :
    store.askInitialized.1 = true := by
  cases hasked : store.askInitialized.1 with
  | true => rfl
  | false =>
      rw [queryAndUpdate_of_false hasked, (sameSettings_addItem _ _ _).initialized] at h
      have hremoved := MemoryContext.initialized_findAndRemove store.cache initCheckedKey
      cases (hremoved.trans hbefore).symm.trans h

theorem receiveInitialized_of_integer (value : Int) :
    RedisTask.receiveInitialized (some (.integer value)) = decide (value ≠ 0) := by
  simp [RedisTask.receiveInitialized, redisCheckReply, replyType]

theorem receiveInitialized_of_other {reply : Option Reply}
    (h : ∀ value, reply ≠ some (.integer value)) : RedisTask.receiveInitialized reply = true := by
  cases reply with
  | none => rfl
  | some reply =>
      cases reply with
      | integer value => exact absurd rfl (h value)
      | _ => rfl

section Exchanges

variable [Parsing]

namespace RedisTask

def exchange : RedisTask → List (Option Reply) → List (Option Reply) × Checked RedisTask
  | task, [] => ([], .ok task)
  | task, reply :: replies =>
      match task.command with
      | .error fault => ([], .error fault)
      | .ok none => ([], .ok task)
      | .ok (some _) =>
          match task.receive reply with
          | .error fault => ([reply], .error fault)
          | .ok task =>
              let (consumed, outcome) := exchange task replies
              (reply :: consumed, outcome)

theorem exchange_of_result {task : RedisTask} {result : RedisResult}
    (h : task.result = some result) (replies : List (Option Reply)) :
    task.exchange replies = ([], .ok task) := by
  have hcommand : task.command = .ok none := by
    cases task with
    | returned result => rfl
    | upserting call task =>
        cases task with
        | returned success => rfl
        | _ => cases h
    | _ => cases h
  cases replies with
  | nil => rfl
  | cons reply replies => simp [exchange, hcommand]

theorem upsert_receive_of_failed {call : UpsertCall} {task : UpsertTask} {reply : Option Reply}
    (hfailed : failedReply reply = true) {sent : Command} (hcommand : call.command task = some sent) :
    call.receive task reply = .returned false := by
  cases task with
  | watching => simp [UpsertCall.receive, redisCheckStatus_of_failed hfailed]
  | reading =>
      cases reply with
      | none => rfl
      | some reply =>
          cases reply with
          | error text => rfl
          | _ => cases hfailed
  | opening text => simp [UpsertCall.receive, redisCheckStatus_of_failed hfailed]
  | queueing text => simp [UpsertCall.receive, redisCheckStatus_of_failed hfailed]
  | executing =>
      cases reply with
      | none => rfl
      | some reply =>
          cases reply with
          | error text => rfl
          | _ => cases hfailed
  | returned success => cases hcommand

theorem ChecksReplies.receive {task next : RedisTask} (h : task.ChecksReplies)
    {reply : Option Reply} (hreceive : task.receive reply = .ok next) : next.ChecksReplies := by
  cases task with
  | opening commands =>
      cases hreceive
      split_ifs
      · exact checksReplies_queue commands
      · trivial
  | queueing command rest =>
      cases hreceive
      split_ifs
      · exact checksReplies_queue rest
      · trivial
  | listing config kind => cases h
  | asking config => cases h
  | _ =>
      cases hreceive
      trivial

theorem receive_of_failed {task : RedisTask} (h : task.ChecksReplies) {reply : Option Reply}
    (hfailed : failedReply reply = true) {sent : Command} (hcommand : task.command = .ok (some sent)) :
    ∃ next result, task.receive reply = .ok next ∧ next.result = some result ∧
      result.success = false := by
  cases task with
  | opening commands =>
      refine ⟨.returned (.status false), _, ?_, rfl, rfl⟩
      simp [RedisTask.receive, redisCheckStatus_of_failed hfailed]
  | queueing command rest =>
      refine ⟨.returned (.status false), _, ?_, rfl, rfl⟩
      simp [RedisTask.receive, redisCheckStatus_of_failed hfailed]
  | committing =>
      refine ⟨.returned (.status false), _, ?_, rfl, rfl⟩
      simp [RedisTask.receive, redisCheckReply_of_failed hfailed]
  | getting config kind key =>
      refine ⟨.returned (.item none), _, ?_, rfl, rfl⟩
      cases reply with
      | none => rfl
      | some reply =>
          cases reply with
          | error text => rfl
          | _ => cases hfailed
  | listing config kind => cases h
  | upserting call task =>
      have hsent : call.command task = some sent := by simpa [RedisTask.command] using hcommand
      refine ⟨.upserting call (.returned false), _, ?_, rfl, rfl⟩
      rw [RedisTask.receive, upsert_receive_of_failed hfailed hsent]
  | asking config => cases h
  | returned result => cases hcommand

def EndsFailed (outcome : Checked RedisTask) : Prop :=
  ∃ task result, outcome = .ok task ∧ task.result = some result ∧ result.success = false

theorem ChecksReplies.exchange {task : RedisTask} (h : task.ChecksReplies)
    (replies : List (Option Reply))
    (hfailed : ∃ reply ∈ (task.exchange replies).1, failedReply reply = true) :
    EndsFailed (task.exchange replies).2 := by
  induction replies generalizing task with
  | nil =>
      obtain ⟨reply, hreply, _⟩ := hfailed
      cases hreply
  | cons reply replies ih =>
      obtain ⟨failing, hmem, hfailing⟩ := hfailed
      cases hcommand : task.command with
      | error fault => simp [RedisTask.exchange, hcommand] at hmem
      | ok sent =>
          cases sent with
          | none => simp [RedisTask.exchange, hcommand] at hmem
          | some sent =>
              cases hreply : failedReply reply with
              | true =>
                  obtain ⟨next, result, hreceive, hresult, hfalse⟩ :=
                    receive_of_failed h hreply hcommand
                  refine ⟨next, result, ?_, hresult, hfalse⟩
                  simp [RedisTask.exchange, hcommand, hreceive, exchange_of_result hresult]
              | false =>
                  cases hreceive : task.receive reply with
                  | error fault =>
                      have hcase : failing = reply := by
                        simpa [RedisTask.exchange, hcommand, hreceive] using hmem
                      rw [hcase, hreply] at hfailing
                      cases hfailing
                  | ok next =>
                      simp only [RedisTask.exchange, hcommand, hreceive, List.mem_cons] at hmem ⊢
                      rcases hmem with rfl | hmem
                      · rw [hreply] at hfailing
                        cases hfailing
                      · exact ih (h.receive hreceive) ⟨failing, hmem, hfailing⟩

end RedisTask

def AnsweredTrue (replies : List (Option Reply)) : Prop :=
  ∃ value, value ≠ 0 ∧ replies.head? = some (some (.integer value))

structure ReportsFailures (call : RedisCall) (replies : List (Option Reply)) : Prop where
  failed : (∃ reply ∈ ((RedisTask.begin call).exchange replies).1, failedReply reply = true) →
    RedisTask.EndsFailed ((RedisTask.begin call).exchange replies).2
  initialized : ∀ config, call = .initialized config → ∀ task,
    ((RedisTask.begin call).exchange replies).2 = .ok task → task.result = some (.status true) →
    AnsweredTrue replies
  latch : ∀ config, call = .initialized config → ∀ task success,
    ((RedisTask.begin call).exchange replies).2 = .ok task → task.result = some (.status success) →
    ∀ (β : Type) (store : PersistentStoreContext β), store.askInitialized.1 = success →
      store.cache.initialized = false →
      store.queryAndUpdateInitialization.2.cache.initialized = true → AnsweredTrue replies

def HandledReplies (call : RedisCall) (replies : List (Option Reply)) : Prop :=
  match call with
  | .all _ _ => replies.head? ≠ some none
  | .initialized _ => ∀ reply, replies.head? = some reply → ∃ value, reply = some (.integer value)
  | _ => True

theorem reportsFailures_of_checks (call : RedisCall) (h : (RedisTask.begin call).ChecksReplies)
    (replies : List (Option Reply)) : ReportsFailures call replies := by
  refine ⟨h.exchange replies, ?_, ?_⟩
  · rintro config rfl
    cases h
  · rintro config rfl
    cases h

theorem exchange_listing (config : RedisConfig) (kind : String) (reply : Option Reply)
    (replies : List (Option Reply)) :
    (RedisTask.begin (.all config kind)).exchange (reply :: replies) =
      ([reply], do
        let items ← RedisTask.receiveAll reply
        pure (.returned (.items items))) := by
  simp only [RedisTask.begin, RedisTask.exchange, RedisTask.command, RedisTask.receive]
  cases RedisTask.receiveAll reply with
  | error fault => rfl
  | ok items =>
      simp only [Checked.ok_bind]
      have hreturned := RedisTask.exchange_of_result
        (rfl : (RedisTask.returned (.items items)).result = _) replies
      simp [pure, Except.pure, hreturned]

theorem exchange_asking (config : RedisConfig) (reply : Option Reply)
    (replies : List (Option Reply)) :
    (RedisTask.begin (.initialized config)).exchange (reply :: replies) =
      ([reply], .ok (.returned (.status (RedisTask.receiveInitialized reply)))) := by
  have hreturned := RedisTask.exchange_of_result
    (rfl : (RedisTask.returned (.status (RedisTask.receiveInitialized reply))).result = _) replies
  simp [RedisTask.begin, RedisTask.exchange, RedisTask.command, RedisTask.receive, hreturned]

theorem reportsFailures_all_iff (config : RedisConfig) (kind : String)
    (replies : List (Option Reply)) :
    ReportsFailures (.all config kind) replies ↔ replies.head? ≠ some none := by
  cases replies with
  | nil =>
      refine iff_of_true ⟨?_, nofun, nofun⟩ (by simp)
      rintro ⟨reply, hreply, _⟩
      cases hreply
  | cons reply replies =>
      constructor
      · rintro ⟨hfailed, _, _⟩ hnone
        cases hnone
        rw [exchange_listing] at hfailed
        obtain ⟨task, result, hok, _⟩ := hfailed ⟨none, by simp, rfl⟩
        cases hok
      · intro hsome
        refine ⟨?_, nofun, nofun⟩
        rw [exchange_listing]
        rintro ⟨failing, hmem, hfailing⟩
        cases List.mem_singleton.mp hmem
        cases reply with
        | none => exact absurd rfl hsome
        | some reply =>
            cases reply with
            | error text => exact ⟨_, _, rfl, rfl, rfl⟩
            | _ => cases hfailing

theorem reportsFailures_initialized_iff (config : RedisConfig) (replies : List (Option Reply)) :
    ReportsFailures (.initialized config) replies ↔
      ∀ reply, replies.head? = some reply → ∃ value, reply = some (.integer value) := by
  cases replies with
  | nil =>
      refine iff_of_true ⟨?_, ?_, ?_⟩ (by simp)
      · rintro ⟨reply, hreply, _⟩
        cases hreply
      · rintro _ _ task htask hresult
        cases htask
        cases hresult
      · rintro _ _ task success htask hresult
        cases htask
        cases hresult
  | cons reply replies =>
      constructor
      · rintro ⟨_, htrue, _⟩ _ ⟨⟩
        by_contra hother
        have hanswer := receiveInitialized_of_other fun value heq => hother ⟨value, heq⟩
        obtain ⟨value, _, hhead⟩ := htrue config rfl _ (by rw [exchange_asking]) (by rw [hanswer]; rfl)
        exact hother ⟨value, Option.some.inj hhead⟩
      · intro hinteger
        obtain ⟨value, rfl⟩ := hinteger reply rfl
        have hanswered : RedisTask.receiveInitialized (some (.integer value)) = true →
            AnsweredTrue (some (.integer value) :: replies) := by
          intro htrue
          rw [receiveInitialized_of_integer] at htrue
          exact ⟨value, of_decide_eq_true htrue, rfl⟩
        refine ⟨?_, ?_, ?_⟩
        · rw [exchange_asking]
          rintro ⟨failing, hmem, hfailing⟩
          cases List.mem_singleton.mp hmem
          cases hfailing
        · rintro _ _ task htask hresult
          rw [exchange_asking] at htask
          cases htask
          exact hanswered (by simpa [RedisTask.result] using hresult)
        · rintro _ _ task success htask hresult β store hasked hbefore hlatched
          rw [exchange_asking] at htask
          cases htask
          have hsuccess := latched_of_query hbefore hlatched
          rw [hasked] at hsuccess
          subst hsuccess
          exact hanswered (by simpa [RedisTask.result] using hresult)

theorem redis_failures_reported_iff (call : RedisCall) (replies : List (Option Reply)) :
    ReportsFailures call replies ↔ HandledReplies call replies := by
  cases call with
  | init config collections =>
      exact iff_of_true (reportsFailures_of_checks (.init config collections) trivial replies) trivial
  | get config kind key =>
      exact iff_of_true (reportsFailures_of_checks (.get config kind key) trivial replies) trivial
  | upsert call =>
      exact iff_of_true (reportsFailures_of_checks (.upsert call) trivial replies) trivial
  | all config kind => exact reportsFailures_all_iff config kind replies
  | initialized config => exact reportsFailures_initialized_iff config replies

end Exchanges

theorem lost_exists_reported_initialized : ¬ ∀ [Parsing] (call : RedisCall)
    (replies : List (Option Reply)), ReportsFailures call replies := by
  intro hclaim
  let _ := literalParsing []
  obtain ⟨hfailed, _, _⟩ := hclaim (.initialized ⟨none⟩) [none]
  obtain ⟨task, result, htask, hresult, hsuccess⟩ := hfailed ⟨none, List.mem_singleton.mpr rfl, rfl⟩
  cases htask
  cases hresult
  cases hsuccess

end ServerSdk
