import ServerSdk.Events.Indexing
import ServerSdk.Program.Steps

namespace ServerSdk

open Program

inductive UserCall where
  | evaluation (result : EvaluationResult)
  | track (user : User) (args : Measured)
  | identify (user : User)
  | payload

structure ProcessorRun (σ : Type) where
  processor : EventProcessor
  world : σ
  ledger : KeyLedger

variable {σ : Type}

def KeyLedger.atCall (client : Client σ) (s : σ) (ledger : KeyLedger) : KeyLedger :=
  ledger.tick client.world client.config.userKeysFlushInterval (client.world.unixMilliseconds s).2

namespace UserCall

def indexKey : UserCall → Option String
  | .evaluation result => some result.user.key
  | .track user _ => some user.key
  | .identify _ | .payload => none

def ledgerAfter (client : Client σ) (counts : Bool → Bool) (returned : Bool) (s : σ)
    (ledger : KeyLedger) : UserCall → KeyLedger
  | .evaluation result =>
      if counts returned then (ledger.atCall client s).use result.user.key else ledger
  | .track user _ => if counts returned then (ledger.atCall client s).use user.key else ledger
  | .identify user => if user.key = "" then ledger else ledger.use user.key
  | .payload => ledger

def Built (client : Client σ) : UserCall → Prop
  | .evaluation result =>
      ∀ event ∈ result.subEvents.getD [], SubEventBuilt client.config result.user event
  | .track _ _ | .identify _ | .payload => True

variable [Externals]

def run (client : Client σ) : UserCall → EventProcessor → Run σ (Bool × EventProcessor)
  | .evaluation result, processor => processEvaluation client result processor
  | .track user args, processor => ServerSdk.track client user args processor
  | .identify user, processor => ServerSdk.identify client user processor
  | .payload, processor => do
      let payload ← createEventPayloadAndResetState client.world processor
      pure (payload.status, payload.processor)

end UserCall

namespace ProcessorRun

def begin (config : Config) (now : Rat) (start : σ) : ProcessorRun σ :=
  ⟨EventProcessor.create config now, start, ⟨[], now⟩⟩

def elapsed (client : Client σ) (run : ProcessorRun σ) : Rat :=
  (client.world.monotonicMilliseconds (client.world.unixMilliseconds run.world).2).1 -
    run.processor.lastUserKeyFlush

def resetTime (client : Client σ) (run : ProcessorRun σ) : Rat :=
  (client.world.monotonicMilliseconds
    (client.world.monotonicMilliseconds (client.world.unixMilliseconds run.world).2).2).1

variable [Externals]

def perform (client : Client σ) (counts : Bool → Bool) (run : ProcessorRun σ) (call : UserCall) :
    Except Halt (ProcessorRun σ) :=
  match call.run client run.processor run.world with
  | .ok ((returned, processor), world) =>
      .ok ⟨processor, world, call.ledgerAfter client counts returned run.world run.ledger⟩
  | .error halt => .error halt

def Unfilled (client : Client σ) (run : ProcessorRun σ) (call : UserCall) : Prop :=
  call.Built client ∧ ∀ returned world, call.run client run.processor run.world =
    .ok (returned, world) → returned.2.events.length < client.config.eventsCapacity

theorem perform_eq_ok {client : Client σ} {counts : Bool → Bool} {run next : ProcessorRun σ}
    {call : UserCall} (h : run.perform client counts call = .ok next) :
    ∃ returned processor world,
      call.run client run.processor run.world = .ok ((returned, processor), world) ∧
      next = ⟨processor, world, call.ledgerAfter client counts returned run.world run.ledger⟩ := by
  rw [perform] at h
  split at h
  · rename_i hrun
    cases h
    exact ⟨_, _, _, hrun, rfl⟩
  · cases h

end ProcessorRun

structure Deduplicated (client : Client σ) (run : ProcessorRun σ) (key : String)
    (next : EventProcessor) : Prop where
  follows : Follows client.config.userKeysCapacity ((run.ledger.atCall client run.world).use key) next
  indexed : IndexedOnce client.config.userKeysCapacity (run.ledger.atCall client run.world) key
    run.processor next

structure TimedClearing (client : Client σ) (run : ProcessorRun σ) (key : String)
    (next : EventProcessor) : Prop where
  cleared : run.elapsed client > client.config.userKeysFlushInterval →
    next.userKeys.list = [key] ∧ next.lastUserKeyFlush = run.resetTime client
  kept : ¬ run.elapsed client > client.config.userKeysFlushInterval →
    next.userKeys.list =
        (key :: run.processor.userKeys.list.erase key).take client.config.userKeysCapacity ∧
      next.lastUserKeyFlush = run.processor.lastUserKeyFlush

theorem Deduplicated.timedClearing {client : Client σ} (hcapacity : 0 < client.config.userKeysCapacity)
    {run : ProcessorRun σ}
    (h : Follows client.config.userKeysCapacity run.ledger run.processor) {key : String}
    {next : EventProcessor} (hnext : Deduplicated client run key next) :
    TimedClearing client run key next := by
  have hlist := hnext.follows.list
  have hcleared := hnext.follows.clearedAt
  simp only [KeyLedger.atCall, KeyLedger.tick, KeyLedger.use, recent_cons, ← h.clearedAt]
    at hlist hcleared
  constructor
  · intro helapsed
    rw [ProcessorRun.elapsed] at helapsed
    rw [if_pos helapsed] at hlist hcleared
    refine ⟨hlist.trans ?_, hcleared⟩
    rw [recent, List.eraseDups_nil, List.take_nil, List.erase_nil, List.take_of_length_le hcapacity]
  · intro helapsed
    rw [ProcessorRun.elapsed] at helapsed
    rw [if_neg helapsed] at hlist hcleared
    exact ⟨h.list ▸ hlist, hcleared.trans h.clearedAt.symm⟩

open ProcessorRun

section Calls

variable [Externals] {client : Client σ}

theorem evaluation_deduplicated (hinline : client.config.inlineUsersInEvents = false)
    (hcapacity : 0 < client.config.userKeysCapacity) {run : ProcessorRun σ}
    (h : Follows client.config.userKeysCapacity run.ledger run.processor) {result : EvaluationResult}
    (hunfilled : run.Unfilled client (.evaluation result)) {returned : Bool} {next : EventProcessor}
    {world : σ}
    (hrun : processEvaluation client result run.processor run.world = .ok ((returned, next), world)) :
    (returned = false ∧ next = run.processor) ∨
      (returned = true ∧ Deduplicated client run result.user.key next) := by
  rcases processEvaluation_cases hrun with hnone | ⟨hreturned, event, hnew, hrecord⟩
  · exact .inl hnone
  · obtain ⟨hfollows, hindexed⟩ := recordEvaluation_indexed hinline hcapacity h hunfilled.1 hnew _ _ _
      hrecord (hunfilled.2 _ _ hrun)
    exact .inr ⟨hreturned, hfollows, hindexed⟩

theorem track_deduplicated (hinline : client.config.inlineUsersInEvents = false)
    (hcapacity : 0 < client.config.userKeysCapacity) {run : ProcessorRun σ}
    (h : Follows client.config.userKeysCapacity run.ledger run.processor) {user : User}
    {args : Measured} (hunfilled : run.Unfilled client (.track user args)) {returned : Bool}
    {next : EventProcessor} {world : σ}
    (hrun : track client user args run.processor run.world = .ok ((returned, next), world)) :
    returned = true ∧ Deduplicated client run user.key next := by
  obtain ⟨hreturned, htrack⟩ := track_indexed hinline hcapacity h user args run.world _ _ hrun
  obtain ⟨hfollows, hindexed⟩ := htrack (hunfilled.2 _ _ hrun)
  exact ⟨hreturned, hfollows, hindexed⟩

theorem call_deduplicated (hinline : client.config.inlineUsersInEvents = false)
    (hcapacity : 0 < client.config.userKeysCapacity) {run : ProcessorRun σ}
    (h : Follows client.config.userKeysCapacity run.ledger run.processor) {call : UserCall}
    (hunfilled : run.Unfilled client call) {key : String} (hkey : call.indexKey = some key)
    {next : EventProcessor} {world : σ}
    (hrun : call.run client run.processor run.world = .ok ((true, next), world)) :
    Deduplicated client run key next := by
  cases call with
  | evaluation result =>
      cases hkey
      rcases evaluation_deduplicated hinline hcapacity h hunfilled hrun with ⟨hfalse, -⟩ | ⟨-, hnext⟩
      · cases hfalse
      · exact hnext
  | track user args =>
      cases hkey
      exact (track_deduplicated hinline hcapacity h hunfilled hrun).2
  | identify _ | payload => cases hkey

theorem perform_follows (hinline : client.config.inlineUsersInEvents = false)
    (hcapacity : 0 < client.config.userKeysCapacity) {run next : ProcessorRun σ}
    {call : UserCall} (h : Follows client.config.userKeysCapacity run.ledger run.processor)
    (hunfilled : run.Unfilled client call) (hnext : run.perform client id call = .ok next) :
    Follows client.config.userKeysCapacity next.ledger next.processor := by
  obtain ⟨returned, processor, world, hrun, rfl⟩ := perform_eq_ok hnext
  cases call with
  | evaluation result =>
      rcases evaluation_deduplicated hinline hcapacity h hunfilled hrun with
        ⟨rfl, rfl⟩ | ⟨rfl, hdeduplicated⟩
      · exact h
      · exact hdeduplicated.follows
  | track user args =>
      obtain ⟨rfl, hdeduplicated⟩ := track_deduplicated hinline hcapacity h hunfilled hrun
      exact hdeduplicated.follows
  | identify user => exact (identify_follows hcapacity h user run.world _ _ hrun).1
  | payload =>
      obtain ⟨payload, t, hpayload, hpure⟩ := Run.bind_eq_ok.mp hrun
      cases hpure
      exact createEventPayload_follows h client.world run.world payload _ hpayload

theorem index_events_deduplicated (client : Client σ) (now : Rat) (start : σ)
    (hinline : client.config.inlineUsersInEvents = false)
    (hcapacity : 0 < client.config.userKeysCapacity) {run : ProcessorRun σ}
    (h : Steps (perform client id) (Unfilled client) (begin client.config now start) run) :
    Follows client.config.userKeysCapacity run.ledger run.processor ∧
      ∀ call key next world, run.Unfilled client call → call.indexKey = some key →
        call.run client run.processor run.world = .ok ((true, next), world) →
          Deduplicated client run key next ∧ TimedClearing client run key next := by
  have hfollows : Follows client.config.userKeysCapacity run.ledger run.processor :=
    @Steps.invariant _ _ _ _ _ (fun run : ProcessorRun σ =>
      Follows client.config.userKeysCapacity run.ledger run.processor) _ _
      (follows_create client.config now) (perform_follows hinline hcapacity) h
  refine ⟨hfollows, fun call key next world hunfilled hkey hrun => ?_⟩
  have hdeduplicated := call_deduplicated hinline hcapacity hfollows hunfilled hkey hrun
  exact ⟨hdeduplicated, hdeduplicated.timedClearing hcapacity hfollows⟩

theorem unfilled_of_run {run : ProcessorRun σ} {call : UserCall} (hbuilt : call.Built client)
    {returned : Bool × EventProcessor} {world : σ}
    (hrun : call.run client run.processor run.world = .ok (returned, world))
    (hroom : returned.2.events.length < client.config.eventsCapacity) : run.Unfilled client call := by
  refine ⟨hbuilt, fun other world' hother => ?_⟩
  rw [hrun] at hother
  cases hother
  exact hroom

theorem Succeeds.perform {counts : Bool → Bool} {run : ProcessorRun σ} {call : UserCall}
    {P : (Bool × EventProcessor) × σ → Prop}
    (h : Succeeds P (call.run client run.processor run.world)) :
    ∃ returned world, call.run client run.processor run.world = .ok (returned, world) ∧
      P (returned, world) ∧ run.perform client counts call =
        .ok ⟨returned.2, world, call.ledgerAfter client counts returned.1 run.world run.ledger⟩ := by
  obtain ⟨⟨returned, world⟩, hrun, hp⟩ := exists_of_succeeds h
  refine ⟨returned, world, hrun, hp, ?_⟩
  rw [ProcessorRun.perform, hrun]

end Calls

def visitedResult (trackEvents : Json) : EvaluationResult where
  __ := sampleResult
  subEvents := none
  flag := some (.object [("version", .number 7), ("trackEvents", trackEvents)])

theorem visited_built (trackEvents : Json) :
    UserCall.Built sampleClient (.evaluation (visitedResult trackEvents)) :=
  fun _ hevent => absurd hevent List.not_mem_nil

abbrev visit (trackEvents : Json) (processor : EventProcessor) :
    Run Unit (Bool × EventProcessor) :=
  @UserCall.run Unit sampleExternals sampleClient (.evaluation (visitedResult trackEvents)) processor

theorem repeated_user_deduplicated : ∃ (run : ProcessorRun Unit) (next : EventProcessor),
    (indexEvents run.processor.events).length = 1 ∧ (indexEvents next.events).length = 1 ∧
      Deduplicated sampleClient run "u" next ∧ TimedClearing sampleClient run "u" next := by
  have hruns : Succeeds (fun first => first.1.2.events.length < sampleClient.config.eventsCapacity ∧
      (indexEvents first.1.2.events).length = 1 ∧
      Succeeds (fun second => second.1.1 = true ∧
        second.1.2.events.length < sampleClient.config.eventsCapacity ∧
        (indexEvents second.1.2.events).length = 1) (visit (.bool false) first.1.2 first.2))
      (visit (.bool false) (EventProcessor.create configNew 0) ()) := by
    decide +kernel
  obtain ⟨first, world, hfirst, ⟨hroom, hone, hsecond⟩, hperform⟩ :=
    @Succeeds.perform Unit sampleExternals sampleClient id (begin sampleClient.config 0 ())
      (.evaluation (visitedResult (.bool false))) _ hruns
  obtain ⟨⟨⟨returned, next⟩, world'⟩, hrun, htrue, hroom', hone'⟩ := exists_of_succeeds hsecond
  cases htrue
  have hsteps : Steps (@perform Unit sampleExternals sampleClient id)
      (@Unfilled Unit sampleExternals sampleClient) (begin sampleClient.config 0 ())
      ⟨first.2, world, _⟩ :=
    .single ⟨_, @unfilled_of_run Unit sampleExternals sampleClient _ _ (visited_built _) _ _ hfirst
      hroom, hperform⟩
  obtain ⟨-, hcalls⟩ :=
    @index_events_deduplicated Unit sampleExternals sampleClient 0 () rfl (by decide) _ hsteps
  exact ⟨_, next, hone, hone', hcalls _ "u" next world'
    (@unfilled_of_run Unit sampleExternals sampleClient _ _ (visited_built _) _ _ hrun hroom') rfl
    hrun⟩

theorem failed_evaluation_is_no_use : ∃ (run : ProcessorRun Unit) (next : EventProcessor),
    Steps (@perform Unit sampleExternals sampleClient fun _ => true)
      (@Unfilled Unit sampleExternals sampleClient) (begin sampleClient.config 0 ()) run ∧
    visit (.bool false) run.processor run.world = .ok ((true, next), ()) ∧
    next.events.length < sampleClient.config.eventsCapacity ∧
    "u" ∈ recent sampleClient.config.userKeysCapacity
      (run.ledger.atCall sampleClient run.world).uses ∧
    (indexEvents next.events).length = (indexEvents run.processor.events).length + 1 := by
  have hruns : Succeeds (fun first => first.1.1 = false ∧
      first.1.2.events.length < sampleClient.config.eventsCapacity ∧
      Succeeds (fun second => second.1.1 = true ∧
        second.1.2.events.length < sampleClient.config.eventsCapacity ∧
        (indexEvents second.1.2.events).length = (indexEvents first.1.2.events).length + 1)
        (visit (.bool false) first.1.2 first.2))
      (visit (.number 1) (EventProcessor.create configNew 0) ()) := by
    decide +kernel
  obtain ⟨⟨returned, processor⟩, world, hfirst, ⟨hfalse, hroom, hsecond⟩, hperform⟩ :=
    @Succeeds.perform Unit sampleExternals sampleClient (fun _ => true)
      (begin sampleClient.config 0 ()) (.evaluation (visitedResult (.number 1))) _ hruns
  obtain ⟨⟨⟨returned', next⟩, world'⟩, hrun, htrue, hroom', hone⟩ := exists_of_succeeds hsecond
  cases htrue
  cases hfalse
  have hused : "u" ∈ recent sampleClient.config.userKeysCapacity
      ((((begin sampleClient.config 0 ()).ledger.atCall sampleClient ()).use "u").atCall sampleClient
        ()).uses := by
    decide +kernel
  refine ⟨_, next, .single ⟨_, @unfilled_of_run Unit sampleExternals sampleClient _ _
    (visited_built _) _ _ hfirst hroom, hperform⟩, hrun, hroom', hused, hone⟩

end ServerSdk
