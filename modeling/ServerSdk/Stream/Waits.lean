import ServerSdk.Stream.Backoff

namespace ServerSdk

open Program

def cappedBackoff (attempts : ℕ) : ℕ := min (500 * 2 ^ attempts) 30000

namespace StreamRun

def Opens (config : StreamConfig) (run : StreamRun) (call : PollCall) : Prop :=
  (run.context.poll config call).1 = true

instance (config : StreamConfig) (run : StreamRun) : DecidablePred (run.Opens config) :=
  fun _ => inferInstanceAs (Decidable (_ = true))

def Jittered (config : StreamConfig) : StreamCall → Prop
  | .poll call => ∀ random ∈ call.random, random ≤ config.randMax
  | .read _ _ => True
  | .done _ _ => True

instance (config : StreamConfig) : DecidablePred (Jittered config)
  | .poll call => inferInstanceAs (Decidable (∀ random ∈ call.random, random ≤ config.randMax))
  | .read _ _ => inferInstanceAs (Decidable True)
  | .done _ _ => inferInstanceAs (Decidable True)

def Scheduled (config : StreamConfig) (run : StreamRun) (call : StreamCall) : Prop :=
  run.InOrder call ∧ Jittered config call

instance (config : StreamConfig) (run : StreamRun) : DecidablePred (run.Scheduled config) :=
  fun call => inferInstanceAs (Decidable (run.InOrder call ∧ Jittered config call))

def Unopened (config : StreamConfig) (run : StreamRun) (call : StreamCall) : Prop :=
  run.Scheduled config call ∧ ∀ poll, call = .poll poll → ¬ run.Opens config poll

structure StartsWait (config : StreamConfig) (run : StreamRun) (start : PollCall) : Prop where
  ready : run.context.waitUntil = 0
  waits : (run.context.poll config start).2.waitUntil ≠ 0

def WithinWait (config : StreamConfig) (dispatch : SseDispatch) (run : StreamRun) (start : PollCall)
    (waiting : StreamRun) : Prop :=
  ∃ started, run.step config dispatch (.poll start) = .ok started ∧
    Steps (StreamRun.step config dispatch) (Unopened config) started waiting

structure WaitKept (config : StreamConfig) (dispatch : SseDispatch) (run : StreamRun)
    (start : PollCall) : Prop where
  first : run.context.attempts = 1 → ∀ waiting, WithinWait config dispatch run start waiting →
    ∀ call, waiting.Scheduled config (.poll call) → waiting.Opens config call →
      start.now + 1000 ≤ call.now
  later : 2 ≤ run.context.attempts → ∀ waiting, WithinWait config dispatch run start waiting →
    ∀ call, waiting.Scheduled config (.poll call) → waiting.Opens config call →
      start.now + (cappedBackoff run.context.attempts : Rat) / 2 ≤ call.now

structure Disciplined (config : StreamConfig) (dispatch : SseDispatch) (run : StreamRun) : Prop where
  counted : ∀ responseCode now, responseCode ≠ 200 →
    (run.context.done responseCode now).attempts = (run.context.attempts + 1) % 2 ^ 32
  timedOut : ∀ call, run.context.active = true → (run.context.poll config call).2.active = false →
    (run.context.poll config call).2.attempts = (run.context.attempts + 1) % 2 ^ 32
  exclusive : ∀ call, run.context.active = true → ¬ run.Opens config call
  waiting : ∀ call : PollCall, call.now < run.context.waitUntil → ¬ run.Opens config call
  overdue : ∀ start, run.Scheduled config (.poll start) → run.StartsWait config start →
    2 ≤ run.context.attempts → ∀ waiting, WithinWait config dispatch run start waiting →
      ∀ call, waiting.Scheduled config (.poll call) →
        start.now + cappedBackoff run.context.attempts ≤ call.now → waiting.Opens config call
  permanent : ∀ responseCode now failed, unrecoverable responseCode = true →
    run.step config dispatch (.done responseCode now) = .ok failed →
      ∀ later, Steps (StreamRun.step config dispatch) (Scheduled config) failed later →
        ∀ call, ¬ later.Opens config call

end StreamRun

theorem cappedBackoff_cast (attempts : ℕ) : (cappedBackoff attempts : Rat) =
    if (1000 * 2 ^ attempts / 2 : Rat) > 30 * 1000 then 30 * 1000 else 1000 * 2 ^ attempts / 2 := by
  rw [cappedBackoff]
  push_cast
  split_ifs with hcap
  · rw [min_eq_right (by linarith)]
    norm_num
  · rw [min_eq_left (by linarith)]
    ring

theorem cappedBackoff_even {attempts : ℕ} (h : attempts ≠ 0) :
    ∃ half, cappedBackoff attempts = 2 * half := by
  obtain ⟨n, rfl⟩ := Nat.exists_eq_succ_of_ne_zero h
  have hpow : 500 * 2 ^ (n + 1) = 2 * (500 * 2 ^ n) := by ring
  rw [cappedBackoff, Nat.succ_eq_add_one, hpow]
  exact ⟨min (500 * 2 ^ n) 15000, by omega⟩

theorem backoffDelay_bounds {randMax attempts random : ℕ} (h : random ≤ randMax) :
    (cappedBackoff attempts : Rat) / 2 ≤ backoffDelay randMax attempts random ∧
      backoffDelay randMax attempts random ≤ cappedBackoff attempts := by
  have hhalf : (0 : Rat) ≤ cappedBackoff attempts / 2 := by positivity
  have hrandom : (random : Rat) ≤ randMax := Nat.cast_le.mpr h
  have hshare : (random : Rat) / randMax ≤ 1 := div_le_one_of_le₀ hrandom (Nat.cast_nonneg _)
  have hpositive : 0 ≤ (random : Rat) / randMax := by positivity
  have hdelay : backoffDelay randMax attempts random =
      cappedBackoff attempts / 2 + random / randMax * (cappedBackoff attempts / 2) := by
    simp only [backoffDelay, normalize, cappedBackoff_cast]
    ring
  rw [hdelay]
  constructor
  · have hjitter := mul_nonneg hpositive hhalf
    linarith
  · have hjitter := mul_le_mul_of_nonneg_right hshare hhalf
    linarith

namespace StreamContext

variable {config : StreamConfig} {context : StreamContext} {call : PollCall}

theorem attempts_done_of_ne {responseCode : Int} (h : responseCode ≠ 200) (now : ℕ) :
    (context.done responseCode now).attempts = (context.attempts + 1) % 2 ^ 32 := by
  rw [done, if_neg h]
  split_ifs <;> rfl

theorem permanentFailure_done (h : context.permanentFailure = true) (responseCode : Int) (now : ℕ) :
    (context.done responseCode now).permanentFailure = true := by
  rw [done]
  split_ifs <;> first | exact h | rfl

theorem permanentFailure_done_unrecoverable {responseCode : Int}
    (h : unrecoverable responseCode = true) (now : ℕ) :
    (context.done responseCode now).permanentFailure = true := by
  have hcode : responseCode ≠ 200 := by
    rintro rfl
    cases h
  rw [done, if_neg hcode, if_pos h]
  rfl

theorem poll_failed (h : context.permanentFailure = true) :
    context.poll config call = (false, context) := by
  rw [poll, if_pos (.inr (.inr h))]

def Enabled (config : StreamConfig) (context : StreamContext) : Prop :=
  ¬ (config.dataSource ∨ config.stream = false ∨ context.permanentFailure)

theorem enabled_of_poll (h : context.poll config call ≠ (false, context)) :
    context.Enabled config := by
  intro hdisabled
  rw [poll, if_pos hdisabled] at h
  exact h rfl

theorem poll_during_wait (henabled : context.Enabled config) (hactive : context.active = false)
    (hattempts : context.attempts ≠ 0) (hwait : context.waitUntil ≠ 0) :
    context.poll config call = if call.now ≥ context.waitUntil then
      { context with waitUntil := 0, startedOn := toUnsignedLong call.now }.connect call
    else (false, context) := by
  rw [poll, if_neg henabled, hactive, if_neg Bool.false_ne_true, if_pos hattempts, if_pos hwait]

structure Started (config : StreamConfig) (context : StreamContext) (call : PollCall)
    (delay : Rat) : Prop where
  enabled : context.Enabled config
  inactive : context.active = false
  counted : context.attempts ≠ 0
  drawn : context.nextDelay config call.random = some delay
  polled : context.poll config call =
    (false, { context with waitUntil := toUnsignedLong (call.now + delay) })
  pending : toUnsignedLong (call.now + delay) ≠ 0

theorem Started.inRange {delay : Rat} (h : Started config context call delay) :
    call.now + delay < 2 ^ 64 := by
  by_contra hlate
  exact h.pending (toUnsignedLong_of_le (not_lt.mp hlate))

theorem started (hready : context.waitUntil = 0)
    (hwaits : (context.poll config call).2.waitUntil ≠ 0) : ∃ delay, Started config context call delay := by
  have henabled : context.Enabled config := by
    have hchanged : context.poll config call ≠ (false, context) := by
      intro hidle
      rw [hidle] at hwaits
      exact hwaits hready
    exact enabled_of_poll hchanged
  have hpolled := context.polled config call
  generalize hresult : context.poll config call = result at hpolled hwaits
  cases hpolled with
  | idle => exact absurd hready hwaits
  | timedOut hactive => exact absurd hready (by simpa using hwaits)
  | @waits delay hactive hattempts hwait hdelay =>
      exact ⟨delay, henabled, hactive, hattempts, hdelay, hresult, hwaits⟩
  | waited hactive hattempts hwait => exact absurd hready hwait
  | opened hactive hattempts =>
      rw [connect] at hwaits
      split_ifs at hwaits <;> exact absurd hready hwaits

end StreamContext

namespace StreamRun

variable {config : StreamConfig} {dispatch : SseDispatch} {run next : StreamRun}

structure Pending (config : StreamConfig) (attempts waitUntil : ℕ) (run : StreamRun) : Prop where
  enabled : run.context.Enabled config
  inactive : run.context.active = false
  counted : run.context.attempts = attempts
  waiting : run.context.waitUntil = waitUntil

theorem Pending.opens_iff {attempts waitUntil : ℕ} (h : run.Pending config attempts waitUntil)
    (hattempts : attempts ≠ 0) (hwait : waitUntil ≠ 0) {call : PollCall}
    (hprepared : call.prepared = true) : run.Opens config call ↔ waitUntil ≤ call.now := by
  rw [Opens, StreamContext.poll_during_wait h.enabled h.inactive (h.counted ▸ hattempts)
    (h.waiting ▸ hwait), h.waiting]
  split_ifs with hnow
  · rw [StreamContext.connect_prepared hprepared]
    exact ⟨fun _ => hnow, fun _ => rfl⟩
  · exact ⟨nofun, fun hle => absurd hle hnow⟩

theorem Pending.step {attempts waitUntil : ℕ} (h : run.Pending config attempts waitUntil)
    (hattempts : attempts ≠ 0) (hwait : waitUntil ≠ 0) {call : StreamCall}
    (hunopened : run.Unopened config call) (hstep : run.step config dispatch call = .ok next) :
    next.Pending config attempts waitUntil := by
  obtain ⟨⟨horder, _⟩, hclosed⟩ := hunopened
  cases call with
  | poll call =>
      have hnow : ¬ waitUntil ≤ call.now := by
        rw [← h.opens_iff hattempts hwait horder.2.2]
        exact hclosed call rfl
      rw [StreamRun.step, StreamContext.poll_during_wait h.enabled h.inactive (h.counted ▸ hattempts)
        (h.waiting ▸ hwait), if_neg (h.waiting ▸ hnow)] at hstep
      cases hstep
      exact ⟨h.enabled, h.inactive, h.counted, h.waiting⟩
  | read contents now =>
      cases hstep
      exact ⟨h.enabled, h.inactive, h.counted, h.waiting⟩
  | done responseCode now => cases horder.2.symm.trans h.inactive

theorem StartsWait.pending {start : PollCall} (h : run.StartsWait config start)
    (dispatch : SseDispatch) : ∃ delay, StreamContext.Started config run.context start delay ∧
      ∀ waiting, WithinWait config dispatch run start waiting →
        waiting.Pending config run.context.attempts (toUnsignedLong (start.now + delay)) := by
  obtain ⟨delay, hstarted⟩ := StreamContext.started h.ready h.waits
  refine ⟨delay, hstarted, ?_⟩
  rintro waiting ⟨started, hstep, hsteps⟩
  refine hsteps.invariant (P := Pending config _ _) ?_ ?_
  · rw [StreamRun.step, hstarted.polled] at hstep
    cases hstep
    exact ⟨hstarted.enabled, hstarted.inactive, rfl, rfl⟩
  · intro run next call hpending hunopened hstep
    exact hpending.step hstarted.counted hstarted.pending hunopened hstep

theorem later_delay_bounds {start : PollCall} {delay : Rat}
    (hdrawn : run.context.nextDelay config start.random = some delay)
    (hjittered : Jittered config (.poll start)) (hlater : 2 ≤ run.context.attempts) :
    (cappedBackoff run.context.attempts : Rat) / 2 ≤ delay ∧
      delay ≤ cappedBackoff run.context.attempts := by
  rw [StreamContext.nextDelay, if_neg (by omega)] at hdrawn
  obtain ⟨random, hrandom, rfl⟩ := Option.map_eq_some_iff.mp hdrawn
  exact backoffDelay_bounds (hjittered random hrandom)

theorem StartsWait.kept {start : PollCall} (h : run.StartsWait config start)
    (hjittered : Jittered config (.poll start)) : run.WaitKept config dispatch start := by
  obtain ⟨delay, hstarted, hpending⟩ := h.pending dispatch
  have hend : start.now + delay < 2 ^ 64 := hstarted.inRange
  have hopened : ∀ waiting, WithinWait config dispatch run start waiting → ∀ call,
      waiting.Scheduled config (.poll call) → waiting.Opens config call →
        toUnsignedLong (start.now + delay) ≤ call.now := by
    intro waiting hwithin call hscheduled hopens
    exact ((hpending waiting hwithin).opens_iff hstarted.counted hstarted.pending
      hscheduled.1.2.2).mp hopens
  constructor
  · intro hfirst waiting hwithin call hscheduled hopens
    have hdelay : delay = 1000 := by
      have hdrawn := hstarted.drawn
      rw [StreamContext.nextDelay, if_pos hfirst] at hdrawn
      exact (Option.some.inj hdrawn).symm
    refine le_trans (le_toUnsignedLong ?_ hend) (hopened waiting hwithin call hscheduled hopens)
    rw [hdelay]
    push_cast
    exact le_rfl
  · intro hlater waiting hwithin call hscheduled hopens
    obtain ⟨half, hhalf⟩ := cappedBackoff_even hstarted.counted
    have hbound := (later_delay_bounds hstarted.drawn hjittered hlater).1
    rw [hhalf] at hbound ⊢
    push_cast at hbound ⊢
    have hstored : start.now + half ≤ toUnsignedLong (start.now + delay) := by
      refine le_toUnsignedLong ?_ hend
      push_cast
      linarith
    have hnow : ((start.now + half : ℕ) : Rat) ≤ call.now :=
      Nat.cast_le.mpr (hstored.trans (hopened waiting hwithin call hscheduled hopens))
    push_cast at hnow
    linarith

theorem StartsWait.overdue {start : PollCall} (h : run.StartsWait config start)
    (hjittered : Jittered config (.poll start)) (hlater : 2 ≤ run.context.attempts)
    {waiting : StreamRun} (hwithin : WithinWait config dispatch run start waiting) {call : PollCall}
    (hprepared : call.prepared = true)
    (hnow : start.now + cappedBackoff run.context.attempts ≤ call.now) :
    waiting.Opens config call := by
  obtain ⟨delay, hstarted, hpending⟩ := h.pending dispatch
  obtain ⟨hlow, hhigh⟩ := later_delay_bounds hstarted.drawn hjittered hlater
  rw [(hpending waiting hwithin).opens_iff hstarted.counted hstarted.pending hprepared]
  have hdelay : 0 ≤ delay := le_trans (by positivity) hlow
  have hstored : (toUnsignedLong (start.now + delay) : Rat) ≤ start.now + delay :=
    toUnsignedLong_le (by positivity)
  have hreached : ((start.now + cappedBackoff run.context.attempts : ℕ) : Rat) ≤ call.now :=
    Nat.cast_le.mpr hnow
  push_cast at hreached
  exact Nat.cast_le (α := Rat).mp (by linarith)

structure Phased (run : StreamRun) : Prop where
  quiet : run.context.active = true → run.context.waitUntil = 0
  fresh : run.context.attempts = 0 → run.context.waitUntil = 0

theorem Phased.done (h : run.Phased) (hactive : run.context.active = true) (responseCode : Int)
    (now : ℕ) : (run.context.done responseCode now).waitUntil = 0 := by
  rw [StreamContext.waitUntil_done, h.quiet hactive]

theorem Phased.step {call : StreamCall} (h : run.Phased) (hscheduled : run.Scheduled config call)
    (hstep : run.step config dispatch call = .ok next) : next.Phased := by
  obtain ⟨horder, _⟩ := hscheduled
  cases call with
  | poll call =>
      have hpolled := run.context.polled config call
      rw [StreamRun.step] at hstep
      generalize run.context.poll config call = result at hpolled hstep
      cases hpolled with
      | idle =>
          cases hstep
          exact ⟨h.quiet, h.fresh⟩
      | timedOut hactive =>
          cases hstep
          exact ⟨fun _ => h.done hactive 0 call.now, fun _ => h.done hactive 0 call.now⟩
      | waits hactive hattempts hwait hdelay =>
          cases hstep
          exact ⟨fun hactive' => absurd (hactive.symm.trans hactive') (by decide),
            fun hfresh => absurd hfresh hattempts⟩
      | waited hactive hattempts hwait hnow =>
          rw [StreamContext.connect_prepared horder.2.2] at hstep
          cases hstep
          exact ⟨fun _ => rfl, fun _ => rfl⟩
      | opened hactive hattempts =>
          rw [StreamContext.connect_prepared horder.2.2] at hstep
          cases hstep
          exact ⟨fun _ => h.fresh hattempts, fun _ => h.fresh hattempts⟩
  | read contents now =>
      cases hstep
      exact ⟨h.quiet, h.fresh⟩
  | done responseCode now =>
      cases hstep
      exact ⟨fun _ => h.done horder.2 responseCode now, fun _ => h.done horder.2 responseCode now⟩

theorem step_permanentFailure {call : StreamCall} (h : run.context.permanentFailure = true)
    (hstep : run.step config dispatch call = .ok next) : next.context.permanentFailure = true := by
  cases call with
  | poll call =>
      rw [StreamRun.step, StreamContext.poll_failed h] at hstep
      cases hstep
      exact h
  | read contents now =>
      cases hstep
      exact h
  | done responseCode now =>
      cases hstep
      exact StreamContext.permanentFailure_done h responseCode now

theorem Opens.due {call : PollCall} (h : run.Opens config call) : run.context.active = false ∧
    (run.context.attempts = 0 ∨ run.context.waitUntil ≤ call.now) := by
  have hpolled := run.context.polled config call
  rw [Opens] at h
  generalize run.context.poll config call = result at hpolled h
  cases hpolled with
  | idle => cases h
  | timedOut => cases h
  | waits => cases h
  | waited hactive _ _ hnow => exact ⟨hactive, .inr hnow⟩
  | opened hactive hattempts => exact ⟨hactive, .inl hattempts⟩

theorem attempts_poll_ended {call : PollCall} (hactive : run.context.active = true)
    (hended : (run.context.poll config call).2.active = false) :
    (run.context.poll config call).2.attempts = (run.context.attempts + 1) % 2 ^ 32 := by
  have hpolled := run.context.polled config call
  generalize run.context.poll config call = result at hpolled hended ⊢
  cases hpolled with
  | idle => cases hactive.symm.trans hended
  | timedOut => exact StreamContext.attempts_done_of_ne (by decide) call.now
  | waits hinactive => cases hactive.symm.trans hinactive
  | waited hinactive => cases hactive.symm.trans hinactive
  | opened hinactive => cases hactive.symm.trans hinactive

theorem not_opens_after_unrecoverable {responseCode : Int} {now : ℕ} {failed later : StreamRun}
    (hcode : unrecoverable responseCode = true)
    (hstep : run.step config dispatch (.done responseCode now) = .ok failed)
    (hsteps : Steps (StreamRun.step config dispatch) (Scheduled config) failed later)
    (call : PollCall) : ¬ later.Opens config call := by
  cases hstep
  have hfailed : later.context.permanentFailure = true := by
    refine hsteps.invariant (P := fun run => run.context.permanentFailure = true)
      (StreamContext.permanentFailure_done_unrecoverable hcode now) ?_
    intro run next call hpermanent _ hstep
    exact step_permanentFailure hpermanent hstep
  intro hopens
  rw [Opens, StreamContext.poll_failed hfailed] at hopens
  cases hopens

theorem Phased.disciplined (h : run.Phased) : run.Disciplined config dispatch where
  counted responseCode now hcode := StreamContext.attempts_done_of_ne hcode now
  timedOut call hactive hended := attempts_poll_ended hactive hended
  exclusive call hactive hopens := by cases hactive.symm.trans hopens.due.1
  waiting call hnow hopens := by
    rcases hopens.due.2 with hattempts | hwait
    · rw [h.fresh hattempts] at hnow
      exact absurd hnow (Nat.not_lt_zero _)
    · exact absurd hwait (not_le.mpr hnow)
  overdue start hscheduled hstarts hlater waiting hwithin call hcall hnow :=
    hstarts.overdue hscheduled.2 hlater hwithin hcall.1.2.2 hnow
  permanent responseCode now failed hcode hstep later hsteps call :=
    not_opens_after_unrecoverable hcode hstep hsteps call

end StreamRun

end ServerSdk
