import ServerSdk.Events.Sending

namespace ServerSdk

open Program

def Failed (responseCode : Int) : Prop := ¬ (responseCode = 200 ∨ responseCode = 202)

instance (responseCode : Int) : Decidable (Failed responseCode) := inferInstanceAs (Decidable (¬ _))

namespace AnalyticsContext

structure FirstAttempt (context : AnalyticsContext) : Prop where
  active : context.active = true
  fresh : context.failureTime = 0

structure Discarded (context : AnalyticsContext) : Prop where
  inactive : context.active = false
  fresh : context.failureTime = 0
  buffer : context.buffer = none

end AnalyticsContext

namespace AnalyticsRun

def PolledUntil (deadline : Rat) (_ : AnalyticsRun) : AnalyticsCall → Prop
  | .poll call => call.now ≤ deadline
  | .done _ _ => False
  | .record _ _ => True

def InTransit (_ : AnalyticsRun) : AnalyticsCall → Prop
  | .poll _ => True
  | .done _ _ => False
  | .record _ _ => True

end AnalyticsRun

structure FailureStored (t : Rat) (n : ℕ) : Prop where
  whole : t = n
  positive : 1 ≤ n
  bound : n + 1000 < 2 ^ 32

-- The deadline is computed modulo 2 ^ 32 from the stored time, and never lies after the real one.
theorem retryDeadline_eq_iff {t : Rat} (h : 0 ≤ t) :
    toUnsignedInt t ≠ 0 ∧ t + 1000 ≤ ((toUnsignedInt t + 1000) % 2 ^ 32 : ℕ) ↔ ∃ n, FailureStored t n := by
  constructor
  · rintro ⟨hpositive, hdeadline⟩
    have hle := toUnsignedInt_le h
    have hmod : (((toUnsignedInt t + 1000) % 2 ^ 32 : ℕ) : Rat) ≤ (toUnsignedInt t + 1000 : ℕ) :=
      Nat.cast_le.mpr (Nat.mod_le _ _)
    have hwhole : t = toUnsignedInt t := by
      push_cast at hmod hdeadline
      linarith
    refine ⟨toUnsignedInt t, hwhole, by omega, ?_⟩
    have hexact : ((toUnsignedInt t + 1000 : ℕ) : Rat) ≤ ((toUnsignedInt t + 1000) % 2 ^ 32 : ℕ) := by
      push_cast at hdeadline ⊢
      linarith
    have hbound : toUnsignedInt t + 1000 ≤ (toUnsignedInt t + 1000) % 2 ^ 32 := Nat.cast_le.mp hexact
    exact hbound.trans_lt (Nat.mod_lt _ (by decide))
  · rintro ⟨n, rfl, hpositive, hbound⟩
    rw [toUnsignedInt_natCast (by omega), Nat.mod_eq_of_lt (by omega), Nat.mod_eq_of_lt hbound]
    exact ⟨by omega, by push_cast; exact le_rfl⟩

section Retrying

variable [Externals] {flushInterval : ℕ} {run next : AnalyticsRun} {t : Rat} {responseCode : Int}
  {call : AnalyticsPoll}

def RetriesOnce (flushInterval : ℕ) (t : Rat) : Prop :=
  ∀ (run waiting : AnalyticsRun) (responseCode : Int), run.context.FirstAttempt →
    Failed responseCode →
    Steps (AnalyticsRun.step flushInterval) (AnalyticsRun.PolledUntil (t + 1000))
      (run.completed responseCode t) waiting →
    waiting.deliveries = (run.completed responseCode t).deliveries ∧
    ∀ call : AnalyticsPoll, t + 1000 < call.now → call.prepared = true →
      ∃ retried, waiting.step flushInterval (.poll call) = .ok retried ∧
        retried.deliveries = SentPayload.submitted ⟨run.context.buffer, run.context.payloadId⟩
          waiting.deliveries ∧
        ∀ sending, Steps (AnalyticsRun.step flushInterval) AnalyticsRun.InTransit retried sending →
          sending.deliveries = retried.deliveries ∧
          ∀ (secondCode : Int) (now : Rat), Failed secondCode →
            (sending.completed secondCode now).context.Discarded

theorem poll_active (h : run.context.active = true) :
    run.step flushInterval (.poll call) = .ok { run with clock := call.now } := by
  rw [AnalyticsRun.step, AnalyticsContext.poll, if_pos h]
  rfl

theorem poll_waiting (hinactive : run.context.active = false) (hfailed : run.context.failureTime ≠ 0)
    (h : call.now ≤ ((run.context.failureTime + 1000) % 2 ^ 32 : ℕ)) :
    run.step flushInterval (.poll call) = .ok { run with clock := call.now } := by
  rw [AnalyticsRun.step, AnalyticsContext.poll, hinactive, if_neg Bool.false_ne_true, if_pos hfailed,
    Run.ask_bind_run]
  change (if call.now ≤ _ then _ else _ : Run AnalyticsPoll AnalyticsPolled) call >>= _ = _
  rw [if_pos h]
  rfl

theorem poll_retries (hinactive : run.context.active = false) (hfailed : run.context.failureTime ≠ 0)
    (h : ¬ call.now ≤ ((run.context.failureTime + 1000) % 2 ^ 32 : ℕ))
    (hprepared : call.prepared = true) :
    run.step flushInterval (.poll call) = .ok (run.polled call.now
      ⟨some ⟨run.context.buffer, run.context.payloadId⟩, none, { run.context with active := true },
        run.processor⟩) := by
  rw [AnalyticsRun.step, AnalyticsContext.poll, hinactive, if_neg Bool.false_ne_true, if_pos hfailed,
    Run.ask_bind_run]
  change (if call.now ≤ _ then _ else _ : Run AnalyticsPoll AnalyticsPolled) call >>= _ = _
  rw [if_neg h, AnalyticsContext.send, Run.ask_bind_run, hprepared, if_pos rfl]
  rfl

omit [Externals] in
theorem completed_failed (h : run.context.FirstAttempt) (hfailed : Failed responseCode) (t : Rat) :
    (run.completed responseCode t).context =
      { run.context with active := false, failureTime := toUnsignedInt t } := by
  rw [AnalyticsRun.completed, AnalyticsContext.done]
  simp only [if_neg hfailed, h.fresh, ne_eq, not_true_eq_false, if_false]

omit [Externals] in
theorem completed_again (h : run.context.failureTime ≠ 0) (hfailed : Failed responseCode) (t : Rat) :
    (run.completed responseCode t).context.Discarded := by
  rw [AnalyticsRun.completed, AnalyticsContext.done]
  simp only [if_neg hfailed, if_pos h]
  exact ⟨rfl, rfl, rfl⟩

structure Unsent (start run : AnalyticsRun) : Prop where
  context : run.context = start.context
  deliveries : run.deliveries = start.deliveries

theorem unsent_until {deadline : Rat} {start : AnalyticsRun}
    (hinactive : start.context.active = false) (hfailed : start.context.failureTime ≠ 0)
    (hdeadline : deadline ≤ ((start.context.failureTime + 1000) % 2 ^ 32 : ℕ))
    (h : Steps (AnalyticsRun.step flushInterval) (AnalyticsRun.PolledUntil deadline) start run) :
    Unsent start run := by
  refine h.invariant (P := Unsent start) ⟨rfl, rfl⟩ ?_
  intro run next call hunsent hallowed hstep
  obtain ⟨hcontext, hdeliveries⟩ := hunsent
  cases call with
  | poll call =>
      have hwaits : call.now ≤ ((run.context.failureTime + 1000) % 2 ^ 32 : ℕ) := by
        rw [hcontext]
        exact le_trans hallowed hdeadline
      rw [poll_waiting (hcontext ▸ hinactive) (hcontext ▸ hfailed) hwaits] at hstep
      cases hstep
      exact ⟨hcontext, hdeliveries⟩
  | done responseCode now => exact hallowed.elim
  | record processor shouldFlush =>
      cases hstep
      exact ⟨hcontext, hdeliveries⟩

theorem unsent_inTransit {start : AnalyticsRun} (hactive : start.context.active = true)
    (h : Steps (AnalyticsRun.step flushInterval) AnalyticsRun.InTransit start run) :
    Unsent start run := by
  refine h.invariant (P := Unsent start) ⟨rfl, rfl⟩ ?_
  intro run next call hunsent hallowed hstep
  obtain ⟨hcontext, hdeliveries⟩ := hunsent
  cases call with
  | poll call =>
      rw [poll_active (hcontext ▸ hactive)] at hstep
      cases hstep
      exact ⟨hcontext, hdeliveries⟩
  | done responseCode now => exact hallowed.elim
  | record processor shouldFlush =>
      cases hstep
      exact ⟨hcontext, hdeliveries⟩

theorem FailureStored.retriesOnce {n : ℕ} (h : FailureStored t n) (flushInterval : ℕ) :
    RetriesOnce flushInterval t := by
  intro run waiting responseCode hfirst hfailed hwaiting
  have hdone := completed_failed hfirst hfailed t
  have hstored : toUnsignedInt t = n := by
    have hbound := h.bound
    rw [h.whole, toUnsignedInt_natCast (by omega), Nat.mod_eq_of_lt (by omega)]
  have hdeadline : (((toUnsignedInt t + 1000) % 2 ^ 32 : ℕ) : Rat) = t + 1000 := by
    rw [hstored, Nat.mod_eq_of_lt h.bound, h.whole]
    push_cast
    rfl
  have hpositive : toUnsignedInt t ≠ 0 := by
    rw [hstored]
    have := h.positive
    omega
  obtain ⟨hcontext, hdeliveries⟩ : Unsent (run.completed responseCode t) waiting :=
    unsent_until (by rw [hdone]) (by rw [hdone]; exact hpositive)
      (by rw [hdone]; exact hdeadline.ge) hwaiting
  rw [hdone] at hcontext
  refine ⟨hdeliveries, fun call hlate hprepared => ?_⟩
  refine ⟨_, poll_retries (by rw [hcontext]) (by rw [hcontext]; exact hpositive) ?_ hprepared, ?_, ?_⟩
  · rw [hcontext]
    exact not_le.mpr (hdeadline.trans_lt hlate)
  · rw [hcontext]
    rfl
  · intro sending hsending
    obtain ⟨hsent, hsame⟩ := unsent_inTransit rfl hsending
    refine ⟨hsame, fun secondCode now hsecond => completed_again ?_ hsecond now⟩
    rw [hsent, hcontext]
    exact hpositive

def failingRun : AnalyticsRun where
  __ := AnalyticsRun.begin (EventProcessor.create configNew 0) true 0
  context := ⟨true, 0, some "[]", 0, "id"⟩

omit [Externals] in
theorem failingRun_completed (t : Rat) : failingRun.completed 500 t =
    ⟨⟨false, 0, some "[]", toUnsignedInt t, "id"⟩, EventProcessor.create configNew 0, true, t, 0,
      [⟨none, [], [false]⟩]⟩ := rfl

theorem failureStored_of_retriesOnce (ht : 0 ≤ t) (h : RetriesOnce flushInterval t) :
    ∃ n, FailureStored t n := by
  have hfailed : Failed 500 := by decide
  obtain ⟨-, hretry⟩ := h failingRun _ 500 ⟨rfl, rfl⟩ hfailed .refl
  rw [failingRun_completed] at hretry
  have hstored : toUnsignedInt t ≠ 0 := by
    intro hzero
    rw [hzero] at hretry
    obtain ⟨retried, hstep, hdeliveries, -⟩ := hretry ⟨t + 1001, 0, some "id", true, true⟩
      (by linarith) rfl
    cases hstep
    cases hdeliveries
  refine (retryDeadline_eq_iff ht).mp ⟨hstored, ?_⟩
  by_contra hearly
  have hsubmits := @poll_retries _ flushInterval (failingRun.completed 500 t)
    ⟨t + 1000, 0, some "id", true, true⟩ rfl hstored hearly rfl
  obtain ⟨hquiet, -⟩ := h failingRun _ 500 ⟨rfl, rfl⟩ hfailed (.single ⟨_, le_rfl, hsubmits⟩)
  cases hquiet

theorem retry_waits_iff (flushInterval : ℕ) (t : Rat) (ht : 0 ≤ t) :
    RetriesOnce flushInterval t ↔ ∃ n, FailureStored t n :=
  ⟨failureStored_of_retriesOnce ht, fun ⟨_, h⟩ => h.retriesOnce flushInterval⟩

end Retrying

theorem retry_after_one_second : 0 ≤ (1000 : Rat) ∧ @RetriesOnce literalExternals 5000 1000 := by
  refine ⟨by decide +kernel, (@retry_waits_iff literalExternals 5000 1000 (by decide +kernel)).mpr ?_⟩
  exact ⟨1000, rfl, by decide, by decide⟩

theorem wrapped_retry_forgotten : ¬ @RetriesOnce literalExternals 5000 4294967296 := by
  intro hclaim
  obtain ⟨n, hwhole, -, hbound⟩ := @failureStored_of_retriesOnce literalExternals 5000 4294967296
    (by decide +kernel) hclaim
  have hn : (4294967296 : ℕ) = n := by exact_mod_cast hwhole
  omega

end ServerSdk
