import Mathlib.Tactic.Linarith
import Mathlib.Tactic.Positivity
import ServerSdk.Platform
import ServerSdk.Program.Steps
import ServerSdk.Stream.Parser

namespace ServerSdk

open Program

def normalize (n nmin nmax omin omax : Rat) : Rat :=
  (n - nmin) * (omax - omin) / (nmax - nmin) + omin

structure StreamConfig where
  stream : Bool
  dataSource : Bool
  randMax : ℕ
  deriving DecidableEq, Repr

structure StreamContext where
  parser : SseParser
  active : Bool
  attempts : ℕ
  waitUntil : ℕ
  startedOn : ℕ
  permanentFailure : Bool
  lastReadTimeMilliseconds : ℕ
  deriving DecidableEq, Repr

structure PollCall where
  now : ℕ
  finishedOn : ℕ
  random : Option ℕ
  removed : Bool
  prepared : Bool
  deriving DecidableEq, Repr

def constructStreamContext : StreamContext := ⟨.initial [], false, 0, 0, 0, false, 0⟩

def unrecoverable (responseCode : Int) : Bool :=
  400 ≤ responseCode ∧ responseCode < 500 ∧
    responseCode ≠ 400 ∧ responseCode ≠ 408 ∧ responseCode ≠ 429

def backoffDelay (randMax attempts random : ℕ) : Rat :=
  let backoff : Rat := 1000 * 2 ^ attempts / 2
  let backoff := if backoff > 30 * 1000 then 30 * 1000 else backoff
  let backoff := backoff / 2
  backoff + normalize random 0 randMax 0 backoff

namespace StreamContext

def countAttempt (context : StreamContext) : StreamContext :=
  { context with attempts := (context.attempts + 1) % 2 ^ 32 }

def resetMemory (context : StreamContext) : StreamContext :=
  { context with parser := context.parser.destroy }

def done (context : StreamContext) (responseCode : Int) (now : ℕ) : StreamContext :=
  let context := { context with active := false }
  if responseCode = 200 then
    if now ≥ (context.startedOn + 60 * 1000) % 2 ^ 64 then { context with attempts := 0 }.resetMemory
    else context.countAttempt.resetMemory
  else if unrecoverable responseCode then
    { context with permanentFailure := true }.countAttempt.resetMemory
  else context.countAttempt.resetMemory

def streamWriteCallback (dispatch : SseDispatch) (context : StreamContext) (contents : SseChunk)
    (now : ℕ) : Bool × StreamContext :=
  let (status, parser) := context.parser.process dispatch contents
  (status, { context with parser, lastReadTimeMilliseconds := now })

def connect (context : StreamContext) (call : PollCall) : Bool × StreamContext :=
  if call.prepared then
    (true, { context with active := true, lastReadTimeMilliseconds := call.finishedOn })
  else (false, context)

def poll (config : StreamConfig) (context : StreamContext) (call : PollCall) :
    Bool × StreamContext :=
  if config.dataSource ∨ config.stream = false ∨ context.permanentFailure then (false, context)
  else if context.active then
    if context.lastReadTimeMilliseconds + 300 * 1000 ≤ call.now then
      if call.removed then (false, context.done 0 call.now) else (false, context)
    else (false, context)
  else if context.attempts ≠ 0 then
    if context.waitUntil ≠ 0 then
      if call.now ≥ context.waitUntil then
        { context with waitUntil := 0, startedOn := toUnsignedLong call.now }.connect call
      else (false, context)
    else if context.attempts = 1 then
      (false, { context with waitUntil := toUnsignedLong (call.now + 1000) })
    else match call.random with
      | none => (false, context)
      | some random =>
          (false, { context with
            waitUntil := toUnsignedLong
              (call.now + backoffDelay config.randMax context.attempts random) })
  else context.connect call

@[simp] theorem active_done (context : StreamContext) (responseCode : Int) (now : ℕ) :
    (context.done responseCode now).active = false := by
  rw [done]
  split_ifs <;> rfl

@[simp] theorem waitUntil_done (context : StreamContext) (responseCode : Int) (now : ℕ) :
    (context.done responseCode now).waitUntil = context.waitUntil := by
  rw [done]
  split_ifs <;> rfl

theorem attempts_done {context : StreamContext} {now : ℕ}
    (hage : now < (context.startedOn + 60 * 1000) % 2 ^ 64)
    (hcount : context.attempts + 1 < 2 ^ 32) :
    (context.done 200 now).attempts = context.attempts + 1 := by
  rw [done, if_pos rfl, if_neg (not_le.mpr hage)]
  exact Nat.mod_eq_of_lt hcount

theorem connect_prepared {context : StreamContext} {call : PollCall} (h : call.prepared = true) :
    context.connect call =
      (true, { context with active := true, lastReadTimeMilliseconds := call.finishedOn }) := by
  rw [connect, if_pos h]

def nextDelay (config : StreamConfig) (context : StreamContext) (random : Option ℕ) : Option Rat :=
  if context.attempts = 1 then some 1000
  else random.map (backoffDelay config.randMax context.attempts)

inductive Polled (config : StreamConfig) (context : StreamContext) (call : PollCall) :
    Bool × StreamContext → Prop
  | idle : Polled config context call (false, context)
  | timedOut : context.active = true →
      Polled config context call (false, context.done 0 call.now)
  | waits {delay : Rat} : context.active = false → context.attempts ≠ 0 →
      context.waitUntil = 0 → context.nextDelay config call.random = some delay →
      Polled config context call
        (false, { context with waitUntil := toUnsignedLong (call.now + delay) })
  | waited : context.active = false → context.attempts ≠ 0 → context.waitUntil ≠ 0 →
      context.waitUntil ≤ call.now → Polled config context call
        ({ context with waitUntil := 0, startedOn := toUnsignedLong call.now }.connect call)
  | opened : context.active = false → context.attempts = 0 →
      Polled config context call (context.connect call)

theorem polled (config : StreamConfig) (context : StreamContext) (call : PollCall) :
    Polled config context call (context.poll config call) := by
  unfold poll
  split_ifs with henabled hactive htimeout hremoved hattempts hwait hnow hfirst
  · exact .idle
  · exact .timedOut hactive
  · exact .idle
  · exact .idle
  · exact .waited (by simpa using hactive) hattempts hwait hnow
  · exact .idle
  · exact .waits (by simpa using hactive) hattempts (not_not.mp hwait) (if_pos hfirst)
  · cases hrandom : call.random with
    | none => exact .idle
    | some random =>
        refine .waits (by simpa using hactive) hattempts (not_not.mp hwait) ?_
        rw [nextDelay, if_neg hfirst, hrandom]
        rfl
  · exact .opened (by simpa using hactive) (not_not.mp hattempts)

end StreamContext

theorem one_second_le_backoffDelay {randMax attempts random : ℕ} (h : 2 ≤ attempts) :
    1000 ≤ backoffDelay randMax attempts random := by
  have hpow : (2 : Rat) ^ 2 ≤ 2 ^ attempts := pow_le_pow_right₀ (by norm_num) h
  have hbackoff : (2000 : Rat) ≤
      if (1000 * 2 ^ attempts / 2 : Rat) > 30 * 1000 then 30 * 1000 else 1000 * 2 ^ attempts / 2 := by
    split_ifs <;> linarith
  rw [backoffDelay, normalize]
  generalize (if (1000 * 2 ^ attempts / 2 : Rat) > 30 * 1000 then 30 * 1000
    else 1000 * 2 ^ attempts / 2 : Rat) = backoff at hbackoff
  have hjitter : 0 ≤ ((random : Rat) - 0) * (backoff / 2 - 0) / (randMax - 0) + 0 := by
    simp only [sub_zero, add_zero]
    positivity
  linarith

theorem one_second_le_nextDelay {config : StreamConfig} {context : StreamContext}
    {random : Option ℕ} {delay : Rat} (hattempts : context.attempts ≠ 0)
    (h : context.nextDelay config random = some delay) : 1000 ≤ delay := by
  rw [StreamContext.nextDelay] at h
  split_ifs at h with hfirst
  · cases h
    rfl
  · obtain ⟨random, _, rfl⟩ := Option.map_eq_some_iff.mp h
    exact one_second_le_backoffDelay (by omega)

structure ShortLived where
  endedOn : ℕ
  attempts : ℕ
  deriving DecidableEq, Repr

structure StreamRun where
  context : StreamContext
  clock : ℕ
  openedOn : ℕ
  shortLived : Option ShortLived
  reopened : List (ShortLived × ℕ)
  deriving DecidableEq, Repr

inductive StreamCall where
  | poll (call : PollCall)
  | read (contents : SseChunk) (now : ℕ)
  | done (responseCode : Int) (now : ℕ)

namespace StreamRun

def begin (clock : ℕ) : StreamRun := ⟨constructStreamContext, clock, 0, none, []⟩

def step (config : StreamConfig) (dispatch : SseDispatch) (run : StreamRun) :
    StreamCall → Checked StreamRun
  | .poll call =>
      match run.context.poll config call with
      | (true, context) => .ok
          { context
            clock := call.finishedOn
            openedOn := call.now
            shortLived := none
            reopened := run.reopened ++ run.shortLived.toList.map fun ended => (ended, call.now) }
      | (false, context) => .ok { run with context, clock := call.finishedOn }
  | .read contents now => .ok
      { run with context := (run.context.streamWriteCallback dispatch contents now).2, clock := now }
  | .done responseCode now => .ok
      { run with
        context := run.context.done responseCode now
        clock := now
        shortLived :=
          if responseCode = 200 ∧ now < run.openedOn + 60 * 1000 then some ⟨now, run.context.attempts⟩
          else none }

def InOrder (run : StreamRun) : StreamCall → Prop
  | .poll call => run.clock ≤ call.now ∧ call.now ≤ call.finishedOn ∧ call.prepared = true
  | .read _ now => run.clock ≤ now
  | .done _ now => run.clock ≤ now ∧ run.context.active = true

def BacksOff (run : StreamRun) : Prop :=
  (∀ ended ∈ run.shortLived, run.context.attempts = ended.attempts + 1) ∧
    ∀ pair ∈ run.reopened, pair.1.endedOn + 1000 ≤ pair.2

def AgeMeasured (run : StreamRun) : StreamCall → Prop
  | .poll _ => True
  | .read _ _ => True
  | .done responseCode now => responseCode = 200 → now < run.openedOn + 60 * 1000 →
      now < (run.context.startedOn + 60 * 1000) % 2 ^ 64 ∧ run.context.attempts + 1 < 2 ^ 32

instance (run : StreamRun) : DecidablePred run.InOrder
  | .poll _ => inferInstanceAs (Decidable (_ ∧ _ ∧ _))
  | .read _ now => inferInstanceAs (Decidable (run.clock ≤ now))
  | .done _ _ => inferInstanceAs (Decidable (_ ∧ _))

instance (run : StreamRun) : DecidablePred run.AgeMeasured
  | .poll _ => inferInstanceAs (Decidable True)
  | .read _ _ => inferInstanceAs (Decidable True)
  | .done _ _ => inferInstanceAs (Decidable (_ → _ → _ ∧ _))

instance (run : StreamRun) : Decidable run.BacksOff :=
  inferInstanceAs (Decidable ((∀ ended ∈ run.shortLived, _) ∧ ∀ pair ∈ run.reopened, _))

structure Spaced (run : StreamRun) : Prop where
  quiet : run.context.active = true → run.context.waitUntil = 0 ∧ run.shortLived = none
  fresh : run.context.attempts = 0 → run.context.waitUntil = 0
  pending : ∀ ended, run.shortLived = some ended → ended.endedOn ≤ run.clock ∧
    run.context.attempts = ended.attempts + 1 ∧
      (run.context.waitUntil = 0 ∨ ended.endedOn + 1000 ≤ run.context.waitUntil)
  apart : ∀ pair ∈ run.reopened, pair.1.endedOn + 1000 ≤ pair.2

variable {config : StreamConfig} {dispatch : SseDispatch} {run next : StreamRun}

theorem Spaced.backsOff (h : run.Spaced) : run.BacksOff :=
  ⟨fun ended hended => (h.pending ended hended).2.1, h.apart⟩

theorem spaced_begin (clock : ℕ) : (begin clock).Spaced := ⟨nofun, fun _ => rfl, nofun, nofun⟩

theorem Spaced.later {clock : ℕ} (h : run.Spaced) (hclock : run.clock ≤ clock) :
    { run with clock }.Spaced := by
  refine ⟨h.quiet, h.fresh, ?_, h.apart⟩
  intro ended hended
  obtain ⟨hended, hattempts, hwait⟩ := h.pending ended hended
  exact ⟨hended.trans hclock, hattempts, hwait⟩

theorem Spaced.waiting {clock waitUntil : ℕ} (h : run.Spaced) (hclock : run.clock ≤ clock)
    (hactive : run.context.active = false) (hattempts : run.context.attempts ≠ 0)
    (hwait : waitUntil = 0 ∨ run.clock + 1000 ≤ waitUntil) :
    { run with context := { run.context with waitUntil }, clock }.Spaced := by
  refine ⟨fun h => ?_, fun h => absurd h hattempts, ?_, h.apart⟩
  · cases hactive.symm.trans h
  · intro ended hended
    obtain ⟨hended, hcount, _⟩ := h.pending ended hended
    have hlate : waitUntil = 0 ∨ ended.endedOn + 1000 ≤ waitUntil := by omega
    exact ⟨hended.trans hclock, hcount, hlate⟩

theorem Spaced.opening {context : StreamContext} {call : PollCall} (h : run.Spaced)
    (hwait : context.waitUntil = 0)
    (hpending : ∀ ended, run.shortLived = some ended → ended.endedOn + 1000 ≤ call.now) :
    StreamRun.Spaced
      ⟨context, call.finishedOn, call.now, none,
        run.reopened ++ run.shortLived.toList.map fun ended => (ended, call.now)⟩ := by
  exact ⟨fun _ => ⟨hwait, rfl⟩, fun _ => hwait, nofun, forall_append_paired h.apart hpending⟩

theorem Spaced.ended {shortLived : Option ShortLived} {responseCode : Int} {now clock : ℕ}
    (h : run.Spaced) (hactive : run.context.active = true)
    (hshort : ∀ ended, shortLived = some ended → ended.endedOn ≤ clock ∧
      (run.context.done responseCode now).attempts = ended.attempts + 1) :
    { run with context := run.context.done responseCode now, clock, shortLived }.Spaced := by
  obtain ⟨hwait, _⟩ := h.quiet hactive
  have hdone : (run.context.done responseCode now).waitUntil = 0 := by
    rw [StreamContext.waitUntil_done, hwait]
  refine ⟨fun h => ?_, fun _ => hdone, ?_, h.apart⟩
  · rw [StreamContext.active_done] at h
    cases h
  · intro ended hended
    obtain ⟨hle, hattempts⟩ := hshort ended hended
    exact ⟨hle, hattempts, .inl hdone⟩

theorem Spaced.step_poll {call : PollCall} (h : run.Spaced)
    (horder : run.InOrder (.poll call))
    (hstep : run.step config dispatch (.poll call) = .ok next) : next.Spaced := by
  obtain ⟨hclock, hfinished, hprepared⟩ := horder
  have hpolled := run.context.polled config call
  rw [step] at hstep
  generalize run.context.poll config call = result at hpolled hstep
  cases hpolled with
  | idle =>
      cases hstep
      exact h.later (hclock.trans hfinished)
  | timedOut hactive =>
      cases hstep
      refine h.ended hactive fun ended hended => ?_
      cases (h.quiet hactive).2.symm.trans hended
  | @waits delay hactive hattempts hwait hdelay =>
      cases hstep
      refine h.waiting (hclock.trans hfinished) hactive hattempts ?_
      have hsecond := one_second_le_nextDelay hattempts hdelay
      have hnow : (run.clock : Rat) ≤ call.now := Nat.cast_le.mpr hclock
      -- A wait that ends beyond the unsigned long is stored as 0, which opens nothing.
      rcases lt_or_ge (call.now + delay) (2 ^ 64) with hend | hend
      · refine .inr (le_toUnsignedLong ?_ hend)
        push_cast
        linarith
      · exact .inl (toUnsignedLong_of_le hend)
  | waited hactive hattempts hwait hnow =>
      rw [StreamContext.connect_prepared hprepared] at hstep
      cases hstep
      refine h.opening rfl fun ended hended => ?_
      obtain ⟨_, _, huntil⟩ := h.pending ended hended
      exact (huntil.resolve_left hwait).trans hnow
  | opened hactive hattempts =>
      rw [StreamContext.connect_prepared hprepared] at hstep
      cases hstep
      refine h.opening (h.fresh hattempts) fun ended hended => ?_
      obtain ⟨_, hcount, _⟩ := h.pending ended hended
      cases hattempts.symm.trans hcount

theorem Spaced.step {call : StreamCall} (h : run.Spaced) (horder : run.InOrder call)
    (hage : run.AgeMeasured call) (hstep : run.step config dispatch call = .ok next) :
    next.Spaced := by
  cases call with
  | poll call => exact h.step_poll horder hstep
  | read contents now =>
      cases hstep
      have hlater := h.later horder
      exact ⟨hlater.quiet, hlater.fresh, hlater.pending, hlater.apart⟩
  | done responseCode now =>
      obtain ⟨hclock, hactive⟩ := horder
      cases hstep
      refine h.ended hactive fun ended hended => ?_
      obtain ⟨⟨hok, hshort⟩, hsome⟩ := Option.ite_none_right_eq_some.mp hended
      cases hok
      cases hsome
      obtain ⟨hyoung, hcount⟩ := hage rfl hshort
      exact ⟨le_rfl, StreamContext.attempts_done hyoung hcount⟩

end StreamRun

theorem short_lived_streams_back_off (config : StreamConfig) (dispatch : SseDispatch) (clock : ℕ)
    {run : StreamRun} (h : Steps (StreamRun.step config dispatch)
      (fun run call => run.InOrder call ∧ run.AgeMeasured call) (.begin clock) run) :
    run.BacksOff := by
  refine StreamRun.Spaced.backsOff ?_
  refine h.invariant (StreamRun.spaced_begin clock) ?_
  intro run next call hspaced hallowed hstep
  exact hspaced.step hallowed.1 hallowed.2 hstep

def streamConfig : StreamConfig := ⟨true, false, 2147483647⟩

def acceptEvents : SseDispatch := fun _ _ => true

def pollAt (now : ℕ) : StreamCall := .poll ⟨now, now, none, true, true⟩

theorem early_stream_backs_off : ∃ run : StreamRun,
    Steps (StreamRun.step streamConfig acceptEvents)
      (fun run call => run.InOrder call ∧ run.AgeMeasured call) (.begin 5000) run ∧
    run.reopened = [(⟨10000, 0⟩, 11000)] ∧ run.BacksOff := by
  have halong : Along (StreamRun.step streamConfig acceptEvents)
      (fun run call => run.InOrder call ∧ run.AgeMeasured call)
      (fun run => run.reopened = [(⟨10000, 0⟩, 11000)])
      [pollAt 5000, .done 200 10000, pollAt 10000, pollAt 11000] (.begin 5000) := by
    decide +kernel
  obtain ⟨run, hsteps, hreopened⟩ := Steps.of_along halong
  exact ⟨run, hsteps, hreopened, short_lived_streams_back_off _ _ _ hsteps⟩

theorem first_stream_reopened_at_once : ¬ ∀ (config : StreamConfig) (dispatch : SseDispatch)
    (clock : ℕ) (run : StreamRun),
    Steps (StreamRun.step config dispatch) StreamRun.InOrder (.begin clock) run →
      run.BacksOff := by
  intro hclaim
  have halong : Along (StreamRun.step streamConfig acceptEvents) StreamRun.InOrder
      (fun run => ¬ run.BacksOff) [pollAt 100000, .done 200 101000, pollAt 101000]
      (.begin 100000) := by
    decide +kernel
  obtain ⟨run, hsteps, hrun⟩ := Steps.of_along halong
  exact hrun (hclaim streamConfig acceptEvents 100000 run hsteps)

end ServerSdk
