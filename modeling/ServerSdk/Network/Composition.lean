import ServerSdk.Network.Interfaces

namespace ServerSdk

open Program

inductive InterfaceCall (ι : Type) where
  | poll (input : ι)
  | write (input : ι)
  | done (responseCode : Int) (input : ι)
  | record (input : ι)

structure InterfaceCalls.Keeps {ω ι : Type} (calls : InterfaceCalls ω ι) (busy : ω → Bool)
    (allowed : ω → InterfaceCall ι → Prop) (V : ω → Prop) : Prop where
  poll {context next : ω} {result : PollResult} {input : ι} : V context → allowed context (.poll input) →
    calls.poll context input = .ok (result, next) → V next
  write {context next : ω} {input : ι} : V context → busy context = true →
    allowed context (.write input) → calls.write context input = .ok next → V next
  done {context next : ω} {responseCode : Int} {input : ι} : V context → busy context = true →
    allowed context (.done responseCode input) → calls.done context responseCode input = .ok next → V next
  record {context next : ω} {input : ι} : V context → allowed context (.record input) →
    calls.record context input = .ok next → V next

namespace NetworkThread

variable {ω ι : Type} {calls : InterfaceCalls ω ι} {busy : ω → Bool} {V : ω → Prop}
  {allowed : ω → InterfaceCall ι → Prop} {thread next : NetworkThread ω} {event : ThreadEvent ι}

def contextOf (thread : NetworkThread ω) (index : ℕ) : ω := (thread.interfaces index).context

def pollingIndex (thread : NetworkThread ω) : Option ℕ :=
  match thread.phase with
  | .polling index => some index
  | _ => none

def Allows (allowed : ω → InterfaceCall ι → Prop) (thread : NetworkThread ω) : ThreadEvent ι → Prop
  | .poll input _ => ∀ index ∈ thread.pollingIndex, allowed (thread.contextOf index) (.poll input)
  | .write handle input => ∀ added ∈ thread.multihandle, added.1 = handle →
      allowed (thread.contextOf added.2) (.write input)
  | .message handle message input => ∀ added ∈ thread.multihandle, added.1 = handle →
      ∀ responseCode ∈ message.reported, allowed (thread.contextOf added.2) (.done responseCode input)
  | .record index input => allowed (thread.contextOf index) (.record input)
  | _ => True

instance [∀ context, DecidablePred (allowed context)] (thread : NetworkThread ω) :
    DecidablePred (Allows allowed thread)
  | .poll _ _ => inferInstanceAs (Decidable (∀ index ∈ thread.pollingIndex, _))
  | .write _ _ => inferInstanceAs (Decidable (∀ added ∈ thread.multihandle, _ → _))
  | .message _ message _ => inferInstanceAs (Decidable
      (∀ added ∈ thread.multihandle, _ → ∀ responseCode ∈ message.reported, _))
  | .record index _ => inferInstanceAs (Decidable (allowed (thread.contextOf index) _))
  | .lock _ _ | .performed | .noMessage | .wait _ | .remove _ | .multiCleanup _ =>
      inferInstanceAs (Decidable True)

theorem pollingIndex_of_phase {index : ℕ} (hphase : thread.phase = .polling index) :
    index ∈ thread.pollingIndex := by
  rw [pollingIndex, hphase]
  exact rfl

theorem forall_contextOf_update {index : ℕ} {context : ω} {current : Option ℕ}
    (h : ∀ other, V (thread.contextOf other)) (hV : V context) (other : ℕ) :
    V ((thread.update index ⟨context, current⟩).contextOf other) := by
  change V (Function.update thread.interfaces index ⟨context, current⟩ other).context
  rw [Function.update_apply]
  split_ifs
  · exact hV
  · exact h other

theorem Attached.busy_of_mem {handle index : ℕ} (h : thread.Attached busy)
    (hadded : (handle, index) ∈ thread.multihandle) : busy (thread.contextOf index) = true := by
  rw [contextOf, h.busy, (h.current_iff index handle).mpr hadded, Option.isSome_some]

theorem Sound.keeps (hcalls : calls.Keeps busy allowed V) (hsound : thread.Sound busy)
    (h : ∀ index, V (thread.contextOf index)) (hallows : Allows allowed thread event)
    (hmoves : Moves calls thread event next) (index : ℕ) : V (next.contextOf index) := by
  cases hmoves with
  | stayed | entered | gaveUp | exited => exact h index
  | @written handle other _ _ hruns hadded hwrite =>
      have hbusy := (hsound.runs hruns).attached.busy_of_mem hadded
      exact forall_contextOf_update h (hcalls.write (h other) hbusy (hallows _ hadded rfl) hwrite) index
  | recorded hrecord => exact forall_contextOf_update h (hcalls.record (h _) hallows hrecord) index
  | idle hphase hpoll =>
      exact forall_contextOf_update h (hcalls.poll (h _) (hallows _ (pollingIndex_of_phase hphase)) hpoll) index
  | killed hphase hpoll _ =>
      exact @forall_contextOf_update _ V (thread.removeAndFreeHandle _) _ _ _ h
        (hcalls.poll (h _) (hallows _ (pollingIndex_of_phase hphase)) hpoll) index
  | added hphase _ hpoll | notAdded hphase _ hpoll =>
      exact forall_contextOf_update h (hcalls.poll (h _) (hallows _ (pollingIndex_of_phase hphase)) hpoll) index
  | @ended handle other _ _ _ _ hruns hadded hreported hdone _ =>
      have hbusy := (hsound.runs hruns).attached.busy_of_mem hadded
      exact @forall_contextOf_update _ V (thread.removeAndFreeHandle _) _ _ _ h
        (hcalls.done (h other) hbusy (hallows _ hadded rfl _ hreported) hdone) index
  | @stuck handle other _ _ _ _ hruns hadded hreported hdone _ =>
      have hbusy := (hsound.runs hruns).attached.busy_of_mem hadded
      exact forall_contextOf_update h
        (hcalls.done (h other) hbusy (hallows _ hadded rfl _ hreported) hdone) index
  | destroyed => exact forall_contextOf_update h (h _) index
  | released => exact @forall_contextOf_update _ V (thread.removeAndFreeHandle _) _ _ _ h (h _) index

end NetworkThread

namespace Interface

variable {σ : Type}

def InTime [Externals] (config : NetworkConfig) : Interface σ → InterfaceCall (NetworkInput σ) → Prop
  | .polling run, .poll input => run.InOrder (.poll input.now input.call.prepared)
  | .polling run, .done responseCode input =>
      run.clock ≤ input.now ∧ PollRun.Recorded config.polling (.done responseCode input.now)
  | .streaming run, .poll input =>
      run.InOrder (.poll input.call)
  | .streaming run, .write input => run.InOrder (.read input.chunk input.now)
  | .streaming run, .done responseCode input =>
      run.clock ≤ input.now ∧ run.AgeMeasured (.done responseCode input.now)
  | .analytics run, .poll input => run.InOrder (.poll input.analytics)
  | .analytics run, .done _ input => run.InClock input.now
  | _, _ => True

instance [Externals] (config : NetworkConfig) : ∀ (interface : Interface σ)
    (call : InterfaceCall (NetworkInput σ)), Decidable (InTime config interface call)
  | .polling run, .poll input => inferInstanceAs (Decidable (run.InOrder (.poll input.now input.call.prepared)))
  | .polling run, .done responseCode input => inferInstanceAs (Decidable
      (run.clock ≤ input.now ∧ PollRun.Recorded config.polling (.done responseCode input.now)))
  | .streaming run, .poll input => inferInstanceAs (Decidable (run.InOrder (.poll input.call)))
  | .streaming run, .write input => inferInstanceAs (Decidable (run.InOrder (.read input.chunk input.now)))
  | .streaming run, .done responseCode input => inferInstanceAs (Decidable
      (run.clock ≤ input.now ∧ run.AgeMeasured (.done responseCode input.now)))
  | .analytics run, .poll input => inferInstanceAs (Decidable (run.InOrder (.poll input.analytics)))
  | .analytics _, .done _ _ => inferInstanceAs (Decidable (_ ∧ _ ∧ _))
  | .polling _, .write _ | .polling _, .record _ | .streaming _, .record _ | .analytics _, .write _
  | .analytics _, .record _ => inferInstanceAs (Decidable True)

variable [Parsing]

def Valid (config : NetworkConfig) : Interface σ → Prop
  | .polling run => run.Paced config.polling
  | .streaming run => run.Spaced
  | .analytics run => Sent run.context run.inFlight run.deliveries

def WellPaced (config : NetworkConfig) : Interface σ → Prop
  | .polling run => run.RespectsInterval config.polling
  | .streaming run => run.BacksOff
  | .analytics run => AtMostTwice run

variable {config : NetworkConfig} {dispatch : SseDispatch} {interface next : Interface σ}
  {input : NetworkInput σ}

theorem Valid.wellPaced (h : interface.Valid config) : interface.WellPaced config := by
  cases interface with
  | polling run => exact PollRun.Paced.respectsInterval h
  | streaming run => exact StreamRun.Spaced.backsOff h
  | analytics run => exact ⟨Sent.submitted h, Sent.settled h, Sent.single h, Sent.kept h⟩

theorem pending_of_sent {context : AnalyticsContext} {inFlight : ℕ} {deliveries : List SentPayload}
    (h : Sent context inFlight deliveries) (hactive : context.active = true) : 0 < inFlight := by
  cases h.phase with
  | resting active failureTime => cases active.symm.trans hactive
  | sending active failureTime buffer => exact Nat.one_pos
  | waiting active failureTime buffer => cases active.symm.trans hactive
  | resending active failureTime buffer => exact Nat.one_pos

theorem valid_poll {result : PollResult} (h : interface.Valid config)
    (hallowed : InTime config interface (.poll input))
    (hpoll : poll config dispatch interface input = .ok (result, next)) : next.Valid config := by
  cases interface with
  | polling run =>
      have horder : run.InOrder (.poll input.now input.call.prepared) := hallowed
      obtain ⟨polled, hpolled, hnext⟩ := halting_bind_eq_ok.mp hpoll
      cases hnext
      have hstep : run.step config.polling (.poll input.now input.call.prepared) =
          .ok (run.polled input.now polled) :=
        Checked.bind_eq_ok.mpr ⟨polled, halting_eq_ok.mp hpolled, rfl⟩
      exact PollRun.Paced.step h horder trivial hstep
  | streaming run =>
      have hspaced : run.Spaced := h
      have horder : run.InOrder (.poll input.call) := hallowed
      obtain ⟨run', hstep, hnext⟩ := halting_bind_eq_ok.mp hpoll
      cases hnext
      exact hspaced.step horder trivial (halting_eq_ok.mp hstep)
  | analytics run =>
      have horder : run.InOrder (.poll input.analytics) := hallowed
      have hsent : Sent run.context run.inFlight run.deliveries := h
      obtain ⟨⟨polled, call⟩, hpolled, hnext⟩ := halting_bind_eq_ok.mp hpoll
      cases hnext
      have hstep : run.step config.flushInterval (.poll input.analytics) =
          .ok (run.polled input.now polled) :=
        halting_bind_eq_ok.mpr ⟨_, hpolled, rfl⟩
      exact hsent.step horder hstep

theorem valid_write (h : interface.Valid config) (hallowed : InTime config interface (.write input))
    (hwrite : write config dispatch interface input = .ok next) : next.Valid config := by
  cases interface with
  | polling run =>
      have hpaced : run.Paced config.polling := h
      obtain ⟨run', hstep, hnext⟩ := halting_bind_eq_ok.mp hwrite
      cases hnext
      cases halting_eq_ok.mp hstep
      exact ⟨hpaced.single, hpaced.pending, hpaced.apart⟩
  | streaming run =>
      have hspaced : run.Spaced := h
      have horder : run.InOrder (.read input.chunk input.now) := hallowed
      obtain ⟨run', hstep, hnext⟩ := halting_bind_eq_ok.mp hwrite
      cases hnext
      exact hspaced.step horder trivial (halting_eq_ok.mp hstep)
  | analytics run =>
      cases hwrite
      exact h

theorem valid_done {responseCode : Int} (h : interface.Valid config) (hactive : interface.active = true)
    (hallowed : InTime config interface (.done responseCode input))
    (hdone : done config dispatch interface responseCode input = .ok next) : next.Valid config := by
  cases interface with
  | polling run =>
      have hpaced : run.Paced config.polling := h
      obtain ⟨run', hstep, hnext⟩ := halting_bind_eq_ok.mp hdone
      cases hnext
      have hflight : 0 < run.inFlight := by
        rw [hpaced.single, show run.context.active = true from hactive]
        exact Nat.one_pos
      have horder : run.InOrder (.done responseCode input.now) := ⟨hallowed.1, hflight⟩
      exact hpaced.step horder hallowed.2 (halting_eq_ok.mp hstep)
  | streaming run =>
      have hspaced : run.Spaced := h
      obtain ⟨run', hstep, hnext⟩ := halting_bind_eq_ok.mp hdone
      cases hnext
      have horder : run.InOrder (.done responseCode input.now) := ⟨hallowed.1, hactive⟩
      exact hspaced.step horder hallowed.2 (halting_eq_ok.mp hstep)
  | analytics run =>
      have hsent : Sent run.context run.inFlight run.deliveries := h
      obtain ⟨run', hstep, hnext⟩ := halting_bind_eq_ok.mp hdone
      cases hnext
      have horder : run.InOrder (.done responseCode input.now) :=
        ⟨hallowed, pending_of_sent hsent hactive⟩
      exact hsent.step horder hstep

theorem valid_record (h : interface.Valid config) (hrecord : record config interface input = .ok next) :
    next.Valid config := by
  cases interface with
  | polling run =>
      have hpaced : run.Paced config.polling := h
      cases hrecord
      exact ⟨hpaced.single, hpaced.pending, hpaced.apart⟩
  | streaming run =>
      cases hrecord
      exact h
  | analytics run =>
      have hsent : Sent run.context run.inFlight run.deliveries := h
      obtain ⟨run', hstep, hnext⟩ := halting_bind_eq_ok.mp hrecord
      cases hnext
      have horder : run.InOrder (.record input.processor input.shouldFlush) := trivial
      exact hsent.step horder hstep

theorem keeps (config : NetworkConfig) (dispatch : SseDispatch) :
    (calls config dispatch : InterfaceCalls (Interface σ) (NetworkInput σ)).Keeps active
      (InTime config) (Valid config) where
  poll := valid_poll
  write h _ := valid_write h
  done := valid_done
  record h _ := valid_record h

end Interface

section Runs

variable {σ : Type} (config : NetworkConfig) (dispatch : SseDispatch) (store : Store σ)
  (processor : EventProcessor) (shouldFlush : Bool) (clock : ℕ)

theorem forall_contextOf_networkthread {V : Interface σ → Prop}
    (hpolling : V (.polling (.begin store clock))) (hstreaming : V (.streaming (.begin clock)))
    (hanalytics : V (.analytics (.begin processor shouldFlush clock))) (index : ℕ) :
    V ((networkthread config store processor shouldFlush clock).contextOf index) := by
  change V ((constructed config store processor shouldFlush clock).getD index _)
  rw [List.getD_eq_getElem?_getD]
  cases hinterface : (constructed config store processor shouldFlush clock)[index]? with
  | none => exact hstreaming
  | some interface =>
      have hmem := List.mem_of_getElem? hinterface
      rw [constructed] at hmem
      rcases List.mem_append.mp hmem with hmem | hmem
      · split_ifs at hmem
        · cases hmem
        · rcases List.mem_pair.mp hmem with rfl | rfl
          · exact hpolling
          · exact hstreaming
      · split_ifs at hmem
        · obtain rfl := List.mem_singleton.mp hmem
          exact hanalytics
        · cases hmem

theorem sound_networkthread :
    (networkthread config store processor shouldFlush clock).Sound Interface.active := by
  refine NetworkThread.sound_start fun index => ?_
  exact forall_contextOf_networkthread (V := fun interface => interface.active = false) config store
    processor shouldFlush clock rfl rfl rfl index

variable [Parsing]

theorem constructed_valid (index : ℕ) :
    ((networkthread config store processor shouldFlush clock).contextOf index).Valid config :=
  forall_contextOf_networkthread (V := fun interface => interface.Valid config) config store processor
    shouldFlush clock (PollRun.paced_begin store clock) (StreamRun.spaced_begin clock)
    (sent_construct clock) index

theorem steps_sound {thread : NetworkThread (Interface σ)}
    {allowed : NetworkThread (Interface σ) → ThreadEvent (NetworkInput σ) → Prop}
    (h : Steps (NetworkThread.step (Interface.calls config dispatch)) allowed
      (networkthread config store processor shouldFlush clock) thread) :
    thread.Sound Interface.active := by
  refine h.invariant (sound_networkthread config store processor shouldFlush clock) ?_
  intro thread next event hsound _ hstep
  exact hsound.step (Interface.oneAtATime config dispatch) (NetworkThread.moves hstep)

theorem network_handles_accounted {thread : NetworkThread (Interface σ)}
    {allowed : NetworkThread (Interface σ) → ThreadEvent (NetworkInput σ) → Prop}
    (h : Steps (NetworkThread.step (Interface.calls config dispatch)) allowed
      (networkthread config store processor shouldFlush clock) thread) :
    thread.Accounted ∧ (thread.phase.Runs → thread.Attached Interface.active) ∧
      ∀ event halt, thread.step (Interface.calls config dispatch) event = .error halt →
        thread.Halts (Interface.calls config dispatch) halt event := by
  have hsound := steps_sound config dispatch store processor shouldFlush clock h
  refine ⟨hsound.accounted, fun hruns => (hsound.runs hruns).attached, ?_⟩
  intro event halt hstep
  exact hsound.halts (Interface.oneAtATime config dispatch) hstep

theorem network_thread_cleaned_up {thread : NetworkThread (Interface σ)}
    (h : Steps (NetworkThread.step (Interface.calls config dispatch))
      (fun _ event => NetworkThread.Removes event)
      (networkthread config store processor shouldFlush clock) thread)
    (hexited : thread.phase = .exited true) :
    thread.multihandle = [] ∧ thread.freed.Perm (List.range thread.created) ∧
      thread.destroyed = List.range thread.interfacecount := by
  have howned : thread.Sound Interface.active ∧ thread.Owned := by
    refine h.invariant (P := fun thread => thread.Sound Interface.active ∧ thread.Owned)
      ⟨sound_networkthread config store processor shouldFlush clock, ?_⟩ ?_
    · intro handle index hadded
      cases hadded
    · intro thread next event hsound hremoves hstep
      have hmoves := NetworkThread.moves hstep
      have hcalls : (Interface.calls config dispatch :
          InterfaceCalls (Interface σ) (NetworkInput σ)).OneAtATime Interface.active :=
        Interface.oneAtATime config dispatch
      exact ⟨hsound.1.step hcalls hmoves, hsound.2.step hcalls hsound.1 hremoves hmoves⟩
  exact howned.1.cleaned howned.2 hexited

theorem network_interfaces_well_paced {thread : NetworkThread (Interface σ)}
    (h : Steps (NetworkThread.step (Interface.calls config dispatch))
      (NetworkThread.Allows (Interface.InTime config))
      (networkthread config store processor shouldFlush clock) thread) (index : ℕ) :
    (thread.contextOf index).WellPaced config := by
  have hvalid : thread.Sound Interface.active ∧ ∀ index, (thread.contextOf index).Valid config := by
    refine h.invariant
      (P := fun thread => thread.Sound Interface.active ∧ ∀ index, (thread.contextOf index).Valid config)
      ⟨sound_networkthread config store processor shouldFlush clock,
        constructed_valid config store processor shouldFlush clock⟩ ?_
    intro thread next event hsound hallows hstep
    have hmoves := NetworkThread.moves hstep
    exact ⟨hsound.1.step (Interface.oneAtATime config dispatch) hmoves,
      hsound.1.keeps (Interface.keeps config dispatch) hsound.2 hallows hmoves⟩
  exact (hvalid.2 index).wellPaced

end Runs

def networkConfig : NetworkConfig := ⟨false, false, true, false, 30000, 5000, 2147483647⟩

abbrev MemoryThread := NetworkThread (Interface MemoryStoreContext)

def freshThread : MemoryThread :=
  networkthread networkConfig ⟨storeMemoryNew.1, storeMemoryNew.2⟩ (.create configNew 1) false 5000

def networkCalls : InterfaceCalls (Interface MemoryStoreContext) (NetworkInput MemoryStoreContext) :=
  @Interface.calls _ noParsing networkConfig acceptEvents

def inputAt (now : ℕ) : NetworkInput MemoryStoreContext :=
  ⟨⟨now, now, none, true, true⟩, 0, none, true, "", ⟨[97], fun _ => 0⟩,
    ⟨storeMemoryNew.1, storeMemoryNew.2⟩, .create configNew 1, false⟩

def quietIteration (now : ℕ) : List (ThreadEvent (NetworkInput MemoryStoreContext)) :=
  [.lock false false, .performed, .poll (inputAt now) true, .poll (inputAt now) true,
    .poll (inputAt now) true, .noMessage, .wait true]

def shortLivedStream : List (ThreadEvent (NetworkInput MemoryStoreContext)) :=
  quietIteration 5000 ++
    [.lock false true, .write 0 (inputAt 6000), .performed,
      .message 0 ⟨some 200, true, true, true⟩ (inputAt 10000), .noMessage, .wait true] ++
    quietIteration 10000 ++ quietIteration 11000

theorem short_lived_stream_accounted : ∃ thread : MemoryThread,
    Steps (NetworkThread.step networkCalls) (fun _ _ => True) freshThread thread ∧
      thread.freed = [0] ∧ thread.multihandle = [(1, 1)] ∧ thread.Accounted := by
  have halong : Along (NetworkThread.step networkCalls) (fun _ _ => True)
      (fun thread => thread.freed = [0] ∧ thread.multihandle = [(1, 1)]) shortLivedStream
      freshThread := by
    decide +kernel
  obtain ⟨thread, hsteps, hfreed, hmultihandle⟩ := Steps.of_along halong
  exact ⟨thread, hsteps, hfreed, hmultihandle,
    (@network_handles_accounted _ _ _ _ _ _ _ noParsing _ _ hsteps).1⟩

theorem shut_down_mid_stream_cleaned_up : ∃ thread : MemoryThread,
    Steps (NetworkThread.step networkCalls) (fun _ event => NetworkThread.Removes event) freshThread
      thread ∧ thread.created = 1 ∧ thread.multihandle = [] ∧ thread.destroyed = [0, 1] := by
  have halong : Along (NetworkThread.step networkCalls) (fun _ event => NetworkThread.Removes event)
      (fun thread => thread.phase = .exited true ∧ thread.created = 1 ∧ thread.interfacecount = 2)
      (quietIteration 5000 ++ [.lock true false, .remove true, .remove true, .multiCleanup true])
      freshThread := by
    decide +kernel
  obtain ⟨thread, hsteps, hexited, hcreated, hcount⟩ := Steps.of_along halong
  obtain ⟨hempty, -, hdestroyed⟩ :=
    @network_thread_cleaned_up _ _ _ _ _ _ _ noParsing _ hsteps hexited
  rw [hcount] at hdestroyed
  exact ⟨thread, hsteps, hcreated, hempty, hdestroyed⟩

theorem short_lived_stream_well_paced : ∃ thread : MemoryThread,
    Steps (NetworkThread.step networkCalls)
      (NetworkThread.Allows (@Interface.InTime _ noParsing.toExternals networkConfig)) freshThread
      thread ∧ thread.created = 2 ∧
        @Interface.WellPaced _ noParsing networkConfig (thread.contextOf 1) := by
  have halong : Along (NetworkThread.step networkCalls)
      (NetworkThread.Allows (@Interface.InTime _ noParsing.toExternals networkConfig))
      (fun thread => thread.created = 2) shortLivedStream freshThread := by
    decide +kernel
  obtain ⟨thread, hsteps, hcreated⟩ := Steps.of_along halong
  exact ⟨thread, hsteps, hcreated,
    @network_interfaces_well_paced _ _ _ _ _ _ _ noParsing _ hsteps 1⟩

end ServerSdk
