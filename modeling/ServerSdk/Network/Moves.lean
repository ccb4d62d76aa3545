import ServerSdk.Network.Accounts

namespace ServerSdk

open Program

theorem halting_bind_eq_ok {α β : Type} {m : Except Halt α} {f : α → Except Halt β} {b : β} :
    (m >>= f) = .ok b ↔ ∃ a, m = .ok a ∧ f a = .ok b := by
  cases m with
  | error halt =>
      refine iff_of_false (fun h => by cases h) ?_
      rintro ⟨a, h, -⟩
      cases h
  | ok a => exact ⟨fun h => ⟨a, rfl, h⟩, fun ⟨_, ha, h⟩ => by cases ha; exact h⟩

def DoneMessage.reported (message : DoneMessage) : Option Int :=
  message.responseCode.map fun responseCode => if message.succeeded then responseCode else 0

namespace NetworkThread

variable {ω ι : Type}

inductive Moves (calls : InterfaceCalls ω ι) (thread : NetworkThread ω) :
    ThreadEvent ι → NetworkThread ω → Prop
  | stayed {event : ThreadEvent ι} : Moves calls thread event thread
  | entered {event : ThreadEvent ι} {phase : NetworkPhase} : thread.phase.Runs →
      phase.Runs ∨ phase = .cleanup 0 → Moves calls thread event (thread.enter phase)
  | written {handle index : ℕ} {input : ι} {context : ω} : thread.phase.Runs →
      (handle, index) ∈ thread.multihandle →
      calls.write (thread.interfaces index).context input = .ok context →
      Moves calls thread (.write handle input) (thread.update index ⟨context, thread.currentOf index⟩)
  | recorded {index : ℕ} {input : ι} {context : ω} :
      calls.record (thread.interfaces index).context input = .ok context →
      Moves calls thread (.record index input) (thread.update index ⟨context, thread.currentOf index⟩)
  | idle {index : ℕ} {input : ι} {added : Bool} {context : ω} : thread.phase = .polling index →
      calls.poll (thread.interfaces index).context input = .ok (.nothing, context) →
      Moves calls thread (.poll input added)
        ((thread.update index ⟨context, thread.currentOf index⟩).enter (.polling (index + 1)))
  | killed {index handle : ℕ} {input : ι} {added : Bool} {context : ω} : thread.phase = .polling index →
      calls.poll (thread.interfaces index).context input = .ok (.killed, context) →
      thread.currentOf index = some handle → Moves calls thread (.poll input added)
        (((thread.removeAndFreeHandle handle).update index ⟨context, none⟩).enter (.polling (index + 1)))
  | added {index : ℕ} {input : ι} {context : ω} : thread.phase = .polling index →
      index < thread.interfacecount →
      calls.poll (thread.interfaces index).context input = .ok (.created, context) →
      Moves calls thread (.poll input true)
        (((thread.opened index context).addHandle index thread.created).enter (.polling (index + 1)))
  | notAdded {index : ℕ} {input : ι} {context : ω} : thread.phase = .polling index →
      index < thread.interfacecount →
      calls.poll (thread.interfaces index).context input = .ok (.created, context) →
      Moves calls thread (.poll input false) ((thread.opened index context).enter (.cleanup 0))
  | ended {handle index : ℕ} {message : DoneMessage} {responseCode : Int} {input : ι} {context : ω} :
      thread.phase.Runs → (handle, index) ∈ thread.multihandle →
      message.reported = some responseCode →
      calls.done (thread.interfaces index).context responseCode input = .ok context →
      message.removed = true → Moves calls thread (.message handle message input)
        ((thread.removeAndFreeHandle handle).update index ⟨context, none⟩)
  | stuck {handle index : ℕ} {message : DoneMessage} {responseCode : Int} {input : ι} {context : ω} :
      thread.phase.Runs → (handle, index) ∈ thread.multihandle →
      message.reported = some responseCode →
      calls.done (thread.interfaces index).context responseCode input = .ok context →
      message.removed = false → Moves calls thread (.message handle message input)
        ((thread.update index ⟨context, none⟩).enter (.cleanup 0))
  | destroyed {index : ℕ} {removed : Bool} : thread.phase = .cleanup index →
      index < thread.interfacecount → thread.currentOf index = none →
      Moves calls thread (.remove removed) ((thread.destroy index).enter (.cleanup (index + 1)))
  | released {index handle : ℕ} : thread.phase = .cleanup index →
      index < thread.interfacecount → thread.currentOf index = some handle →
      Moves calls thread (.remove true)
        (((thread.removeAndFreeHandle handle).destroy index).enter (.cleanup (index + 1)))
  | gaveUp {index handle : ℕ} : thread.phase = .cleanup index →
      index < thread.interfacecount → thread.currentOf index = some handle →
      Moves calls thread (.remove false) (thread.enter (.exited false))
  | exited {index : ℕ} : thread.phase = .cleanup index → ¬ index < thread.interfacecount →
      Moves calls thread (.multiCleanup true) (thread.enter (.exited true))

inductive Halts (calls : InterfaceCalls ω ι) (thread : NetworkThread ω) (halt : Halt) :
    ThreadEvent ι → Prop
  | write {offline : Bool} {handle index : ℕ} {input : ι} : thread.phase = .performing offline →
      (handle, index) ∈ thread.multihandle →
      calls.write (thread.interfaces index).context input = .error halt →
      Halts calls thread halt (.write handle input)
  | poll {index : ℕ} {input : ι} {added : Bool} : thread.phase = .polling index →
      index < thread.interfacecount →
      calls.poll (thread.interfaces index).context input = .error halt →
      Halts calls thread halt (.poll input added)
  | done {handle index : ℕ} {message : DoneMessage} {responseCode : Int} {input : ι} :
      thread.phase = .reading → (handle, index) ∈ thread.multihandle →
      message.reported = some responseCode →
      calls.done (thread.interfaces index).context responseCode input = .error halt →
      Halts calls thread halt (.message handle message input)
  | record {index : ℕ} {input : ι} :
      calls.record (thread.interfaces index).context input = .error halt →
      Halts calls thread halt (.record index input)
  | multiCleanup {index : ℕ} : thread.phase = .cleanup index → ¬ index < thread.interfacecount →
      halt = .fault .assertion → Halts calls thread halt (.multiCleanup false)

inductive Stepped (calls : InterfaceCalls ω ι) (thread : NetworkThread ω) :
    ThreadEvent ι → Except Halt (NetworkThread ω) → Prop
  | moved {event : ThreadEvent ι} {next : NetworkThread ω} : Moves calls thread event next →
      Stepped calls thread event (.ok next)
  | halted {event : ThreadEvent ι} {halt : Halt} : Halts calls thread halt event →
      Stepped calls thread event (.error halt)
  | unheld {index : ℕ} {input : ι} {added : Bool} {context : ω} : thread.phase = .polling index →
      calls.poll (thread.interfaces index).context input = .ok (.killed, context) →
      thread.currentOf index = none →
      Stepped calls thread (.poll input added) (.error (.fault .assertion))

variable {calls : InterfaceCalls ω ι} {thread next : NetworkThread ω} {event : ThreadEvent ι}

theorem mem_of_associated {handle index : ℕ} (h : thread.associated handle = some index) :
    (handle, index) ∈ thread.multihandle := by
  obtain ⟨added, hadded, rfl⟩ := Option.map_eq_some_iff.mp h
  have hhandle := List.find?_some hadded
  rw [decide_eq_true_eq] at hhandle
  rw [← hhandle]
  exact List.mem_of_find?_eq_some hadded

theorem stepped_completed {index handle : ℕ} {message : DoneMessage} {input : ι}
    (hphase : thread.phase = .reading) (hadded : (handle, index) ∈ thread.multihandle) :
    Stepped calls thread (.message handle message input)
      (thread.completed calls index handle message input) := by
  have hruns : thread.phase.Runs := by rw [hphase]; trivial
  rw [completed]
  cases hcode : message.responseCode with
  | none => exact .moved (.entered hruns (.inr rfl))
  | some responseCode =>
      have hreported : message.reported = some (if message.succeeded then responseCode else 0) := by
        rw [DoneMessage.reported, hcode, Option.map_some]
      by_cases hdenied : responseCode = 401 ∨ responseCode = 403
      · simp only [if_pos hdenied]
        exact .moved (.entered hruns (.inr rfl))
      by_cases hassociated : message.associated = false
      · simp only [if_neg hdenied, if_pos hassociated]
        exact .moved (.entered hruns (.inr rfl))
      simp only [if_neg hdenied, if_neg hassociated]
      cases hdone : calls.done (thread.interfaces index).context
          (if message.succeeded then responseCode else 0) input with
      | error halt => exact .halted (.done hphase hadded hreported hdone)
      | ok context =>
          cases hremoved : message.removed with
          | true => exact .moved (.ended hruns hadded hreported hdone hremoved)
          | false => exact .moved (.stuck hruns hadded hreported hdone hremoved)

theorem stepped_polled {index : ℕ} {added : Bool} {input : ι} {context : ω} {result : PollResult}
    (hphase : thread.phase = .polling index) (hindex : index < thread.interfacecount)
    (hpoll : calls.poll (thread.interfaces index).context input = .ok (result, context)) :
    Stepped calls thread (.poll input added) (thread.polled index added context result) := by
  cases result with
  | nothing => exact .moved (.idle hphase hpoll)
  | killed =>
      rw [polled]
      cases hcurrent : (thread.interfaces index).current with
      | none => exact .unheld hphase hpoll hcurrent
      | some handle => exact .moved (.killed hphase hpoll hcurrent)
  | created =>
      cases added with
      | true => exact .moved (.added hphase hindex hpoll)
      | false => exact .moved (.notAdded hphase hindex hpoll)

theorem moves_cleanedUp {index : ℕ} {removed : Bool} (hphase : thread.phase = .cleanup index)
    (hindex : index < thread.interfacecount) :
    Moves calls thread (.remove removed) (thread.cleanedUp index removed) := by
  rw [cleanedUp]
  cases hcurrent : (thread.interfaces index).current with
  | none => exact .destroyed hphase hindex hcurrent
  | some handle =>
      cases removed with
      | true => exact .released hphase hindex hcurrent
      | false => exact .gaveUp hphase hindex hcurrent

theorem stepped (calls : InterfaceCalls ω ι) (thread : NetworkThread ω) (event : ThreadEvent ι) :
    Stepped calls thread event (thread.step calls event) := by
  cases event with
  | lock shuttingdown offline =>
      rw [step]
      cases hphase : thread.phase with
      | top =>
          refine .moved (.entered (by rw [hphase]; trivial) ?_)
          cases shuttingdown with
          | true => exact .inr rfl
          | false => exact .inl trivial
      | _ => exact .moved .stayed
  | write handle input =>
      rw [step]
      cases hphase : thread.phase with
      | performing offline =>
          cases hassociated : thread.associated handle with
          | none => exact .moved .stayed
          | some index =>
              have hadded := mem_of_associated hassociated
              cases hwrite : calls.write (thread.interfaces index).context input with
              | error halt =>
                  simp only [hwrite]
                  exact .halted (.write hphase hadded hwrite)
              | ok context =>
                  simp only [hwrite]
                  exact .moved (.written (by rw [hphase]; trivial) hadded hwrite)
      | _ => exact .moved .stayed
  | performed =>
      rw [step]
      cases hphase : thread.phase with
      | performing offline =>
          refine .moved (.entered (by rw [hphase]; trivial) (.inl ?_))
          cases offline <;> trivial
      | _ => exact .moved .stayed
  | poll input added =>
      rw [step]
      cases hphase : thread.phase with
      | polling index =>
          by_cases hindex : index < thread.interfacecount
          · simp only [if_pos hindex]
            cases hpoll : calls.poll (thread.interfaces index).context input with
            | error halt => exact .halted (.poll hphase hindex hpoll)
            | ok polled => exact stepped_polled hphase hindex hpoll
          · simp only [if_neg hindex]
            exact .moved (.entered (by rw [hphase]; trivial) (.inl trivial))
      | _ => exact .moved .stayed
  | message handle message input =>
      rw [step]
      cases hphase : thread.phase with
      | reading =>
          cases hassociated : thread.associated handle with
          | none => exact .moved .stayed
          | some index => exact stepped_completed hphase (mem_of_associated hassociated)
      | _ => exact .moved .stayed
  | noMessage =>
      rw [step]
      cases hphase : thread.phase with
      | reading => exact .moved (.entered (by rw [hphase]; trivial) (.inl trivial))
      | _ => exact .moved .stayed
  | wait succeeded =>
      rw [step]
      cases hphase : thread.phase with
      | waiting =>
          refine .moved (.entered (by rw [hphase]; trivial) ?_)
          cases succeeded with
          | true => exact .inl trivial
          | false => exact .inr rfl
      | _ => exact .moved .stayed
  | remove removed =>
      rw [step]
      cases hphase : thread.phase with
      | cleanup index =>
          by_cases hindex : index < thread.interfacecount
          · simp only [if_pos hindex]
            exact .moved (moves_cleanedUp hphase hindex)
          · simp only [if_neg hindex]
            exact .moved .stayed
      | _ => exact .moved .stayed
  | multiCleanup succeeded =>
      rw [step]
      cases hphase : thread.phase with
      | cleanup index =>
          by_cases hindex : index < thread.interfacecount
          · simp only [if_pos hindex]
            exact .moved .stayed
          · simp only [if_neg hindex]
            cases succeeded with
            | true => exact .moved (.exited hphase hindex)
            | false => exact .halted (.multiCleanup hphase hindex rfl)
      | _ => exact .moved .stayed
  | record index input =>
      rw [step]
      cases hrecord : calls.record (thread.interfaces index).context input with
      | error halt => exact .halted (.record hrecord)
      | ok context => exact .moved (.recorded hrecord)

theorem moves (h : thread.step calls event = .ok next) : Moves calls thread event next := by
  have hstepped := stepped calls thread event
  rw [h] at hstepped
  cases hstepped with
  | moved hmoves => exact hmoves

end NetworkThread

end ServerSdk
