import Mathlib.Data.List.Range
import Mathlib.Logic.Function.Basic
import ServerSdk.Program.Run
import ServerSdk.Program.Steps

namespace ServerSdk

open Program

inductive PollResult where
  | nothing
  | killed
  | created
  deriving DecidableEq, Repr

structure InterfaceCalls (ω ι : Type) where
  poll : ω → ι → Except Halt (PollResult × ω)
  write : ω → ι → Except Halt ω
  done : ω → Int → ι → Except Halt ω
  record : ω → ι → Except Halt ω

structure NetworkInterface (ω : Type) where
  context : ω
  current : Option ℕ

inductive NetworkPhase where
  | top
  | performing (offline : Bool)
  | polling (index : ℕ)
  | reading
  | waiting
  | cleanup (index : ℕ)
  | exited (cleaned : Bool)
  deriving DecidableEq, Repr

structure NetworkThread (ω : Type) where
  interfaces : ℕ → NetworkInterface ω
  interfacecount : ℕ
  multihandle : List (ℕ × ℕ)
  created : ℕ
  freed : List ℕ
  destroyed : List ℕ
  phase : NetworkPhase

structure DoneMessage where
  responseCode : Option Int
  succeeded : Bool
  associated : Bool
  removed : Bool
  deriving DecidableEq, Repr

inductive ThreadEvent (ι : Type) where
  | lock (shuttingdown offline : Bool)
  | write (handle : ℕ) (input : ι)
  | performed
  | poll (input : ι) (added : Bool)
  | message (handle : ℕ) (message : DoneMessage) (input : ι)
  | noMessage
  | wait (succeeded : Bool)
  | remove (removed : Bool)
  | multiCleanup (succeeded : Bool)
  | record (index : ℕ) (input : ι)

namespace NetworkThread

variable {ω ι : Type}

def start (contexts : ℕ → ω) (interfacecount : ℕ) : NetworkThread ω :=
  ⟨fun index => ⟨contexts index, none⟩, interfacecount, [], 0, [], [], .top⟩

def enter (thread : NetworkThread ω) (phase : NetworkPhase) : NetworkThread ω :=
  { thread with phase }

def update (thread : NetworkThread ω) (index : ℕ) (interface : NetworkInterface ω) :
    NetworkThread ω :=
  { thread with interfaces := Function.update thread.interfaces index interface }

def associated (thread : NetworkThread ω) (handle : ℕ) : Option ℕ :=
  (thread.multihandle.find? fun added => added.1 = handle).map Prod.snd

def removeAndFreeHandle (thread : NetworkThread ω) (handle : ℕ) : NetworkThread ω :=
  { thread with
    multihandle := thread.multihandle.filter fun added => added.1 ≠ handle
    freed := thread.freed ++ [handle] }

def addHandle (thread : NetworkThread ω) (index handle : ℕ) : NetworkThread ω :=
  { thread with multihandle := thread.multihandle ++ [(handle, index)] }

def opened (thread : NetworkThread ω) (index : ℕ) (context : ω) : NetworkThread ω :=
  { thread.update index ⟨context, some thread.created⟩ with created := thread.created + 1 }

-- The timeout of a stream asserts that there is a handle to remove.
def polled (thread : NetworkThread ω) (index : ℕ) (added : Bool) (context : ω) :
    PollResult → Except Halt (NetworkThread ω)
  | .nothing => pure ((thread.update index ⟨context, (thread.interfaces index).current⟩).enter
      (.polling (index + 1)))
  | .killed =>
      match (thread.interfaces index).current with
      | none => .error (.fault .assertion)
      | some handle => pure (((thread.removeAndFreeHandle handle).update index ⟨context, none⟩).enter
          (.polling (index + 1)))
  | .created =>
      let handle := thread.created
      let thread := thread.opened index context
      if added then pure ((thread.addHandle index handle).enter (.polling (index + 1)))
      else pure (thread.enter (.cleanup 0))

def completed (calls : InterfaceCalls ω ι) (thread : NetworkThread ω) (index handle : ℕ)
    (message : DoneMessage) (input : ι) : Except Halt (NetworkThread ω) :=
  match message.responseCode with
  | none => pure (thread.enter (.cleanup 0))
  | some responseCode =>
      if responseCode = 401 ∨ responseCode = 403 then pure (thread.enter (.cleanup 0))
      else if message.associated = false then pure (thread.enter (.cleanup 0))
      else do
        let context ← calls.done (thread.interfaces index).context
          (if message.succeeded then responseCode else 0) input
        let thread := thread.update index ⟨context, none⟩
        if message.removed then pure (thread.removeAndFreeHandle handle)
        else pure (thread.enter (.cleanup 0))

def destroy (thread : NetworkThread ω) (index : ℕ) : NetworkThread ω :=
  { thread.update index ⟨(thread.interfaces index).context, none⟩ with
    destroyed := thread.destroyed ++ [index] }

def cleanedUp (thread : NetworkThread ω) (index : ℕ) (removed : Bool) : NetworkThread ω :=
  match (thread.interfaces index).current with
  | none => (thread.destroy index).enter (.cleanup (index + 1))
  | some handle =>
      if removed then
        ((thread.removeAndFreeHandle handle).destroy index).enter (.cleanup (index + 1))
      else thread.enter (.exited false)

def step (calls : InterfaceCalls ω ι) (thread : NetworkThread ω) :
    ThreadEvent ι → Except Halt (NetworkThread ω)
  | .lock shuttingdown offline =>
      match thread.phase with
      | .top => pure (thread.enter (if shuttingdown then .cleanup 0 else .performing offline))
      | _ => pure thread
  | .write handle input =>
      match thread.phase, thread.associated handle with
      | .performing _, some index => do
          let context ← calls.write (thread.interfaces index).context input
          pure (thread.update index ⟨context, (thread.interfaces index).current⟩)
      | _, _ => pure thread
  | .performed =>
      match thread.phase with
      | .performing offline => pure (thread.enter (if offline then .reading else .polling 0))
      | _ => pure thread
  | .poll input added =>
      match thread.phase with
      | .polling index =>
          if index < thread.interfacecount then do
            let (result, context) ← calls.poll (thread.interfaces index).context input
            thread.polled index added context result
          else pure (thread.enter .reading)
      | _ => pure thread
  | .message handle message input =>
      match thread.phase, thread.associated handle with
      | .reading, some index => thread.completed calls index handle message input
      | _, _ => pure thread
  | .noMessage =>
      match thread.phase with
      | .reading => pure (thread.enter .waiting)
      | _ => pure thread
  | .wait succeeded =>
      match thread.phase with
      | .waiting => pure (thread.enter (if succeeded then .top else .cleanup 0))
      | _ => pure thread
  | .remove removed =>
      match thread.phase with
      | .cleanup index =>
          if index < thread.interfacecount then pure (thread.cleanedUp index removed)
          else pure thread
      | _ => pure thread
  | .multiCleanup succeeded =>
      match thread.phase with
      | .cleanup index =>
          if index < thread.interfacecount then pure thread
          else if succeeded then pure (thread.enter (.exited true))
          else .error (.fault .assertion)
      | _ => pure thread
  | .record index input => do
      let context ← calls.record (thread.interfaces index).context input
      pure (thread.update index ⟨context, (thread.interfaces index).current⟩)

end NetworkThread

end ServerSdk
