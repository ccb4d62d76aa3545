import ServerSdk.Store.Collections

namespace ServerSdk

open Program

def validatePutBody (put : Json) : Bool :=
  if put.getType ≠ .object then false
  else match put.objectLookup "flags" with
    | none => false
    | some flags =>
        if flags.getType ≠ .object then false
        else match put.objectLookup "segments" with
          | none => false
          | some segments => segments.getType = .object

def renameFlags (data : Json) : Checked Json :=
  match data.objectLookup "flags" with
  | none => .error .assertion
  | some features => .ok ((data.objectDeleteKey "flags").objectSetKey "features" features)

def renamed (data : Json) : Json :=
  (data.objectDeleteKey "flags").objectSetKey "features"
    ((data.objectLookup "flags").getD (.object []))

theorem renameFlags_of_valid {data : Json} (h : validatePutBody data = true) :
    renameFlags data = .ok (renamed data) := by
  rw [renameFlags, renamed]
  cases hflags : data.objectLookup "flags" with
  | some flags => rfl
  | none =>
      rw [validatePutBody, hflags] at h
      split_ifs at h

theorem objectLookup_of_not_object {json : Json} (h : json.getType ≠ .object) (key : String) :
    json.objectLookup key = none := by
  cases json with
  | object fields => exact absurd rfl h
  | _ => rfl

structure PollContext where
  memory : Option String
  size : Nat
  active : Bool
  lastpoll : Rat
  deriving DecidableEq, Repr

namespace PollContext

def writeCallback (context : PollContext) (contents : String) : PollContext :=
  { context with
    memory := some (context.memory.getD "" ++ contents)
    size := context.size + contents.utf8ByteSize }

def resetMemory (context : PollContext) : PollContext := { context with memory := none, size := 0 }

theorem memory_written {text : String} {context : PollContext} (chunks : List String)
    (h : context.memory = some text) :
    (chunks.foldl writeCallback context).memory = some (text ++ String.join chunks) := by
  induction chunks generalizing text context with
  | nil => simpa using h
  | cons chunk chunks ih =>
      have hwritten : (context.writeCallback chunk).memory = some (text ++ chunk) := by
        rw [writeCallback, h]
        rfl
      rw [List.foldl_cons, ih hwritten, String.join_cons, String.append_assoc]

def started (lastpoll : Rat) : PollContext := ⟨none, 0, true, lastpoll⟩

theorem memory_received {chunks : List String} (h : chunks ≠ []) (lastpoll : Rat) :
    (chunks.foldl writeCallback (.started lastpoll)).memory =
      some (String.join chunks) := by
  cases chunks with
  | nil => exact absurd rfl h
  | cons chunk chunks =>
      have hfirst : ((started lastpoll).writeCallback chunk).memory = some chunk := by
        simp [writeCallback, started]
      rw [List.foldl_cons, memory_written chunks hfirst, String.join_cons]

end PollContext

section Processing

variable [Parsing] {σ : Type}

def onPut (store : Store σ) (eventBuffer : String) : Checked (Bool × Store σ) :=
  match Parsing.deserialize eventBuffer with
  | none => .ok (false, store)
  | some put =>
      if put.getType ≠ .object then .ok (false, store)
      else match put.objectLookup "data" with
        | none => .ok (false, store)
        | some data =>
            if validatePutBody data = false then .ok (false, store)
            else do
              let data ← renameFlags data
              store.init data

def updateStore (store : Store σ) (rawupdate : Option String) : Checked (Bool × Store σ) :=
  match rawupdate with
  | none => .error .assertion
  | some rawupdate =>
      match Parsing.deserialize rawupdate with
      | none => .ok (false, store)
      | some update =>
          if validatePutBody update = false then .ok (false, store)
          else do
            let update ← renameFlags update
            store.init update

def done (store : Store σ) (context : PollContext) (responseCode : Int) (now : Rat) :
    Checked (Store σ × PollContext) := do
  if responseCode = 200 then
    let (_, store) ← updateStore store context.memory
    pure (store, { context with active := false, lastpoll := now }.resetMemory)
  else pure (store, { context with active := false }.resetMemory)

inductive Delivery where
  | put (eventBuffer : String)
  | polled (chunks : List String)
  deriving DecidableEq, Repr

namespace Delivery

def process (delivery : Delivery) (now : Rat) (store : Store σ) : Checked (Store σ) :=
  match delivery with
  | .put eventBuffer => do
      let (_, store) ← onPut store eventBuffer
      pure store
  | .polled chunks => do
      let (store, _) ← done store (chunks.foldl PollContext.writeCallback (.started 0)) 200 now
      pure store

def accepted : Delivery → Option Json
  | .put eventBuffer =>
      ((Parsing.deserialize eventBuffer).bind fun put => put.objectLookup "data").filter validatePutBody
  | .polled chunks => (Parsing.deserialize (String.join chunks)).filter validatePutBody

def sets (delivery : Delivery) : Option Json := delivery.accepted.map renamed

def stored (store : Store σ) (sets : Option Json) : Checked (Bool × Store σ) :=
  match sets with
  | none => .ok (false, store)
  | some sets => store.init sets

theorem onPut_eq (store : Store σ) (text : String) :
    onPut store text = stored store (Delivery.put text).sets := by
  rw [onPut, sets, accepted]
  cases Parsing.deserialize text with
  | none => rfl
  | some put =>
      simp only [Option.bind_some]
      split_ifs with hobject
      · rw [objectLookup_of_not_object hobject]
        rfl
      · cases put.objectLookup "data" with
        | none => rfl
        | some data =>
            simp only [Option.filter_some]
            cases hvalid : validatePutBody data with
            | false => rfl
            | true =>
                rw [renameFlags_of_valid hvalid]
                rfl

theorem updateStore_eq (store : Store σ) (chunks : List String) :
    updateStore store (some (String.join chunks)) = stored store (Delivery.polled chunks).sets := by
  rw [updateStore, sets, accepted]
  cases Parsing.deserialize (String.join chunks) with
  | none => rfl
  | some update =>
      simp only [Option.filter_some]
      cases hvalid : validatePutBody update with
      | false => rfl
      | true =>
          rw [renameFlags_of_valid hvalid]
          rfl

theorem process_eq {delivery : Delivery} (h : delivery ≠ .polled []) (now : Rat) (store : Store σ) :
    delivery.process now store = (do
      let (_, store) ← stored store delivery.sets
      pure store) := by
  cases delivery with
  | put text => rw [process, onPut_eq]
  | polled chunks =>
      have hchunks : chunks ≠ [] := fun hempty => h (by rw [hempty])
      rw [process, done, if_pos rfl, PollContext.memory_received hchunks, updateStore_eq]
      cases stored store (Delivery.polled chunks).sets <;> rfl

theorem process_empty (now : Rat) (store : Store σ) :
    (Delivery.polled []).process now store = .error .assertion := rfl

end Delivery

end Processing

end ServerSdk
