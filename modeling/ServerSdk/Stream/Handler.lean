import ServerSdk.Delivery.Put
import ServerSdk.Store.Versioned

namespace ServerSdk

open Program

inductive ParsePathStatus where
  | success (kind : FeatureKind) (key : String)
  | ignore
  | failure
  deriving DecidableEq, Repr

def keyAfter (start path : String) : Option String :=
  if start.toList.isPrefixOf path.toList then some (String.ofList (path.toList.drop start.length))
  else none

def parsePath (path : String) : ParsePathStatus :=
  match keyAfter "/segments/" path with
  | some key => .success .segment key
  | none =>
      match keyAfter "/flags/" path with
      | some key => .success .flag key
      | none => .ignore

def getEventPath (event : Json) : ParsePathStatus :=
  match event.objectLookup "path" with
  | some (.text path) => parsePath path
  | _ => .failure

section Handling

variable [Parsing] {σ : Type}

def onPatch (store : Store σ) (eventBuffer : String) : Checked (Bool × Store σ) :=
  match Parsing.deserialize eventBuffer with
  | none => .ok (false, store)
  | some data =>
      if data.getType ≠ .object then .ok (false, store)
      else match getEventPath data with
        | .failure => .ok (false, store)
        | .ignore => .ok (true, store)
        | .success kind _ =>
            match data.objectLookup "data" with
            | none => .ok (false, store)
            | some tmp => store.upsert kind tmp

def onDelete (store : Store σ) (eventBuffer : String) : Checked (Bool × Store σ) :=
  match Parsing.deserialize eventBuffer with
  | none => .ok (false, store)
  | some data =>
      if data.getType ≠ .object then .ok (false, store)
      else match getEventPath data with
        | .failure => .ok (false, store)
        | .ignore => .ok (true, store)
        | .success kind key =>
            match data.objectLookup "version" with
            | none => .ok (false, store)
            | some tmp =>
                if tmp.getType ≠ .number then .ok (false, store)
                else store.remove kind key (UInt32.ofNat (toUnsignedInt tmp.getNumber))

def onEvent (store : Store σ) (eventName eventBuffer : String) : Checked (Bool × Store σ) :=
  if eventName = "put" then onPut store eventBuffer
  else if eventName = "patch" then onPatch store eventBuffer
  else if eventName = "delete" then onDelete store eventBuffer
  else .ok (true, store)

def onEvents : List (String × String) → Store σ → Checked (List Bool × Store σ)
  | [], store => .ok ([], store)
  | (eventName, eventBuffer) :: events, store => do
      let (status, store) ← onEvent store eventName eventBuffer
      let (statuses, store) ← onEvents events store
      pure (status :: statuses, store)

end Handling

inductive StreamMessage where
  | put (data : Json)
  | patch (kind : FeatureKind) (item : Json)
  | delete (kind : FeatureKind) (key : String) (version : Rat)
  | ignored
  | malformed

def putField : FeatureKind → String
  | .flag => "flags"
  | .segment => "segments"

def putContent (data : Json) : ItemMap := fun (kind, key) =>
  (data.objectLookup (putField kind)).bind fun items => items.objectLookup key

def tombstone (key : String) (version : Rat) : Json :=
  .object [("version", .number version), ("key", .text key), ("deleted", .bool true)]

namespace StreamMessage

def readPut (body : Json) : StreamMessage :=
  match body.objectLookup "data" with
  | none => .malformed
  | some data => if validatePutBody data then .put data else .malformed

def readPatch (body : Json) : StreamMessage :=
  match getEventPath body with
  | .failure => .malformed
  | .ignore => .ignored
  | .success kind _ =>
      match body.objectLookup "data" with
      | none => .malformed
      | some item => if validateData item then .patch kind item else .malformed

def readDelete (body : Json) : StreamMessage :=
  match getEventPath body with
  | .failure => .malformed
  | .ignore => .ignored
  | .success kind key =>
      match body.objectLookup "version" with
      | some (.number version) => .delete kind key version
      | _ => .malformed

def readBody [Parsing] (read : Json → StreamMessage) (text : String) : StreamMessage :=
  match Parsing.deserialize text with
  | none => .malformed
  | some body => if body.getType = .object then read body else .malformed

def read [Parsing] (name text : String) : StreamMessage :=
  if name = "put" then readBody readPut text
  else if name = "patch" then readBody readPatch text
  else if name = "delete" then readBody readDelete text
  else .ignored

def accepted : StreamMessage → Bool
  | .malformed => false
  | _ => true

def apply (content : ItemMap) : StreamMessage → ItemMap
  | .put data => putContent data
  | .patch kind item =>
      VersionedMap.apply statedVersion content (.offer (kind, (textKey item).getD "") item)
  | .delete kind key version =>
      VersionedMap.apply statedVersion content (.offer (kind, key) (tombstone key version))
  | .ignored | .malformed => content

end StreamMessage

structure UnsignedVersion (item : Json) : Prop where
  natural : NaturalVersion item
  fits : FitsUnsigned item

structure PutItems (data : Json) : Prop where
  unique : data.Unique
  items : ∀ kind items, data.objectLookup (putField kind) = some items →
    items.Unique ∧ ∀ key item, (key, item) ∈ items.iterFields → Carries key item

def StreamMessage.Sound (p : Json → Prop) : StreamMessage → Prop
  | .put data => PutItems data ∧ ∀ index item, putContent data index = some item → p item
  | .patch _ item => p item
  | .delete _ key version => p (tombstone key version)
  | .ignored | .malformed => True

end ServerSdk
