import ServerSdk.Program.Interleaving
import ServerSdk.Redis.Upsert

namespace ServerSdk

open Program Redis

def initedKey : String := "$inited"

inductive RedisCall where
  | init (config : RedisConfig) (collections : List StoreCollectionState)
  | get (config : RedisConfig) (kind key : String)
  | all (config : RedisConfig) (kind : String)
  | upsert (call : UpsertCall)
  | initialized (config : RedisConfig)
  deriving DecidableEq, Repr

inductive RedisResult where
  | status (success : Bool)
  | item (result : Option StoreCollectionItem)
  | items (result : Option (List StoreCollectionItem))
  deriving DecidableEq, Repr

def RedisResult.success : RedisResult → Bool
  | .status success => success
  | .item result => result.isSome
  | .items result => result.isSome

inductive RedisTask where
  | opening (commands : List (Option Command))
  | queueing (command : Option Command) (rest : List (Option Command))
  | committing
  | getting (config : RedisConfig) (kind key : String)
  | listing (config : RedisConfig) (kind : String)
  | upserting (call : UpsertCall) (task : UpsertTask)
  | asking (config : RedisConfig)
  | returned (result : RedisResult)
  deriving DecidableEq, Repr

def initItem (key : String) (item : StoreCollectionStateItem) : Option Command :=
  item.item.buffer.map fun buffer => .hset key item.key buffer

def initCollection (config : RedisConfig) (collection : StoreCollectionState) :
    List (Option Command) :=
  let key := config.hashKey collection.kind
  some (.del key) :: collection.items.map (initItem key)

def initCommands (config : RedisConfig) (collections : List StoreCollectionState) :
    List (Option Command) :=
  collections.flatMap (initCollection config) ++ [some (.set (config.hashKey initedKey) "")]

namespace RedisTask

def queue : List (Option Command) → RedisTask
  | [] => .committing
  | command :: rest => .queueing command rest

def result : RedisTask → Option RedisResult
  | .returned result => some result
  | .upserting _ (.returned success) => some (.status success)
  | _ => none

def begin : RedisCall → RedisTask
  | .init config collections => .opening (initCommands config collections)
  | .get config kind key => .getting config kind key
  | .all config kind => .listing config kind
  | .upsert call => .upserting call .watching
  | .initialized config => .asking config

section Receiving

variable [Parsing]

def command : RedisTask → Checked (Option Command)
  | .opening _ => .ok (some .multi)
  | .queueing none _ => .error .nullText
  | .queueing (some command) _ => .ok (some command)
  | .committing => .ok (some .exec)
  | .getting config kind key => .ok (some (.hget (config.hashKey kind) key))
  | .listing config kind => .ok (some (.hgetall (config.hashKey kind)))
  | .upserting call task => .ok (call.command task)
  | .asking config => .ok (some (.existsKey (config.hashKey initedKey)))
  | .returned _ => .ok none

def itemOf (text : String) : Option StoreCollectionItem :=
  (Parsing.deserialize text).map fun feature => ⟨some text, text.utf8ByteSize, getDataVersion feature⟩

def receiveGet : Option Reply → Option StoreCollectionItem
  | none => none
  | some .nil => some absentItem
  | some (.string text) => itemOf text
  | some _ => none

-- Every second element is a value; an odd one out is read past the end of the array.
def receiveItems : List Reply → Checked (Option (List StoreCollectionItem))
  | [] => .ok (some [])
  | [_] => .error .nullText
  | _ :: .string text :: elements =>
      match itemOf text with
      | none => .ok none
      | some item => do
          let items ← receiveItems elements
          pure (items.map (item :: ·))
  | _ :: _ :: _ => .ok none

def receiveAll : Option Reply → Checked (Option (List StoreCollectionItem))
  | none => .error .nullText
  | some .nil => .ok (some [])
  | some (.array elements) => receiveItems elements
  | some _ => .ok none

def receiveInitialized (reply : Option Reply) : Bool :=
  !redisCheckReply reply .integer ||
    match reply with
    | some (.integer value) => value ≠ 0
    | _ => false

def receive : RedisTask → Option Reply → Checked RedisTask
  | .opening commands, reply =>
      .ok (if redisCheckStatus reply "OK" then queue commands else .returned (.status false))
  | .queueing _ rest, reply =>
      .ok (if redisCheckStatus reply "QUEUED" then queue rest else .returned (.status false))
  | .committing, reply => .ok (.returned (.status (redisCheckReply reply .array)))
  | .getting _ _ _, reply => .ok (.returned (.item (receiveGet reply)))
  | .listing _ _, reply => do
      let items ← receiveAll reply
      pure (.returned (.items items))
  | .upserting call task, reply => .ok (.upserting call (call.receive task reply))
  | .asking _, reply => .ok (.returned (.status (receiveInitialized reply)))
  | .returned result, _ => .ok (.returned result)

end Receiving

end RedisTask

end ServerSdk
