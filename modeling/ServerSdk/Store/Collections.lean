import ServerSdk.Store.Memory

namespace ServerSdk

open Program

class Parsing extends Externals where
  deserialize : String → Option Json

mutual

def Json.compact : Json → String
  | .null => "null"
  | .bool b => if b then "true" else "false"
  | .number n => toString n.num
  | .text s => "\"" ++ s ++ "\""
  | .array items => "[" ++ Json.compactItems items ++ "]"
  | .object fields => "\x7b" ++ Json.compactFields fields ++ "\x7d"

def Json.compactItems : List Json → String
  | [] => ""
  | [item] => item.compact
  | item :: other :: items => item.compact ++ "," ++ Json.compactItems (other :: items)

def Json.compactFields : List (String × Json) → String
  | [] => ""
  | [(key, item)] => "\"" ++ key ++ "\":" ++ item.compact
  | (key, item) :: other :: fields =>
      "\"" ++ key ++ "\":" ++ item.compact ++ "," ++ Json.compactFields (other :: fields)

end

@[reducible] def literalParsing (known : List Json) : Parsing where
  toExternals := { literalExternals with serialize := Json.compact }
  deserialize text := known.find? fun json => json.compact = text

structure StoreCollectionItem where
  buffer : Option String
  bufferSize : Nat
  version : Nat
  deriving DecidableEq, Repr

structure StoreCollectionStateItem where
  key : String
  item : StoreCollectionItem
  deriving DecidableEq, Repr

structure StoreCollectionState where
  kind : String
  items : List StoreCollectionStateItem
  deriving DecidableEq, Repr

structure StoreInterface (β : Type) where
  init : List StoreCollectionState → β → Bool × β
  get : String → String → β → Option StoreCollectionItem × β
  all : String → β → Option (List StoreCollectionItem) × β
  upsert : String → StoreCollectionItem → String → β → Bool × β
  initialized : β → Bool × β

def makeDeletedData (key : String) (version : Nat) : Json :=
  (((Json.object []).objectSetKey "key" (.text key)).objectSetKey "version"
    (.number version)).objectSetKey "deleted" (.bool true)

section Collections

variable [Externals]

def collectionItem (item : Json) : StoreCollectionItem where
  buffer := some (Externals.serialize item)
  bufferSize := (Externals.serialize item).utf8ByteSize
  version := getDataVersion item

theorem collectionItem_version (item : Json) :
    (collectionItem item).version = getDataVersion item := rfl

def makeStateItems : List Json → Checked (List StoreCollectionStateItem)
  | [] => .ok []
  | setItem :: items =>
      if validateData setItem = false then makeStateItems items
      else do
        match ← getDataKey setItem with
        | none => .error .nullText
        | some key => do
            let rest ← makeStateItems items
            pure (⟨key, collectionItem setItem⟩ :: rest)

def makeKindCollection (kind : Option String) (items : Json) : Checked StoreCollectionState :=
  match kind with
  | none => .error .assertion
  | some kind => do
      let items ← makeStateItems items.getIter
      pure ⟨kind, items⟩

def makeKindCollections : List (Option String × Json) → Checked (List StoreCollectionState)
  | [] => .ok []
  | (kind, items) :: sets => do
      let collection ← makeKindCollection kind items
      let collections ← makeKindCollections sets
      pure (collection :: collections)

def makeCollections (sets : Json) : Checked (List StoreCollectionState) :=
  makeKindCollections sets.iterEntries

end Collections

abbrev BackendContent := String → String → Option StoreCollectionItem

def absentItem : StoreCollectionItem := ⟨none, 0, 0⟩

def contentOf (collections : List StoreCollectionState) : BackendContent := fun kind key =>
  (collections.find? fun collection => collection.kind = kind).bind fun collection =>
    (collection.items.find? fun item => item.key = key).map StoreCollectionStateItem.item

structure DistinctCollections (collections : List StoreCollectionState) : Prop where
  kinds : (collections.map StoreCollectionState.kind).Nodup
  keys : ∀ collection ∈ collections, (collection.items.map StoreCollectionStateItem.key).Nodup

def newerItem (held : Option StoreCollectionItem) (offered : StoreCollectionItem) :
    StoreCollectionItem :=
  match held with
  | none => offered
  | some old => if old.version < offered.version then offered else old

def BackendContent.offer (content : BackendContent) (kind key : String)
    (item : StoreCollectionItem) : BackendContent := fun kind' key' =>
  if kind' = kind ∧ key' = key then some (newerItem (content kind key) item)
  else content kind' key'

def Lists (held : String → Option StoreCollectionItem) (items : List StoreCollectionItem) : Prop :=
  ∃ keyed : List (String × StoreCollectionItem), items = keyed.map Prod.snd ∧
    (keyed.map Prod.fst).Nodup ∧ ∀ key item, (key, item) ∈ keyed ↔ held key = some item

structure Conforms {β : Type} (interface : StoreInterface β) (holds : β → BackendContent) :
    Prop where
  init : ∀ collections b, DistinctCollections collections →
    (interface.init collections b).1 = true →
    holds (interface.init collections b).2 = contentOf collections
  init_failed : ∀ collections b, (interface.init collections b).1 = false →
    holds (interface.init collections b).2 = holds b
  get : ∀ kind key b item, (interface.get kind key b).1 = some item →
    item = (holds b kind key).getD absentItem
  get_keeps : ∀ kind key b, holds (interface.get kind key b).2 = holds b
  all : ∀ kind b items, (interface.all kind b).1 = some items → Lists (holds b kind) items
  all_keeps : ∀ kind b, holds (interface.all kind b).2 = holds b
  upsert : ∀ kind item key b, (interface.upsert kind item key b).1 = true →
    holds (interface.upsert kind item key b).2 = (holds b).offer kind key item
  upsert_failed : ∀ kind item key b, (interface.upsert kind item key b).1 = false →
    holds (interface.upsert kind item key b).2 = holds b
  initialized_keeps : ∀ b, holds (interface.initialized b).2 = holds b

end ServerSdk
