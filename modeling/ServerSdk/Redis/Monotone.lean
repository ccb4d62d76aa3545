import ServerSdk.Redis.Upsert
import ServerSdk.Store.Synced

namespace ServerSdk

open Program Redis PersistentStoreContext

structure VersionMonotone (old : Option Json) (item stored : Json) : Prop where
  version : getDataVersion stored = max ((old.map getDataVersion).getD 0) (getDataVersion item)
  kept : ∀ held, old = some held → getDataVersion held = getDataVersion item → stored = held

def replaced (old : Option Json) (item : Json) : Json :=
  match old with
  | none => item
  | some held =>
      if isDataDeleted held = false ∧ getDataVersion item ≤ getDataVersion held then held else item

def NewerThanDeletion (old : Option Json) (item : Json) : Prop :=
  ∀ held, old = some held → isDataDeleted held = true →
    getDataVersion held < getDataVersion item ∨ held = item

theorem versionMonotone_some {held item stored : Json} : VersionMonotone (some held) item stored ↔
    getDataVersion stored = max (getDataVersion held) (getDataVersion item) ∧
      (getDataVersion held = getDataVersion item → stored = held) := by
  constructor
  · rintro ⟨hversion, hkept⟩
    exact ⟨hversion, hkept held rfl⟩
  · rintro ⟨hversion, hkept⟩
    refine ⟨hversion, ?_⟩
    rintro _ ⟨⟩
    exact hkept

theorem newerThanDeletion_some {held item : Json} : NewerThanDeletion (some held) item ↔
    (isDataDeleted held = true → getDataVersion held < getDataVersion item ∨ held = item) := by
  constructor
  · intro h
    exact h held rfl
  · rintro h _ ⟨⟩
    exact h

theorem versionMonotone_newer {held item : Json} (h : getDataVersion held < getDataVersion item) :
    VersionMonotone (some held) item item := by
  rw [versionMonotone_some]
  exact ⟨(max_eq_right h.le).symm, fun heq => absurd heq h.ne⟩

theorem versionMonotone_kept {held item : Json} (h : getDataVersion item ≤ getDataVersion held) :
    VersionMonotone (some held) item held := by
  rw [versionMonotone_some]
  exact ⟨(max_eq_left h).symm, fun _ => rfl⟩

theorem versionMonotone_replaced_iff {old : Option Json} {item : Json} :
    VersionMonotone old item (replaced old item) ↔ NewerThanDeletion old item := by
  cases old with
  | none =>
      constructor
      · intro _ held hheld
        cases hheld
      · intro _
        exact ⟨(Nat.zero_max _).symm, fun _ h => by cases h⟩
  | some held =>
      rw [newerThanDeletion_some, replaced]
      split_ifs with hkept
      · constructor
        · intro _ hdeleted
          rw [hkept.1] at hdeleted
          cases hdeleted
        · intro _
          exact versionMonotone_kept hkept.2
      · constructor
        · intro hmonotone _
          obtain ⟨hversion, hequal⟩ := versionMonotone_some.mp hmonotone
          rcases lt_or_eq_of_le (max_eq_right_iff.mp hversion.symm) with hlt | heq
          · exact .inl hlt
          · exact .inr (hequal heq).symm
        · intro hnewer
          cases hdeleted : isDataDeleted held with
          | false =>
              apply versionMonotone_newer
              by_contra hle
              exact hkept ⟨hdeleted, not_lt.mp hle⟩
          | true =>
              rcases hnewer hdeleted with hlt | rfl
              · exact versionMonotone_newer hlt
              · exact versionMonotone_kept le_rfl

theorem replaced_eq_newer {old : Option Json} {item : Json} (h : NewerThanDeletion old item) :
    some (replaced old item) = VersionedMap.newer getDataVersion old item := by
  cases old with
  | none => rfl
  | some held =>
      rw [replaced, VersionedMap.newer]
      split_ifs with hkept hlt hlt
      · omega
      · rfl
      · rfl
      · cases hdeleted : isDataDeleted held with
        | false => exact absurd ⟨hdeleted, not_lt.mp hlt⟩ hkept
        | true =>
            rcases h held rfl hdeleted with hlt' | rfl
            · exact absurd hlt' hlt
            · rfl

theorem hashKey_inj {config : RedisConfig} {kind kind' : FeatureKind} :
    config.hashKey (featureKindToString kind) = config.hashKey (featureKindToString kind') ↔
      kind = kind' := by
  rw [RedisConfig.hashKey, RedisConfig.hashKey, String.append_right_inj]
  exact featureKindToString_injective.eq_iff

section Upserts

variable [Parsing]

namespace UpsertCall

def storedItem (call : UpsertCall) (server : Server) : Option Json :=
  (call.storedText server).bind Parsing.deserialize

structure Ready (call : UpsertCall) (id : ℕ) (server : Server) : Prop where
  queue : (server.connections id).queue = none
  hashes : server.Hashes call.hashKey
  decodes : ∀ text, call.storedText server = some text → (Parsing.deserialize text).isSome

structure Upserts (call : UpsertCall) (item : Json) : Prop where
  version : call.feature.version = getDataVersion item
  decodes : Parsing.deserialize call.serialized = some item

variable {call : UpsertCall} {id : ℕ} {server : Server} {item : Json}

theorem newText_of_none (h : call.storedText server = none) :
    call.newText server = some call.serialized := by
  rw [newText, h]
  exact if_pos rfl

theorem newText_of_kept {text : String} {held : Json} (h : call.storedText server = some text)
    (hheld : Parsing.deserialize text = some held) (hlive : isDataDeleted held = false)
    (hle : call.feature.version ≤ getDataVersion held) : call.newText server = some text := by
  have hanswered : call.answered (some text) = .returned true := by
    simp [answered, hheld, hlive, compared, hle]
  rw [newText, h, hanswered]
  simp

theorem newText_of_replaced {text : String} {held : Json} (h : call.storedText server = some text)
    (hheld : Parsing.deserialize text = some held)
    (hnot : ¬(isDataDeleted held = false ∧ call.feature.version ≤ getDataVersion held)) :
    call.newText server = some call.serialized := by
  have hanswered : call.answered (some text) = .opening call.serialized := by
    rw [answered, hheld]
    cases hdeleted : isDataDeleted held with
    | true => simp [compared, hdeleted]
    | false =>
        have hlt : ¬call.feature.version ≤ getDataVersion held := fun hle => hnot ⟨hdeleted, hle⟩
        simp [compared, hdeleted, hlt]
  rw [newText, h, hanswered]
  simp

theorem newText_decodes (hready : call.Ready id server) (hitem : call.Upserts item) :
    (call.newText server).bind Parsing.deserialize =
      some (replaced (call.storedItem server) item) := by
  rw [storedItem]
  cases htext : call.storedText server with
  | none =>
      rw [newText_of_none htext]
      exact hitem.decodes
  | some text =>
      obtain ⟨held, hheld⟩ := Option.isSome_iff_exists.mp (hready.decodes text htext)
      rw [Option.bind_some, hheld, replaced, ← hitem.version]
      split_ifs with hkept
      · rw [newText_of_kept htext hheld hkept.1 hkept.2]
        exact hheld
      · rw [newText_of_replaced htext hheld hkept]
        exact hitem.decodes

theorem Ready.answered (hready : call.Ready id server) :
    call.answered (call.storedText server) ≠ .returned false := by
  have hcompared : ∀ existing, call.compared existing ≠ .returned false := by
    intro existing
    cases existing with
    | none => simp [compared]
    | some existing =>
        rw [compared]
        split_ifs <;> simp
  cases htext : call.storedText server with
  | none => exact hcompared none
  | some text =>
      obtain ⟨held, hheld⟩ := Option.isSome_iff_exists.mp (hready.decodes text htext)
      rw [UpsertCall.answered, hheld]
      exact hcompared _

theorem run_replaced (hready : call.Ready id server) (hitem : call.Upserts item) :
    (call.run id server).1 = .returned true ∧
      call.storedItem (call.run id server).2 = some (replaced (call.storedItem server) item) := by
  obtain ⟨hreturned, houtcome⟩ := run_spec hready.queue hready.hashes hready.answered
  refine ⟨hreturned, ?_⟩
  rw [storedItem, houtcome.stored]
  exact newText_decodes hready hitem

end UpsertCall

inductive RedisUpdate where
  | upsert (kind : FeatureKind) (item : Json)
  | remove (kind : FeatureKind) (key : String) (version : UInt32)
  | bufferless (kind : FeatureKind) (key : String) (version : UInt32)

namespace RedisUpdate

def kind : RedisUpdate → FeatureKind
  | .upsert kind _ | .remove kind _ _ | .bufferless kind _ _ => kind

def item : RedisUpdate → Json
  | .upsert _ item => item
  | .remove _ key version => Store.deletedItem key version
  | .bufferless _ key version => makeDeletedData key version.toNat

def feature : RedisUpdate → StoreCollectionItem
  | .upsert _ item => collectionItem item
  | .remove _ key version => collectionItem (Store.deletedItem key version)
  | .bufferless _ _ version => ⟨none, 0, version.toNat⟩

def storeCall : RedisUpdate → StoreCall
  | .upsert kind item => .upsert kind item
  | .remove kind key version => .remove kind key version
  | .bufferless kind key version => .upsert kind (makeDeletedData key version.toNat)

def key : RedisUpdate → String
  | .upsert _ item => (textKey item).getD ""
  | .remove _ key _ | .bufferless _ key _ => key

def call (update : RedisUpdate) (config : RedisConfig) : UpsertCall :=
  ⟨config, featureKindToString update.kind, update.feature, update.key⟩

structure Valid (update : RedisUpdate) : Prop where
  item : validateData update.item = true
  storable : Storable update.item

variable {update : RedisUpdate}

theorem Valid.carries (h : update.Valid) : Carries update.key update.item := by
  cases update with
  | upsert kind item =>
      obtain ⟨key, hcarries⟩ := exists_carries h.item
      have htext : textKey item = some key := hcarries.textKey_eq
      rw [RedisUpdate.key, htext]
      exact hcarries
  | remove kind key version => exact deletedItem_carries key version
  | bufferless kind key version => exact makeDeletedData_carries key _

theorem Valid.upserts (h : update.Valid) (config : RedisConfig) :
    (update.call config).Upserts update.item := by
  cases update with
  | upsert kind item => exact ⟨rfl, h.storable⟩
  | remove kind key version => exact ⟨collectionItem_version _, h.storable⟩
  | bufferless kind key version =>
      exact ⟨(getDataVersion_of_natural version.toNat_lt rfl).symm, h.storable⟩

theorem Valid.steps (h : update.Valid) :
    update.storeCall.steps = [.offer (update.kind, update.key) update.item] := by
  cases update with
  | upsert kind item => exact steps_of_carries h.carries
  | remove kind key version => rfl
  | bufferless kind key version => exact steps_of_carries (makeDeletedData_carries key _)

end RedisUpdate

def itemIn (config : RedisConfig) (server : Server) (kind : FeatureKind) (key : String) :
    Option Json :=
  (server.field (config.hashKey (featureKindToString kind)) key).bind Parsing.deserialize

structure RedisKeeps (config : RedisConfig) (server : Server) (map : ItemMap) : Prop where
  content : ∀ kind key, itemIn config server kind key = map (kind, key)
  decodes : ∀ kind key text,
    server.field (config.hashKey (featureKindToString kind)) key = some text →
    (Parsing.deserialize text).isSome
  hashes : ∀ kind, server.Hashes (config.hashKey (featureKindToString kind))
  queue : ∀ id, (server.connections id).queue = none

variable {config : RedisConfig} {server : Server} {map : ItemMap} {update : RedisUpdate}

theorem RedisKeeps.ready (h : RedisKeeps config server map) (update : RedisUpdate) (id : ℕ) :
    (update.call config).Ready id server :=
  ⟨h.queue id, h.hashes update.kind, h.decodes update.kind update.key⟩

theorem RedisKeeps.empty (config : RedisConfig) :
    RedisKeeps config Server.empty fun _ => none := by
  refine ⟨fun _ _ => rfl, nofun, nofun, fun _ => rfl⟩

theorem RedisKeeps.updated (h : RedisKeeps config server map) (hvalid : update.Valid)
    (hnewer : NewerThanDeletion (itemIn config server update.kind update.key) update.item) (id : ℕ) :
    ((update.call config).run id server).1 = .returned true ∧
      RedisKeeps config ((update.call config).run id server).2
        (VersionedMap.apply getDataVersion map (.offer (update.kind, update.key) update.item)) := by
  have hready := h.ready update id
  have hitem := hvalid.upserts config
  obtain ⟨hreturned, hstored⟩ := UpsertCall.run_replaced hready hitem
  obtain ⟨_, houtcome⟩ := UpsertCall.run_spec hready.queue hready.hashes hready.answered
  have hother : ∀ kind key, (kind, key) ≠ (update.kind, update.key) →
      ((update.call config).run id server).2.field (config.hashKey (featureKindToString kind)) key =
        server.field (config.hashKey (featureKindToString kind)) key := by
    intro kind key hne
    refine houtcome.others _ _ ?_
    intro heq
    obtain ⟨hkind, hkey⟩ := Prod.mk.inj heq
    exact hne (by rw [hashKey_inj.mp hkind, hkey]; rfl)
  refine ⟨hreturned, ?_, ?_, fun kind => houtcome.hashes _ (h.hashes kind),
    fun other => houtcome.queue other (h.queue other)⟩
  · intro kind key
    by_cases hindex : (kind, key) = (update.kind, update.key)
    · cases hindex
      rw [VersionedMap.apply_offer_self, ← h.content]
      exact hstored.trans (replaced_eq_newer hnewer)
    · rw [VersionedMap.apply_offer_of_ne hindex, itemIn, hother kind key hindex]
      exact h.content kind key
  · intro kind key text htext
    by_cases hindex : (kind, key) = (update.kind, update.key)
    · cases hindex
      have hfield : (update.call config).storedText ((update.call config).run id server).2 =
          some text := htext
      rw [UpsertCall.storedItem, hfield] at hstored
      exact Option.isSome_iff_exists.mpr ⟨_, hstored⟩
    · rw [hother kind key hindex] at htext
      exact h.decodes kind key text htext

def performUpdates (config : RedisConfig) (updates : List (ℕ × RedisUpdate)) (server : Server) :
    Server :=
  updates.foldl (fun server update => ((update.2.call config).run update.1 server).2) server

def UpdatesReturn (config : RedisConfig) : List (ℕ × RedisUpdate) → Server → Prop
  | [], _ => True
  | (id, update) :: updates, server =>
      ((update.call config).run id server).1 = .returned true ∧
        UpdatesReturn config updates ((update.call config).run id server).2

def NoneStale (config : RedisConfig) : List (ℕ × RedisUpdate) → Server → Prop
  | [], _ => True
  | (id, update) :: updates, server =>
      NewerThanDeletion (itemIn config server update.kind update.key) update.item ∧
        NoneStale config updates ((update.call config).run id server).2

theorem RedisKeeps.performUpdates {updates : List (ℕ × RedisUpdate)}
    (h : RedisKeeps config server map) (hvalid : ∀ update ∈ updates, update.2.Valid)
    (hnone : NoneStale config updates server) :
    UpdatesReturn config updates server ∧
      RedisKeeps config (ServerSdk.performUpdates config updates server)
        ((stepsOf (updates.map fun update => update.2.storeCall)).foldl
          (VersionedMap.apply getDataVersion) map) := by
  induction updates generalizing server map with
  | nil => exact ⟨trivial, h⟩
  | cons head updates ih =>
      obtain ⟨id, update⟩ := head
      have hupdate : update.Valid := hvalid (id, update) (by simp)
      obtain ⟨hreturned, hnext⟩ := h.updated hupdate hnone.1 id
      obtain ⟨hrest, hkeeps⟩ := ih hnext (fun other hother => hvalid other (by simp [hother])) hnone.2
      refine ⟨⟨hreturned, hrest⟩, ?_⟩
      rw [List.map_cons, stepsOf, List.flatMap_cons, hupdate.steps]
      exact hkeeps

theorem redis_upserts_are_monotone :
    (∀ (call : UpsertCall) (id : ℕ) (server : Server) (item : Json), call.Ready id server →
      call.Upserts item → (call.run id server).1 = .returned true ∧
        ∃ stored, call.storedItem (call.run id server).2 = some stored ∧
          (VersionMonotone (call.storedItem server) item stored ↔
            NewerThanDeletion (call.storedItem server) item)) ∧
    ∀ (config : RedisConfig) (updates : List (ℕ × RedisUpdate)),
      (∀ update ∈ updates, update.2.Valid) → NoneStale config updates .empty →
      UpdatesReturn config updates .empty ∧
        ∃ memory, Store.performAll (updates.map fun update => update.2.storeCall) Store.newMemory =
          .ok memory ∧ ∀ kind key, itemIn config (performUpdates config updates .empty) kind key =
            memory.context.getFromStore kind key := by
  constructor
  · intro call id server item hready hitem
    obtain ⟨hreturned, hstored⟩ := UpsertCall.run_replaced hready hitem
    exact ⟨hreturned, _, hstored, versionMonotone_replaced_iff⟩
  · intro config updates hvalid hnone
    obtain ⟨hreturned, hkeeps⟩ := (RedisKeeps.empty config).performUpdates hvalid hnone
    have hcalls : ∀ call ∈ updates.map fun update => update.2.storeCall, call.Valid := by
      intro call hcall
      obtain ⟨⟨_, update⟩, _, rfl⟩ := List.mem_map.mp hcall
      cases update <;> trivial
    obtain ⟨memory, hmemory, _, _, hcontent⟩ := performAll_newMemory hcalls
    refine ⟨hreturned, memory, hmemory, ?_⟩
    intro kind key
    rw [hkeeps.content, hcontent.content]
    rfl

end Upserts

def secondDeletion : Json := makeDeletedData "a" 2

@[reducible] def deletionParsing : Parsing := literalParsing [firstFlag, secondDeletion]

def defaultConfig : RedisConfig := ⟨none⟩

theorem firstFlag_update_valid :
    let _ := deletionParsing
    (RedisUpdate.upsert .flag firstFlag).Valid := by
  intro _
  exact ⟨rfl, rfl⟩

theorem secondDeletion_update_valid :
    let _ := deletionParsing
    (RedisUpdate.bufferless .flag "a" 2).Valid := by
  intro _
  exact ⟨rfl, rfl⟩

theorem newer_deletion_stored :
    let _ := deletionParsing
    let updates : List (ℕ × RedisUpdate) :=
      [(0, .upsert .flag firstFlag), (1, .bufferless .flag "a" 2)]
    let call := (RedisUpdate.upsert .flag firstFlag).call defaultConfig
    (call.Ready 0 .empty ∧ call.Upserts firstFlag ∧ (call.run 0 .empty).1 = .returned true) ∧
    NoneStale defaultConfig updates .empty ∧ UpdatesReturn defaultConfig updates .empty ∧
      ∃ memory, Store.performAll (updates.map fun update => update.2.storeCall) Store.newMemory =
        .ok memory ∧ ∀ kind key,
          itemIn defaultConfig (performUpdates defaultConfig updates .empty) kind key =
            memory.context.getFromStore kind key := by
  intro _ updates call
  have hready : call.Ready 0 .empty := (RedisKeeps.empty defaultConfig).ready _ 0
  have hitem : call.Upserts firstFlag := firstFlag_update_valid.upserts defaultConfig
  have hnone : NoneStale defaultConfig updates .empty := by
    refine ⟨nofun, ?_, trivial⟩
    have hstored : itemIn defaultConfig (call.run 0 .empty).2 .flag "a" = some firstFlag := by
      decide +kernel
    rintro held hheld hdeleted
    cases hstored.symm.trans hheld
    cases hdeleted
  have hvalid : ∀ update ∈ updates, update.2.Valid := by
    intro update hupdate
    rcases List.mem_cons.mp hupdate with rfl | hupdate
    · exact firstFlag_update_valid
    · cases List.mem_singleton.mp hupdate
      exact secondDeletion_update_valid
  exact ⟨⟨hready, hitem, (redis_upserts_are_monotone.1 call 0 .empty firstFlag hready hitem).1⟩,
    hnone, redis_upserts_are_monotone.2 defaultConfig updates hvalid hnone⟩

theorem stale_update_resurrects : ¬ ∀ [Parsing] (call : UpsertCall) (id : ℕ) (server : Server)
    (item : Json), call.Ready id server → call.Upserts item → ∃ stored,
      call.storedItem (call.run id server).2 = some stored ∧
        VersionMonotone (call.storedItem server) item stored := by
  intro hclaim
  let _ := deletionParsing
  let server := ((RedisUpdate.bufferless .flag "a" 2).call defaultConfig |>.run 0 .empty).2
  let call := (RedisUpdate.upsert .flag firstFlag).call defaultConfig
  have hkeeps := (RedisKeeps.empty defaultConfig).updated secondDeletion_update_valid nofun 0
  obtain ⟨stored, hstored, hmonotone⟩ := hclaim call 0 server firstFlag (hkeeps.2.ready _ 0)
    (firstFlag_update_valid.upserts defaultConfig)
  have hresurrected : call.storedItem (call.run 0 server).2 = some firstFlag := by decide +kernel
  have hdeletion : call.storedItem server = some secondDeletion := by decide +kernel
  cases hresurrected.symm.trans hstored
  rw [hdeletion, versionMonotone_some] at hmonotone
  revert hmonotone
  decide +kernel

end ServerSdk
