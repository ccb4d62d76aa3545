import ServerSdk.Stream.Handler

namespace ServerSdk

open Program

def SmallVersions (content : ItemMap) : Prop :=
  ∀ index item, content index = some item → UnsignedVersion item

theorem UnsignedVersion.version {item : Json} (h : UnsignedVersion item) :
    (getDataVersion item : Rat) = statedVersion item :=
  getDataVersion_eq_statedVersion h.natural h.fits

theorem newer_stated {held : Option Json} {item : Json}
    (hheld : ∀ old, held = some old → UnsignedVersion old) (hitem : UnsignedVersion item) :
    VersionedMap.newer getDataVersion held item = VersionedMap.newer statedVersion held item := by
  cases held with
  | none => rfl
  | some old =>
      have hlt : getDataVersion old < getDataVersion item ↔ statedVersion old < statedVersion item := by
        rw [← (hheld old rfl).version, ← hitem.version, Nat.cast_lt]
      simp only [VersionedMap.newer, hlt]

theorem apply_stated {content : ItemMap} (h : SmallVersions content) {index : FeatureKind × String}
    {item : Json} (hitem : UnsignedVersion item) :
    VersionedMap.apply getDataVersion content (.offer index item) =
      VersionedMap.apply statedVersion content (.offer index item) := by
  rw [VersionedMap.apply, VersionedMap.apply, newer_stated (h index) hitem]

theorem SmallVersions.offer {content : ItemMap} (h : SmallVersions content)
    {index : FeatureKind × String} {item : Json} (hitem : UnsignedVersion item) :
    SmallVersions (VersionedMap.apply statedVersion content (.offer index item)) := by
  intro other stored hstored
  by_cases heq : other = index
  · subst heq
    rw [VersionedMap.apply_offer_self] at hstored
    cases hheld : content other with
    | none =>
        rw [hheld] at hstored
        cases hstored
        exact hitem
    | some old =>
        rw [hheld, VersionedMap.newer] at hstored
        split_ifs at hstored
        · cases hstored
          exact hitem
        · cases hstored
          exact h other stored hheld
  · rw [VersionedMap.apply_offer_of_ne heq] at hstored
    exact h other stored hstored

theorem UnsignedVersion.exists_version {key : String} {version : Rat}
    (h : UnsignedVersion (tombstone key version)) : ∃ n : ℕ, version = n ∧ n < 2 ^ 32 := by
  obtain ⟨⟨n, hn⟩, hfits⟩ := h
  have hversion : version = n := by
    have hlookup : (tombstone key version).objectLookup "version" = some (.number version) := rfl
    cases hlookup.symm.trans hn
    rfl
  refine ⟨n, hversion, ?_⟩
  have hlt : version < 2 ^ 32 := hfits
  rw [hversion] at hlt
  exact_mod_cast hlt

theorem deletedItem_eq_tombstone {key : String} {n : ℕ} (h : n < 2 ^ 32) :
    Store.deletedItem key (UInt32.ofNat (toUnsignedInt (n : Rat))) = tombstone key n := by
  have hunsigned : toUnsignedInt (n : Rat) = n := by
    rw [toUnsignedInt_natCast (by omega), Nat.mod_eq_of_lt h]
  have hversion : (UInt32.ofNat n).toNat = n := UInt32.toNat_ofNat_of_lt' h
  rw [hunsigned, Store.deletedItem, hversion]
  rfl

section Puts

variable {data : Json}

theorem objectLookup_renamed (h : data.Unique) (hvalid : validatePutBody data = true)
    (kind : FeatureKind) :
    (renamed data).objectLookup (featureKindToString kind) = data.objectLookup (putField kind) := by
  cases kind with
  | flag =>
      rw [renamed, featureKindToString, (h.deleteKey "flags").lookup_setKey, putField]
      cases hflags : data.objectLookup "flags" with
      | some flags => rfl
      | none =>
          rw [validatePutBody, hflags] at hvalid
          split_ifs at hvalid
  | segment =>
      rw [renamed, featureKindToString, Json.objectLookup_setKey_of_ne (by decide),
        Json.objectLookup_deleteKey_of_ne (by decide)]
      rfl

theorem heldBy_renamed (h : data.Unique) (hvalid : validatePutBody data = true) :
    heldBy (renamed data) = putContent data := by
  funext ⟨kind, key⟩
  rw [heldBy, putContent, objectLookup_renamed h hvalid]

theorem PutItems.validSets (h : PutItems data) (hvalid : validatePutBody data = true) :
    ValidSets (renamed data) := by
  refine ⟨(h.unique.deleteKey "flags").setKey _ _, ?_⟩
  intro kind items hitems
  rw [objectLookup_renamed h.unique hvalid] at hitems
  exact h.items kind items hitems

end Puts

def StreamMessage.perform {σ : Type} (store : Store σ) : StreamMessage → Checked (Bool × Store σ)
  | .put data => store.init (renamed data)
  | .patch kind item => store.upsert kind item
  | .delete kind key version => store.remove kind key (UInt32.ofNat (toUnsignedInt version))
  | .ignored => .ok (true, store)
  | .malformed => .ok (false, store)

def StreamMessage.Validated : StreamMessage → Prop
  | .put data => validatePutBody data = true
  | .patch _ item => validateData item = true
  | _ => True

theorem StreamMessage.validated_readPut (body : Json) : (readPut body).Validated := by
  rw [readPut]
  cases body.objectLookup "data" with
  | none => trivial
  | some data =>
      cases hvalid : validatePutBody data with
      | false => simp [hvalid, Validated]
      | true => simp [hvalid, Validated]

theorem StreamMessage.validated_readPatch (body : Json) : (readPatch body).Validated := by
  rw [readPatch]
  cases getEventPath body with
  | failure => trivial
  | ignore => trivial
  | success kind key =>
      cases body.objectLookup "data" with
      | none => trivial
      | some item =>
          cases hvalid : validateData item with
          | false => simp [hvalid, Validated]
          | true => simp [hvalid, Validated]

theorem StreamMessage.validated_readDelete (body : Json) : (readDelete body).Validated := by
  rw [readDelete]
  cases getEventPath body with
  | failure => trivial
  | ignore => trivial
  | success kind key =>
      cases body.objectLookup "version" with
      | none => trivial
      | some version =>
          cases version with
          | _ => trivial

theorem StreamMessage.perform_keeps {store : Store MemoryStoreContext} {content : ItemMap}
    {message : StreamMessage} (hmemory : MemoryBacked store) (hkeeps : Keeps store.context content)
    (hsmall : SmallVersions content) (hvalidated : message.Validated) (hsound : message.Sound UnsignedVersion) :
    ∃ next, message.perform store = .ok (message.accepted, next) ∧ MemoryBacked next ∧
      Keeps next.context (message.apply content) ∧ SmallVersions (message.apply content) := by
  cases message with
  | put data =>
      obtain ⟨hitems, hversions⟩ := hsound
      have hcall : (StoreCall.init (renamed data)).Valid := hitems.validSets hvalidated
      obtain ⟨next, hperform, hmemory', _, hkeeps'⟩ := ServerSdk.perform_keeps hmemory hkeeps hcall
      refine ⟨next, hperform, hmemory', ?_, hversions⟩
      rw [apply, ← heldBy_renamed hitems.unique hvalidated]
      exact hkeeps'
  | patch kind item =>
      obtain ⟨key, hcarries⟩ := exists_carries hvalidated
      have hcall : (StoreCall.upsert kind item).Valid := trivial
      obtain ⟨next, hperform, hmemory', _, hkeeps'⟩ := ServerSdk.perform_keeps hmemory hkeeps hcall
      have hvalid : validateData item = true := hvalidated
      have hkey : (textKey item).getD "" = key := by rw [hcarries.textKey_eq]; rfl
      rw [StoreCall.accepted, hvalid] at hperform
      have hsteps : StoreCall.steps (.upsert kind item) = [.offer (kind, key) item] := by
        simp [StoreCall.steps, hvalid, hcarries.key]
      rw [hsteps] at hkeeps'
      refine ⟨next, hperform, hmemory', ?_, ?_⟩
      · rw [apply, hkey, ← apply_stated hsmall hsound]
        exact hkeeps'
      · exact hsmall.offer hsound
  | delete kind key version =>
      have hitem : UnsignedVersion (tombstone key version) := hsound
      obtain ⟨n, rfl, hn⟩ := hitem.exists_version
      have hcall : (StoreCall.remove kind key (UInt32.ofNat (toUnsignedInt n))).Valid := trivial
      obtain ⟨next, hperform, hmemory', _, hkeeps'⟩ := ServerSdk.perform_keeps hmemory hkeeps hcall
      rw [StoreCall.steps, deletedItem_eq_tombstone hn] at hkeeps'
      refine ⟨next, hperform, hmemory', ?_, ?_⟩
      · rw [apply, ← apply_stated hsmall hitem]
        exact hkeeps'
      · exact hsmall.offer hitem
  | ignored => exact ⟨store, rfl, hmemory, hkeeps, hsmall⟩
  | malformed => exact ⟨store, rfl, hmemory, hkeeps, hsmall⟩

section Events

variable [Parsing] {σ : Type}

theorem onPut_eq_perform (store : Store σ) (text : String) :
    onPut store text = (StreamMessage.readBody StreamMessage.readPut text).perform store := by
  rw [onPut, StreamMessage.readBody]
  cases Parsing.deserialize text with
  | none => rfl
  | some body =>
      by_cases hobject : body.getType = .object
      · simp only [hobject, ne_eq, not_true_eq_false, if_false, if_true, StreamMessage.readPut]
        cases body.objectLookup "data" with
        | none => rfl
        | some data =>
            cases hvalid : validatePutBody data with
            | false => simp [hvalid, StreamMessage.perform]
            | true => simp [hvalid, renameFlags_of_valid hvalid, StreamMessage.perform]
      · simp [hobject, StreamMessage.perform]

theorem onPatch_eq_perform (store : Store σ) (text : String) :
    onPatch store text = (StreamMessage.readBody StreamMessage.readPatch text).perform store := by
  rw [onPatch, StreamMessage.readBody]
  cases Parsing.deserialize text with
  | none => rfl
  | some body =>
      by_cases hobject : body.getType = .object
      · simp only [hobject, ne_eq, not_true_eq_false, if_false, if_true, StreamMessage.readPatch]
        cases getEventPath body with
        | failure => rfl
        | ignore => rfl
        | success kind key =>
            cases body.objectLookup "data" with
            | none => rfl
            | some item =>
                cases hvalid : validateData item with
                | false => simp [hvalid, upsert_of_rejected hvalid, StreamMessage.perform]
                | true => simp [hvalid, StreamMessage.perform]
      · simp [hobject, StreamMessage.perform]

theorem onDelete_eq_perform (store : Store σ) (text : String) :
    onDelete store text = (StreamMessage.readBody StreamMessage.readDelete text).perform store := by
  rw [onDelete, StreamMessage.readBody]
  cases Parsing.deserialize text with
  | none => rfl
  | some body =>
      by_cases hobject : body.getType = .object
      · simp only [hobject, ne_eq, not_true_eq_false, if_false, if_true, StreamMessage.readDelete]
        cases getEventPath body with
        | failure => rfl
        | ignore => rfl
        | success kind key =>
            cases body.objectLookup "version" with
            | none => rfl
            | some version =>
                cases version with
                | number version => rfl
                | _ => rfl
      · simp [hobject, StreamMessage.perform]

theorem onEvent_eq_perform (store : Store σ) (name text : String) :
    onEvent store name text = (StreamMessage.read name text).perform store := by
  rw [onEvent, StreamMessage.read]
  split_ifs
  · exact onPut_eq_perform store text
  · exact onPatch_eq_perform store text
  · exact onDelete_eq_perform store text
  · rfl

theorem StreamMessage.validated_readBody {read : Json → StreamMessage}
    (h : ∀ body, (read body).Validated) (text : String) : (readBody read text).Validated := by
  rw [readBody]
  cases Parsing.deserialize text with
  | none => trivial
  | some body =>
      by_cases hobject : body.getType = .object
      · simp only [hobject, if_true]
        exact h body
      · simp only [hobject, if_false]
        trivial

theorem StreamMessage.validated_read (name text : String) : (read name text).Validated := by
  rw [read]
  split_ifs
  · exact validated_readBody validated_readPut text
  · exact validated_readBody validated_readPatch text
  · exact validated_readBody validated_readDelete text
  · trivial

def readEvents (events : List (String × String)) : List StreamMessage :=
  events.map fun event => StreamMessage.read event.1 event.2

theorem onEvents_keeps {events : List (String × String)} {store : Store MemoryStoreContext}
    {content : ItemMap} (hmemory : MemoryBacked store) (hkeeps : Keeps store.context content)
    (hsmall : SmallVersions content) (hsound : ∀ message ∈ readEvents events, message.Sound UnsignedVersion) :
    ∃ next, onEvents events store = .ok ((readEvents events).map StreamMessage.accepted, next) ∧
      Keeps next.context ((readEvents events).foldl StreamMessage.apply content) := by
  induction events generalizing store content with
  | nil => exact ⟨store, rfl, hkeeps⟩
  | cons event events ih =>
      obtain ⟨name, text⟩ := event
      obtain ⟨next, hperform, hmemory', hkeeps', hsmall'⟩ := StreamMessage.perform_keeps hmemory hkeeps
        hsmall (StreamMessage.validated_read name text) (hsound _ (by simp [readEvents]))
      obtain ⟨last, hlast, hkeeps''⟩ := ih hmemory' hkeeps' hsmall'
        fun message hmessage => hsound message (List.mem_cons_of_mem _ hmessage)
      refine ⟨last, ?_, hkeeps''⟩
      rw [onEvents, onEvent_eq_perform, hperform, Checked.ok_bind]
      simp only [hlast]
      rfl

theorem stream_events_fold (events : List (String × String)) (store : Store MemoryStoreContext)
    (content : ItemMap) (hmemory : MemoryBacked store) (hkeeps : Keeps store.context content)
    (hsmall : SmallVersions content) (hsound : ∀ message ∈ readEvents events, message.Sound UnsignedVersion) :
    (∃ next, onEvents events store = .ok ((readEvents events).map StreamMessage.accepted, next) ∧
      Keeps next.context ((readEvents events).foldl StreamMessage.apply content)) ∧
    ∀ (store : Store MemoryStoreContext) (name text : String),
      (StreamMessage.read name text = .malformed → onEvent store name text = .ok (false, store)) ∧
      (StreamMessage.read name text = .ignored → onEvent store name text = .ok (true, store)) := by
  refine ⟨onEvents_keeps hmemory hkeeps hsmall hsound, ?_⟩
  intro store name text
  constructor
  · intro hmalformed
    rw [onEvent_eq_perform, hmalformed]
    rfl
  · intro hignored
    rw [onEvent_eq_perform, hignored]
    rfl

end Events

def patchBody (path : String) (item : Json) : Json := .object [("path", .text path), ("data", item)]

def deleteBody (path : String) (version : ℕ) : Json :=
  .object [("path", .text path), ("version", .number version)]

def putData : Json :=
  .object [("flags", .object [("a", keyedItem "a" 1)]), ("segments", .object [])]

def putBody : Json := .object [("data", putData)]

def sampleBodies : List Json :=
  [putBody, patchBody "/flags/a" (keyedItem "a" 3), deleteBody "/flags/a" 2, deleteBody "/other/a" 9,
    .null]

def sampleEvents : List (String × String) :=
  [("put", putBody.compact), ("patch", (patchBody "/flags/a" (keyedItem "a" 3)).compact),
    ("delete", (deleteBody "/flags/a" 2).compact), ("delete", (deleteBody "/other/a" 9).compact),
    ("put", "null"), ("ping", "")]

theorem keyedItem_unsigned {key : String} {version : ℕ} (h : version < 2 ^ 32) :
    UnsignedVersion (keyedItem key version) := by
  refine ⟨keyedItem_natural key version, ?_⟩
  change (version : Rat) < 2 ^ 32
  exact_mod_cast h

theorem putData_items : PutItems putData := by
  refine ⟨⟨⟨_, rfl⟩, by decide⟩, ?_⟩
  intro kind items hlookup
  cases kind with
  | flag =>
      cases hlookup
      refine ⟨⟨⟨_, rfl⟩, by decide⟩, ?_⟩
      intro key item hmem
      cases List.mem_singleton.mp hmem
      exact ⟨rfl, rfl⟩
  | segment =>
      cases hlookup
      refine ⟨⟨⟨_, rfl⟩, by decide⟩, ?_⟩
      intro key item hmem
      cases hmem

theorem putData_versions (index : FeatureKind × String) (item : Json)
    (h : putContent putData index = some item) : UnsignedVersion item := by
  obtain ⟨kind, key⟩ := index
  cases kind with
  | flag =>
      have hlookup : [("a", keyedItem "a" 1)].lookup key = some item := h
      by_cases hkey : key = "a"
      · subst hkey
        cases hlookup
        exact keyedItem_unsigned (by decide)
      · rw [List.lookup_cons, beq_false_of_ne hkey] at hlookup
        cases hlookup
  | segment => cases h

theorem sample_events_sound :
    let _ := literalParsing sampleBodies
    ∀ message ∈ readEvents sampleEvents, message.Sound UnsignedVersion := by
  intro _ message hmessage
  have hread : readEvents sampleEvents = [.put putData, .patch .flag (keyedItem "a" 3),
      .delete .flag "a" (2 : ℕ), .ignored, .malformed, .ignored] := rfl
  rw [hread] at hmessage
  simp only [List.mem_cons, List.not_mem_nil, or_false] at hmessage
  rcases hmessage with rfl | rfl | rfl | rfl | rfl | rfl
  · exact ⟨putData_items, putData_versions⟩
  · exact keyedItem_unsigned (by decide)
  · exact ⟨⟨2, rfl⟩, by rw [FitsUnsigned]; decide⟩
  · trivial
  · trivial
  · trivial

theorem sample_events_folded :
    let _ := literalParsing sampleBodies
    ∃ next, onEvents sampleEvents Store.newMemory = .ok ([true, true, true, true, false, true], next) ∧
      next.context.getFromStore .flag "a" = some (keyedItem "a" 3) := by
  intro _
  obtain ⟨⟨next, hrun, hkeeps⟩, _⟩ := stream_events_fold sampleEvents Store.newMemory (fun _ => none) rfl
    newMemory_keeps (by simp [SmallVersions]) sample_events_sound
  refine ⟨next, ?_, ?_⟩
  · rw [hrun]
    rfl
  · rw [hkeeps.content]
    decide +kernel

def wideBodies : List Json :=
  [patchBody "/flags/a" (keyedItem "a" (2 ^ 32 + 5)), patchBody "/flags/a" (keyedItem "a" (2 ^ 33))]

def wideEvents : List (String × String) := wideBodies.map fun body => ("patch", body.compact)

theorem wide_events_not_folded : ¬ ∀ [Parsing] (events : List (String × String))
    (store : Store MemoryStoreContext) (content : ItemMap), MemoryBacked store →
    Keeps store.context content → (∀ index item, content index = some item → NaturalVersion item) →
    (∀ message ∈ readEvents events, message.Sound NaturalVersion) →
    ∃ next, onEvents events store = .ok ((readEvents events).map StreamMessage.accepted, next) ∧
      Keeps next.context ((readEvents events).foldl StreamMessage.apply content) := by
  intro hclaim
  let _ := literalParsing wideBodies
  have hread : readEvents wideEvents = [.patch .flag (keyedItem "a" (2 ^ 32 + 5)),
      .patch .flag (keyedItem "a" (2 ^ 33))] := rfl
  have hsound : ∀ message ∈ readEvents wideEvents, message.Sound NaturalVersion := by
    intro message hmessage
    rw [hread] at hmessage
    simp only [List.mem_cons, List.not_mem_nil, or_false] at hmessage
    rcases hmessage with rfl | rfl
    · exact keyedItem_natural _ _
    · exact keyedItem_natural _ _
  obtain ⟨next, hrun, hkeeps⟩ := hclaim wideEvents Store.newMemory (fun _ => none) rfl newMemory_keeps
    (by simp) hsound
  have hcontent := hkeeps.content .flag "a"
  cases hrun
  have hversion := congrArg (Option.map statedVersion) hcontent
  revert hversion
  decide +kernel

end ServerSdk
