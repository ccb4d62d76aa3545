import ServerSdk.Store.Refinement

namespace ServerSdk

open Program

def NaturalVersion (item : Json) : Prop :=
  ∃ version : ℕ, item.objectLookup "version" = some (.number version)

def FitsUnsigned (item : Json) : Prop := statedVersion item < 2 ^ 32

def StoreCall.ForItems (p : Json → Prop) : StoreCall → Prop
  | .init sets => ∀ index item, heldBy sets index = some item → p item
  | .upsert _ feature => validateData feature = true → p feature
  | .remove _ key version => p (Store.deletedItem key version)

def writtenTo (kind : FeatureKind) (key : String) (calls : List StoreCall) : List Json :=
  VersionedMap.candidates (kind, key) (stepsOf calls)

def offeredTo (kind : FeatureKind) (key : String) (calls : List StoreCall) : List Json :=
  (stepsOf calls).flatMap (VersionedMap.offered (kind, key))

structure VersionedBy (calls : List StoreCall) (store : Store MemoryStoreContext) : Prop where
  kept : ∀ kind key item, store.context.getFromStore kind key = some item ↔
    VersionedMap.Newest statedVersion (writtenTo kind key calls) item
  get : ∀ kind key, store.get kind key =
    .ok (some ((store.context.getFromStore kind key).filter fun item => !isDataDeleted item), store)
  all : ∀ kind, ∃ fields, store.all kind = .ok (some (some (.object fields)), store) ∧
    (fields.map Prod.fst).Nodup ∧ ∀ key item, (key, item) ∈ fields ↔
      store.context.getFromStore kind key = some item ∧ isDataDeleted item = false
  rejected : ∀ kind feature, validateData feature = false →
    store.upsert kind feature = .ok (false, store)

structure SameContent (store other : Store MemoryStoreContext) : Prop where
  initialized : store.context.initialized = other.context.initialized
  content : ∀ kind key, store.context.getFromStore kind key = other.context.getFromStore kind key

theorem deletedItem_natural (key : String) (version : UInt32) :
    NaturalVersion (Store.deletedItem key version) := ⟨version.toNat, rfl⟩

theorem deletedItem_fitsUnsigned (key : String) (version : UInt32) :
    FitsUnsigned (Store.deletedItem key version) := by
  change (version.toNat : Rat) < 2 ^ 32
  exact_mod_cast version.toNat_lt

theorem getDataVersion_eq_statedVersion {item : Json} (hnatural : NaturalVersion item)
    (hfits : FitsUnsigned item) : (getDataVersion item : Rat) = statedVersion item := by
  obtain ⟨version, hversion⟩ := hnatural
  have hstated : statedVersion item = version := statedVersion_of_natural hversion
  rw [FitsUnsigned, hstated] at hfits
  have hlt : version < 2 ^ 32 := by exact_mod_cast hfits
  rw [getDataVersion_of_natural hlt hversion, hstated]

theorem foldl_addUnlessDeleted (items fields : List (String × Json)) :
    items.foldl MemoryStoreContext.addUnlessDeleted (.object fields) =
      .object (fields ++ items.filter fun item => !isDataDeleted item.2) := by
  induction items generalizing fields with
  | nil => simp
  | cons item items ih =>
      rw [List.foldl_cons, MemoryStoreContext.addUnlessDeleted]
      cases hdeleted : isDataDeleted item.2 with
      | true => simp [hdeleted, ih]
      | false => simp [hdeleted, Json.objectSetReference, ih]

theorem storeAll_fields {store : MemoryStoreContext} {content : ItemMap} (h : Keeps store content)
    (kind : FeatureKind) :
    ∃ fields, MemoryStoreContext.storeAll kind store = .object fields ∧
      (fields.map Prod.fst).Nodup ∧ ∀ key item, (key, item) ∈ fields ↔
        store.getFromStore kind key = some item ∧ isDataDeleted item = false := by
  have hreverse := (h.keyed kind).reverse
  refine ⟨_, foldl_addUnlessDeleted _ [], ?_, ?_⟩
  · exact hreverse.nodup.sublist (List.Sublist.map _ List.filter_sublist)
  · intro key item
    rw [List.nil_append, List.mem_filter, List.mem_reverse, Json.mem_iff_lookup (h.keyed kind).nodup]
    simp [MemoryStoreContext.getFromStore]

theorem storeGet_eq_filter (store : MemoryStoreContext) (kind : FeatureKind) (key : String) :
    MemoryStoreContext.storeGet kind key store =
      (store.getFromStore kind key).filter fun item => !isDataDeleted item := by
  rw [MemoryStoreContext.storeGet]
  cases store.getFromStore kind key with
  | none => rfl
  | some item => cases hdeleted : isDataDeleted item <;> simp [hdeleted, Option.filter]

theorem mem_writtenTo {p : Json → Prop} {calls : List StoreCall}
    (h : ∀ call ∈ calls, call.ForItems p) {kind : FeatureKind} {key : String} {item : Json}
    (hitem : item ∈ writtenTo kind key calls) : p item := by
  rcases VersionedMap.mem_candidates hitem with ⟨content, hstep, hcontent⟩ | hstep
  · obtain ⟨call, hcall, hmem⟩ := List.mem_flatMap.mp hstep
    cases call with
    | init sets =>
        cases List.mem_singleton.mp hmem
        exact h _ hcall (kind, key) item hcontent
    | upsert other feature =>
        simp only [StoreCall.steps] at hmem
        split at hmem <;> try split at hmem
        all_goals simp at hmem
    | remove other k version => simp [StoreCall.steps] at hmem
  · obtain ⟨call, hcall, hmem⟩ := List.mem_flatMap.mp hstep
    cases call with
    | init sets => simp [StoreCall.steps] at hmem
    | upsert other feature =>
        simp only [StoreCall.steps] at hmem
        split at hmem
        · rename_i hvalid
          split at hmem
          · cases List.mem_singleton.mp hmem
            exact h _ hcall hvalid
          · simp at hmem
        · simp at hmem
    | remove other k version =>
        cases List.mem_singleton.mp hmem
        exact h _ hcall

theorem newest_stated_iff {calls : List StoreCall} (hnatural : ∀ call ∈ calls,
    call.ForItems NaturalVersion) (hfits : ∀ call ∈ calls, call.ForItems FitsUnsigned)
    {kind : FeatureKind} {key : String} {item : Json} :
    VersionedMap.Newest getDataVersion (writtenTo kind key calls) item ↔
      VersionedMap.Newest statedVersion (writtenTo kind key calls) item := by
  have hversion : ∀ a ∈ writtenTo kind key calls, (getDataVersion a : Rat) = statedVersion a :=
    fun a ha => getDataVersion_eq_statedVersion (mem_writtenTo hnatural ha) (mem_writtenTo hfits ha)
  constructor
  · refine VersionedMap.Newest.congr ?_ ?_
    · intro a ha b hb hlt
      rw [← hversion a ha, ← hversion b hb]
      exact_mod_cast hlt
    · intro a ha b hb hle
      rw [← hversion a ha, ← hversion b hb]
      exact_mod_cast hle
  · refine VersionedMap.Newest.congr ?_ ?_
    · intro a ha b hb hlt
      rw [← hversion a ha, ← hversion b hb] at hlt
      exact_mod_cast hlt
    · intro a ha b hb hle
      rw [← hversion a ha, ← hversion b hb] at hle
      exact_mod_cast hle

theorem versionedBy_of_keeps {calls : List StoreCall} (hnatural : ∀ call ∈ calls,
    call.ForItems NaturalVersion) (hfits : ∀ call ∈ calls, call.ForItems FitsUnsigned)
    {store : Store MemoryStoreContext} (hmemory : MemoryBacked store)
    (hkeeps : Keeps store.context (VersionedMap.run getDataVersion (stepsOf calls))) :
    VersionedBy calls store := by
  obtain ⟨implementation, context⟩ := store
  have hmemory : implementation = storeMemoryNew.1 := hmemory
  subst hmemory
  refine ⟨?_, ?_, ?_, ?_⟩
  · intro kind key item
    rw [hkeeps.content, VersionedMap.run_eq_argmax, VersionedMap.argmax_eq_some_iff_newest]
    exact newest_stated_iff hnatural hfits
  · intro kind key
    change Except.ok (some (MemoryStoreContext.storeGet kind key context), _) = _
    rw [storeGet_eq_filter]
  · intro kind
    obtain ⟨fields, hall, hfields⟩ := storeAll_fields hkeeps kind
    refine ⟨fields, ?_, hfields⟩
    change Except.ok (some (some (MemoryStoreContext.storeAll kind context)), _) = _
    rw [hall]
  · intro kind feature hrejected
    exact upsert_of_rejected hrejected _ kind

theorem steps_isOffer {call : StoreCall} (h : call.isInit = false) :
    ∀ step ∈ call.steps, step.IsOffer := by
  intro step hstep
  cases call with
  | init sets => cases h
  | upsert kind feature =>
      simp only [StoreCall.steps] at hstep
      split at hstep
      · split at hstep
        · cases List.mem_singleton.mp hstep
          trivial
        · simp at hstep
      · simp at hstep
  | remove kind key version =>
      cases List.mem_singleton.mp hstep
      trivial

theorem stepsOf_isOffer {calls : List StoreCall} (h : ∀ call ∈ calls, call.isInit = false) :
    ∀ step ∈ stepsOf calls, step.IsOffer := by
  intro step hstep
  obtain ⟨call, hcall, hmem⟩ := List.mem_flatMap.mp hstep
  exact steps_isOffer (h call hcall) step hmem

theorem offeredTo_subset_writtenTo {before later : List StoreCall}
    (h : ∀ call ∈ later, call.isInit = false) {kind : FeatureKind} {key : String} {item : Json}
    (hitem : item ∈ offeredTo kind key later) : item ∈ writtenTo kind key (before ++ later) := by
  have hsplit : writtenTo kind key (before ++ later) =
      writtenTo kind key before ++ offeredTo kind key later := by
    rw [writtenTo, stepsOf, List.flatMap_append]
    exact VersionedMap.candidates_append_of_isOffer (stepsOf_isOffer h) _
  rw [hsplit]
  exact List.mem_append_right _ hitem

theorem distinct_getDataVersion {items : List Json}
    (hversion : ∀ a ∈ items, (getDataVersion a : Rat) = statedVersion a)
    (h : (items.map statedVersion).Nodup) : (items.map getDataVersion).Nodup := by
  have hmap : items.map statedVersion = (items.map getDataVersion).map (Nat.cast : ℕ → Rat) := by
    rw [List.map_map]
    exact List.map_congr_left fun a ha => (hversion a ha).symm
  rw [hmap] at h
  exact h.of_map _

theorem performAll_perm {before later later' : List StoreCall}
    (hvalid : ∀ call ∈ before ++ later, call.Valid)
    (hupdates : ∀ call ∈ later, call.isInit = false) (hperm : later.Perm later')
    (hdistinct : ∀ kind key, ((offeredTo kind key later).map getDataVersion).Nodup) :
    ∃ store other, Store.performAll (before ++ later) Store.newMemory = .ok store ∧
      Store.performAll (before ++ later') Store.newMemory = .ok other ∧ SameContent store other := by
  have hcalls : (before ++ later).Perm (before ++ later') := hperm.append_left before
  have hvalid' : ∀ call ∈ before ++ later', call.Valid :=
    fun call hcall => hvalid call (hcalls.mem_iff.mpr hcall)
  obtain ⟨store, hrun, _, hinitialized, hkeeps⟩ := performAll_newMemory hvalid
  obtain ⟨other, hrun', _, hinitialized', hkeeps'⟩ := performAll_newMemory hvalid'
  refine ⟨store, other, hrun, hrun', ?_, ?_⟩
  · rw [hinitialized, hinitialized', hcalls.any_eq]
  · intro kind key
    have hsame : VersionedMap.run getDataVersion (stepsOf before ++ stepsOf later) =
        VersionedMap.run getDataVersion (stepsOf before ++ stepsOf later') :=
      VersionedMap.run_perm (stepsOf_isOffer hupdates) (hperm.flatMap_right _)
        fun i => hdistinct i.1 i.2
    rw [hkeeps.content, hkeeps'.content, stepsOf, stepsOf, List.flatMap_append,
      List.flatMap_append]
    exact congrFun hsame (kind, key)

theorem memory_store_is_versioned_map {calls : List StoreCall}
    (hvalid : ∀ call ∈ calls, call.Valid) (hnatural : ∀ call ∈ calls, call.ForItems NaturalVersion)
    (hfits : ∀ call ∈ calls, call.ForItems FitsUnsigned) :
    (∃ store, Store.performAll calls Store.newMemory = .ok store ∧ VersionedBy calls store) ∧
    ∀ before later later', calls = before ++ later → (∀ call ∈ later, call.isInit = false) →
      later.Perm later' →
      (∀ kind key, ((offeredTo kind key later).map statedVersion).Nodup) →
      ∃ store other, Store.performAll calls Store.newMemory = .ok store ∧
        Store.performAll (before ++ later') Store.newMemory = .ok other ∧
        SameContent store other := by
  constructor
  · obtain ⟨store, hrun, hmemory, _, hkeeps⟩ := performAll_newMemory hvalid
    exact ⟨store, hrun, versionedBy_of_keeps hnatural hfits hmemory hkeeps⟩
  · intro before later later' hcalls hupdates hperm hdistinct
    subst hcalls
    refine performAll_perm hvalid hupdates hperm ?_
    intro kind key
    refine distinct_getDataVersion ?_ (hdistinct kind key)
    intro item hitem
    have hwritten : item ∈ writtenTo kind key (before ++ later) :=
      offeredTo_subset_writtenTo hupdates hitem
    exact getDataVersion_eq_statedVersion (mem_writtenTo hnatural hwritten)
      (mem_writtenTo hfits hwritten)

def keyedItem (key : String) (version : Nat) : Json :=
  .object [("key", .text key), ("version", .number version)]

def sampleSets : Json :=
  .object [("features", .object [("a", keyedItem "a" 1)]), ("segments", .object [])]

def sampleCalls : List StoreCall :=
  [.init sampleSets, .upsert .flag (keyedItem "a" 3), .upsert .flag .null, .remove .flag "a" 2,
    .remove .segment "b" 1]

theorem sampleSets_valid : ValidSets sampleSets := by
  refine ⟨⟨⟨_, rfl⟩, by decide⟩, ?_⟩
  intro kind items hlookup
  cases kind with
  | flag =>
      cases hlookup
      refine ⟨⟨⟨_, rfl⟩, by decide⟩, ?_⟩
      intro key item hmem
      cases List.mem_singleton.mp hmem
      exact ⟨rfl, rfl⟩
  | segment =>
      cases hlookup
      refine ⟨⟨⟨_, rfl⟩, by decide⟩, ?_⟩
      intro key item hmem
      cases hmem

theorem keyedItem_natural (key : String) (version : Nat) :
    NaturalVersion (keyedItem key version) := ⟨version, rfl⟩

theorem sampleCalls_forItems {p : Json → Prop} (hone : p (keyedItem "a" 1))
    (hthree : p (keyedItem "a" 3)) (hdeleted : ∀ key version, p (Store.deletedItem key version)) :
    ∀ call ∈ sampleCalls, call.ForItems p := by
  intro call hcall
  simp only [sampleCalls, List.mem_cons, List.not_mem_nil, or_false] at hcall
  rcases hcall with rfl | rfl | rfl | rfl | rfl
  · rintro ⟨kind, key⟩ item hheld
    cases kind with
    | flag =>
        have hlookup : [("a", keyedItem "a" 1)].lookup key = some item := hheld
        by_cases hkey : key = "a"
        · subst hkey
          cases hlookup
          exact hone
        · rw [List.lookup_cons, beq_false_of_ne hkey] at hlookup
          cases hlookup
    | segment => cases hheld
  · exact fun _ => hthree
  · exact fun hvalid => by cases hvalid
  · exact hdeleted "a" 2
  · exact hdeleted "b" 1

theorem sample_is_versioned_map :
    (∃ store, Store.performAll sampleCalls Store.newMemory = .ok store ∧
      VersionedBy sampleCalls store) ∧
    ∀ before later later', sampleCalls = before ++ later → (∀ call ∈ later, call.isInit = false) →
      later.Perm later' →
      (∀ kind key, ((offeredTo kind key later).map statedVersion).Nodup) →
      ∃ store other, Store.performAll sampleCalls Store.newMemory = .ok store ∧
        Store.performAll (before ++ later') Store.newMemory = .ok other ∧
        SameContent store other := by
  refine memory_store_is_versioned_map ?_ ?_ ?_
  · intro call hcall
    simp only [sampleCalls, List.mem_cons, List.not_mem_nil, or_false] at hcall
    rcases hcall with rfl | rfl | rfl | rfl | rfl
    · exact sampleSets_valid
    all_goals trivial
  · exact sampleCalls_forItems (keyedItem_natural _ _) (keyedItem_natural _ _) deletedItem_natural
  · exact sampleCalls_forItems (by rw [FitsUnsigned]; decide) (by rw [FitsUnsigned]; decide)
      deletedItem_fitsUnsigned

def wideCalls : List StoreCall :=
  [.upsert .flag (keyedItem "a" (2 ^ 32 + 5)), .upsert .flag (keyedItem "a" (2 ^ 33))]

theorem wide_versions_not_versioned : ¬ ∀ calls : List StoreCall,
    (∀ call ∈ calls, call.Valid) → (∀ call ∈ calls, call.ForItems NaturalVersion) →
      ∃ store, Store.performAll calls Store.newMemory = .ok store ∧ VersionedBy calls store := by
  intro hclaim
  have hvalid : ∀ call ∈ wideCalls, call.Valid := by
    intro call hcall
    simp only [wideCalls, List.mem_cons, List.not_mem_nil, or_false] at hcall
    rcases hcall with rfl | rfl <;> trivial
  have hnatural : ∀ call ∈ wideCalls, call.ForItems NaturalVersion := by
    intro call hcall
    simp only [wideCalls, List.mem_cons, List.not_mem_nil, or_false] at hcall
    rcases hcall with rfl | rfl <;> exact fun _ => keyedItem_natural _ _
  obtain ⟨store, hrun, hversioned⟩ := hclaim wideCalls hvalid hnatural
  have hnewest : VersionedMap.Newest statedVersion (writtenTo .flag "a" wideCalls)
      (keyedItem "a" (2 ^ 33)) :=
    ⟨[keyedItem "a" (2 ^ 32 + 5)], [], rfl, by decide, by simp⟩
  have hkept := (hversioned.kept .flag "a" _).mpr hnewest
  cases hrun
  have hversion := congrArg (Option.map statedVersion) hkept
  revert hversion
  decide

end ServerSdk
