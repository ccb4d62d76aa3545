import ServerSdk.Program.VersionedMap
import ServerSdk.Store.Memory

namespace ServerSdk

open Program

inductive StoreCall where
  | init (sets : Json)
  | upsert (kind : FeatureKind) (feature : Json)
  | remove (kind : FeatureKind) (key : String) (version : UInt32)

namespace Store

variable {σ : Type}

def perform (store : Store σ) : StoreCall → Checked (Bool × Store σ)
  | .init sets => store.init sets
  | .upsert kind feature => store.upsert kind feature
  | .remove kind key version => store.remove kind key version

def performAll : List StoreCall → Store σ → Checked (Store σ)
  | [], store => .ok store
  | call :: calls, store => do
      let (_, store) ← store.perform call
      performAll calls store

def newMemory : Store MemoryStoreContext :=
  { implementation := storeMemoryNew.1, context := storeMemoryNew.2 }

end Store

abbrev ItemMap := FeatureKind × String → Option Json

abbrev MapStep := VersionedMap.Step (FeatureKind × String) Json

def heldBy (sets : Json) : ItemMap := fun (kind, key) =>
  (sets.objectLookup (featureKindToString kind)).bind fun items => items.objectLookup key

def StoreCall.steps : StoreCall → List MapStep
  | .init sets => [.replace (heldBy sets)]
  | .upsert kind feature =>
      if validateData feature then
        match feature.objectLookup "key" with
        | some (.text key) => [.offer (kind, key) feature]
        | _ => []
      else []
  | .remove kind key version => [.offer (kind, key) (Store.deletedItem key version)]

structure ValidSets (sets : Json) : Prop where
  unique : sets.Unique
  items : ∀ kind items, sets.objectLookup (featureKindToString kind) = some items →
    items.Unique ∧ ∀ key item, (key, item) ∈ items.iterFields → Carries key item

def StoreCall.Valid : StoreCall → Prop
  | .init sets => ValidSets sets
  | .upsert _ _ | .remove _ _ _ => True

structure Keyed (items : List (String × Json)) : Prop where
  nodup : (items.map Prod.fst).Nodup
  carries : ∀ key item, (key, item) ∈ items → Carries key item

structure Keeps (store : MemoryStoreContext) (content : ItemMap) : Prop where
  keyed : ∀ kind, Keyed (store.items kind)
  content : ∀ kind key, store.getFromStore kind key = content (kind, key)

theorem lookup_reverse {items : List (String × Json)} (h : (items.map Prod.fst).Nodup)
    (key : String) : items.reverse.lookup key = items.lookup key := by
  have hreverse : (items.reverse.map Prod.fst).Nodup := by
    rw [List.map_reverse]
    exact List.nodup_reverse.mpr h
  apply Option.ext
  intro item
  rw [← Json.mem_iff_lookup hreverse, ← Json.mem_iff_lookup h, List.mem_reverse]

theorem Keyed.nil : Keyed [] := ⟨List.nodup_nil, by simp⟩

theorem Keyed.reverse {items : List (String × Json)} (h : Keyed items) : Keyed items.reverse := by
  refine ⟨?_, ?_⟩
  · rw [List.map_reverse]
    exact List.nodup_reverse.mpr h.nodup
  · intro key item hmem
    exact h.carries key item (List.mem_reverse.mp hmem)

theorem Keyed.put {items : List (String × Json)} (h : Keyed items) {key : String} {item : Json}
    (hitem : Carries key item) : Keyed ((key, item) :: Json.eraseField key items) := by
  rw [Json.eraseField_eq_filter h.nodup]
  refine ⟨?_, ?_⟩
  · rw [List.map_cons, List.nodup_cons]
    refine ⟨?_, h.nodup.sublist (List.Sublist.map _ List.filter_sublist)⟩
    intro hmem
    obtain ⟨e, he, hkey⟩ := List.mem_map.mp hmem
    have hne : e.1 ≠ key := by simpa using (List.mem_filter.mp he).2
    exact hne hkey
  · intro k v hmem
    rcases List.mem_cons.mp hmem with heq | hmem
    · cases heq
      exact hitem
    · exact h.carries k v (List.mem_filter.mp hmem).1

theorem lookup_put {items : List (String × Json)} (key : String) (item : Json) (k : String) :
    ((key, item) :: Json.eraseField key items).lookup k =
      if k = key then some item else items.lookup k := by
  rw [List.lookup_cons]
  by_cases hk : k = key
  · rw [if_pos hk, hk, beq_self_eq_true]
  · rw [if_neg hk, beq_false_of_ne hk, Json.lookup_eraseField_of_ne hk]

section Init

def entriesOf (kinds : List (String × Json)) (kind : FeatureKind) : List (String × Json) :=
  match kinds.lookup (featureKindToString kind) with
  | some items => items.iterFields.reverse
  | none => []

theorem storeItems_of_carries {kind : FeatureKind} {fields : List (String × Json)}
    (h : ∀ key item, (key, item) ∈ fields → Carries key item) (store : MemoryStoreContext) :
    MemoryStoreContext.storeItems kind (fields.map Prod.snd) store =
      .ok (store.withItems kind (fields.reverse ++ store.items kind)) := by
  induction fields generalizing store with
  | nil =>
      cases kind <;> rfl
  | cons e fields ih =>
      obtain ⟨key, item⟩ := e
      have hkey : getDataKey item = .ok (some key) := (h key item (by simp)).getDataKey_eq
      have hrest := ih (fun k v hmem => h k v (by simp [hmem]))
        (store.addToStore kind (key, item))
      rw [List.map_cons, MemoryStoreContext.storeItems, hkey]
      simp only [Checked.ok_bind, MemoryStoreContext.makeMemoryItem]
      rw [hrest]
      cases kind <;>
        simp [MemoryStoreContext.addToStore, MemoryStoreContext.withItems,
          MemoryStoreContext.items]

theorem storeKinds_of_valid {kinds : List (String × Json)} (hnames : (kinds.map Prod.fst).Nodup)
    (h : ∀ kind items, (featureKindToString kind, items) ∈ kinds →
      items.Unique ∧ ∀ key item, (key, item) ∈ items.iterFields → Carries key item)
    (store : MemoryStoreContext) :
    ∃ filled, MemoryStoreContext.storeKinds (kinds.map fun e => (some e.1, e.2)) store = .ok filled ∧
      ∀ kind, filled.items kind = entriesOf kinds kind ++ store.items kind := by
  induction kinds generalizing store with
  | nil => exact ⟨store, rfl, fun kind => rfl⟩
  | cons e kinds ih =>
      obtain ⟨name, items⟩ := e
      rw [List.map_cons, List.nodup_cons] at hnames
      have hrest : ∀ kind items, (featureKindToString kind, items) ∈ kinds →
          items.Unique ∧ ∀ key item, (key, item) ∈ items.iterFields → Carries key item :=
        fun kind items hmem => h kind items (List.mem_cons_of_mem _ hmem)
      rw [List.map_cons, MemoryStoreContext.storeKinds]
      rcases stringToFeatureKind_cases name with ⟨kind, rfl, hkind⟩ | ⟨hother, hkind⟩
      · obtain ⟨hunique, hcarries⟩ := h kind items (by simp)
        obtain ⟨fields, rfl⟩ := hunique.object
        have hitems : MemoryStoreContext.storeItems kind (fields.map Prod.snd) store =
            .ok (store.withItems kind (fields.reverse ++ store.items kind)) :=
          storeItems_of_carries hcarries store
        obtain ⟨filled, hfilled, hcontent⟩ :=
          ih hnames.2 hrest (store.withItems kind (fields.reverse ++ store.items kind))
        refine ⟨filled, ?_, ?_⟩
        · rw [hkind]
          change (MemoryStoreContext.storeItems kind (fields.map Prod.snd) store >>= _) = _
          rw [hitems]
          exact hfilled
        · intro other
          rw [hcontent, MemoryStoreContext.items_withItems]
          by_cases hsame : other = kind
          · subst hsame
            have habsent : kinds.lookup (featureKindToString other) = none := by
              rw [List.lookup_eq_none_iff]
              intro e he
              have hne : e.1 ≠ featureKindToString other :=
                fun heq => hnames.1 (List.mem_map.mpr ⟨e, he, heq⟩)
              simpa using hne.symm
            simp [entriesOf, habsent, Json.iterFields]
          · have hname : featureKindToString other ≠ featureKindToString kind :=
              fun heq => hsame (featureKindToString_injective heq)
            simp [entriesOf, hsame, List.lookup_cons, beq_false_of_ne hname]
      · obtain ⟨filled, hfilled, hcontent⟩ := ih hnames.2 hrest store
        refine ⟨filled, ?_, ?_⟩
        · rw [hkind]
          exact hfilled
        · intro kind
          rw [hcontent]
          simp [entriesOf, List.lookup_cons, beq_false_of_ne (Ne.symm (hother kind))]

theorem storeInit_keeps {sets : Json} (h : ValidSets sets) (store : MemoryStoreContext) :
    ∃ filled, MemoryStoreContext.storeInit sets store = .ok (true, filled) ∧
      filled.initialized = true ∧ Keeps filled (heldBy sets) := by
  obtain ⟨⟨⟨kinds, rfl⟩, hnames⟩, hitems⟩ := h
  have hnames : (kinds.map Prod.fst).Nodup := hnames
  have hmem : ∀ kind items, (featureKindToString kind, items) ∈ kinds →
      items.Unique ∧ ∀ key item, (key, item) ∈ items.iterFields → Carries key item :=
    fun kind items hmem => hitems kind items ((Json.mem_iff_lookup hnames).mp hmem)
  obtain ⟨filled, hfilled, hcontent⟩ := storeKinds_of_valid hnames hmem store.clearStore
  have hentries : ∀ kind, filled.items kind = entriesOf kinds kind := by
    intro kind
    rw [hcontent]
    cases kind <;> exact List.append_nil _
  refine ⟨{ filled with initialized := true }, ?_, rfl, ?_, ?_⟩
  · change (MemoryStoreContext.storeKinds (kinds.map fun e => (some e.1, e.2)) _ >>= _) = _
    rw [hfilled]
    rfl
  · intro kind
    have hkeyed : Keyed (entriesOf kinds kind) := by
      rw [entriesOf]
      cases hlookup : kinds.lookup (featureKindToString kind) with
      | none => exact Keyed.nil
      | some items =>
          obtain ⟨hunique, hcarries⟩ := hitems kind items hlookup
          exact Keyed.reverse ⟨hunique.keys, hcarries⟩
    rw [← hentries] at hkeyed
    cases kind <;> exact hkeyed
  · intro kind key
    have hlookup : (entriesOf kinds kind).lookup key = heldBy (.object kinds) (kind, key) := by
      rw [entriesOf, heldBy, Json.objectLookup]
      cases hlookup : kinds.lookup (featureKindToString kind) with
      | none => rfl
      | some items =>
          obtain ⟨⟨⟨fields, rfl⟩, hkeys⟩, _⟩ := hitems kind items hlookup
          exact lookup_reverse hkeys key
    rw [← hentries] at hlookup
    cases kind <;> exact hlookup

end Init

section Upsert

theorem Keeps.put {store : MemoryStoreContext} {content : ItemMap} (h : Keeps store content)
    {kind : FeatureKind} {key : String} {item : Json} (hitem : Carries key item) :
    Keeps ((store.removeAndDeleteItem kind key).addToStore kind (key, item))
      (Function.update content (kind, key) (some item)) := by
  have hitems : ∀ other, ((store.removeAndDeleteItem kind key).addToStore kind (key, item)).items
      other = if other = kind then (key, item) :: Json.eraseField key (store.items kind)
        else store.items other := by
    intro other
    simp only [MemoryStoreContext.addToStore, MemoryStoreContext.removeAndDeleteItem,
      MemoryStoreContext.items_withItems, if_true]
    split_ifs <;> rfl
  refine ⟨?_, ?_⟩
  · intro other
    rw [hitems]
    split_ifs with hsame
    · exact (h.keyed kind).put hitem
    · exact h.keyed other
  · intro other k
    rw [MemoryStoreContext.getFromStore, hitems]
    split_ifs with hsame
    · subst hsame
      rw [lookup_put, Function.update_apply]
      simp only [Prod.mk.injEq, true_and]
      rw [← h.content other k]
      rfl
    · rw [Function.update_of_ne (by simp [hsame])]
      exact h.content other k

theorem storeUpsert_keeps {store : MemoryStoreContext} {content : ItemMap}
    (h : Keeps store content) {kind : FeatureKind} {key : String} {item : Json}
    (hitem : Carries key item) :
    ∃ next, MemoryStoreContext.storeUpsert kind (some key) item store = .ok (true, next) ∧
      next.initialized = store.initialized ∧
      Keeps next (VersionedMap.apply getDataVersion content (.offer (kind, key) item)) := by
  have hkey : getDataKey item = .ok (some key) := hitem.getDataKey_eq
  have hfind : store.getFromStore kind key = content (kind, key) := h.content kind key
  simp only [MemoryStoreContext.storeUpsert, hitem.valid, hkey, Checked.ok_bind,
    MemoryStoreContext.makeMemoryItem, VersionedMap.apply, Bool.true_eq_false, if_false]
  cases hold : content (kind, key) with
  | none =>
      have habsent : store.removeAndDeleteItem kind key = store := by
        have herase := Json.eraseField_of_lookup_none (hfind.trans hold)
        rw [MemoryStoreContext.removeAndDeleteItem, herase]
        cases kind <;> rfl
      have hput : Keeps ((store.removeAndDeleteItem kind key).addToStore kind (key, item))
          (Function.update content (kind, key) (some item)) := h.put hitem
      rw [habsent] at hput
      rw [hfind, hold]
      exact ⟨_, rfl, by simp [MemoryStoreContext.addToStore], hput⟩
  | some existing =>
      rw [hfind, hold]
      by_cases hle : getDataVersion item ≤ getDataVersion existing
      · refine ⟨store, by simp [hle], rfl, ?_⟩
        have hsame : VersionedMap.newer getDataVersion (some existing) item = content (kind, key) := by
          rw [hold, VersionedMap.newer, if_neg (not_lt.mpr hle)]
        rw [hsame, Function.update_eq_self]
        exact h
      · refine ⟨_, by simp only [hle, if_false]; rfl, ?_, ?_⟩
        · simp [MemoryStoreContext.addToStore, MemoryStoreContext.removeAndDeleteItem]
        · have hnew : VersionedMap.newer getDataVersion (some existing) item = some item := by
            rw [VersionedMap.newer, if_pos (not_le.mp hle)]
          rw [hnew]
          exact h.put hitem

end Upsert

def StoreCall.isInit : StoreCall → Bool
  | .init _ => true
  | .upsert _ _ | .remove _ _ _ => false

def MemoryBacked (store : Store MemoryStoreContext) : Prop :=
  store.implementation = storeMemoryNew.1

def stepsOf (calls : List StoreCall) : List MapStep := calls.flatMap StoreCall.steps

theorem deletedItem_carries (key : String) (version : UInt32) :
    Carries key (Store.deletedItem key version) := ⟨rfl, rfl⟩

theorem upsert_of_rejected {σ : Type} {feature : Json} (h : validateData feature = false)
    (store : Store σ) (kind : FeatureKind) : store.upsert kind feature = .ok (false, store) := by
  rw [Store.upsert, h]
  rfl

def StoreCall.accepted : StoreCall → Bool
  | .upsert _ feature => validateData feature
  | .init _ | .remove _ _ _ => true

theorem perform_keeps {store : Store MemoryStoreContext} {content : ItemMap}
    (hmemory : MemoryBacked store) (h : Keeps store.context content) {call : StoreCall}
    (hcall : call.Valid) :
    ∃ next, store.perform call = .ok (call.accepted, next) ∧ MemoryBacked next ∧
      next.context.initialized = (store.context.initialized || call.isInit) ∧
      Keeps next.context (call.steps.foldl (VersionedMap.apply getDataVersion) content) := by
  obtain ⟨implementation, context⟩ := store
  have hmemory : implementation = storeMemoryNew.1 := hmemory
  subst hmemory
  cases call with
  | init sets =>
      obtain ⟨filled, hinit, hinitialized, hkeeps⟩ := storeInit_keeps hcall context
      refine ⟨⟨storeMemoryNew.1, filled⟩, ?_, rfl, ?_, hkeeps⟩
      · change Store.ran _ (MemoryStoreContext.storeInit sets context) = _
        rw [hinit]
        rfl
      · simp [hinitialized, StoreCall.isInit]
  | upsert kind feature =>
      cases hvalid : validateData feature with
      | false =>
          refine ⟨⟨storeMemoryNew.1, context⟩, ?_, rfl, by simp [StoreCall.isInit], ?_⟩
          · rw [Store.perform, upsert_of_rejected hvalid, StoreCall.accepted, hvalid]
          · simpa [StoreCall.steps, hvalid] using h
      | true =>
          obtain ⟨key, hcarries⟩ := exists_carries hvalid
          obtain ⟨next, hupsert, hinitialized, hkeeps⟩ := storeUpsert_keeps h hcarries
          refine ⟨⟨storeMemoryNew.1, next⟩, ?_, rfl, ?_, ?_⟩
          · rw [Store.perform, Store.upsert, StoreCall.accepted, hvalid, if_pos rfl, hcarries.getDataKey_eq]
            change Store.ran _ (MemoryStoreContext.storeUpsert kind (some key) feature context) = _
            rw [hupsert]
            rfl
          · simp [hinitialized, StoreCall.isInit]
          · simpa [StoreCall.steps, hvalid, hcarries.key] using hkeeps
  | remove kind key version =>
      obtain ⟨next, hupsert, hinitialized, hkeeps⟩ :=
        storeUpsert_keeps h (deletedItem_carries key version)
      refine ⟨⟨storeMemoryNew.1, next⟩, ?_, rfl, ?_, hkeeps⟩
      · change Store.ran _ (MemoryStoreContext.storeUpsert kind (some key)
          (Store.deletedItem key version) context) = _
        rw [hupsert]
        rfl
      · simp [hinitialized, StoreCall.isInit]

theorem performAll_keeps {calls : List StoreCall} (hcalls : ∀ call ∈ calls, call.Valid)
    {store : Store MemoryStoreContext} {content : ItemMap} (hmemory : MemoryBacked store)
    (h : Keeps store.context content) :
    ∃ next, Store.performAll calls store = .ok next ∧ MemoryBacked next ∧
      next.context.initialized = (store.context.initialized || calls.any StoreCall.isInit) ∧
      Keeps next.context ((stepsOf calls).foldl (VersionedMap.apply getDataVersion) content) := by
  induction calls generalizing store content with
  | nil => exact ⟨store, rfl, hmemory, by simp, h⟩
  | cons call calls ih =>
      obtain ⟨next, hperform, hmemory', hinitialized, hkeeps⟩ :=
        perform_keeps hmemory h (hcalls call (by simp))
      obtain ⟨last, hlast, hmemory'', hinitialized', hkeeps'⟩ :=
        ih (fun c hc => hcalls c (by simp [hc])) hmemory' hkeeps
      refine ⟨last, ?_, hmemory'', ?_, ?_⟩
      · rw [Store.performAll, hperform]
        exact hlast
      · rw [hinitialized', hinitialized, List.any_cons, Bool.or_assoc]
      · simpa [stepsOf, List.foldl_append] using hkeeps'

theorem newMemory_keeps : Keeps Store.newMemory.context fun _ => none := by
  refine ⟨?_, ?_⟩
  · intro kind
    cases kind <;> exact Keyed.nil
  · intro kind key
    cases kind <;> rfl

theorem performAll_newMemory {calls : List StoreCall} (hcalls : ∀ call ∈ calls, call.Valid) :
    ∃ store, Store.performAll calls Store.newMemory = .ok store ∧ MemoryBacked store ∧
      store.context.initialized = calls.any StoreCall.isInit ∧
      Keeps store.context (VersionedMap.run getDataVersion (stepsOf calls)) := by
  obtain ⟨store, hrun, hmemory, hinitialized, hkeeps⟩ :=
    performAll_keeps hcalls (show MemoryBacked Store.newMemory from rfl) newMemory_keeps
  exact ⟨store, hrun, hmemory, by simpa [Store.newMemory, storeMemoryNew] using hinitialized, hkeeps⟩

end ServerSdk
