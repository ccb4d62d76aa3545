import ServerSdk.Delivery.WrapperPut

namespace ServerSdk

open Program PersistentStoreContext

theorem renamed_object {data : Json} (h : validatePutBody data = true) :
    ∃ fields, renamed data = .object fields := by
  cases data with
  | object fields => exact ⟨_, rfl⟩
  | _ => cases h

section Handled

variable [Parsing]

theorem Delivery.sets_object {delivery : Delivery} {sets : Json} (h : delivery.sets = some sets) :
    ∃ fields, sets = .object fields := by
  obtain ⟨data, hdata, rfl⟩ := Option.map_eq_some_iff.mp h
  have hvalid : validatePutBody data = true := by
    cases delivery with
    | put text => exact (Option.filter_eq_some_iff.mp hdata).2
    | polled chunks => exact (Option.filter_eq_some_iff.mp hdata).2
  exact renamed_object hvalid

def Handles {σ ι : Type} (keeps : σ → FeatureKind → Json → Prop) (rehashed : ι → σ → σ)
    (delivery : Delivery) (now : Rat) (store : Store σ) : Prop :=
  ∃ after, delivery.process now store = .ok after ∧
    ∀ sets, delivery.sets = some sets → ServesItems keeps rehashed sets after

theorem handles_iff {σ ι : Type} {keeps : σ → FeatureKind → Json → Prop} {rehashed : ι → σ → σ}
    {delivery : Delivery} {now : Rat} {store : Store σ} :
    Handles keeps rehashed delivery now store ↔
      delivery ≠ .polled [] ∧ ∀ sets, delivery.sets = some sets →
        ∃ status after, store.init sets = .ok (status, after) ∧
          ServesItems keeps rehashed sets after := by
  constructor
  · rintro ⟨after, hprocess, hserves⟩
    have hnonempty : delivery ≠ .polled [] := by
      rintro rfl
      rw [Delivery.process_empty] at hprocess
      cases hprocess
    refine ⟨hnonempty, ?_⟩
    intro sets hsets
    rw [Delivery.process_eq hnonempty, hsets] at hprocess
    obtain ⟨⟨status, initialized⟩, hinit, h⟩ := Checked.bind_eq_ok.mp hprocess
    cases h
    exact ⟨status, _, hinit, hserves sets hsets⟩
  · rintro ⟨hnonempty, hinit⟩
    rw [Handles, Delivery.process_eq hnonempty]
    cases hsets : delivery.sets with
    | none => exact ⟨store, rfl, nofun⟩
    | some sets =>
        obtain ⟨status, after, hstored, hserves⟩ := hinit sets hsets
        refine ⟨after, Checked.bind_eq_ok.mpr ⟨(status, after), hstored, rfl⟩, ?_⟩
        intro other hother
        cases hother
        exact hserves

theorem server_data_handled_iff (delivery : Delivery) (now : Rat)
    (hstorable : ∀ sets, delivery.sets = some sets →
      ∀ kind, ∀ item ∈ itemsOf sets.iterFields kind, Storable item) :
    (∀ context, Handles memoryKeeps MemoryStoreContext.rehashed delivery now (memoryStore context) ↔
      delivery ≠ .polled [] ∧ ∀ sets, delivery.sets = some sets →
        AllValid sets ∧ Unshadowed sets) ∧
    (∀ (β : Type) (store : PersistentStoreContext β), AcceptsInit store.persistentStore →
      store.cacheMilliseconds ≠ 0 → (Handles wrapperKeeps PersistentStoreContext.rehashed delivery now store.wrapped ↔
        delivery ≠ .polled [] ∧ ∀ sets, delivery.sets = some sets →
          FullyKeyed sets ∧ AllValid sets ∧ UnshadowedCache sets)) ∧
    ((∀ (β : Type) (holds : β → BackendContent) (store : PersistentStoreContext β),
      AcceptsInit store.persistentStore → Conforms store.persistentStore holds →
      AnswersGet store.persistentStore → store.cacheMilliseconds = 0 →
      Handles wrapperKeeps PersistentStoreContext.rehashed delivery now store.wrapped) ↔
        delivery ≠ .polled [] ∧ ∀ sets, delivery.sets = some sets →
          FullyKeyed sets ∧ AllValid sets ∧
            (NoneLive sets ∨ DistinctCollections (collectionsOf sets.iterFields))) := by
  refine ⟨?_, ?_, ?_⟩
  · intro context
    rw [handles_iff]
    refine and_congr_right fun _ => forall₂_congr ?_
    intro sets hsets
    obtain ⟨fields, rfl⟩ := Delivery.sets_object hsets
    exact memory_serves_iff context fields
  · intro β store haccepts hnonzero
    rw [handles_iff]
    refine and_congr_right fun _ => forall₂_congr ?_
    intro sets hsets
    obtain ⟨fields, rfl⟩ := Delivery.sets_object hsets
    exact cached_serves_iff haccepts hnonzero
  · constructor
    · intro h
      obtain ⟨hnonempty, hserved⟩ := handles_iff.mp (h Table Table.holds forgetfulWrapper
        forgetful_accepts Table.forgetful_conforms forgetful_answers rfl)
      refine ⟨hnonempty, ?_⟩
      intro sets hsets
      obtain ⟨fields, rfl⟩ := Delivery.sets_object hsets
      exact served_of_forgetful (hserved _ hsets)
    · rintro ⟨hnonempty, hserved⟩ β holds store haccepts hconforms hanswers hzero
      refine handles_iff.mpr ⟨hnonempty, ?_⟩
      intro sets hsets
      obtain ⟨fields, rfl⟩ := Delivery.sets_object hsets
      obtain ⟨hkeyed, hvalid, hlive⟩ := hserved _ hsets
      exact uncached_serves haccepts hconforms hanswers hzero hkeyed hvalid (hstorable _ hsets) hlive

end Handled

def putOf (flags : Json) : Json :=
  .object [("path", .text "/"), ("data", .object [("flags", flags), ("segments", .object [])])]

def firstFlagPut : Json := putOf (.object [("a", firstFlag)])

def keylessPut : Json := putOf (.object [("a", .object [("version", .number 1)])])

@[reducible] def putParsing : Parsing := literalParsing [firstFlagPut, keylessPut, firstFlag]

def firstFlagSets : Json :=
  .object [("segments", .object []), ("features", .object [("a", firstFlag)])]

theorem itemsOf_firstFlagSets {kind : FeatureKind} {item : Json}
    (h : item ∈ itemsOf firstFlagSets.iterFields kind) : kind = .flag ∧ item = firstFlag := by
  cases kind with
  | flag => exact ⟨rfl, List.mem_singleton.mp h⟩
  | segment => cases h

theorem first_flag_put_handled :
    let _ := putParsing
    Handles memoryKeeps MemoryStoreContext.rehashed (.put firstFlagPut.compact) 0 (memoryStore storeMemoryNew.2) := by
  intro _
  have hsets : ∀ sets, (Delivery.put firstFlagPut.compact).sets = some sets →
      sets = firstFlagSets := by
    intro sets hsets
    have hput : (Delivery.put firstFlagPut.compact).sets = some firstFlagSets := by decide +kernel
    exact Option.some.inj (hsets.symm.trans hput)
  have hstorable : ∀ sets, (Delivery.put firstFlagPut.compact).sets = some sets →
      ∀ kind, ∀ item ∈ itemsOf sets.iterFields kind, Storable item := by
    intro sets h kind item hitem
    cases hsets sets h
    rw [(itemsOf_firstFlagSets hitem).2]
    exact (by decide +kernel : Parsing.deserialize (Externals.serialize firstFlag) = some firstFlag)
  refine ((server_data_handled_iff _ 0 hstorable).1 storeMemoryNew.2).mpr ⟨by simp, ?_⟩
  intro sets h
  cases hsets sets h
  refine ⟨?_, ?_⟩
  · intro kind item hitem
    rw [(itemsOf_firstFlagSets hitem).2]
    rfl
  · intro kind key item hitem _ _ other hother _
    rw [(itemsOf_firstFlagSets hitem).2, (itemsOf_firstFlagSets hother).2]

theorem keyless_flag_aborts : ¬ ∀ [Parsing] (delivery : Delivery) (now : Rat),
    (∀ context, Handles memoryKeeps MemoryStoreContext.rehashed delivery now (memoryStore context)) ∧
    ∀ (β : Type) (holds : β → BackendContent) (store : PersistentStoreContext β),
      AcceptsInit store.persistentStore → Conforms store.persistentStore holds →
      AnswersGet store.persistentStore → Handles wrapperKeeps PersistentStoreContext.rehashed delivery now store.wrapped := by
  intro hclaim
  let _ := putParsing
  obtain ⟨after, hprocess, _⟩ := (hclaim (.put keylessPut.compact) 0).1 storeMemoryNew.2
  have haborts : ¬Checked.Returns
      ((Delivery.put keylessPut.compact).process 0 (memoryStore storeMemoryNew.2)) := by
    decide +kernel
  exact haborts ⟨after, hprocess⟩

end ServerSdk
