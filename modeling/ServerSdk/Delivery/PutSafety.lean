import ServerSdk.Delivery.Put
import ServerSdk.Program.Keyed
import ServerSdk.Store.Listed

namespace ServerSdk

open Program PersistentStoreContext

def itemsOf (fields : List (String × Json)) (kind : FeatureKind) : List Json :=
  (fields.filter fun field => field.1 = featureKindToString kind).flatMap fun field => field.2.getIter

theorem itemsOf_cons (field : String × Json) (fields : List (String × Json)) (kind : FeatureKind) :
    itemsOf (field :: fields) kind =
      (if field.1 = featureKindToString kind then field.2.getIter else []) ++ itemsOf fields kind := by
  rw [itemsOf]
  split_ifs with hname
  · rw [List.filter_cons_of_pos (by simpa using hname), List.flatMap_cons]
    rfl
  · rw [List.filter_cons_of_neg (by simpa using hname)]
    rfl

theorem mem_itemsOf {fields : List (String × Json)} {kind : FeatureKind} {item : Json} :
    item ∈ itemsOf fields kind ↔
      ∃ field ∈ fields, field.1 = featureKindToString kind ∧ item ∈ field.2.getIter := by
  rw [itemsOf, List.mem_flatMap]
  constructor
  · rintro ⟨field, hfield, hitem⟩
    obtain ⟨hmem, hname⟩ := List.mem_filter.mp hfield
    exact ⟨field, hmem, by simpa using hname, hitem⟩
  · rintro ⟨field, hmem, hname, hitem⟩
    exact ⟨field, List.mem_filter.mpr ⟨hmem, by simpa using hname⟩, hitem⟩

def withKey (item : Json) : Option (String × Json) := (textKey item).map fun key => (key, item)

theorem withKey_of_key {item : Json} {key : String} (h : textKey item = some key) :
    withKey item = some (key, item) := by
  rw [withKey, h]
  rfl

section Memory

open MemoryStoreContext

variable {store next : MemoryStoreContext} {kind : FeatureKind}

theorem addToStore_items {key : String} {item : Json} (h : textKey item = some key)
    (items : List Json) (store : MemoryStoreContext) :
    (store.addToStore kind (key, item)).withItems kind ((items.filterMap withKey).reverse ++
        (store.addToStore kind (key, item)).items kind) =
      store.withItems kind (((item :: items).filterMap withKey).reverse ++ store.items kind) := by
  rw [List.filterMap_cons_some (withKey_of_key h), List.reverse_cons, List.append_assoc]
  cases kind <;> rfl

theorem storeItems_eq_ok {items : List Json} : storeItems kind items store = .ok next ↔
    (∀ item ∈ items, (textKey item).isSome) ∧
      next = store.withItems kind ((items.filterMap withKey).reverse ++ store.items kind) := by
  induction items generalizing store with
  | nil =>
      have hsame : store.withItems kind (store.items kind) = store := by cases kind <;> rfl
      simp only [storeItems, List.not_mem_nil, false_imp_iff, implies_true, true_and,
        List.filterMap_nil, List.reverse_nil, List.nil_append, hsame, Except.ok.injEq, eq_comm]
  | cons item items ih =>
      rw [storeItems, Checked.bind_eq_ok]
      constructor
      · rintro ⟨dataKey, hkey, h⟩
        cases dataKey with
        | none => cases h
        | some key =>
            have htext : textKey item = some key := getDataKey_eq_some.mp hkey
            obtain ⟨hitems, rfl⟩ := ih.mp h
            refine ⟨?_, addToStore_items htext items store⟩
            intro other hother
            rcases List.mem_cons.mp hother with rfl | hother
            · rw [htext]
              rfl
            · exact hitems other hother
      · rintro ⟨hitems, rfl⟩
        obtain ⟨key, htext⟩ := Option.isSome_iff_exists.mp (hitems item (by simp))
        refine ⟨some key, getDataKey_eq_some.mpr htext, ih.mpr ⟨?_, ?_⟩⟩
        · intro other hother
          exact hitems other (by simp [hother])
        · exact (addToStore_items htext items store).symm

theorem storeKinds_of_kind {name : Option String} (h : stringToFeatureKind name = .ok (some kind))
    (items : Json) (kinds : List (Option String × Json)) :
    storeKinds ((name, items) :: kinds) store =
      storeItems kind items.getIter store >>= storeKinds kinds := by
  rw [storeKinds, h]
  rfl

theorem storeKinds_of_unknown {name : Option String} (h : stringToFeatureKind name = .ok none)
    (items : Json) (kinds : List (Option String × Json)) :
    storeKinds ((name, items) :: kinds) store = storeKinds kinds store := by
  rw [storeKinds, h]
  rfl

theorem storeKinds_returns {fields : List (String × Json)}
    (h : ∀ kind, ∀ item ∈ itemsOf fields kind, (textKey item).isSome) (store : MemoryStoreContext) :
    Checked.Returns (storeKinds (fields.map fun field => (some field.1, field.2)) store) := by
  induction fields generalizing store with
  | nil => exact ⟨store, rfl⟩
  | cons field fields ih =>
      have hrest : ∀ kind, ∀ item ∈ itemsOf fields kind, (textKey item).isSome := by
        intro kind item hitem
        exact h kind item (by rw [itemsOf_cons]; exact List.mem_append_right _ hitem)
      rw [List.map_cons]
      rcases stringToFeatureKind_cases field.1 with ⟨kind, hname, hkind⟩ | ⟨_, hnone⟩
      · have hkeys : ∀ item ∈ field.2.getIter, (textKey item).isSome := by
          intro item hitem
          refine h kind item ?_
          rw [itemsOf_cons, if_pos hname]
          exact List.mem_append_left _ hitem
        obtain ⟨last, hlast⟩ := ih hrest _
        refine ⟨last, ?_⟩
        rw [storeKinds_of_kind hkind]
        exact Checked.bind_eq_ok.mpr ⟨_, storeItems_eq_ok.mpr ⟨hkeys, rfl⟩, hlast⟩
      · obtain ⟨last, hlast⟩ := ih hrest store
        refine ⟨last, ?_⟩
        rw [storeKinds_of_unknown hnone]
        exact hlast

theorem storeKinds_items {fields : List (String × Json)}
    (h : storeKinds (fields.map fun field => (some field.1, field.2)) store = .ok next)
    (kind : FeatureKind) : (∀ item ∈ itemsOf fields kind, (textKey item).isSome) ∧
      next.items kind = ((itemsOf fields kind).filterMap withKey).reverse ++ store.items kind := by
  induction fields generalizing store with
  | nil =>
      cases h
      exact ⟨by simp [itemsOf], rfl⟩
  | cons field fields ih =>
      rw [List.map_cons] at h
      rw [itemsOf_cons]
      rcases stringToFeatureKind_cases field.1 with ⟨kind', hname, hkind⟩ | ⟨hother, hnone⟩
      · rw [storeKinds_of_kind hkind] at h
        obtain ⟨filled, hfilled, hrest⟩ := Checked.bind_eq_ok.mp h
        obtain ⟨hkeys, rfl⟩ := storeItems_eq_ok.mp hfilled
        obtain ⟨hlater, hitems⟩ := ih hrest
        by_cases hsame : kind = kind'
        · subst hsame
          rw [if_pos hname]
          refine ⟨?_, ?_⟩
          · intro item hitem
            rcases List.mem_append.mp hitem with hitem | hitem
            · exact hkeys item hitem
            · exact hlater item hitem
          · rw [hitems, items_withItems, if_pos rfl, List.filterMap_append, List.reverse_append,
              List.append_assoc]
        · have hne : field.1 ≠ featureKindToString kind := by
            rw [hname]
            exact fun heq => hsame (featureKindToString_injective heq).symm
          rw [if_neg hne, List.nil_append]
          refine ⟨hlater, ?_⟩
          rw [hitems, items_withItems, if_neg hsame]
      · rw [storeKinds_of_unknown hnone] at h
        rw [if_neg (hother kind), List.nil_append]
        exact ih h

end Memory

def Returns {σ : Type} (store : Store σ) (kind : FeatureKind) (key : String) (item : Json) : Prop :=
  ∃ next, store.get kind key = .ok (some (some item), next)

def ServesItems {σ ι : Type} (keeps : σ → FeatureKind → Json → Prop) (rehashed : ι → σ → σ)
    (sets : Json) (store : Store σ) : Prop :=
  ∀ kind, ∀ item ∈ itemsOf sets.iterFields kind,
    (∀ key, Carries key item → isDataDeleted item = false → ∀ order,
      Returns { store with context := rehashed order store.context } kind key item) ∧
    (validateData item = false → ¬keeps store.context kind item)

def AllValid (sets : Json) : Prop :=
  ∀ kind, ∀ item ∈ itemsOf sets.iterFields kind, validateData item = true

def Unshadowed (sets : Json) : Prop :=
  ∀ kind key, ∀ item ∈ itemsOf sets.iterFields kind, Carries key item →
    isDataDeleted item = false →
      ∀ other ∈ itemsOf sets.iterFields kind, textKey other = some key → other = item

theorem serves_of_allValid {σ ι : Type} {keeps : σ → FeatureKind → Json → Prop}
    {rehashed : ι → σ → σ} {sets : Json} {after : Store σ} (hvalid : AllValid sets)
    (hget : ∀ kind key, ∀ item ∈ itemsOf sets.iterFields kind, Carries key item →
      isDataDeleted item = false → ∀ order,
        Returns { after with context := rehashed order after.context } kind key item) :
    ServesItems keeps rehashed sets after := by
  intro kind item hitem
  refine ⟨fun key => hget kind key item hitem, ?_⟩
  intro hinvalid
  rw [hvalid kind item hitem] at hinvalid
  cases hinvalid

section MemoryDelivery

open MemoryStoreContext

def memoryStore (context : MemoryStoreContext) : Store MemoryStoreContext :=
  ⟨storeMemoryNew.1, context⟩

def memoryKeeps (context : MemoryStoreContext) (kind : FeatureKind) (item : Json) : Prop :=
  ∃ key, (key, item) ∈ context.items kind

def MemoryStoreContext.rehashed (orders : FeatureKind → Reordering (String × Json))
    (store : MemoryStoreContext) : MemoryStoreContext :=
  { store with
    features := (orders .flag).reorder store.features
    segments := (orders .segment).reorder store.segments }

variable {context : MemoryStoreContext} {kind : FeatureKind} {key : String} {item : Json}
  {orders : FeatureKind → Reordering (String × Json)} {fields : List (String × Json)}

theorem MemoryStoreContext.items_rehashed : (context.rehashed orders).items kind =
    (orders kind).reorder (context.items kind) := by
  cases kind <;> rfl

theorem memoryStore_get : Returns (memoryStore context) kind key item ↔
      context.getFromStore kind key = some item ∧ isDataDeleted item = false := by
  have hget : (memoryStore context).get kind key =
      .ok (some ((context.getFromStore kind key).bind visible), memoryStore context) := by
    change Except.ok (some (context.storeGet kind key), memoryStore context) = _
    rw [MemoryStoreContext.storeGet]
    cases context.getFromStore kind key <;> rfl
  rw [Returns, hget]
  constructor
  · rintro ⟨next, hnext⟩
    have hvisible : (context.getFromStore kind key).bind visible = some item :=
      Option.some.inj (Prod.mk.inj (Except.ok.inj hnext)).1
    obtain ⟨held, hheld, hvisible⟩ := Option.bind_eq_some_iff.mp hvisible
    obtain ⟨hlive, rfl⟩ := visible_eq_some.mp hvisible
    exact ⟨hheld, hlive⟩
  · rintro ⟨hheld, hlive⟩
    rw [hheld, Option.bind_some, visible_eq_some.mpr ⟨hlive, rfl⟩]
    exact ⟨_, rfl⟩

theorem memoryStore_init {status : Bool} {after : Store MemoryStoreContext}
    (h : (memoryStore context).init (.object fields) = .ok (status, after)) :
    ∃ filled, after = memoryStore filled ∧ ∀ kind,
      (∀ item ∈ itemsOf fields kind, (textKey item).isSome) ∧
        filled.items kind = ((itemsOf fields kind).filterMap withKey).reverse := by
  obtain ⟨⟨_, filled⟩, hfilled, h⟩ := Checked.bind_eq_ok.mp h
  cases h
  obtain ⟨inner, hinner, hfilled⟩ := Checked.bind_eq_ok.mp hfilled
  cases hfilled
  refine ⟨_, rfl, ?_⟩
  intro kind
  obtain ⟨hkeys, hitems⟩ := storeKinds_items hinner kind
  refine ⟨hkeys, ?_⟩
  have hcleared : (memoryStore context).context.clearStore.items kind = [] := by cases kind <;> rfl
  rw [hcleared, List.append_nil] at hitems
  cases kind <;> exact hitems

theorem memoryStore_init_returns
    (h : ∀ kind, ∀ item ∈ itemsOf fields kind, (textKey item).isSome)
    (context : MemoryStoreContext) :
    ∃ status after, (memoryStore context).init (.object fields) = .ok (status, after) := by
  obtain ⟨filled, hfilled⟩ := storeKinds_returns h context.clearStore
  refine ⟨true, memoryStore { filled with initialized := true }, ?_⟩
  refine Checked.bind_eq_ok.mpr ⟨(true, { filled with initialized := true }), ?_, rfl⟩
  exact Checked.bind_eq_ok.mpr ⟨filled, hfilled, rfl⟩

theorem mem_withKey {items : List Json} {other : Json} :
    (key, other) ∈ (items.filterMap withKey).reverse ↔ other ∈ items ∧ textKey other = some key := by
  rw [List.mem_reverse, List.mem_filterMap]
  constructor
  · rintro ⟨found, hfound, hpair⟩
    obtain ⟨k, hk, heq⟩ := Option.map_eq_some_iff.mp hpair
    cases heq
    exact ⟨hfound, hk⟩
  · rintro ⟨hother, hk⟩
    exact ⟨other, hother, withKey_of_key hk⟩

theorem lookup_of_unanimous {entries : List (String × Json)} (hmem : (key, item) ∈ entries)
    (h : ∀ other, (key, other) ∈ entries → other = item) : entries.lookup key = some item := by
  cases hlookup : entries.lookup key with
  | none =>
      have hne := List.lookup_eq_none_iff.mp hlookup (key, item) hmem
      simp at hne
  | some other =>
      obtain ⟨before, after, rfl, -⟩ := List.lookup_eq_some_iff.mp hlookup
      rw [h other (by simp)]

theorem lookup_preferring {entries : List (String × Json)} {other : Json}
    (hmem : (key, other) ∈ entries) :
    ((Reordering.preferring fun entry => entry = (key, other)).reorder entries).lookup key =
      some other := by
  obtain ⟨entry, hfind, hentry⟩ := @Reordering.find?_preferring _
    (fun entry => decide (entry = (key, other))) (fun entry => decide (entry.1 = key)) entries
    ⟨_, hmem, by simp⟩ (by simp +contextual)
  rw [← find?_eq_lookup, hfind, decide_eq_true_eq.mp hentry]
  rfl

theorem memory_serves_iff (context : MemoryStoreContext) (fields : List (String × Json)) :
    (∃ status after, (memoryStore context).init (.object fields) = .ok (status, after) ∧
      ServesItems memoryKeeps MemoryStoreContext.rehashed (.object fields) after) ↔
    AllValid (.object fields) ∧ Unshadowed (.object fields) := by
  constructor
  · rintro ⟨status, after, hinit, hserves⟩
    obtain ⟨filled, rfl, hfilled⟩ := memoryStore_init hinit
    refine ⟨?_, ?_⟩
    · intro kind item hitem
      by_contra hinvalid
      obtain ⟨key, hkey⟩ := Option.isSome_iff_exists.mp ((hfilled kind).1 item hitem)
      refine (hserves kind item hitem).2 (by simpa using hinvalid) ⟨key, ?_⟩
      change (key, item) ∈ filled.items kind
      rw [(hfilled kind).2]
      exact mem_withKey.mpr ⟨hitem, hkey⟩
    · intro kind key item hitem hcarries hlive other hother hkey
      let order : Reordering (String × Json) := .preferring fun entry => entry = (key, other)
      have hget := memoryStore_get.mp ((hserves kind item hitem).1 key hcarries hlive fun _ => order)
      have hlookup : ((filled.rehashed fun _ => order).items kind).lookup key = some item := hget.1
      rw [items_rehashed, (hfilled kind).2] at hlookup
      have hmem : (key, other) ∈ ((itemsOf fields kind).filterMap withKey).reverse :=
        mem_withKey.mpr ⟨hother, hkey⟩
      exact Option.some.inj ((lookup_preferring hmem).symm.trans hlookup)
  · rintro ⟨hvalid, hunshadowed⟩
    have hkeys : ∀ kind, ∀ item ∈ itemsOf fields kind, (textKey item).isSome := by
      intro kind item hitem
      obtain ⟨key, hcarries⟩ := exists_carries (hvalid kind item hitem)
      rw [hcarries.textKey_eq]
      rfl
    obtain ⟨status, after, hinit⟩ := memoryStore_init_returns hkeys context
    refine ⟨status, after, hinit, ?_⟩
    obtain ⟨filled, rfl, hfilled⟩ := memoryStore_init hinit
    refine serves_of_allValid hvalid ?_
    intro kind key item hitem hcarries hlive orders
    refine memoryStore_get.mpr ⟨?_, hlive⟩
    change ((filled.rehashed orders).items kind).lookup key = some item
    have hmem {other : Json} : (key, other) ∈ (orders kind).reorder (filled.items kind) ↔
        other ∈ itemsOf fields kind ∧ textKey other = some key := by
      rw [((orders kind).perm _).mem_iff, (hfilled kind).2]
      exact mem_withKey
    rw [items_rehashed]
    refine lookup_of_unanimous (hmem.mpr ⟨hitem, hcarries.textKey_eq⟩) ?_
    intro other hother
    obtain ⟨hother, hkey⟩ := hmem.mp hother
    exact hunshadowed kind key item hitem hcarries hlive other hother hkey

end MemoryDelivery

end ServerSdk
