import ServerSdk.Program.Steps
import ServerSdk.Store.Counted

namespace ServerSdk

open Program

namespace CountedStore

def references (store : CountedStore) : List ℕ :=
  store.features.map Prod.snd ++ store.segments.map Prod.snd

variable {store store' : CountedStore} {held : List ℕ} {kind : FeatureKind} {rc : ℕ}

theorem values_erased {items : List (String × ℕ)} {key : String}
    (h : items.lookup key = some rc) :
    (items.map Prod.snd).Perm (rc :: (items.eraseP fun item => item.1 == key).map Prod.snd) := by
  induction items with
  | nil => cases h
  | cons item items ih =>
      obtain ⟨name, value⟩ := item
      rw [List.lookup_cons] at h
      cases hname : name == key with
      | true =>
          rw [beq_iff_eq.mp hname, beq_self_eq_true] at h
          cases h
          have herase : ((name, rc) :: items).eraseP (fun item => item.1 == key) = items :=
            List.eraseP_cons_of_pos hname
          rw [herase]
          exact .refl _
      | false =>
          rw [beq_false_of_ne (beq_eq_false_iff_ne.mp hname).symm] at h
          have herase : ((name, value) :: items).eraseP (fun item => item.1 == key) =
              (name, value) :: items.eraseP fun item => item.1 == key :=
            List.eraseP_cons_of_neg (by simp [hname])
          rw [herase]
          exact ((ih h).cons value).trans (.swap _ _ _)

theorem references_erased {key : String} (h : store.getFromStore kind key = some rc) :
    store.references.Perm (rc :: (store.withItems kind
      ((store.items kind).eraseP fun item => item.1 == key)).references) := by
  have hvalues := values_erased h
  cases kind with
  | flag => exact hvalues.append_right _
  | segment => exact (hvalues.append_left _).trans List.perm_middle

@[simp] theorem heap_withItems (store : CountedStore) (kind : FeatureKind)
    (items : List (String × ℕ)) : (store.withItems kind items).heap = store.heap := by
  cases kind <;> rfl

theorem balanced_added (h : store.heap.Balanced (store.references ++ held)) (kind : FeatureKind)
    (key : String) (value : Json) :
    (store.addToStore kind key value).heap.Balanced
      ((store.addToStore kind key value).references ++ held) := by
  have hnew := h.new value
  cases kind with
  | flag => exact hnew
  | segment => exact hnew.perm (List.perm_middle.symm.append_right held)

theorem subset_added (store : CountedStore) (kind : FeatureKind) (key : String) (value : Json) :
    store.references ⊆ (store.addToStore kind key value).references := by
  intro a ha
  rcases List.mem_append.mp ha with ha | ha
  · cases kind with
    | flag => exact List.mem_append_left _ (List.mem_cons_of_mem _ ha)
    | segment => exact List.mem_append_left _ ha
  · cases kind with
    | flag => exact List.mem_append_right _ ha
    | segment => exact List.mem_append_right _ (List.mem_cons_of_mem _ ha)

theorem releases {references : List ℕ} (h : store.heap.Balanced (rc :: references))
    (hrelease : store.release rc = .ok store') :
    store'.heap.Balanced references ∧ store'.references = store.references := by
  obtain ⟨heap, hheap, hpure⟩ := Counting.bind_eq_ok.mp hrelease
  cases hpure
  exact ⟨h.release hheap, rfl⟩

theorem retains {references : List ℕ} (h : store.heap.Balanced references)
    (hbound : store.heap.countOf rc + 1 < 2 ^ 32) (hretain : store.retain rc = .ok store') :
    store'.heap.Balanced (rc :: references) ∧ store'.references = store.references := by
  obtain ⟨heap, hheap, hpure⟩ := Counting.bind_eq_ok.mp hretain
  cases hpure
  exact ⟨h.retain hbound hheap, rfl⟩

theorem clearItems_balanced {items : List (String × ℕ)} {references : List ℕ}
    {heap heap' : CountedHeap Json} (h : heap.Balanced (items.map Prod.snd ++ references))
    (hclear : clearItems items heap = .ok heap') : heap'.Balanced references := by
  induction items generalizing heap with
  | nil =>
      cases hclear
      exact h
  | cons item items ih =>
      obtain ⟨released, hrelease, hclear⟩ := Counting.bind_eq_ok.mp hclear
      exact ih (h.release hrelease) hclear

theorem clearStore_balanced (h : store.heap.Balanced (store.references ++ held))
    (hclear : store.clearStore = .ok store') :
    store'.heap.Balanced (store'.references ++ held) := by
  obtain ⟨first, hfirst, hclear⟩ := Counting.bind_eq_ok.mp hclear
  obtain ⟨second, hsecond, hpure⟩ := Counting.bind_eq_ok.mp hclear
  cases hpure
  have hreversed : ∀ items : List (String × ℕ),
      (items.map Prod.snd).Perm (items.reverse.map Prod.snd) := fun items =>
    (List.reverse_perm items).symm.map _
  have hfeatures : store.heap.Balanced
      (store.features.reverse.map Prod.snd ++ (store.segments.map Prod.snd ++ held)) := by
    rw [references, List.append_assoc] at h
    exact h.perm ((hreversed _).append_right _)
  have hsegments := (clearItems_balanced hfeatures hfirst).perm ((hreversed _).append_right held)
  exact clearItems_balanced hsegments hsecond

theorem storeItems_balanced {items : List Json} (h : store.heap.Balanced (store.references ++ held))
    (hitems : storeItems kind items store = .ok store') :
    store'.heap.Balanced (store'.references ++ held) := by
  induction items generalizing store with
  | nil =>
      cases hitems
      exact h
  | cons item items ih =>
      obtain ⟨dataKey, -, hitems⟩ := Counting.bind_eq_ok.mp hitems
      obtain ⟨key, -, hitems⟩ := Counting.bind_eq_ok.mp hitems
      exact ih (balanced_added h kind key item) hitems

theorem storeKinds_balanced {kinds : List (Option String × Json)}
    (h : store.heap.Balanced (store.references ++ held))
    (hkinds : storeKinds kinds store = .ok store') :
    store'.heap.Balanced (store'.references ++ held) := by
  induction kinds generalizing store with
  | nil =>
      cases hkinds
      exact h
  | cons entry kinds ih =>
      obtain ⟨name, items⟩ := entry
      obtain ⟨named, -, hkinds⟩ := Counting.bind_eq_ok.mp hkinds
      cases named with
      | none => exact ih h hkinds
      | some kind =>
          obtain ⟨filled, hfilled, hkinds⟩ := Counting.bind_eq_ok.mp hkinds
          exact ih (storeItems_balanced h hfilled) hkinds

theorem storeInit_balanced {sets : Json} (h : store.heap.Balanced (store.references ++ held))
    (hinit : storeInit sets store = .ok store') :
    store'.heap.Balanced (store'.references ++ held) := by
  obtain ⟨cleared, hclear, hinit⟩ := Counting.bind_eq_ok.mp hinit
  obtain ⟨filled, hfilled, hpure⟩ := Counting.bind_eq_ok.mp hinit
  cases hpure
  have hbalanced := storeKinds_balanced (clearStore_balanced h hclear) hfilled
  exact hbalanced

def replaced (kind : FeatureKind) (key : String) (item : Json) (store : CountedStore) : List ℕ :=
  match store.getFromStore kind key with
  | none => []
  | some existing =>
      match store.heap.blocks existing with
      | none => []
      | some block => if getDataVersion item ≤ getDataVersion block.value then [] else [existing]

theorem removed_balanced {key : String} (h : store.heap.Balanced (store.references ++ held))
    (hfound : store.getFromStore kind key = some rc)
    (hremove : store.removeAndDeleteItem kind key rc = .ok store') :
    store'.heap.Balanced (store'.references ++ held) ∧
      ∀ a ∈ store.references, a ≠ rc → a ∈ store'.references := by
  have hperm := references_erased hfound
  have hheld : (store.withItems kind
      ((store.items kind).eraseP fun item => item.1 == key)).heap.Balanced
        (rc :: ((store.withItems kind
          ((store.items kind).eraseP fun item => item.1 == key)).references ++ held)) := by
    rw [heap_withItems]
    exact h.perm (hperm.append_right held)
  obtain ⟨hbalanced, hsame⟩ := releases hheld hremove
  rw [← hsame] at hbalanced hperm
  refine ⟨hbalanced, fun a ha hne => ?_⟩
  exact (List.mem_cons.mp (hperm.subset ha)).resolve_left hne

theorem storeUpsert_balanced {key : String} {item : Json}
    (h : store.heap.Balanced (store.references ++ held))
    (hupsert : storeUpsert kind key item store = .ok store') :
    store'.heap.Balanced (store'.references ++ held) ∧
      ∀ a ∈ store.references, a ∉ replaced kind key item store → a ∈ store'.references := by
  have hadd : ∀ {start : CountedStore}, start.heap.Balanced (start.references ++ held) →
      (do
        let newKey ← makeMemoryItem (← Counting.lift (getDataKey item))
        pure (start.addToStore kind newKey item) : Counting CountedStore) = .ok store' →
      store'.heap.Balanced (store'.references ++ held) ∧ start.references ⊆ store'.references := by
    intro start hstart hadded
    obtain ⟨dataKey, -, hadded⟩ := Counting.bind_eq_ok.mp hadded
    obtain ⟨newKey, -, hpure⟩ := Counting.bind_eq_ok.mp hadded
    cases hpure
    exact ⟨balanced_added hstart kind newKey item, subset_added start kind newKey item⟩
  simp only [storeUpsert] at hupsert
  split at hupsert
  · cases hupsert
    exact ⟨h, fun a ha _ => ha⟩
  · split at hupsert
    · rename_i existing hfound
      obtain ⟨value, hvalue, hupsert⟩ := Counting.bind_eq_ok.mp hupsert
      split at hupsert
      · cases hupsert
        exact ⟨h, fun a ha _ => ha⟩
      · rename_i hnewer
        obtain ⟨removed, hremoved, hupsert⟩ := Counting.bind_eq_ok.mp hupsert
        obtain ⟨hbalanced, hkept⟩ := removed_balanced h hfound hremoved
        obtain ⟨hbalanced, hsubset⟩ := hadd hbalanced hupsert
        refine ⟨hbalanced, fun a ha hnot => hsubset (hkept a ha ?_)⟩
        rintro rfl
        obtain ⟨block, hblock, rfl⟩ := CountedHeap.exists_of_get hvalue
        simp [replaced, hfound, hblock, hnewer] at hnot
    · obtain ⟨hbalanced, hsubset⟩ := hadd h hupsert
      exact ⟨hbalanced, fun a ha _ => hsubset ha⟩

theorem map_fst_readItems {items : List (String × ℕ)} {listing : List ((String × ℕ) × Json)}
    (h : readItems items store = .ok listing) : listing.map Prod.fst = items := by
  induction items generalizing listing with
  | nil =>
      cases h
      rfl
  | cons item items ih =>
      obtain ⟨value, -, h⟩ := Counting.bind_eq_ok.mp h
      obtain ⟨rest, hrest, hpure⟩ := Counting.bind_eq_ok.mp h
      cases hpure
      rw [List.map_cons, ih hrest]

theorem mem_references {item : String × ℕ} (h : item ∈ store.items kind) :
    item.2 ∈ store.references := by
  cases kind with
  | flag => exact List.mem_append_left _ (List.mem_map_of_mem h)
  | segment => exact List.mem_append_right _ (List.mem_map_of_mem h)

theorem collect_references {result : AllResult} (h : store.collect kind = .ok result) :
    ∀ a ∈ result.associated, a ∈ store.references := by
  obtain ⟨listing, hlisting, hpure⟩ := Counting.bind_eq_ok.mp h
  cases hpure
  intro a ha
  obtain ⟨entry, hentry, rfl⟩ := List.mem_map.mp ha
  have hitem : entry.1 ∈ listing.map Prod.fst :=
    List.mem_map_of_mem (List.mem_filter.mp hentry).1
  rw [map_fst_readItems hlisting, List.mem_reverse] at hitem
  exact mem_references hitem

end CountedStore

namespace MemoryTask

open CountedStore

def retained : MemoryTask → List ℕ
  | .associating result index => result.associated.take index
  | .holding result => result.associated
  | .releasing result index => result.associated.drop index
  | _ => []

def pending : MemoryTask → List ℕ
  | .associating result index => result.associated.drop index
  | _ => []

def removes : MemoryTask → CountedStore → List ℕ
  | .init _, store => store.references
  | .upsert kind feature, store =>
      (textKey feature).elim [] fun key => replaced kind key feature store
  | .remove kind key version, store => replaced kind key (Store.deletedItem key version) store
  | _, _ => []

def retains : MemoryTask → Option ℕ
  | .associating result index => result.associated[index]?
  | _ => none

theorem refersTo_subset (task : MemoryTask) : task.refersTo ⊆ task.retained ++ task.pending := by
  intro a ha
  cases task with
  | associating result index => exact (List.take_append_drop index result.associated).symm ▸ ha
  | holding result => exact List.mem_append_left _ ha
  | releasing result index => exact List.mem_append_left _ ha
  | _ => cases ha

structure Stepped (task task' : MemoryTask) (store store' : CountedStore) (held : List ℕ) : Prop where
  balanced : store'.heap.Balanced (store'.references ++ (task'.retained ++ held))
  references : ∀ a ∈ store.references, a ∉ task.removes store → a ∈ store'.references
  pending : ∀ a ∈ task'.pending, a ∈ task.pending ∨ a ∈ store'.references

variable {task task' : MemoryTask} {store store' : CountedStore} {held : List ℕ}

theorem drop_of_getElem? {l : List ℕ} {index rc : ℕ} (h : l[index]? = some rc) :
    l.drop index = rc :: l.drop (index + 1) := by
  obtain ⟨hlt, rfl⟩ := List.getElem?_eq_some_iff.mp h
  exact List.drop_eq_getElem_cons hlt

theorem removes_upsert {kind : FeatureKind} {feature : Json} {dataKey : Option String} {key : String}
    (hdataKey : Counting.lift (getDataKey feature) = .ok dataKey)
    (hkey : makeMemoryItem dataKey = .ok key) :
    (MemoryTask.upsert kind feature).removes store = replaced kind key feature store := by
  cases dataKey with
  | none => cases hkey
  | some name =>
      cases hkey
      rw [removes, getDataKey_eq_some.mp (Counting.lift_eq_ok hdataKey), Option.elim_some]

theorem stepped_associate {result : AllResult} {index : ℕ}
    (h : store.heap.Balanced (store.references ++ ((associating result index).retained ++ held)))
    (hbound : ∀ rc, (associating result index).retains = some rc →
      store.heap.countOf rc + 1 < 2 ^ 32)
    (hstep : (associating result index).step store = .ok (task', store')) :
    Stepped (associating result index) task' store store' held := by
  simp only [step] at hstep
  split at hstep
  · rename_i hend
    cases hstep
    have hall : result.associated.take index = result.associated :=
      List.take_of_length_le (List.getElem?_eq_none_iff.mp hend)
    simp only [retained, hall] at h
    exact ⟨h, fun a ha _ => ha, fun a ha => by cases ha⟩
  · rename_i rc hrc
    obtain ⟨kept, hkept, hpure⟩ := Counting.bind_eq_ok.mp hstep
    cases hpure
    obtain ⟨hbalanced, hsame⟩ := CountedStore.retains h (hbound rc hrc) hkept
    refine ⟨?_, fun a ha _ => hsame ▸ ha, fun a ha => .inl ?_⟩
    · rw [hsame]
      refine hbalanced.perm (List.perm_middle.symm.trans (List.Perm.append_left _ ?_))
      simp only [retained, List.take_add_one, hrc, Option.toList_some, List.append_assoc,
        List.singleton_append]
      exact List.perm_middle.symm
    · simp only [pending] at ha ⊢
      exact List.mem_of_mem_drop (by rwa [List.drop_drop])

theorem stepped_release {result : AllResult} {index : ℕ}
    (h : store.heap.Balanced (store.references ++ ((releasing result index).retained ++ held)))
    (hstep : (releasing result index).step store = .ok (task', store')) :
    Stepped (releasing result index) task' store store' held := by
  simp only [step] at hstep
  split at hstep
  · rename_i hend
    cases hstep
    have hnone : result.associated.drop index = [] :=
      List.drop_eq_nil_of_le (List.getElem?_eq_none_iff.mp hend)
    simp only [retained, hnone] at h
    exact ⟨h, fun a ha _ => ha, fun a ha => by cases ha⟩
  · rename_i rc hrc
    obtain ⟨freed, hfreed, hpure⟩ := Counting.bind_eq_ok.mp hstep
    cases hpure
    simp only [retained, drop_of_getElem? hrc] at h
    obtain ⟨hbalanced, hsame⟩ := CountedStore.releases (h.perm List.perm_middle) hfreed
    rw [← hsame] at hbalanced
    exact ⟨hbalanced, fun a ha _ => hsame ▸ ha, fun a ha => by cases ha⟩

theorem stepped_of_step
    (h : store.heap.Balanced (store.references ++ (task.retained ++ held)))
    (hbound : ∀ rc, task.retains = some rc → store.heap.countOf rc + 1 < 2 ^ 32)
    (hstep : task.step store = .ok (task', store')) : Stepped task task' store store' held := by
  cases task with
  | init sets =>
      obtain ⟨filled, hfilled, hpure⟩ := Counting.bind_eq_ok.mp hstep
      cases hpure
      exact ⟨storeInit_balanced h hfilled, fun a ha hnot => absurd ha hnot, fun a ha => by cases ha⟩
  | upsert kind feature =>
      simp only [step] at hstep
      split at hstep
      · obtain ⟨dataKey, hdataKey, hstep⟩ := Counting.bind_eq_ok.mp hstep
        obtain ⟨key, hkey, hstep⟩ := Counting.bind_eq_ok.mp hstep
        obtain ⟨filled, hfilled, hpure⟩ := Counting.bind_eq_ok.mp hstep
        cases hpure
        obtain ⟨hbalanced, hkept⟩ := storeUpsert_balanced h hfilled
        rw [← removes_upsert hdataKey hkey] at hkept
        exact ⟨hbalanced, hkept, fun a ha => by cases ha⟩
      · cases hstep
        exact ⟨h, fun a ha _ => ha, fun a ha => by cases ha⟩
  | remove kind key version =>
      obtain ⟨filled, hfilled, hpure⟩ := Counting.bind_eq_ok.mp hstep
      cases hpure
      obtain ⟨hbalanced, hkept⟩ := storeUpsert_balanced h hfilled
      exact ⟨hbalanced, hkept, fun a ha => by cases ha⟩
  | all kind =>
      obtain ⟨result, hresult, hpure⟩ := Counting.bind_eq_ok.mp hstep
      cases hpure
      exact ⟨h, fun a ha _ => ha, fun a ha => .inr (collect_references hresult a ha)⟩
  | associating result index => exact stepped_associate h hbound hstep
  | holding result =>
      cases hstep
      exact ⟨h, fun a ha _ => ha, fun a ha => by cases ha⟩
  | releasing result index => exact stepped_release h hstep
  | returned =>
      cases hstep
      exact ⟨h, fun a ha _ => ha, fun a ha => by cases ha⟩

end MemoryTask

namespace MemoryThreads

def pending (threads : MemoryThreads) : List ℕ := threads.tasks.flatMap MemoryTask.pending

def Careful (threads : MemoryThreads) : MemoryEvent → Prop
  | .start _ => True
  | .step id => ∀ task ∈ threads.tasks[id]?,
      (∀ a ∈ task.removes threads.store, a ∉ threads.pending) ∧
        ∀ rc ∈ task.retains, threads.store.heap.countOf rc + 1 < 2 ^ 32

def Counted (threads : MemoryThreads) : Prop :=
  ∀ task ∈ threads.tasks, ∀ a ∈ task.refersTo, 0 < threads.store.heap.countOf a

structure Kept (threads : MemoryThreads) : Prop where
  balanced : threads.store.heap.Balanced
    (threads.store.references ++ threads.tasks.flatMap MemoryTask.retained)
  pending : ∀ a ∈ threads.pending, a ∈ threads.store.references

variable {threads next : MemoryThreads} {event : MemoryEvent}

theorem kept_idle : Kept idle := ⟨CountedHeap.balanced_empty, fun a ha => by cases ha⟩

theorem Kept.counted (h : Kept threads) : threads.Counted := by
  intro task htask a ha
  refine h.balanced.count_pos ?_
  rcases List.mem_append.mp (task.refersTo_subset ha) with hretained | hpending
  · exact List.mem_append_right _ (List.mem_flatMap.mpr ⟨task, htask, hretained⟩)
  · exact List.mem_append_left _ (h.pending a (List.mem_flatMap.mpr ⟨task, htask, hpending⟩))

theorem Kept.stepped (h : Kept threads) {before after : List MemoryTask} {task task' : MemoryTask}
    {store' : CountedStore} (htasks : threads.tasks = before ++ task :: after)
    (hremoves : ∀ a ∈ task.removes threads.store, a ∉ threads.pending)
    (hbound : ∀ rc ∈ task.retains, threads.store.heap.countOf rc + 1 < 2 ^ 32)
    (hstep : task.step threads.store = .ok (task', store')) :
    Kept ⟨store', before ++ task' :: after⟩ := by
  have hretained : ∀ other : MemoryTask,
      ((before ++ other :: after).flatMap MemoryTask.retained).Perm
        (other.retained ++ (before ++ after).flatMap MemoryTask.retained) := by
    intro other
    exact (List.perm_middle.flatMap_right _).trans (by rw [List.flatMap_cons])
  have hbalanced := h.balanced
  rw [htasks] at hbalanced
  have hstepped := MemoryTask.stepped_of_step
    (hbalanced.perm ((hretained task).append_left _)) hbound hstep
  refine ⟨hstepped.balanced.perm ((hretained task').symm.append_left _), ?_⟩
  have hkept : ∀ a ∈ threads.pending, a ∈ store'.references := by
    intro a ha
    exact hstepped.references a (h.pending a ha) fun hremoved => hremoves a hremoved ha
  have hpending : ∀ other ∈ before ++ task :: after, ∀ a ∈ other.pending, a ∈ threads.pending := by
    intro other hother a ha
    exact List.mem_flatMap.mpr ⟨other, htasks ▸ hother, ha⟩
  intro a hmem
  obtain ⟨other, hother, ha⟩ := List.mem_flatMap.mp hmem
  rcases List.mem_append.mp hother with hbefore | hother
  · exact hkept a (hpending other (List.mem_append_left _ hbefore) a ha)
  · rcases List.mem_cons.mp hother with heq | hafter
    · rcases hstepped.pending a (heq ▸ ha) with hold | hnew
      · exact hkept a (hpending task (by simp) a hold)
      · exact hnew
    · exact hkept a (hpending other (by simp [hafter]) a ha)

theorem Kept.perform (h : Kept threads) (hcareful : threads.Careful event)
    (hperform : threads.perform event = .ok next) : Kept next := by
  cases event with
  | start call =>
      cases hperform
      have hbegin : call.begin.retained = [] ∧ call.begin.pending = [] := by
        cases call <;> exact ⟨rfl, rfl⟩
      refine ⟨?_, ?_⟩
      · simpa only [List.flatMap_append, List.flatMap_cons, List.flatMap_nil, hbegin.1,
          List.append_nil] using h.balanced
      · intro a ha
        simp only [MemoryThreads.pending, List.flatMap_append, List.flatMap_cons, List.flatMap_nil,
          hbegin.2, List.append_nil] at ha
        exact h.pending a ha
  | step id =>
      simp only [MemoryThreads.perform] at hperform
      cases htask : threads.tasks[id]? with
      | none =>
          rw [htask] at hperform
          cases hperform
          exact h
      | some task =>
          rw [htask] at hperform
          obtain ⟨⟨task', store'⟩, hstep, hpure⟩ := Counting.bind_eq_ok.mp hperform
          cases hpure
          obtain ⟨hremoves, hbound⟩ := hcareful task htask
          obtain ⟨hlt, hget⟩ := List.getElem?_eq_some_iff.mp htask
          have hsplit : threads.tasks =
              threads.tasks.take id ++ task :: threads.tasks.drop (id + 1) := by
            rw [← hget, ← List.drop_eq_getElem_cons hlt, List.take_append_drop]
          have hset : threads.tasks.set id task' =
              threads.tasks.take id ++ task' :: threads.tasks.drop (id + 1) := by
            rw [List.set_eq_take_append_cons_drop, if_pos hlt]
          rw [hset]
          exact h.stepped hsplit hremoves hbound hstep

theorem all_results_stay_counted (h : Steps MemoryThreads.perform Careful idle threads) :
    threads.Counted :=
  (Steps.invariant (P := Kept) kept_idle Kept.perform h).counted

instance (threads : MemoryThreads) : DecidablePred threads.Careful
  | .start _ => isTrue trivial
  | .step id => inferInstanceAs (Decidable (∀ task ∈ threads.tasks[id]?,
      (∀ a ∈ task.removes threads.store, a ∉ threads.pending) ∧
        ∀ rc ∈ task.retains, threads.store.heap.countOf rc + 1 < 2 ^ 32))

instance : DecidablePred Counted := fun threads =>
  inferInstanceAs (Decidable (∀ task ∈ threads.tasks, ∀ a ∈ task.refersTo,
    0 < threads.store.heap.countOf a))

def sampleItem (version : Rat) : Json :=
  .object [("key", .text "f"), ("version", .number version)]

def sampleSets : Json := .object [("features", .object [("f", sampleItem 1)])]

theorem all_results_stay_counted_upsert : ∃ threads, Steps MemoryThreads.perform Careful idle threads ∧
    threads.tasks.map MemoryTask.refersTo = [[], [0], []] ∧ threads.Counted := by
  have hrun : Along MemoryThreads.perform Careful
      (fun threads => threads.tasks.map MemoryTask.refersTo = [[], [0], []])
      [.start (.init sampleSets), .step 0, .start (.all .flag), .step 1, .step 1,
        .start (.upsert .flag (sampleItem 2)), .step 2] idle := by
    decide +kernel
  obtain ⟨threads, hsteps, hrefers⟩ := Steps.of_along hrun
  exact ⟨threads, hsteps, hrefers, all_results_stay_counted hsteps⟩

theorem all_result_loses_item : ∃ threads,
    Steps MemoryThreads.perform (fun _ _ => True) idle threads ∧ ¬ threads.Counted := by
  have hrun : Along MemoryThreads.perform (fun _ _ => True) (fun threads => ¬ threads.Counted)
      [.start (.init sampleSets), .step 0, .start (.all .flag), .step 1,
        .start (.upsert .flag (sampleItem 2)), .step 2] idle := by
    decide +kernel
  exact Steps.of_along hrun

end MemoryThreads

end ServerSdk
