import Mathlib.Data.List.Nodup

namespace Program

-- A cell that was freed keeps its value here, but may not be read or freed any more.
structure HeapCell (α : Type) where
  value : α
  live : Bool

abbrev Heap (α : Type) := List (HeapCell α)

namespace Heap

variable {α : Type} {heap freed : Heap α} {pointer : ℕ} {pointers : List ℕ} {value : α}

def alloc (heap : Heap α) (value : α) : Heap α := heap ++ [⟨value, true⟩]

def read (heap : Heap α) (pointer : ℕ) : Option α :=
  (heap[pointer]?).bind fun cell => if cell.live then some cell.value else none

def free (heap : Heap α) (pointer : ℕ) : Option (Heap α) :=
  (heap.read pointer).map fun _ => heap.modify pointer fun cell => { cell with live := false }

def freeAll (heap : Heap α) (pointers : List ℕ) : Option (Heap α) := pointers.foldlM free heap

def original [Inhabited α] (heap : Heap α) (pointer : ℕ) : α :=
  (heap[pointer]?.map HeapCell.value).getD default

def Live (heap : Heap α) (pointers : List ℕ) : Prop :=
  ∀ pointer ∈ pointers, (heap.read pointer).isSome

theorem lt_of_isSome_read (h : (heap.read pointer).isSome) : pointer < heap.length := by
  obtain ⟨value, hvalue⟩ := Option.isSome_iff_exists.mp h
  obtain ⟨cell, hcell, _⟩ := Option.bind_eq_some_iff.mp hvalue
  exact (List.getElem?_eq_some_iff.mp hcell).1

theorem read_alloc (h : pointer < heap.length) (value : α) :
    (heap.alloc value).read pointer = heap.read pointer := by
  rw [read, alloc, List.getElem?_append_left h, read]

theorem read_alloc_new (heap : Heap α) (value : α) :
    (heap.alloc value).read heap.length = some value := by
  simp [read, alloc]

theorem length_alloc (heap : Heap α) (value : α) : (heap.alloc value).length = heap.length + 1 :=
  List.length_append

theorem free_eq_some_iff : heap.free pointer = some freed ↔ (heap.read pointer).isSome ∧
    freed = heap.modify pointer fun cell => { cell with live := false } := by
  rw [free, Option.map_eq_some_iff, Option.isSome_iff_exists]
  constructor
  · rintro ⟨value, hvalue, rfl⟩
    exact ⟨⟨value, hvalue⟩, rfl⟩
  · rintro ⟨⟨value, hvalue⟩, rfl⟩
    exact ⟨value, hvalue, rfl⟩

theorem read_free (h : heap.free pointer = some freed) (other : ℕ) :
    freed.read other = if other = pointer then none else heap.read other := by
  obtain ⟨_, rfl⟩ := free_eq_some_iff.mp h
  rw [read, List.getElem?_modify, read]
  by_cases hother : other = pointer
  · subst hother
    cases heap[other]? <;> simp
  · cases heap[other]? <;> simp [hother, Ne.symm hother]

theorem length_free (h : heap.free pointer = some freed) : freed.length = heap.length := by
  obtain ⟨_, rfl⟩ := free_eq_some_iff.mp h
  exact List.length_modify _ _ _

theorem length_freeAll (h : heap.freeAll pointers = some freed) : freed.length = heap.length := by
  induction pointers generalizing heap with
  | nil =>
      cases h
      rfl
  | cons pointer pointers ih =>
      rw [freeAll, List.foldlM_cons] at h
      obtain ⟨next, hnext, hrest⟩ := Option.bind_eq_some_iff.mp h
      rw [ih hrest, length_free hnext]

theorem freeAll_eq_some (h : heap.freeAll pointers = some freed) :
    pointers.Nodup ∧ heap.Live pointers ∧
      ∀ other, freed.read other = if other ∈ pointers then none else heap.read other := by
  induction pointers generalizing heap with
  | nil =>
      cases h
      exact ⟨List.nodup_nil, nofun, fun other => rfl⟩
  | cons pointer pointers ih =>
      rw [freeAll, List.foldlM_cons] at h
      obtain ⟨next, hnext, hrest⟩ := Option.bind_eq_some_iff.mp h
      obtain ⟨hnodup, hlive, hread⟩ := ih hrest
      have hkept := read_free hnext
      have hfresh : pointer ∉ pointers := by
        intro hmem
        have hsome := hlive pointer hmem
        rw [hkept, if_pos rfl] at hsome
        cases hsome
      refine ⟨List.nodup_cons.mpr ⟨hfresh, hnodup⟩, ?_, fun other => ?_⟩
      · refine List.forall_mem_cons.mpr ⟨(free_eq_some_iff.mp hnext).1, fun other hother => ?_⟩
        have hsome := hlive other hother
        rwa [hkept, if_neg (ne_of_mem_of_not_mem hother hfresh)] at hsome
      · rw [hread, hkept]
        by_cases hother : other = pointer <;> simp [hother]

theorem exists_freeAll (hnodup : pointers.Nodup) (hlive : heap.Live pointers) :
    ∃ freed, heap.freeAll pointers = some freed := by
  induction pointers generalizing heap with
  | nil => exact ⟨heap, rfl⟩
  | cons pointer pointers ih =>
      obtain ⟨hfresh, hnodup⟩ := List.nodup_cons.mp hnodup
      obtain ⟨hfirst, hrest⟩ := List.forall_mem_cons.mp hlive
      have hfree := free_eq_some_iff.mpr ⟨hfirst, rfl⟩
      obtain ⟨freed, hfreed⟩ := ih hnodup fun other hother => by
        rw [read_free hfree, if_neg (ne_of_mem_of_not_mem hother hfresh)]
        exact hrest other hother
      refine ⟨freed, ?_⟩
      rw [freeAll, List.foldlM_cons]
      exact Option.bind_eq_some_iff.mpr ⟨_, hfree, hfreed⟩

section Original

variable [Inhabited α]

theorem read_eq_some (h : heap.read pointer = some value) : value = heap.original pointer := by
  obtain ⟨cell, hcell, hlive⟩ := Option.bind_eq_some_iff.mp h
  obtain ⟨_, hvalue⟩ := Option.ite_none_right_eq_some.mp hlive
  rw [original, hcell]
  exact (Option.some.inj hvalue).symm

theorem read_eq_original (h : (heap.read pointer).isSome) :
    heap.read pointer = some (heap.original pointer) := by
  obtain ⟨value, hvalue⟩ := Option.isSome_iff_exists.mp h
  rw [hvalue, ← read_eq_some hvalue]

theorem original_alloc (h : pointer < heap.length) (value : α) :
    (heap.alloc value).original pointer = heap.original pointer := by
  rw [original, alloc, List.getElem?_append_left h, original]

theorem original_alloc_new (heap : Heap α) (value : α) :
    (heap.alloc value).original heap.length = value :=
  (read_eq_some (heap.read_alloc_new value)).symm

end Original

end Heap

end Program
