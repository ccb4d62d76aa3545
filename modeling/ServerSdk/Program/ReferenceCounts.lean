import Mathlib.Algebra.Group.Nat.Defs
import Mathlib.Data.List.Count
import Mathlib.Logic.Function.Basic
import ServerSdk.Program.Run

namespace Program

inductive CountFault where
  | freed
  | released
  | halted (fault : Fault)
  deriving DecidableEq, Repr

abbrev Counting := Except CountFault

def Counting.lift {α : Type} : Checked α → Counting α
  | .ok a => .ok a
  | .error fault => .error (.halted fault)

theorem Counting.bind_eq_ok {α β : Type} {m : Counting α} {f : α → Counting β} {b : β} :
    (m >>= f) = .ok b ↔ ∃ a, m = .ok a ∧ f a = .ok b := by
  constructor
  · intro h
    cases m with
    | error fault => cases h
    | ok a => exact ⟨a, rfl, h⟩
  · rintro ⟨a, rfl, h⟩
    exact h

theorem Counting.lift_eq_ok {α : Type} {m : Checked α} {a : α} (h : Counting.lift m = .ok a) :
    m = .ok a := by
  cases m with
  | error fault => cases h
  | ok b =>
      cases h
      rfl

structure Counted (α : Type) where
  value : α
  count : ℕ

structure CountedHeap (α : Type) where
  blocks : ℕ → Option (Counted α)
  allocated : ℕ

namespace CountedHeap

variable {α : Type}

def empty : CountedHeap α := ⟨fun _ => none, 0⟩

def countOf (heap : CountedHeap α) (address : ℕ) : ℕ :=
  (heap.blocks address).elim 0 Counted.count

def put (heap : CountedHeap α) (address : ℕ) (block : Option (Counted α)) : CountedHeap α :=
  { heap with blocks := Function.update heap.blocks address block }

def new (value : α) (heap : CountedHeap α) : ℕ × CountedHeap α :=
  (heap.allocated, { heap.put heap.allocated (some ⟨value, 1⟩) with allocated := heap.allocated + 1 })

def get (heap : CountedHeap α) (address : ℕ) : Counting α :=
  match heap.blocks address with
  | none => .error .freed
  | some block => .ok block.value

def retain (address : ℕ) (heap : CountedHeap α) : Counting (CountedHeap α) :=
  match heap.blocks address with
  | none => .error .freed
  | some block =>
      .ok (heap.put address (some { block with count := (block.count + 1) % 2 ^ 32 }))

def release (address : ℕ) (heap : CountedHeap α) : Counting (CountedHeap α) :=
  match heap.blocks address with
  | none => .error .freed
  | some block =>
      match block.count with
      | 0 => .error .released
      | 1 => .ok (heap.put address none)
      | count + 2 => .ok (heap.put address (some { block with count := count + 1 }))

structure Balanced (references : List ℕ) (heap : CountedHeap α) : Prop where
  count : ∀ address, heap.countOf address = references.count address
  live : ∀ address block, heap.blocks address = some block → 0 < block.count
  fresh : ∀ address, heap.allocated ≤ address → heap.blocks address = none

variable {heap heap' : CountedHeap α} {references references' : List ℕ} {address : ℕ}

theorem exists_of_get {value : α} (h : heap.get address = .ok value) :
    ∃ block, heap.blocks address = some block ∧ block.value = value := by
  simp only [get] at h
  split at h
  · cases h
  · rename_i block hblock
    cases h
    exact ⟨block, hblock, rfl⟩

theorem balanced_empty : Balanced [] (empty : CountedHeap α) :=
  ⟨fun _ => rfl, fun _ _ h => (Option.some_ne_none _ h.symm).elim, fun _ _ => rfl⟩

theorem Balanced.perm (h : Balanced references heap) (hperm : references.Perm references') :
    Balanced references' heap :=
  ⟨fun a => (h.count a).trans (hperm.count_eq a), h.live, h.fresh⟩

theorem Balanced.count_pos (h : Balanced references heap) (hmem : address ∈ references) :
    0 < heap.countOf address := by
  rw [h.count]
  exact List.count_pos_iff.mpr hmem

theorem Balanced.lt_allocated (h : Balanced references heap) (hmem : address ∈ references) :
    address < heap.allocated := by
  have hpos := h.count_pos hmem
  by_contra hge
  rw [countOf, h.fresh address (by omega)] at hpos
  exact Nat.lt_irrefl 0 hpos

theorem countOf_put (heap : CountedHeap α) (address other : ℕ) (block : Option (Counted α)) :
    (heap.put address block).countOf other =
      if other = address then block.elim 0 Counted.count else heap.countOf other := by
  simp only [countOf, put, Function.update_apply]
  split
  · rfl
  · rfl

theorem Balanced.put (h : Balanced references heap) {block : Option (Counted α)}
    (hlt : address < heap.allocated)
    (hcount : ∀ other, references'.count other =
      if other = address then block.elim 0 Counted.count else references.count other)
    (hlive : ∀ b, block = some b → 0 < b.count) : Balanced references' (heap.put address block) := by
  refine ⟨?_, ?_, ?_⟩
  · intro other
    rw [countOf_put, hcount, h.count]
  · intro other b hb
    simp only [CountedHeap.put, Function.update_apply] at hb
    split at hb
    · exact hlive b hb
    · exact h.live other b hb
  · intro other hother
    have hne : other ≠ address := by
      have hother : heap.allocated ≤ other := hother
      omega
    simp only [CountedHeap.put, Function.update_of_ne hne]
    exact h.fresh other hother

theorem count_cons_ite (address other : ℕ) (references : List ℕ) :
    (address :: references).count other =
      if other = address then references.count address + 1 else references.count other := by
  split
  · rename_i heq
    rw [heq, List.count_cons_self]
  · rename_i hne
    exact List.count_cons_of_ne (Ne.symm hne)

theorem Balanced.new (h : Balanced references heap) (value : α) :
    Balanced ((heap.new value).1 :: references) (heap.new value).2 := by
  have hzero : references.count heap.allocated = 0 := by
    rw [← h.count, countOf, h.fresh _ (Nat.le_refl _)]
    rfl
  have hgrown : Balanced references { heap with allocated := heap.allocated + 1 } :=
    ⟨h.count, h.live, fun a ha => h.fresh a (Nat.le_of_succ_le ha)⟩
  refine hgrown.put (Nat.lt_succ_self _) ?_ ?_
  · intro other
    change List.count other (heap.allocated :: references) = _
    rw [count_cons_ite, hzero]
    rfl
  · intro b hb
    cases hb
    exact Nat.one_pos

theorem Balanced.retain (h : Balanced references heap)
    (hbound : heap.countOf address + 1 < 2 ^ 32) (hretain : heap.retain address = .ok heap') :
    Balanced (address :: references) heap' := by
  simp only [CountedHeap.retain] at hretain
  cases hblock : heap.blocks address with
  | none => simp [hblock] at hretain
  | some block =>
      simp only [hblock] at hretain
      cases hretain
      have hcount : heap.countOf address = block.count := by
        rw [countOf, hblock]
        rfl
      have hlt : address < heap.allocated := by
        by_contra hge
        rw [h.fresh address (by omega)] at hblock
        cases hblock
      rw [hcount] at hbound
      refine h.put hlt ?_ ?_
      · intro other
        rw [count_cons_ite, ← h.count, hcount, Option.elim_some, Nat.mod_eq_of_lt hbound]
      · intro b hb
        cases hb
        change 0 < (block.count + 1) % 2 ^ 32
        omega

theorem Balanced.release (h : Balanced (address :: references) heap)
    (hrelease : heap.release address = .ok heap') : Balanced references heap' := by
  have hlt := h.lt_allocated (List.mem_cons_self ..)
  simp only [CountedHeap.release] at hrelease
  cases hblock : heap.blocks address with
  | none => simp [hblock] at hrelease
  | some block =>
      have hcount : block.count = references.count address + 1 := by
        have hall := h.count address
        rwa [countOf, hblock, Option.elim_some, List.count_cons_self] at hall
      have hothers : ∀ (block : Option (Counted α)),
          block.elim 0 Counted.count = references.count address → ∀ other,
            references.count other = if other = address then block.elim 0 Counted.count
              else (address :: references).count other := by
        intro block hkept other
        rw [count_cons_ite, hkept]
        split
        · rename_i heq
          rw [heq]
        · rfl
      simp only [hblock, hcount] at hrelease
      cases hrest : references.count address with
      | zero =>
          simp only [hrest, Except.ok.injEq] at hrelease
          subst hrelease
          exact h.put hlt (hothers none hrest.symm) (fun b hb => (Option.some_ne_none b hb.symm).elim)
      | succ count =>
          simp only [hrest, Except.ok.injEq] at hrelease
          subst hrelease
          refine h.put hlt (hothers (some _) hrest.symm) ?_
          intro b hb
          cases hb
          exact Nat.succ_pos count

end CountedHeap

end Program
