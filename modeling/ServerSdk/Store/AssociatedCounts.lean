import ServerSdk.Store.Associated

namespace ServerSdk

open Program

namespace RCHeap

variable {heap heap' heap'' : RCHeap} {rc other : ℕ} {block : JSONRC} {rank : ℕ → ℕ}

def references (heap : RCHeap) : ℕ → ℕ :=
  inflow (Finset.range heap.allocated) heap.associates heap.countOf

theorem get_eq (h : heap.blocks rc = some block) : heap.get rc = .ok block := by rw [get, h]

theorem countOf_eq (h : heap.blocks rc = some block) : heap.countOf rc = block.count := by
  rw [countOf, h]
  rfl

theorem associates_eq (h : heap.blocks rc = some block) :
    heap.associates rc = block.associated.getD [] := by
  rw [associates, h]
  rfl

@[simp] theorem allocated_put (heap : RCHeap) (rc : ℕ) (block : Option JSONRC) :
    (heap.put rc block).allocated = heap.allocated := rfl

@[simp] theorem destroyed_put (heap : RCHeap) (rc : ℕ) (block : Option JSONRC) :
    (heap.put rc block).destroyed = heap.destroyed := rfl

@[simp] theorem blocks_put_self (heap : RCHeap) (rc : ℕ) (block : Option JSONRC) :
    (heap.put rc block).blocks rc = block :=
  Function.update_self ..

theorem blocks_put_of_ne (heap : RCHeap) (block : Option JSONRC) (h : other ≠ rc) :
    (heap.put rc block).blocks other = heap.blocks other :=
  Function.update_of_ne h ..

@[simp] theorem put_put (heap : RCHeap) (rc : ℕ) (block block' : Option JSONRC) :
    (heap.put rc block).put rc block' = heap.put rc block' := by
  rw [put, put, put, Function.update_idem]

theorem countOf_put (heap : RCHeap) (rc : ℕ) (block : Option JSONRC) :
    (heap.put rc block).countOf =
      Function.update heap.countOf rc (block.elim 0 JSONRC.count) := by
  funext other
  by_cases hother : other = rc
  · subst hother
    rw [Function.update_self, countOf, blocks_put_self]
  · rw [Function.update_of_ne hother, countOf, blocks_put_of_ne heap block hother, countOf]

theorem associates_put (heap : RCHeap) (rc : ℕ) (block : Option JSONRC) :
    (heap.put rc block).associates =
      Function.update heap.associates rc (block.elim [] fun block => block.associated.getD []) := by
  funext other
  by_cases hother : other = rc
  · subst hother
    rw [Function.update_self, associates, blocks_put_self]
  · rw [Function.update_of_ne hother, associates, blocks_put_of_ne heap block hother, associates]

theorem associates_put_count (hblock : heap.blocks rc = some block) (count : ℕ) :
    (heap.put rc (some { block with count })).associates = heap.associates := by
  rw [associates_put, Function.update_eq_self_iff, associates_eq hblock]
  rfl

theorem references_put (hlt : rc < heap.allocated) (block : Option JSONRC) (other : ℕ) :
    (heap.put rc block).references other + heap.countOf rc * (heap.associates rc).count other =
      heap.references other + block.elim 0 JSONRC.count *
        (block.elim [] fun block => block.associated.getD []).count other := by
  have hmem : rc ∈ Finset.range heap.allocated := Finset.mem_range.mpr hlt
  rw [references, references, countOf_put, associates_put]
  exact inflow_update hmem _ _ other

theorem references_put_count (hblock : heap.blocks rc = some block) (hlt : rc < heap.allocated)
    (count other : ℕ) : (heap.put rc (some { block with count })).references other +
        block.count * (heap.associates rc).count other =
      heap.references other + count * (heap.associates rc).count other := by
  have hput := references_put hlt (some { block with count }) other
  rw [countOf_eq hblock] at hput
  rw [hput, associates_eq hblock]
  rfl

theorem countOf_put_count (heap : RCHeap) (rc : ℕ) (block : JSONRC) (count other : ℕ) :
    (heap.put rc (some { block with count })).countOf other =
      if other = rc then count else heap.countOf other := by
  rw [countOf_put, Function.update_apply]
  rfl

structure Ranked (rank : ℕ → ℕ) (heap : RCHeap) : Prop where
  fresh : ∀ rc, heap.allocated ≤ rc → heap.blocks rc = none
  ranked : ∀ parent, ∀ rc ∈ heap.associates parent, rank rc < rank parent

theorem Ranked.lt_allocated (h : Ranked rank heap) (hblock : heap.blocks rc = some block) :
    rc < heap.allocated := by
  by_contra hge
  rw [h.fresh rc (by omega)] at hblock
  cases hblock

theorem exists_block_of_associates {parent : ℕ} (h : rc ∈ heap.associates parent) :
    ∃ block, heap.blocks parent = some block := by
  cases hblock : heap.blocks parent with
  | none =>
      rw [associates, hblock] at h
      cases h
  | some block => exact ⟨block, rfl⟩

theorem exists_block_of_countOf (h : 0 < heap.countOf rc) :
    ∃ block, heap.blocks rc = some block ∧ 0 < block.count := by
  cases hblock : heap.blocks rc with
  | none =>
      rw [countOf, hblock] at h
      exact absurd h (Nat.lt_irrefl 0)
  | some block => exact ⟨block, rfl, countOf_eq hblock ▸ h⟩

theorem fresh_put (h : ∀ other, heap.allocated ≤ other → heap.blocks other = none)
    (hlt : rc < heap.allocated) (block : Option JSONRC) :
    ∀ other, heap.allocated ≤ other → (heap.put rc block).blocks other = none := by
  intro other hother
  rw [blocks_put_of_ne heap block (by omega)]
  exact h other hother

theorem Ranked.put (h : Ranked rank heap) (hblock : heap.blocks rc = some block) (count : ℕ) :
    Ranked rank (heap.put rc (some { block with count })) := by
  refine ⟨fresh_put h.fresh (h.lt_allocated hblock) _, ?_⟩
  rw [associates_put_count hblock]
  exact h.ranked

section Loop

variable {change : ℕ → RCHeap → Except RCFault RCHeap} {pending : List ℕ}

theorem eachAssociate_spec {P : List ℕ → RCHeap → Prop} {Q : ℕ → Prop} {R : RCHeap → RCHeap → Prop}
    (hrefl : ∀ heap, R heap heap) (htrans : ∀ {heap heap' heap''}, R heap heap' → R heap' heap'' →
      R heap heap'')
    (hchange : ∀ rc pending heap, Q rc → P (rc :: pending) heap →
      ∃ heap', change rc heap = .ok heap' ∧ P pending heap' ∧ R heap heap') {rcs : List ℕ}
    (hrcs : ∀ rc ∈ rcs, Q rc) (h : P (rcs ++ pending) heap) :
    ∃ heap', eachAssociate change rcs heap = .ok heap' ∧ P pending heap' ∧ R heap heap' := by
  induction rcs generalizing heap with
  | nil => exact ⟨heap, rfl, h, hrefl heap⟩
  | cons rc rcs ih =>
      rw [List.forall_mem_cons] at hrcs
      obtain ⟨next, hnext, hpending, hrelated⟩ := hchange rc (rcs ++ pending) heap hrcs.1 h
      obtain ⟨last, hlast, hdone, hrelated'⟩ := ih hrcs.2 hpending
      refine ⟨last, ?_, hdone, htrans hrelated hrelated'⟩
      rw [eachAssociate, hnext]
      exact hlast

theorem changeAssociated_spec {P : List ℕ → RCHeap → Prop} {Q : ℕ → Prop}
    {R : RCHeap → RCHeap → Prop} (hrefl : ∀ heap, R heap heap)
    (htrans : ∀ {heap heap' heap''}, R heap heap' → R heap' heap'' → R heap heap'')
    (hchange : ∀ rc pending heap, Q rc → P (rc :: pending) heap →
      ∃ heap', change rc heap = .ok heap' ∧ P pending heap' ∧ R heap heap')
    (hblock : heap.blocks rc = some block) (hassociates : ∀ other ∈ heap.associates rc, Q other)
    (h : P (heap.associates rc ++ pending) heap) :
    ∃ heap', changeAssociated change rc heap = .ok heap' ∧ P pending heap' ∧ R heap heap' := by
  obtain ⟨value, count, associated⟩ := block
  rw [associates_eq hblock] at hassociates h
  rw [changeAssociated, get_eq hblock]
  cases associated with
  | none => exact ⟨heap, rfl, h, hrefl heap⟩
  | some rcs => exact eachAssociate_spec hrefl htrans hchange hassociates h

end Loop

section Retain

variable {held pending : List ℕ} {total : ℕ → ℕ}

structure Retaining (rank total : ℕ → ℕ) (held pending : List ℕ) (heap : RCHeap) : Prop
    extends Ranked rank heap where
  balance : ∀ rc, heap.countOf rc + pending.count rc = held.count rc + heap.references rc
  pendingLive : ∀ rc ∈ pending, ∃ block, heap.blocks rc = some block
  associatesLive : ∀ parent, ∀ rc ∈ heap.associates parent, ∃ block, heap.blocks rc = some block
  weighs : Weighs (Finset.range heap.allocated) heap.associates held.count total

structure Raised (heap heap' : RCHeap) : Prop where
  allocated : heap'.allocated = heap.allocated
  destroyed : heap'.destroyed = heap.destroyed
  associated : ∀ rc, (heap'.blocks rc).map JSONRC.associated = (heap.blocks rc).map JSONRC.associated
  raised : ∀ rc, heap.countOf rc ≤ heap'.countOf rc

theorem Raised.refl (heap : RCHeap) : Raised heap heap :=
  ⟨rfl, rfl, fun _ => rfl, fun _ => Nat.le_refl _⟩

theorem Raised.trans (h : Raised heap heap') (h' : Raised heap' heap'') : Raised heap heap'' :=
  ⟨h'.allocated.trans h.allocated, h'.destroyed.trans h.destroyed,
    fun rc => (h'.associated rc).trans (h.associated rc),
    fun rc => (h.raised rc).trans (h'.raised rc)⟩

theorem Raised.blocks_eq_none (h : Raised heap heap') :
    heap'.blocks rc = none ↔ heap.blocks rc = none := by
  rw [← Option.map_eq_none_iff (f := JSONRC.associated), h.associated, Option.map_eq_none_iff]

theorem raised_put (hblock : heap.blocks rc = some block) {count : ℕ} (hle : block.count ≤ count) :
    Raised heap (heap.put rc (some { block with count })) := by
  refine ⟨rfl, rfl, ?_, ?_⟩
  · intro other
    by_cases hother : other = rc
    · subst hother
      rw [blocks_put_self, hblock]
      rfl
    · rw [blocks_put_of_ne _ _ hother]
  · intro other
    rw [countOf_put]
    by_cases hother : other = rc
    · subst hother
      rw [Function.update_self, countOf_eq hblock]
      exact hle
    · rw [Function.update_of_ne hother]

theorem Ranked.loopFree (h : Ranked rank heap) : LoopFree heap.associates :=
  loopFree_of_rank rank h.ranked

theorem Ranked.mem_range (h : Ranked rank heap) {parent : ℕ} (hmem : rc ∈ heap.associates parent) :
    parent ∈ Finset.range heap.allocated := by
  obtain ⟨block, hblock⟩ := exists_block_of_associates hmem
  exact Finset.mem_range.mpr (h.lt_allocated hblock)

theorem Retaining.countOf_add_le (h : Retaining rank total held pending heap) (rc : ℕ) :
    heap.countOf rc + pending.count rc ≤ total rc := by
  have hlow : ∀ rc, heap.countOf rc + pending.count rc ≤ held.count rc +
      inflow (Finset.range heap.allocated) heap.associates
        (fun rc => heap.countOf rc + pending.count rc) rc := by
    intro rc
    rw [h.balance rc]
    exact Nat.add_le_add_left (inflow_mono (fun parent => Nat.le_add_right _ _) rc) _
  exact h.weighs.le_of_le h.loopFree (fun parent rc => h.mem_range) hlow rc

theorem Retaining.put (h : Retaining rank total held (rc :: pending) heap)
    (hblock : heap.blocks rc = some block) :
    Retaining rank total held (heap.associates rc ++ pending)
      (heap.put rc (some { block with count := block.count + 1 })) := by
  have hraised := raised_put hblock (Nat.le_add_right block.count 1)
  have hlive : ∀ other, (∃ block, heap.blocks other = some block) →
      ∃ block', (heap.put rc (some { block with count := block.count + 1 })).blocks other =
        some block' := by
    intro other hother
    rw [← Option.ne_none_iff_exists'] at hother ⊢
    exact mt hraised.blocks_eq_none.mp hother
  have hassociates := associates_put_count hblock (block.count + 1)
  refine ⟨h.toRanked.put hblock _, ?_, ?_, ?_, ?_⟩
  · intro other
    have hbalance := h.balance other
    have hreferences := references_put_count hblock (h.lt_allocated hblock) (block.count + 1) other
    rw [countOf_put_count, List.count_append]
    rw [Nat.add_mul, Nat.one_mul] at hreferences
    by_cases hother : other = rc
    · subst hother
      rw [countOf_eq hblock, List.count_cons_self] at hbalance
      rw [if_pos rfl]
      omega
    · rw [List.count_cons_of_ne (Ne.symm hother)] at hbalance
      rw [if_neg hother]
      omega
  · intro other hother
    rcases List.mem_append.mp hother with hassociate | hpending
    · exact hlive other (h.associatesLive rc other hassociate)
    · exact hlive other (h.pendingLive other (List.mem_cons_of_mem rc hpending))
  · intro parent other hother
    rw [hassociates] at hother
    exact hlive other (h.associatesLive parent other hother)
  · rw [hassociates]
    exact h.weighs

theorem jsonRCRetain_succ (hblock : heap.blocks rc = some block) (fuel : ℕ) :
    jsonRCRetain (fuel + 1) rc heap = changeAssociated (jsonRCRetain fuel) rc
      (heap.put rc (some { block with count := (block.count + 1) % 2 ^ 32 })) := by
  rw [jsonRCRetain, get_eq hblock]
  rfl

theorem jsonRCRetain_spec (hfits : ∀ rc, total rc < 2 ^ 32) {fuel : ℕ} (hfuel : rank rc < fuel)
    (h : Retaining rank total held (rc :: pending) heap) :
    ∃ heap', jsonRCRetain fuel rc heap = .ok heap' ∧ Retaining rank total held pending heap' ∧
      Raised heap heap' := by
  induction fuel generalizing rc pending heap with
  | zero => exact absurd hfuel (Nat.not_lt_zero _)
  | succ fuel ih =>
      obtain ⟨block, hblock⟩ := h.pendingLive rc (List.mem_cons_self ..)
      have hcount : (block.count + 1) % 2 ^ 32 = block.count + 1 := by
        have hle := h.countOf_add_le rc
        have hlt := hfits rc
        rw [countOf_eq hblock, List.count_cons_self] at hle
        exact Nat.mod_eq_of_lt (by omega)
      have hassociates := associates_put_count hblock (block.count + 1)
      have hranks : ∀ other ∈ (heap.put rc
          (some { block with count := block.count + 1 })).associates rc, rank other < fuel := by
        intro other hother
        rw [hassociates] at hother
        have hlt := h.ranked rc other hother
        omega
      have hput := h.put hblock
      rw [← hassociates] at hput
      obtain ⟨last, hlast, hdone, hraised⟩ := changeAssociated_spec Raised.refl Raised.trans
        (fun rc pending heap hrank => ih hrank) (blocks_put_self ..) hranks hput
      refine ⟨last, ?_, hdone, (raised_put hblock (Nat.le_add_right _ 1)).trans hraised⟩
      rw [jsonRCRetain_succ hblock, hcount, hlast]

end Retain

section Release

variable {held pending : List ℕ} {bound : ℕ}

structure Logged (heap : RCHeap) : Prop where
  nodup : (heap.destroyed.map Destruction.object).Nodup
  gone : ∀ rc, rc ∈ heap.destroyed.map Destruction.object ↔
    rc < heap.allocated ∧ heap.blocks rc = none
  orphaned : ∀ destruction ∈ heap.destroyed, destruction.liveParents = []

theorem Logged.put (h : Logged heap) (hblock : heap.blocks rc = some block) (block' : JSONRC) :
    Logged (heap.put rc (some block')) := by
  refine ⟨h.nodup, ?_, h.orphaned⟩
  intro other
  rw [destroyed_put, h.gone, allocated_put]
  by_cases hother : other = rc
  · subst hother
    rw [blocks_put_self, hblock]
    exact ⟨fun hgone => absurd hgone.2 (Option.some_ne_none _),
      fun hgone => absurd hgone.2 (Option.some_ne_none _)⟩
  · rw [blocks_put_of_ne _ _ hother]

theorem Logged.destroy (h : Logged heap) (hblock : heap.blocks rc = some block)
    (hlt : rc < heap.allocated) (horphan : heap.liveParents rc = []) :
    Logged (destroyJSONRC rc heap) := by
  refine ⟨?_, ?_, ?_⟩
  · refine List.nodup_cons.mpr ⟨?_, h.nodup⟩
    intro hmem
    have hgone := ((h.gone rc).mp hmem).2
    rw [hblock] at hgone
    cases hgone
  · intro other
    change other ∈ rc :: heap.destroyed.map Destruction.object ↔
      other < heap.allocated ∧ (heap.put rc none).blocks other = none
    rw [List.mem_cons, h.gone]
    by_cases hother : other = rc
    · subst hother
      rw [blocks_put_self]
      exact ⟨fun _ => ⟨hlt, rfl⟩, fun _ => .inl rfl⟩
    · rw [blocks_put_of_ne _ _ hother]
      exact ⟨fun hmem => hmem.resolve_left hother, .inr⟩
  · exact List.forall_mem_cons.mpr ⟨horphan, h.orphaned⟩

structure Releasing (rank : ℕ → ℕ) (held pending : List ℕ) (heap : RCHeap) : Prop
    extends Ranked rank heap where
  balance : ∀ rc, heap.countOf rc = held.count rc + heap.references rc + pending.count rc
  logged : Logged heap

structure Lowered (rank : ℕ → ℕ) (bound : ℕ) (heap heap' : RCHeap) : Prop where
  allocated : heap'.allocated = heap.allocated
  above : ∀ rc, bound ≤ rank rc → heap'.blocks rc = heap.blocks rc
  left : ∀ rc block', heap'.blocks rc = some block' → ∃ block, heap.blocks rc = some block ∧
    block'.associated = block.associated ∧ (block'.count = 0 → block.count = 0)

theorem Lowered.refl (heap : RCHeap) : Lowered rank bound heap heap :=
  ⟨rfl, fun _ _ => rfl, fun _ block hblock => ⟨block, hblock, rfl, id⟩⟩

theorem Lowered.trans (h : Lowered rank bound heap heap') (h' : Lowered rank bound heap' heap'') :
    Lowered rank bound heap heap'' := by
  refine ⟨h'.allocated.trans h.allocated, fun rc hle => (h'.above rc hle).trans (h.above rc hle), ?_⟩
  intro rc block'' hblock''
  obtain ⟨block', hblock', hassociated', hcount'⟩ := h'.left rc block'' hblock''
  obtain ⟨block, hblock, hassociated, hcount⟩ := h.left rc block' hblock'
  exact ⟨block, hblock, hassociated'.trans hassociated, hcount ∘ hcount'⟩

theorem Lowered.mono {bound' : ℕ} (h : Lowered rank bound heap heap') (hle : bound ≤ bound') :
    Lowered rank bound' heap heap' :=
  ⟨h.allocated, fun rc hbound => h.above rc (hle.trans hbound), h.left⟩

theorem Releasing.exists_block (h : Releasing rank held (rc :: pending) heap) :
    ∃ block, heap.blocks rc = some block ∧ 0 < block.count := by
  have hbalance := h.balance rc
  rw [List.count_cons_self] at hbalance
  exact exists_block_of_countOf (by omega)

theorem Releasing.put (h : Releasing rank held (rc :: pending) heap)
    (hblock : heap.blocks rc = some block) (hpos : 0 < block.count) :
    Releasing rank held (heap.associates rc ++ pending)
      (heap.put rc (some { block with count := block.count - 1 })) := by
  refine ⟨h.toRanked.put hblock _, ?_, h.logged.put hblock _⟩
  intro other
  have hbalance := h.balance other
  have hreferences := references_put_count hblock (h.lt_allocated hblock) (block.count - 1) other
  obtain ⟨count, hcount⟩ : ∃ count, block.count = count + 1 := ⟨block.count - 1, by omega⟩
  rw [countOf_put_count, List.count_append]
  rw [hcount, Nat.add_sub_cancel, Nat.add_mul, Nat.one_mul] at hreferences
  rw [hcount, Nat.add_sub_cancel]
  by_cases hother : other = rc
  · subst hother
    rw [countOf_eq hblock, List.count_cons_self] at hbalance
    rw [if_pos rfl]
    omega
  · rw [List.count_cons_of_ne (Ne.symm hother)] at hbalance
    rw [if_neg hother]
    omega

theorem Releasing.liveParents_eq_nil (h : Releasing rank held pending heap)
    (hcount : heap.countOf rc = 0) : heap.liveParents rc = [] := by
  have hbalance := h.balance rc
  have hzero : heap.references rc = 0 := by omega
  rw [liveParents, List.filter_eq_nil_iff]
  intro parent hparent
  have hnone := inflow_eq_zero_iff.mp hzero parent
    (Finset.mem_range.mpr (List.mem_range.mp hparent))
  simp only [decide_eq_true_eq, not_and]
  exact fun hpos => hnone.resolve_left (by omega)

theorem Releasing.destroy (h : Releasing rank held pending heap)
    (hblock : heap.blocks rc = some block) (hcount : block.count = 0) :
    Releasing rank held pending (destroyJSONRC rc heap) := by
  have hlt := h.lt_allocated hblock
  have hzero : heap.countOf rc = 0 := (countOf_eq hblock).trans hcount
  have hsubset : ∀ parent, (heap.put rc none).associates parent ⊆ heap.associates parent := by
    intro parent
    rw [associates_put]
    by_cases hparent : parent = rc
    · subst hparent
      rw [Function.update_self]
      exact List.nil_subset _
    · rw [Function.update_of_ne hparent]
      exact List.Subset.refl _
  refine ⟨⟨fresh_put h.fresh hlt none, ?_⟩, ?_,
    h.logged.destroy hblock hlt (h.liveParents_eq_nil hzero)⟩
  · exact fun parent other hother => h.ranked parent other (hsubset parent hother)
  · intro other
    have hreferences : (heap.put rc none).references other = heap.references other := by
      have hput := references_put hlt none other
      rwa [hzero, Nat.zero_mul, Option.elim_none, Nat.zero_mul] at hput
    have hcountOf : (heap.put rc none).countOf other = heap.countOf other := by
      rw [countOf_put, Option.elim_none, ← hzero, Function.update_eq_self]
    change (heap.put rc none).countOf other =
      held.count other + (heap.put rc none).references other + pending.count other
    rw [hreferences, hcountOf]
    exact h.balance other

theorem jsonRCRelease_succ (hblock : heap.blocks rc = some block) (hpos : 0 < block.count)
    {fuel : ℕ} (hchange : changeAssociated (jsonRCRelease fuel) rc
      (heap.put rc (some { block with count := block.count - 1 })) = .ok heap') {block' : JSONRC}
    (hblock' : heap'.blocks rc = some block') : jsonRCRelease (fuel + 1) rc heap =
      .ok (if block'.count = 0 then destroyJSONRC rc heap' else heap') := by
  rw [jsonRCRelease, get_eq hblock]
  change (if block.count = 0 then _ else _) = _
  rw [if_neg (by omega), hchange]
  change (heap'.get rc >>= _) = _
  rw [get_eq hblock']
  change (if block'.count = 0 then _ else _) = _
  split_ifs <;> rfl

theorem jsonRCRelease_spec {fuel : ℕ} (hfuel : rank rc < fuel)
    (h : Releasing rank held (rc :: pending) heap) :
    ∃ heap', jsonRCRelease fuel rc heap = .ok heap' ∧ Releasing rank held pending heap' ∧
      Lowered rank (rank rc + 1) heap heap' := by
  induction fuel generalizing rc pending heap with
  | zero => exact absurd hfuel (Nat.not_lt_zero _)
  | succ fuel ih =>
      obtain ⟨block, hblock, hpos⟩ := h.exists_block
      have hassociates := associates_put_count hblock (block.count - 1)
      have hranks : ∀ other ∈ (heap.put rc
          (some { block with count := block.count - 1 })).associates rc, rank other < rank rc := by
        intro other hother
        rw [hassociates] at hother
        exact h.ranked rc other hother
      have hput := h.put hblock hpos
      rw [← hassociates] at hput
      have hchange : ∀ other pending heap, rank other < rank rc →
          Releasing rank held (other :: pending) heap →
            ∃ heap', jsonRCRelease fuel other heap = .ok heap' ∧ Releasing rank held pending heap' ∧
              Lowered rank (rank rc) heap heap' := by
        intro other pending heap hrank hpending
        obtain ⟨next, hnext, hdone, hlowered⟩ := ih (by omega) hpending
        exact ⟨next, hnext, hdone, hlowered.mono hrank⟩
      obtain ⟨last, hlast, hdone, hlowered⟩ :=
        changeAssociated_spec Lowered.refl Lowered.trans hchange (blocks_put_self ..) hranks hput
      have hkept : last.blocks rc = some { block with count := block.count - 1 } := by
        rw [hlowered.above rc (Nat.le_refl _), blocks_put_self]
      have hbelow : ∀ other, other ≠ rc → ∀ block', last.blocks other = some block' →
          ∃ block, heap.blocks other = some block ∧ block'.associated = block.associated ∧
            (block'.count = 0 → block.count = 0) := by
        intro other hother block' hblock'
        obtain ⟨middle, hmiddle, hshape⟩ := hlowered.left other block' hblock'
        rw [blocks_put_of_ne _ _ hother] at hmiddle
        exact ⟨middle, hmiddle, hshape⟩
      have habove : ∀ other, rank rc + 1 ≤ rank other →
          other ≠ rc ∧ last.blocks other = heap.blocks other := by
        intro other hle
        have hother : other ≠ rc := by
          rintro rfl
          omega
        exact ⟨hother, by rw [hlowered.above other (by omega), blocks_put_of_ne _ _ hother]⟩
      refine ⟨_, jsonRCRelease_succ hblock hpos hlast hkept, ?_⟩
      split_ifs with hzero
      · refine ⟨hdone.destroy hkept hzero, hlowered.allocated, ?_, ?_⟩
        · intro other hle
          exact (blocks_put_of_ne last none (habove other hle).1).trans (habove other hle).2
        · intro other block' hblock'
          by_cases hother : other = rc
          · subst hother
            have hnone : (destroyJSONRC other last).blocks other = none := blocks_put_self ..
            rw [hnone] at hblock'
            cases hblock'
          · refine hbelow other hother block' ?_
            rw [← hblock']
            exact (blocks_put_of_ne last none hother).symm
      · refine ⟨hdone, hlowered.allocated, fun other hle => (habove other hle).2, ?_⟩
        intro other block' hblock'
        by_cases hother : other = rc
        · subst hother
          rw [hkept] at hblock'
          cases hblock'
          exact ⟨block, hblock, rfl, fun hcount => absurd hcount hzero⟩
        · exact hbelow other hother block' hblock'

end Release

theorem Logged.raised (h : Logged heap) (hraised : Raised heap heap') : Logged heap' := by
  refine ⟨hraised.destroyed ▸ h.nodup, ?_, hraised.destroyed ▸ h.orphaned⟩
  intro rc
  rw [hraised.destroyed, hraised.allocated, hraised.blocks_eq_none]
  exact h.gone rc

section New

variable (json : Json) (heap : RCHeap)

theorem blocks_new_self : (jsonRCNew json heap).2.blocks heap.allocated = some ⟨json, 1, none⟩ :=
  blocks_put_self ..

theorem blocks_new_of_ne (h : other ≠ heap.allocated) :
    (jsonRCNew json heap).2.blocks other = heap.blocks other :=
  blocks_put_of_ne _ _ h

theorem countOf_new :
    (jsonRCNew json heap).2.countOf = Function.update heap.countOf heap.allocated 1 :=
  countOf_put ..

theorem associates_new :
    (jsonRCNew json heap).2.associates = Function.update heap.associates heap.allocated [] :=
  associates_put ..

theorem references_new : (jsonRCNew json heap).2.references = heap.references := by
  funext other
  have herase : (Finset.range (heap.allocated + 1)).erase heap.allocated =
      Finset.range heap.allocated := by
    rw [Finset.range_add_one, Finset.erase_insert Finset.notMem_range_self]
  have hothers : inflow (Finset.range heap.allocated) (Function.update heap.associates heap.allocated [])
      (Function.update heap.countOf heap.allocated 1) other = heap.references other := by
    refine inflow_congr fun parent hparent => ?_
    have hne : parent ≠ heap.allocated := (Finset.mem_range.mp hparent).ne
    rw [Function.update_of_ne hne, Function.update_of_ne hne]
  change inflow (Finset.range (heap.allocated + 1)) _ _ other = _
  rw [associates_new, countOf_new, inflow_eq_add (Finset.self_mem_range_succ heap.allocated), herase,
    hothers, Function.update_self, Function.update_self, List.count_nil, Nat.mul_zero, Nat.zero_add]

variable {heap}

theorem Logged.new (h : Logged heap) : Logged (jsonRCNew json heap).2 := by
  refine ⟨h.nodup, ?_, h.orphaned⟩
  intro rc
  change rc ∈ heap.destroyed.map Destruction.object ↔
    rc < heap.allocated + 1 ∧ (jsonRCNew json heap).2.blocks rc = none
  rw [h.gone]
  by_cases hrc : rc = heap.allocated
  · subst hrc
    rw [blocks_new_self]
    exact ⟨fun hgone => absurd hgone.1 (Nat.lt_irrefl _),
      fun hgone => absurd hgone.2 (Option.some_ne_none _)⟩
  · rw [blocks_new_of_ne json heap hrc]
    exact and_congr_left fun _ => ⟨fun hlt => by omega, fun hlt => by omega⟩

end New

end RCHeap

end ServerSdk
