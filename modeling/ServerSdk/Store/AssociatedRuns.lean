import ServerSdk.Program.Steps
import ServerSdk.Store.AssociatedCounts

namespace ServerSdk

open Program

namespace RCState

open RCHeap

variable {state next : RCState} {rc : ℕ}

structure Counted (state : RCState) : Prop where
  fresh : ∀ rc, state.heap.allocated ≤ rc → state.heap.blocks rc = none
  loopFree : LoopFree state.heap.associates
  positive : ∀ rc block, state.heap.blocks rc = some block → 0 < block.count
  balance : ∀ rc, state.heap.countOf rc = state.held.count rc + state.heap.references rc
  logged : Logged state.heap

theorem Counted.lt_allocated (h : state.Counted) (hlive : ∃ block, state.heap.blocks rc = some block) :
    rc < state.heap.allocated := by
  by_contra hge
  obtain ⟨block, hblock⟩ := hlive
  rw [h.fresh rc (by omega)] at hblock
  cases hblock

theorem Counted.live_iff (h : state.Counted) (rc : ℕ) :
    (∃ block, state.heap.blocks rc = some block) ↔
      0 < state.held.count rc + state.heap.references rc := by
  rw [← h.balance]
  constructor
  · rintro ⟨block, hblock⟩
    rw [countOf_eq hblock]
    exact h.positive rc block hblock
  · intro hpos
    obtain ⟨block, hblock, -⟩ := exists_block_of_countOf hpos
    exact ⟨block, hblock⟩

theorem Counted.associatesLive (h : state.Counted) {parent : ℕ}
    (hmem : rc ∈ state.heap.associates parent) : ∃ block, state.heap.blocks rc = some block := by
  obtain ⟨block, hblock⟩ := exists_block_of_associates hmem
  have hle : state.heap.countOf parent * (state.heap.associates parent).count rc ≤
      state.heap.references rc :=
    le_inflow (Finset.mem_range.mpr (h.lt_allocated ⟨block, hblock⟩)) rc
  have hpos : 0 < state.heap.countOf parent * (state.heap.associates parent).count rc := by
    rw [countOf_eq hblock]
    exact Nat.mul_pos (h.positive parent block hblock) (List.count_pos_iff.mpr hmem)
  exact (h.live_iff rc).mpr (by omega)

theorem Counted.exists_rank (h : state.Counted) : ∃ rank : ℕ → ℕ, Ranked rank state.heap ∧
    ∀ rc, rank rc ≤ state.heap.allocated := by
  obtain ⟨rank, hlt, hle⟩ := exists_rank_of_acyclic (Finset.range state.heap.allocated)
    (fun parent rc hlink => Finset.mem_range.mpr (h.lt_allocated (h.associatesLive hlink))) h.loopFree
  rw [Finset.card_range] at hle
  exact ⟨rank, ⟨h.fresh, fun parent rc hlink => hlt parent rc hlink⟩, hle⟩

theorem counted_start : start.Counted := by
  refine ⟨fun _ _ => rfl, ?_, nofun, fun _ => rfl, ⟨List.nodup_nil, ?_, nofun⟩⟩
  · exact loopFree_of_rank id (fun parent rc hlink => nomatch hlink)
  · intro rc
    exact ⟨fun hmem => absurd hmem List.not_mem_nil, fun hgone => absurd hgone.1 (Nat.not_lt_zero rc)⟩

theorem Counted.new (h : state.Counted) (json : Json) :
    Counted ⟨(jsonRCNew json state.heap).2, (jsonRCNew json state.heap).1 :: state.held⟩ := by
  have hnone : state.heap.blocks state.heap.allocated = none := h.fresh _ (Nat.le_refl _)
  refine ⟨?_, ?_, ?_, ?_, h.logged.new json⟩
  · intro rc hle
    have hle : state.heap.allocated + 1 ≤ rc := hle
    rw [blocks_new_of_ne json state.heap (by omega)]
    exact h.fresh rc (by omega)
  · have hunlinked : state.heap.associates state.heap.allocated = [] := by
      rw [associates, hnone]
      rfl
    rw [associates_new, ← hunlinked, Function.update_eq_self]
    exact h.loopFree
  · intro rc block hblock
    by_cases hrc : rc = state.heap.allocated
    · subst hrc
      rw [blocks_new_self] at hblock
      cases hblock
      exact Nat.one_pos
    · rw [blocks_new_of_ne json state.heap hrc] at hblock
      exact h.positive rc block hblock
  · intro rc
    have hbalance := h.balance rc
    rw [references_new, countOf_new, Function.update_apply]
    change _ = (state.heap.allocated :: state.held).count rc + _
    by_cases hrc : rc = state.heap.allocated
    · subst hrc
      rw [countOf, hnone, Option.elim_none] at hbalance
      rw [if_pos rfl, List.count_cons_self]
      omega
    · rw [if_neg hrc, List.count_cons_of_ne (Ne.symm hrc)]
      exact hbalance

theorem Counted.of_retaining {rank total : ℕ → ℕ} {held : List ℕ} {heap heap' : RCHeap}
    (hdone : Retaining rank total held [] heap') (hraised : Raised heap heap')
    (hpositive : ∀ rc block, heap.blocks rc = some block → 0 < block.count) (hlogged : Logged heap) :
    Counted ⟨heap', held⟩ := by
  refine ⟨hdone.fresh, hdone.loopFree, ?_, hdone.balance, hlogged.raised hraised⟩
  intro rc block hblock
  have hle := hraised.raised rc
  cases hold : heap.blocks rc with
  | none =>
      have hnone : heap'.blocks rc = none := hraised.blocks_eq_none.mpr hold
      rw [hnone] at hblock
      cases hblock
  | some old =>
      have hpos := hpositive rc old hold
      rw [countOf_eq hold, countOf_eq hblock] at hle
      omega

theorem Counted.retain (h : state.Counted) (hallowed : state.Allowed (.retain rc))
    (hfit : state.FitAfter (.retain rc)) :
    ∃ next, state.perform (.retain rc) = .ok next ∧ next.Counted := by
  obtain ⟨total, hweighs, hfits⟩ := hfit
  obtain ⟨rank, hranked, hrank⟩ := h.exists_rank
  obtain ⟨block, hblock⟩ := Option.isSome_iff_exists.mp hallowed
  have hretaining : Retaining rank total (rc :: state.held) [rc] state.heap := by
    refine ⟨hranked, ?_, ?_, fun parent rc hmem => h.associatesLive hmem, hweighs⟩
    · intro other
      have hbalance := h.balance other
      rw [List.count_cons, List.count_cons, List.count_nil]
      omega
    · exact List.forall_mem_singleton.mpr ⟨block, hblock⟩
  obtain ⟨heap', hheap', hdone, hraised⟩ :=
    jsonRCRetain_spec hfits (Nat.lt_succ_of_le (hrank rc)) hretaining
  refine ⟨⟨heap', rc :: state.held⟩, ?_, .of_retaining hdone hraised h.positive h.logged⟩
  rw [perform, hheap']
  rfl

theorem Counted.release (h : state.Counted) (hallowed : state.Allowed (.release rc)) :
    ∃ next, state.perform (.release rc) = .ok next ∧ next.Counted := by
  obtain ⟨rank, hranked, hrank⟩ := h.exists_rank
  have hheld : rc ∈ state.held := hallowed
  have hreleasing : Releasing rank (state.held.erase rc) [rc] state.heap := by
    refine ⟨hranked, ?_, h.logged⟩
    intro other
    have hperm := (List.perm_cons_erase hheld).count_eq other
    have hbalance := h.balance other
    rw [List.count_cons] at hperm
    rw [List.count_cons, List.count_nil]
    omega
  obtain ⟨heap', hheap', hdone, hlowered⟩ :=
    jsonRCRelease_spec (Nat.lt_succ_of_le (hrank rc)) hreleasing
  refine ⟨⟨heap', state.held.erase rc⟩, ?_, hdone.fresh, hdone.loopFree, ?_, hdone.balance, hdone.logged⟩
  · rw [perform, hheap']
    rfl
  · intro other block' hblock'
    obtain ⟨block, hblock, -, hcount⟩ := hlowered.left other block' hblock'
    have hpos := h.positive other block hblock
    exact Nat.pos_of_ne_zero fun hzero => hpos.ne' (hcount hzero)

theorem jsonRCAssociate_eq {heap : RCHeap} {block : JSONRC} (hblock : heap.blocks rc = some block)
    (hnone : heap.associates rc = []) (fuel : ℕ) (associates : Option (List ℕ)) :
    jsonRCAssociate fuel rc associates heap = changeAssociated (jsonRCRetain fuel) rc
      (heap.put rc (some { block with associated := associates })) := by
  obtain ⟨value, count, associated⟩ := block
  rw [associates_eq hblock] at hnone
  cases associated with
  | none =>
      rw [jsonRCAssociate, get_eq hblock]
      change (heap.get rc >>= _) = _
      rw [get_eq hblock]
      rfl
  | some rcs =>
      have hnone : rcs = [] := hnone
      subst hnone
      have hrelease : changeAssociated (jsonRCRelease fuel) rc heap = .ok heap := by
        rw [changeAssociated, get_eq hblock]
        rfl
      rw [jsonRCAssociate, get_eq hblock]
      change (changeAssociated (jsonRCRelease fuel) rc heap >>= _) = _
      rw [hrelease]
      change (heap.get rc >>= _) = _
      rw [get_eq hblock]
      change ((heap.put rc _).get rc >>= _) = _
      rw [get_eq (blocks_put_self ..)]
      change changeAssociated _ rc ((heap.put rc _).put rc _) = _
      rw [put_put]

section Associate

variable {block : JSONRC} {associates : Option (List ℕ)}

def associating (heap : RCHeap) (rc : ℕ) (block : JSONRC) (associates : Option (List ℕ)) : RCHeap :=
  heap.put rc (some { block with associated := associates })

theorem Counted.links_live (h : state.Counted)
    (hlive : ∀ associate ∈ associates.getD [], (state.heap.blocks associate).isSome) {parent other : ℕ}
    (hlink : other ∈ linkedBy state.heap rc associates parent) :
    ∃ block, state.heap.blocks other = some block := by
  by_cases hparent : parent = rc
  · rw [linkedBy, hparent, Function.update_self] at hlink
    exact Option.isSome_iff_exists.mp (hlive other hlink)
  · rw [linkedBy, Function.update_of_ne hparent] at hlink
    exact h.associatesLive hlink

theorem blocks_associating {heap : RCHeap} {other : ℕ} (hlive : ∃ block, heap.blocks other = some block) :
    ∃ block', (associating heap rc block associates).blocks other = some block' := by
  by_cases hother : other = rc
  · subst hother
    exact ⟨_, blocks_put_self ..⟩
  · rwa [associating, blocks_put_of_ne _ _ hother]

theorem Counted.ranked_associating (h : state.Counted) (hblock : state.heap.blocks rc = some block)
    {rank : ℕ → ℕ}
    (hrank : ∀ parent other, LinksTo (linkedBy state.heap rc associates) parent other →
      rank other < rank parent) : Ranked rank (associating state.heap rc block associates) := by
  refine ⟨fresh_put h.fresh (h.lt_allocated ⟨block, hblock⟩) _, ?_⟩
  rw [associating, associates_put]
  exact fun parent other hlink => hrank parent other hlink

theorem Counted.balance_associating (h : state.Counted) (hblock : state.heap.blocks rc = some block)
    (hone : state.heap.countOf rc = 1) (hnone : state.heap.associates rc = []) (other : ℕ) :
    (associating state.heap rc block associates).countOf other + (associates.getD []).count other =
      state.held.count other + (associating state.heap rc block associates).references other := by
  have hbalance := h.balance other
  have hcount : block.count = 1 := (countOf_eq hblock).symm.trans hone
  have hcountOf : (associating state.heap rc block associates).countOf = state.heap.countOf := by
    rw [associating, countOf_put, Function.update_eq_self_iff, countOf_eq hblock]
    rfl
  have hreferences : (associating state.heap rc block associates).references other =
      state.heap.references other + (associates.getD []).count other := by
    have hput := references_put (h.lt_allocated ⟨block, hblock⟩)
      (some { block with associated := associates }) other
    rw [hnone, List.count_nil, Nat.mul_zero, Nat.add_zero] at hput
    rw [associating, hput]
    change _ + block.count * _ = _
    rw [hcount, Nat.one_mul]
    rfl
  rw [hcountOf, hreferences]
  omega

theorem Counted.associate (h : state.Counted)
    (hallowed : state.Allowed (.associate rc associates))
    (hfit : state.FitAfter (.associate rc associates)) :
    ∃ next, state.perform (.associate rc associates) = .ok next ∧ next.Counted := by
  obtain ⟨hone, hnone, hlive, hfree⟩ := hallowed
  obtain ⟨total, hweighs, hfits⟩ := hfit
  obtain ⟨block, hblock, hpos⟩ := exists_block_of_countOf (hone ▸ Nat.one_pos)
  obtain ⟨rank, hrank, hle⟩ := exists_rank_of_acyclic (Finset.range state.heap.allocated)
    (fun parent other hlink => Finset.mem_range.mpr (h.lt_allocated (h.links_live hlive hlink))) hfree
  rw [Finset.card_range] at hle
  have hlinked : (associating state.heap rc block associates).associates =
      linkedBy state.heap rc associates := associates_put ..
  have hself : (associating state.heap rc block associates).associates rc = associates.getD [] := by
    rw [hlinked, linkedBy, Function.update_self]
  have hretaining : Retaining rank total state.held
      ((associating state.heap rc block associates).associates rc ++ [])
      (associating state.heap rc block associates) := by
    rw [List.append_nil, hself]
    refine ⟨h.ranked_associating hblock hrank, h.balance_associating hblock hone hnone, ?_, ?_,
      hlinked ▸ hweighs⟩
    · exact fun other hother => blocks_associating (Option.isSome_iff_exists.mp (hlive other hother))
    · intro parent other hlink
      rw [hlinked] at hlink
      exact blocks_associating (h.links_live hlive hlink)
  obtain ⟨heap', hheap', hdone, hraised⟩ := changeAssociated_spec Raised.refl Raised.trans
    (fun rc pending heap hrank => jsonRCRetain_spec hfits hrank) (blocks_put_self ..)
    (fun other _ => Nat.lt_succ_of_le (hle other)) hretaining
  refine ⟨⟨heap', state.held⟩, ?_, .of_retaining hdone hraised ?_ (h.logged.put hblock _)⟩
  · rw [perform, jsonRCAssociate_eq hblock hnone]
    have hretained : changeAssociated (jsonRCRetain (state.heap.allocated + 1)) rc
        (associating state.heap rc block associates) = .ok heap' := hheap'
    change (changeAssociated _ rc (associating state.heap rc block associates) >>= _) = _
    rw [hretained]
    rfl
  · intro other block' hblock'
    by_cases hother : other = rc
    · subst hother
      rw [blocks_put_self] at hblock'
      cases hblock'
      exact hpos
    · rw [blocks_put_of_ne _ _ hother] at hblock'
      exact h.positive other block' hblock'

end Associate

theorem Counted.perform (h : state.Counted) {call : RCCall} (hallowed : state.Allowed call)
    (hfit : state.FitAfter call) : ∃ next, state.perform call = .ok next ∧ next.Counted := by
  cases call with
  | new json => exact ⟨_, rfl, h.new json⟩
  | associate rc associates => exact h.associate hallowed hfit
  | retain rc => exact h.retain hallowed hfit
  | release rc => exact h.release hallowed

structure ReferencesExact (state : RCState) : Prop where
  exact : ∀ rc block, state.heap.blocks rc = some block → block.count = state.held.count rc +
    ∑ parent ∈ Finset.range state.heap.allocated,
      state.heap.countOf parent * (state.heap.associates parent).count rc
  destroyed : ∀ rc < state.heap.allocated, state.heap.blocks rc = none ↔ state.held.count rc +
    ∑ parent ∈ Finset.range state.heap.allocated,
      state.heap.countOf parent * (state.heap.associates parent).count rc = 0
  once : ∀ rc, (state.heap.destroyed.map Destruction.object).count rc =
    if rc < state.heap.allocated ∧ (state.heap.blocks rc).isNone then 1 else 0
  orphaned : ∀ destruction ∈ state.heap.destroyed, destruction.liveParents = []
  associatesLive : ∀ parent, ∀ rc ∈ state.heap.associates parent, (state.heap.blocks rc).isSome

theorem Counted.referencesExact (h : state.Counted) : state.ReferencesExact := by
  refine ⟨?_, ?_, ?_, h.logged.orphaned, ?_⟩
  · intro rc block hblock
    rw [← countOf_eq hblock]
    exact h.balance rc
  · intro rc _
    have hlive := h.live_iff rc
    rw [← Option.ne_none_iff_exists', ← not_iff_not, not_not, Nat.not_lt, Nat.le_zero] at hlive
    exact hlive
  · intro rc
    split_ifs with hgone
    · rw [Option.isNone_iff_eq_none, ← h.logged.gone] at hgone
      exact List.count_eq_one_of_mem h.logged.nodup hgone
    · rw [Option.isNone_iff_eq_none, ← h.logged.gone] at hgone
      exact List.count_eq_zero.mpr hgone
  · exact fun parent rc hmem => Option.isSome_iff_exists.mpr (h.associatesLive hmem)

theorem counted_of_steps (h : Steps perform (fun state call => state.Allowed call ∧ state.FitAfter call)
    start state) : state.Counted := by
  refine h.invariant counted_start ?_
  intro s next call hcounted hcall hnext
  obtain ⟨found, hfound, hcounted'⟩ := hcounted.perform hcall.1 hcall.2
  rw [hnext] at hfound
  cases hfound
  exact hcounted'

theorem associated_counts_exact (h : Steps perform
    (fun state call => state.Allowed call ∧ state.FitAfter call) start state) :
    state.ReferencesExact ∧ ∀ call, state.Allowed call → state.FitAfter call →
      ∃ next, state.perform call = .ok next ∧ next.ReferencesExact := by
  have hcounted := counted_of_steps h
  refine ⟨hcounted.referencesExact, ?_⟩
  intro call hallowed hfit
  obtain ⟨next, hnext, hcounted'⟩ := hcounted.perform hallowed hfit
  exact ⟨next, hnext, hcounted'.referencesExact⟩

def unassociated : RCState :=
  ⟨⟨Function.update (Function.update (fun _ => none) 0 (some ⟨.number 1, 1, none⟩)) 1
    (some ⟨.number 2, 1, none⟩), 2, []⟩, [1, 0]⟩

def twiceAssociated : RCState :=
  ⟨((unassociated.heap.put 1 (some ⟨.number 2, 1, some [0, 0]⟩)).put 0
    (some ⟨.number 1, 2, none⟩)).put 0 (some ⟨.number 1, 3, none⟩), [1, 0]⟩

theorem steps_twiceAssociated : Steps perform
    (fun state call => state.Allowed call ∧ state.FitAfter call) start twiceAssociated := by
  have hnew : Steps perform (fun state call => state.Allowed call ∧ state.FitAfter call) start
      unassociated :=
    (Relation.ReflTransGen.single ⟨.new (.number 1), ⟨trivial, trivial⟩, rfl⟩).tail
      ⟨.new (.number 2), ⟨trivial, trivial⟩, rfl⟩
  have hlinked : linkedBy unassociated.heap 1 (some [0, 0]) = Function.update (fun _ => []) 1 [0, 0] := by
    funext parent
    by_cases hparent : parent = 1
    · rw [linkedBy, hparent, Function.update_self, Function.update_self]
      rfl
    · rw [linkedBy, Function.update_of_ne hparent, Function.update_of_ne hparent]
      by_cases hzero : parent = 0
      · rw [hzero]
        rfl
      · simp [associates, unassociated, hparent, hzero]
  refine hnew.tail ⟨.associate 1 (some [0, 0]), ⟨⟨rfl, rfl, by decide, ?_⟩, ?_⟩, rfl⟩
  · refine loopFree_of_rank id ?_
    intro parent rc hlink
    rw [hlinked, Function.update_apply] at hlink
    split_ifs at hlink with hparent
    · simp_all
    · cases hlink
  · refine ⟨fun rc => if rc = 0 then 3 else if rc = 1 then 1 else 0, ?_, ?_⟩
    · intro rc
      rw [hlinked]
      change _ = [1, 0].count rc + ∑ parent ∈ Finset.range 2, _
      rw [Finset.sum_range_succ, Finset.sum_range_succ, Finset.sum_range_zero]
      rcases rc with - | - | rc
      · rfl
      · rfl
      · simp
    · intro rc
      dsimp only
      split_ifs <;> decide

theorem repeated_associates_counted : twiceAssociated.ReferencesExact ∧ ∀ call,
    twiceAssociated.Allowed call → twiceAssociated.FitAfter call →
      ∃ next, twiceAssociated.perform call = .ok next ∧ next.ReferencesExact :=
  associated_counts_exact steps_twiceAssociated

def retained (n : ℕ) : RCState :=
  ⟨(⟨fun _ => none, 1, []⟩ : RCHeap).put 0 (some ⟨.null, (n + 1) % 2 ^ 32, none⟩),
    List.replicate (n + 1) 0⟩

theorem perform_retained (n : ℕ) : (retained n).perform (.retain 0) = .ok (retained (n + 1)) := by
  have hblock : (retained n).heap.blocks 0 = some ⟨.null, (n + 1) % 2 ^ 32, none⟩ := blocks_put_self ..
  have hcount : ((n + 1) % 2 ^ 32 + 1) % 2 ^ 32 = (n + 2) % 2 ^ 32 := by omega
  have hput : (retained n).heap.put 0 (some ⟨.null, (n + 2) % 2 ^ 32, none⟩) = (retained (n + 1)).heap :=
    put_put ..
  have hblock' : (retained (n + 1)).heap.blocks 0 = some ⟨.null, (n + 2) % 2 ^ 32, none⟩ :=
    blocks_put_self ..
  rw [perform, jsonRCRetain_succ hblock, hcount, hput, changeAssociated, get_eq hblock']
  rfl

theorem steps_retained (n : ℕ) :
    Steps perform (fun state call => state.Allowed call) start (retained n) := by
  induction n with
  | zero => exact .single ⟨.new .null, trivial, rfl⟩
  | succ n ih => exact ih.tail ⟨.retain 0, rfl, perform_retained n⟩

theorem wrapped_count_asserted : ∃ state,
    Steps perform (fun state call => state.Allowed call) start state ∧ state.Allowed (.release 0) ∧
      state.perform (.release 0) = .error .assertion := by
  refine ⟨retained (2 ^ 32 - 1), steps_retained _, List.mem_replicate.mpr ⟨by omega, rfl⟩, ?_⟩
  have hblock : (retained (2 ^ 32 - 1)).heap.blocks 0 =
      some ⟨.null, (2 ^ 32 - 1 + 1) % 2 ^ 32, none⟩ := blocks_put_self ..
  have hzero : (2 ^ 32 - 1 + 1) % 2 ^ 32 = 0 := by norm_num
  rw [hzero] at hblock
  rw [perform, jsonRCRelease, get_eq hblock]
  rfl

end RCState

end ServerSdk
