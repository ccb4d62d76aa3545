import Mathlib.Data.List.Nodup
import ServerSdk.Program.Interleaving

namespace Program

inductive Share where
  | idle
  | opening
  | holding (resource : ℕ)
  deriving DecidableEq, Repr

def Share.held : Share → Option ℕ
  | .holding resource => some resource
  | _ => none

def Share.isOpening : Share → Bool
  | .opening => true
  | _ => false

structure Stock where
  free : List ℕ
  count : ℕ
  limit : ℕ
  opened : ℕ

inductive Moves : Share → Stock → Share → Stock → Prop
  | stay (share : Share) (stock : Stock) : Moves share stock share stock
  | take {stock : Stock} {resource : ℕ} {free : List ℕ} : stock.free = resource :: free →
      Moves .idle stock (.holding resource) { stock with free }
  | reserve {stock : Stock} : stock.count < stock.limit →
      Moves .idle stock .opening { stock with count := stock.count + 1 }
  | acquire (stock : Stock) :
      Moves .opening stock (.holding stock.opened) { stock with opened := stock.opened + 1 }
  | abandon (stock : Stock) : Moves .opening stock .idle { stock with count := stock.count - 1 }
  | giveBack (stock : Stock) (resource : ℕ) :
      Moves (.holding resource) stock .idle { stock with free := resource :: stock.free }
  | discard (stock : Stock) (resource : ℕ) :
      Moves (.holding resource) stock .idle { stock with count := stock.count - 1 }

section Accounts

variable {ι : Type} {users : List ι} {shares : ι → Share} {stock stock' : Stock} {share : Share}

def resourcesOf (users : List ι) (shares : ι → Share) : List ℕ :=
  users.filterMap fun user => (shares user).held

def openingsOf (users : List ι) (shares : ι → Share) : ℕ :=
  users.countP fun user => (shares user).isOpening

structure Accounts (users : List ι) (shares : ι → Share) (stock : Stock) : Prop where
  nodup : users.Nodup
  count : stock.count = stock.free.length + (resourcesOf users shares).length + openingsOf users shares
  limit : stock.count ≤ stock.limit
  exclusive : (stock.free ++ resourcesOf users shares).Nodup
  opened : ∀ resource ∈ stock.free ++ resourcesOf users shares, resource < stock.opened

theorem accounts_empty (shares : ι → Share) {stock : Stock} (hfree : stock.free = [])
    (hcount : stock.count = 0) : Accounts [] shares stock := by
  refine ⟨List.nodup_nil, ?_, ?_, ?_, ?_⟩
  · rw [hfree, hcount]
    rfl
  · rw [hcount]
    exact Nat.zero_le _
  · rw [hfree]
    exact List.nodup_nil
  · rw [hfree]
    nofun

theorem Accounts.join (h : Accounts users shares stock) {user : ι} (hfresh : user ∉ users)
    (hidle : shares user = .idle) : Accounts (user :: users) shares stock := by
  have hheld : resourcesOf (user :: users) shares = resourcesOf users shares :=
    List.filterMap_cons_none (by rw [hidle]; rfl)
  have hopening : openingsOf (user :: users) shares = openingsOf users shares :=
    List.countP_cons_of_neg (by rw [hidle]; exact Bool.false_ne_true)
  refine ⟨List.nodup_cons.mpr ⟨hfresh, h.nodup⟩, ?_, h.limit, ?_, ?_⟩
  · rw [hheld, hopening]
    exact h.count
  · rw [hheld]
    exact h.exclusive
  · rw [hheld]
    exact h.opened

variable [DecidableEq ι] {user : ι}

theorem resourcesOf_perm (hmem : user ∈ users) (shares : ι → Share) :
    (resourcesOf users shares).Perm
      ((shares user).held.toList ++ resourcesOf (users.erase user) shares) := by
  refine ((List.perm_cons_erase hmem).filterMap _).trans ?_
  rw [List.filterMap_cons]
  cases (shares user).held <;> exact .refl _

theorem openingsOf_eq (hmem : user ∈ users) (shares : ι → Share) :
    openingsOf users shares =
      openingsOf (users.erase user) shares + if (shares user).isOpening then 1 else 0 := by
  rw [openingsOf, (List.perm_cons_erase hmem).countP_eq, List.countP_cons]
  rfl

theorem update_of_mem_erase (hnodup : users.Nodup) {other : ι} (hother : other ∈ users.erase user) :
    Function.update shares user share other = shares other := by
  have hne : other ≠ user := (hnodup.mem_erase_iff.mp hother).1
  exact Function.update_of_ne hne _ _

theorem resourcesOf_update (hnodup : users.Nodup) (hmem : user ∈ users) (shares : ι → Share)
    (share : Share) : (resourcesOf users (Function.update shares user share)).Perm
      (share.held.toList ++ resourcesOf (users.erase user) shares) := by
  refine (resourcesOf_perm hmem _).trans (List.Perm.of_eq ?_)
  rw [Function.update_self]
  congr 1
  refine List.filterMap_congr fun other hother => ?_
  rw [update_of_mem_erase hnodup hother]

theorem openingsOf_update (hnodup : users.Nodup) (hmem : user ∈ users) (shares : ι → Share)
    (share : Share) : openingsOf users (Function.update shares user share) =
      openingsOf (users.erase user) shares + if share.isOpening then 1 else 0 := by
  rw [openingsOf_eq hmem, Function.update_self]
  congr 1
  refine List.countP_congr fun other hother => ?_
  rw [update_of_mem_erase hnodup hother]

structure Balances (share : Share) (others : List ℕ) (openings : ℕ) (stock : Stock) : Prop where
  count : stock.count = stock.free.length + share.held.toList.length + others.length + openings +
    if share.isOpening then 1 else 0
  limit : stock.count ≤ stock.limit
  exclusive : (stock.free ++ (share.held.toList ++ others)).Nodup
  opened : ∀ resource ∈ stock.free ++ (share.held.toList ++ others), resource < stock.opened

theorem Accounts.balances (h : Accounts users shares stock) (hmem : user ∈ users) :
    Balances (shares user) (resourcesOf (users.erase user) shares) (openingsOf (users.erase user) shares)
      stock := by
  have hperm := resourcesOf_perm hmem shares
  have hall := hperm.append_left stock.free
  refine ⟨?_, h.limit, hall.nodup_iff.mp h.exclusive, ?_⟩
  · rw [h.count, hperm.length_eq, openingsOf_eq hmem, List.length_append]
    omega
  · exact fun resource hresource => h.opened resource (hall.mem_iff.mpr hresource)

theorem Balances.accounts (h : Balances share (resourcesOf (users.erase user) shares)
    (openingsOf (users.erase user) shares) stock) (hnodup : users.Nodup) (hmem : user ∈ users) :
    Accounts users (Function.update shares user share) stock := by
  have hperm := resourcesOf_update hnodup hmem shares share
  have hall := hperm.append_left stock.free
  refine ⟨hnodup, ?_, h.limit, hall.nodup_iff.mpr h.exclusive, ?_⟩
  · rw [h.count, hperm.length_eq, openingsOf_update hnodup hmem shares share, List.length_append]
    omega
  · exact fun resource hresource => h.opened resource (hall.mem_iff.mp hresource)

theorem Moves.limit_eq {share' : Share} (h : Moves share stock share' stock') :
    stock'.limit = stock.limit := by
  cases h <;> rfl

theorem Balances.move {share' : Share} {others : List ℕ} {openings : ℕ}
    (h : Balances share others openings stock) (hmoves : Moves share stock share' stock') :
    Balances share' others openings stock' := by
  obtain ⟨hcount, hlimit, hexclusive, hopened⟩ := h
  cases hmoves with
  | stay => exact ⟨hcount, hlimit, hexclusive, hopened⟩
  | @take _ resource free hfree =>
      rw [hfree] at hcount hexclusive hopened
      have hperm : (resource :: free ++ (Share.idle.held.toList ++ others)).Perm
          (free ++ ((Share.holding resource).held.toList ++ others)) := List.perm_middle.symm
      refine ⟨?_, hlimit, hperm.nodup_iff.mp hexclusive, ?_⟩
      · simp only [Share.held, Share.isOpening, List.length_cons, Option.toList_none,
          Option.toList_some, List.length_nil, Bool.false_eq_true, if_false] at hcount ⊢
        omega
      · exact fun other hother => hopened other (hperm.mem_iff.mpr hother)
  | reserve hlt =>
      refine ⟨?_, hlt, hexclusive, hopened⟩
      simp only [Share.held, Share.isOpening, Option.toList_none, List.length_nil, Bool.false_eq_true,
        if_false, if_true] at hcount ⊢
      omega
  | acquire =>
      have hfresh : stock.opened ∉ stock.free ++ others :=
        fun hmem => Nat.lt_irrefl _ (hopened stock.opened hmem)
      have hperm : (stock.opened :: (stock.free ++ others)).Perm
          (stock.free ++ ((Share.holding stock.opened).held.toList ++ others)) :=
        List.perm_middle.symm
      refine ⟨?_, hlimit, hperm.nodup_iff.mp (List.nodup_cons.mpr ⟨hfresh, hexclusive⟩), ?_⟩
      · simp only [Share.held, Share.isOpening, Option.toList_none, Option.toList_some,
          List.length_cons, List.length_nil, Bool.false_eq_true, if_false, if_true] at hcount ⊢
        omega
      · intro resource hresource
        rcases List.mem_cons.mp (hperm.mem_iff.mpr hresource) with rfl | hold
        · exact Nat.lt_succ_self _
        · exact Nat.lt_succ_of_lt (hopened resource hold)
  | abandon =>
      refine ⟨?_, Nat.le_trans (Nat.sub_le _ _) hlimit, hexclusive, hopened⟩
      simp only [Share.held, Share.isOpening, Option.toList_none, List.length_nil, Bool.false_eq_true,
        if_false, if_true] at hcount ⊢
      omega
  | giveBack _ resource =>
      have hperm : (stock.free ++ ((Share.holding resource).held.toList ++ others)).Perm
          (resource :: stock.free ++ (Share.idle.held.toList ++ others)) := List.perm_middle
      refine ⟨?_, hlimit, hperm.nodup_iff.mp hexclusive, ?_⟩
      · simp only [Share.held, Share.isOpening, List.length_cons, Option.toList_none,
          Option.toList_some, List.length_nil, Bool.false_eq_true, if_false] at hcount ⊢
        omega
      · exact fun other hother => hopened other (hperm.mem_iff.mpr hother)
  | discard _ resource =>
      have hperm : (stock.free ++ ((Share.holding resource).held.toList ++ others)).Perm
          (resource :: (stock.free ++ (Share.idle.held.toList ++ others))) := List.perm_middle
      have hsub : ∀ other ∈ stock.free ++ (Share.idle.held.toList ++ others),
          other ∈ stock.free ++ ((Share.holding resource).held.toList ++ others) :=
        fun other hother => hperm.mem_iff.mpr (List.mem_cons_of_mem resource hother)
      refine ⟨?_, Nat.le_trans (Nat.sub_le _ _) hlimit, (hperm.nodup_iff.mp hexclusive).of_cons, ?_⟩
      · simp only [Share.held, Share.isOpening, List.length_cons, Option.toList_none,
          Option.toList_some, List.length_nil, Bool.false_eq_true, if_false] at hcount ⊢
        omega
      · exact fun other hother => hopened other (hsub other hother)

theorem Accounts.move (h : Accounts users shares stock) (hmem : user ∈ users)
    (hmoves : Moves (shares user) stock share stock') :
    Accounts users (Function.update shares user share) stock' :=
  ((h.balances hmem).move hmoves).accounts h.nodup hmem

end Accounts

structure Shares {σ τ γ ε : Type} (machine : Machine σ τ γ ε) (stock : σ → Stock) (share : τ → Share) :
    Prop where
  begin : ∀ call, share (machine.begin call) = .idle
  step : ∀ task shared task' shared', machine.step task shared = .ok (task', shared') →
    Moves (share task) (stock shared) (share task') (stock shared')
  environment : ∀ event shared, stock (machine.environment event shared) = stock shared

namespace Pool

variable {σ τ γ ε : Type} {machine : Machine σ τ γ ε} {stock : σ → Stock} {share : τ → Share}
  {allowed : Pool σ τ → PoolEvent γ ε → Prop} {pool next start : Pool σ τ}

def shareOf (share : τ → Share) (pool : Pool σ τ) (id : ℕ) : Share :=
  (pool.tasks id).elim .idle share

structure Accounted (stock : σ → Stock) (share : τ → Share) (users : List ℕ) (pool : Pool σ τ) :
    Prop where
  started : ∀ id, pool.tasks id ≠ none ↔ id ∈ users
  accounts : Accounts users (pool.shareOf share) (stock pool.shared)

theorem shareOf_put (share : τ → Share) (pool : Pool σ τ) (id : ℕ) (task : τ) :
    (pool.put id task).shareOf share = Function.update (pool.shareOf share) id (share task) := by
  funext other
  by_cases hother : other = id
  · subst hother
    rw [shareOf, tasks_put_self, Function.update_self]
    rfl
  · rw [shareOf, tasks_put_of_ne hother, Function.update_of_ne hother]
    rfl

theorem accounted_performed (hshares : Shares machine stock share) {users : List ℕ}
    (h : Accounted stock share users pool) {event : PoolEvent γ ε}
    (hperformed : Performed machine pool event next) : ∃ users', Accounted stock share users' next := by
  cases hperformed with
  | @started id call hid =>
      have hfresh : id ∉ users := fun hmem => (h.started id).mpr hmem hid
      have hidle : pool.shareOf share id = .idle := by rw [shareOf, hid]; rfl
      refine ⟨id :: users, ?_, ?_⟩
      · intro other
        by_cases hother : other = id
        · subst hother
          simp
        · rw [tasks_put_of_ne hother, h.started other, List.mem_cons]
          simp [hother]
      · rw [shareOf_put, hshares.begin, ← hidle, Function.update_eq_self]
        exact h.accounts.join hfresh hidle
  | @stepped id task task' shared hid hstep =>
      have hmem : id ∈ users := (h.started id).mp (by rw [hid]; exact Option.some_ne_none task)
      have hshare : pool.shareOf share id = share task := by rw [shareOf, hid]; rfl
      have hmoves := hshares.step task pool.shared task' shared hstep
      refine ⟨users, ?_, ?_⟩
      · intro other
        by_cases hother : other = id
        · subst hother
          simp [hmem]
        · rw [tasks_put_of_ne hother]
          exact h.started other
      · rw [shareOf_put]
        exact h.accounts.move hmem (hshare ▸ hmoves)
  | moved event =>
      refine ⟨users, h.started, ?_⟩
      rw [hshares.environment]
      exact h.accounts
  | ignored => exact ⟨users, h⟩

theorem Reaches.accounted (hshares : Shares machine stock share) {shared : σ}
    (hfree : (stock shared).free = []) (hcount : (stock shared).count = 0)
    (h : Reaches machine allowed (.idle shared) pool) :
    ∃ users, Accounted stock share users pool := by
  refine h.invariant (I := fun pool => ∃ users, Accounted stock share users pool)
    ⟨[], ?_, accounts_empty _ hfree hcount⟩ ?_
  · intro id
    simp [idle]
  · rintro before event after ⟨users, haccounted⟩ - hperformed
    exact accounted_performed hshares haccounted hperformed

theorem Reaches.limit_eq (hshares : Shares machine stock share) {shared : σ}
    (h : Reaches machine allowed (.idle shared) pool) :
    (stock pool.shared).limit = (stock shared).limit := by
  refine h.invariant (I := fun pool => (stock pool.shared).limit = (stock shared).limit) rfl ?_
  rintro before event after hlimit - hperformed
  cases hperformed with
  | started => exact hlimit
  | @stepped id task task' shared' hid hstep =>
      exact (hshares.step task before.shared task' shared' hstep).limit_eq.trans hlimit
  | moved event =>
      rw [← hlimit, hshares.environment]
  | ignored => exact hlimit

end Pool

end Program
