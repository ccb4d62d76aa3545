import ServerSdk.Events.KeyCache

namespace ServerSdk

open Program

structure NodeLru where
  elements : ℕ
  capacity : ℕ
  list : List ℕ
  hash : List ℕ
  keys : ℕ → Option String
  allocated : ℕ

namespace NodeLru

def init (capacity : ℕ) : NodeLru := ⟨0, capacity, [], [], fun _ => none, 0⟩

def find (lru : NodeLru) (key : String) : Option ℕ :=
  lru.hash.find? fun node => lru.keys node = some key

def detach (lru : NodeLru) (node : ℕ) : NodeLru :=
  { lru with hash := lru.hash.erase node, list := lru.list.erase node }

def takeNode (lru : NodeLru) : Option (ℕ × NodeLru) :=
  if lru.elements = lru.capacity then
    lru.list.getLast?.map fun node => (node, lru.detach node)
  else
    some (lru.allocated,
      { lru with elements := lru.elements + 1, allocated := lru.allocated + 1 })

def place (node : ℕ) (key : String) (lru : NodeLru) : NodeLru :=
  { lru with
    keys := Function.update lru.keys node (some key)
    list := node :: lru.list
    hash := lru.hash ++ [node] }

def bump (node : ℕ) (lru : NodeLru) : NodeLru := { lru with list := node :: lru.list.erase node }

def insert (lru : NodeLru) (key : String) : Option (LruStatus × NodeLru) :=
  if lru.capacity = 0 then some (.new, lru)
  else match lru.find key with
    | some node => some (.existed, lru.bump node)
    | none => do
        let (node, lru) ← lru.takeNode
        pure (.new, lru.place node key)

def unhash (lru : NodeLru) (node : ℕ) : NodeLru := { lru with hash := lru.hash.erase node }

def free (lru : NodeLru) (node : ℕ) : NodeLru :=
  { lru with list := lru.list.erase node, keys := Function.update lru.keys node none }

def clear (lru : NodeLru) : NodeLru :=
  let lru := lru.hash.foldl unhash lru
  let lru := lru.list.foldl free lru
  { lru with elements := 0, list := [], hash := [] }

end NodeLru

inductive LruCall where
  | insert (key : String)
  | clear

def LruCall.perform : LruCall → NodeLru → Option NodeLru
  | .insert key, lru => (lru.insert key).map Prod.snd
  | .clear, lru => some lru.clear

def lruAfter (capacity : ℕ) (calls : List LruCall) : Option NodeLru :=
  calls.foldlM (fun lru call => call.perform lru) (NodeLru.init capacity)

def insertedSince (calls : List LruCall) : List String :=
  calls.foldl (fun uses call => match call with
    | .insert key => key :: uses
    | .clear => []) []

section Erase

variable {α β : Type} [DecidableEq α]

theorem map_erase_of_nodup [BEq β] [LawfulBEq β] {f : α → β} {l : List α}
    (hnodup : (l.map f).Nodup) {a : α} (h : a ∈ l) : (l.erase a).map f = (l.map f).erase (f a) := by
  induction l with
  | nil => cases h
  | cons b l ih =>
      rw [List.map_cons, List.nodup_cons] at hnodup
      by_cases hb : b = a
      · subst hb
        rw [List.map_cons, List.erase_cons_head, List.erase_cons_head]
      · have hmem : a ∈ l := (List.mem_cons.mp h).resolve_left (Ne.symm hb)
        have hfb : f b ≠ f a := fun heq => hnodup.1 (heq ▸ List.mem_map_of_mem hmem)
        rw [List.erase_cons_tail (by simpa using hb), List.map_cons, List.map_cons, ih hnodup.2 hmem,
          List.erase_cons_tail (by simpa using hfb)]

theorem erase_getLast {l : List α} (hnodup : l.Nodup) {a : α} (h : l.getLast? = some a) :
    l.erase a = l.dropLast := by
  obtain ⟨front, rfl⟩ := List.getLast?_eq_some_iff.mp h
  have hfresh : a ∉ front := fun hmem =>
    (List.nodup_append.mp hnodup).2.2 a hmem a (List.mem_singleton_self a) rfl
  rw [List.erase_append_right _ hfresh, List.erase_cons_head, List.append_nil, List.dropLast_concat]

end Erase

structure HoldsKeys (nodes : NodeLru) (lru : Lru) : Prop where
  list : nodes.list.map nodes.keys = lru.list.map some
  hash : nodes.hash.map nodes.keys = lru.hash.map some
  shared : nodes.hash.Perm nodes.list
  unique : lru.list.Nodup
  allocated : ∀ node ∈ nodes.list, node < nodes.allocated

structure Stands (nodes : NodeLru) (lru : Lru) : Prop extends HoldsKeys nodes lru where
  elements : nodes.elements = lru.elements
  capacity : nodes.capacity = lru.capacity
  owned : ∀ node, nodes.keys node ≠ none → node ∈ nodes.list
  wellFormed : lru.WellFormed

section Nodes

variable {nodes : NodeLru} {lru : Lru} {node : ℕ} {key : String}

theorem HoldsKeys.nodup_keys (h : HoldsKeys nodes lru) : (nodes.list.map nodes.keys).Nodup := by
  rw [h.list]
  exact h.unique.map (Option.some_injective String)

theorem HoldsKeys.nodup_list (h : HoldsKeys nodes lru) : nodes.list.Nodup := h.nodup_keys.of_map

theorem HoldsKeys.nodup_hash_keys (h : HoldsKeys nodes lru) : (nodes.hash.map nodes.keys).Nodup :=
  (h.shared.map nodes.keys).nodup_iff.mpr h.nodup_keys

theorem HoldsKeys.mem_iff (h : HoldsKeys nodes lru) :
    key ∈ lru.list ↔ ∃ node ∈ nodes.hash, nodes.keys node = some key := by
  have hmem : key ∈ lru.list ↔ some key ∈ nodes.list.map nodes.keys := by
    rw [h.list]
    simp
  rw [hmem, List.mem_map]
  simp only [h.shared.mem_iff]

theorem find_eq_some (h : nodes.find key = some node) :
    node ∈ nodes.hash ∧ nodes.keys node = some key :=
  ⟨List.mem_of_find?_eq_some h, by simpa using List.find?_some h⟩

theorem find_eq_none (h : nodes.find key = none) : ∀ node ∈ nodes.hash, nodes.keys node ≠ some key := by
  intro node hnode
  simpa using List.find?_eq_none.mp h node hnode

theorem HoldsKeys.erase_list (h : HoldsKeys nodes lru) (hnode : node ∈ nodes.list)
    (hkey : nodes.keys node = some key) :
    (nodes.list.erase node).map nodes.keys = (lru.list.erase key).map some := by
  rw [map_erase_of_nodup h.nodup_keys hnode, h.list, hkey,
    List.map_erase (Option.some_injective String)]

theorem HoldsKeys.erase_hash (h : HoldsKeys nodes lru) (hnode : node ∈ nodes.hash)
    (hkey : nodes.keys node = some key) :
    (nodes.hash.erase node).map nodes.keys = (lru.hash.erase key).map some := by
  rw [map_erase_of_nodup h.nodup_hash_keys hnode, h.hash, hkey,
    List.map_erase (Option.some_injective String)]

theorem HoldsKeys.bump (h : HoldsKeys nodes lru) (hnode : node ∈ nodes.hash)
    (hkey : nodes.keys node = some key) :
    HoldsKeys (nodes.bump node) { lru with list := key :: lru.list.erase key } := by
  have hlisted : node ∈ nodes.list := h.shared.mem_iff.mp hnode
  have hperm : nodes.list.Perm (node :: nodes.list.erase node) := List.perm_cons_erase hlisted
  refine ⟨?_, h.hash, h.shared.trans hperm, ?_, ?_⟩
  · rw [NodeLru.bump, List.map_cons, List.map_cons, hkey, h.erase_list hlisted hkey]
  · refine List.nodup_cons.mpr ⟨?_, h.unique.erase key⟩
    exact fun hmem => (h.unique.mem_erase_iff.mp hmem).1 rfl
  · intro other hother
    exact h.allocated other (hperm.mem_iff.mpr hother)

theorem map_keys_place {l : List ℕ} (hfresh : node ∉ l) :
    l.map (nodes.place node key).keys = l.map nodes.keys := by
  refine List.map_congr_left fun other hother => ?_
  have hne : other ≠ node := fun heq => hfresh (heq ▸ hother)
  exact Function.update_of_ne hne _ _

theorem HoldsKeys.place (h : HoldsKeys nodes lru) (hfresh : node ∉ nodes.list)
    (hnode : node < nodes.allocated) (hkey : key ∉ lru.list) :
    HoldsKeys (nodes.place node key)
      { lru with list := key :: lru.list, hash := lru.hash ++ [key] } := by
  have hplaced : (nodes.place node key).keys node = some key := Function.update_self _ _ _
  have hfresh' : node ∉ nodes.hash := fun hmem => hfresh (h.shared.mem_iff.mp hmem)
  refine ⟨?_, ?_, ?_, List.nodup_cons.mpr ⟨hkey, h.unique⟩, ?_⟩
  · change (node :: nodes.list).map _ = (key :: lru.list).map some
    rw [List.map_cons, List.map_cons, map_keys_place hfresh, hplaced, h.list]
  · change (nodes.hash ++ [node]).map _ = (lru.hash ++ [key]).map some
    rw [List.map_append, List.map_append, map_keys_place hfresh', h.hash, List.map_singleton,
      List.map_singleton, hplaced]
  · exact (List.perm_append_singleton _ _).trans (h.shared.cons node)
  · exact List.forall_mem_cons.mpr ⟨hnode, h.allocated⟩

structure Taken (lru : Lru) (node : ℕ) (nodes : NodeLru) : Prop extends HoldsKeys nodes lru.makeRoom where
  fresh : node ∉ nodes.list
  taken : node < nodes.allocated
  elements : nodes.elements = lru.makeRoom.elements
  capacity : nodes.capacity = lru.capacity
  owned : ∀ other, other ≠ node → nodes.keys other ≠ none → other ∈ nodes.list

theorem Stands.takeNode_full (h : Stands nodes lru) (hcapacity : 0 < lru.capacity)
    (hfull : lru.elements = lru.capacity) :
    ∃ node taken, nodes.takeNode = some (node, taken) ∧ Taken lru node taken := by
  have hlength : lru.list.length = lru.capacity := h.wellFormed.elements.symm.trans hfull
  have hnodes : nodes.list.length = lru.list.length := by simpa using congrArg List.length h.list
  cases hlast : nodes.list.getLast? with
  | none =>
      rw [List.getLast?_eq_none_iff.mp hlast, List.length_nil] at hnodes
      omega
  | some node =>
      have hnode : node ∈ nodes.list := List.mem_of_getLast? hlast
      have hkeys := congrArg List.getLast? h.list
      rw [List.getLast?_map, List.getLast?_map, hlast] at hkeys
      obtain ⟨key, hkey, hnodeKey⟩ := Option.map_eq_some_iff.mp hkeys.symm
      have hroom : lru.makeRoom =
          { lru with list := lru.list.dropLast, hash := lru.hash.erase key } := by
        rw [Lru.makeRoom, if_pos hfull, hkey]
      have herase := erase_getLast h.unique hkey
      refine ⟨node, nodes.detach node, ?_, ⟨?_, ?_, ?_, ?_, ?_⟩, ?_, h.allocated node hnode, ?_,
        h.capacity, fun other hne hkeys => (List.mem_erase_of_ne hne).mpr (h.owned other hkeys)⟩
      · rw [NodeLru.takeNode, if_pos (by rw [h.elements, h.capacity, hfull]), hlast]
        rfl
      · rw [hroom, ← herase]
        exact h.erase_list hnode hnodeKey.symm
      · rw [hroom]
        exact h.erase_hash (h.shared.mem_iff.mpr hnode) hnodeKey.symm
      · exact h.shared.erase node
      · rw [hroom, ← herase]
        exact h.unique.erase key
      · exact fun other hother => h.allocated other (List.mem_of_mem_erase hother)
      · exact fun hmem => (h.nodup_list.mem_erase_iff.mp hmem).1 rfl
      · rw [hroom]
        exact h.elements

theorem Stands.takeNode_free (h : Stands nodes lru) (hfree : lru.elements ≠ lru.capacity) :
    ∃ node taken, nodes.takeNode = some (node, taken) ∧ Taken lru node taken := by
  have hroom : lru.makeRoom = { lru with elements := lru.elements + 1 } := if_neg hfree
  refine ⟨nodes.allocated, { nodes with elements := nodes.elements + 1, allocated := nodes.allocated + 1 },
    ?_, ⟨?_, ?_, h.shared, ?_, ?_⟩, ?_, Nat.lt_succ_self _, ?_, h.capacity,
    fun other _ hkeys => h.owned other hkeys⟩
  · rw [NodeLru.takeNode, if_neg (by rwa [h.elements, h.capacity])]
  · rw [hroom]
    exact h.list
  · rw [hroom]
    exact h.hash
  · rw [hroom]
    exact h.unique
  · exact fun other hother => (h.allocated other hother).trans (Nat.lt_succ_self _)
  · exact fun hmem => Nat.lt_irrefl _ (h.allocated nodes.allocated hmem)
  · rw [hroom, h.elements]

theorem Stands.takeNode (h : Stands nodes lru) (hcapacity : 0 < lru.capacity) :
    ∃ node taken, nodes.takeNode = some (node, taken) ∧ Taken lru node taken := by
  by_cases hfull : lru.elements = lru.capacity
  · exact h.takeNode_full hcapacity hfull
  · exact h.takeNode_free hfull

theorem mem_makeRoom (h : key ∈ lru.makeRoom.list) : key ∈ lru.list := by
  rw [Lru.makeRoom] at h
  split at h
  · split at h
    · exact List.mem_of_mem_dropLast h
    · exact h
  · exact h

theorem Stands.insert (h : Stands nodes lru) (hcapacity : 0 < lru.capacity) (key : String) :
    ∃ next, nodes.insert key = some ((lru.insert key).1, next) ∧ Stands next (lru.insert key).2 := by
  have hwellFormed := (h.wellFormed.insert hcapacity key).wellFormed
  have hpositive : nodes.capacity ≠ 0 := by
    rw [h.capacity]
    omega
  cases hfind : nodes.find key with
  | some node =>
      obtain ⟨hnode, hkey⟩ := find_eq_some hfind
      have hmem : key ∈ lru.hash :=
        h.wellFormed.hash.mem_iff.mpr (h.mem_iff.mpr ⟨node, hnode, hkey⟩)
      have hexisted : lru.insert key = (.existed, { lru with list := key :: lru.list.erase key }) := by
        rw [Lru.insert, if_neg (by omega), if_pos hmem]
      rw [hexisted] at hwellFormed ⊢
      refine ⟨nodes.bump node, ?_, h.bump hnode hkey, h.elements, h.capacity, ?_, hwellFormed⟩
      · rw [NodeLru.insert, if_neg hpositive, hfind]
      · intro other hother
        have hperm := List.perm_cons_erase (h.shared.mem_iff.mp hnode)
        exact hperm.mem_iff.mp (h.owned other hother)
  | none =>
      have hkey : key ∉ lru.list := by
        rw [h.mem_iff]
        rintro ⟨node, hnode, hkey⟩
        exact find_eq_none hfind node hnode hkey
      have hnew : lru.insert key = (.new, { lru.makeRoom with
          list := key :: lru.makeRoom.list, hash := lru.makeRoom.hash ++ [key] }) := by
        rw [Lru.insert, if_neg (by omega), if_neg (h.wellFormed.hash.mem_iff.not.mpr hkey)]
      obtain ⟨node, taken, htake, htaken⟩ := h.takeNode hcapacity
      have hsize := (h.wellFormed.insert hcapacity key).capacity
      rw [hnew] at hwellFormed hsize ⊢
      refine ⟨taken.place node key, ?_,
        htaken.place htaken.fresh htaken.taken (fun hmem => hkey (mem_makeRoom hmem)),
        htaken.elements, htaken.capacity.trans hsize.symm, ?_, hwellFormed⟩
      · rw [NodeLru.insert, if_neg hpositive, hfind]
        simp only [htake, Option.bind_eq_bind, Option.bind_some]
        rfl
      · intro other hother
        by_cases hne : other = node
        · exact hne ▸ List.mem_cons_self
        · have hkept : (taken.place node key).keys other = taken.keys other :=
            Function.update_of_ne hne _ _
          exact List.mem_cons_of_mem node (htaken.owned other hne (hkept ▸ hother))

structure Unhashed (nodes unhashed : NodeLru) : Prop where
  capacity : unhashed.capacity = nodes.capacity
  list : unhashed.list = nodes.list
  keys : unhashed.keys = nodes.keys

theorem unhashed_foldl (l : List ℕ) (nodes : NodeLru) :
    Unhashed nodes (l.foldl NodeLru.unhash nodes) := by
  induction l generalizing nodes with
  | nil => exact ⟨rfl, rfl, rfl⟩
  | cons node l ih =>
      obtain ⟨hcapacity, hlist, hkeys⟩ := ih (nodes.unhash node)
      exact ⟨hcapacity, hlist, hkeys⟩

structure Freed (l : List ℕ) (nodes freed : NodeLru) : Prop where
  capacity : freed.capacity = nodes.capacity
  keys : ∀ node, freed.keys node ≠ none → nodes.keys node ≠ none ∧ node ∉ l

theorem freed_foldl (l : List ℕ) (nodes : NodeLru) : Freed l nodes (l.foldl NodeLru.free nodes) := by
  induction l generalizing nodes with
  | nil => exact ⟨rfl, fun node hnode => ⟨hnode, List.not_mem_nil⟩⟩
  | cons node l ih =>
      obtain ⟨hcapacity, hkeys⟩ := ih (nodes.free node)
      refine ⟨hcapacity, ?_⟩
      intro other hother
      obtain ⟨hkept, hl⟩ := hkeys other hother
      have hne : other ≠ node := by
        rintro rfl
        exact hkept (Function.update_self _ _ _)
      have hsame : (nodes.free node).keys other = nodes.keys other := Function.update_of_ne hne _ _
      exact ⟨hsame ▸ hkept, List.not_mem_cons_of_ne_of_not_mem hne hl⟩

theorem Stands.clear (h : Stands nodes lru) :
    Stands nodes.clear lru.clear ∧ ∀ node, nodes.clear.keys node = none := by
  obtain ⟨hcapacity, hlist, hkeys⟩ := unhashed_foldl nodes.hash nodes
  have hfreed := freed_foldl (nodes.hash.foldl NodeLru.unhash nodes).list
    (nodes.hash.foldl NodeLru.unhash nodes)
  have hnone : ∀ node, nodes.clear.keys node = none := by
    intro node
    by_contra hsome
    obtain ⟨hkept, hunlisted⟩ := hfreed.keys node hsome
    rw [hkeys] at hkept
    rw [hlist] at hunlisted
    exact hunlisted (h.owned node hkept)
  exact ⟨⟨⟨rfl, rfl, .nil, List.nodup_nil, nofun⟩, rfl,
    hfreed.capacity.trans (hcapacity.trans h.capacity), fun node hnode => absurd (hnone node) hnode,
    lru.wellFormed_clear⟩, hnone⟩

end Nodes

structure NodeLru.Exact (capacity : ℕ) (uses : List String) (lru : NodeLru) : Prop where
  newestFirst : lru.list.map lru.keys = (recent capacity uses).map some
  listOnce : (lru.list.map lru.keys).Nodup
  hashOnce : (lru.hash.map lru.keys).Nodup
  shared : lru.hash.Perm lru.list
  owned : ∀ node, lru.keys node ≠ none ↔ node ∈ lru.list
  elements : lru.elements = lru.list.length
  bounded : lru.elements ≤ capacity

structure Recalls (capacity : ℕ) (uses : List String) (nodes : NodeLru) (lru : Lru) : Prop where
  stands : Stands nodes lru
  size : lru.capacity = capacity
  list : lru.list = recent capacity uses

section Runs

variable {capacity : ℕ} {uses : List String} {nodes : NodeLru} {lru : Lru}

theorem recalls_init (capacity : ℕ) : Recalls capacity [] (NodeLru.init capacity) (Lru.init capacity) :=
  ⟨⟨⟨rfl, rfl, .nil, List.nodup_nil, nofun⟩, rfl, rfl, fun _ hnode => absurd rfl hnode,
    Lru.wellFormed_init capacity⟩, rfl, (List.take_nil).symm⟩

theorem Recalls.insert (h : Recalls capacity uses nodes lru) (hcapacity : 0 < capacity) (key : String) :
    ∃ status next, nodes.insert key = some (status, next) ∧
      (status = .existed ↔ key ∈ recent capacity uses) ∧
      Recalls capacity (key :: uses) next (lru.insert key).2 := by
  have hpositive : 0 < lru.capacity := h.size ▸ hcapacity
  have hinserted := h.stands.wellFormed.insert hpositive key
  obtain ⟨next, hnext, hstands⟩ := h.stands.insert hpositive key
  refine ⟨_, next, hnext, ?_, hstands, hinserted.capacity.trans h.size, ?_⟩
  · rw [← h.list]
    have hnew := hinserted.status
    cases hstatus : (lru.insert key).1 with
    | new => simpa [hstatus] using hnew
    | existed => simpa [hstatus] using hnew
  · rw [hinserted.list, h.size, h.list, recent_cons]

theorem Recalls.clear (h : Recalls capacity uses nodes lru) :
    Recalls capacity [] nodes.clear lru.clear :=
  ⟨h.stands.clear.1, h.size, (List.take_nil).symm⟩

theorem Recalls.exact (h : Recalls capacity uses nodes lru) : nodes.Exact capacity uses := by
  have hstands := h.stands
  have helements : nodes.elements = nodes.list.length := by
    have hlength := congrArg List.length hstands.list
    rw [List.length_map, List.length_map] at hlength
    rw [hstands.elements, hstands.wellFormed.elements, hlength]
  refine ⟨h.list ▸ hstands.list, hstands.nodup_keys, hstands.nodup_hash_keys, hstands.shared, ?_,
    helements, ?_⟩
  · intro node
    refine ⟨hstands.owned node, fun hnode => ?_⟩
    have hkey : nodes.keys node ∈ lru.list.map some := hstands.list ▸ List.mem_map_of_mem hnode
    obtain ⟨key, -, hkey⟩ := List.mem_map.mp hkey
    exact hkey ▸ Option.some_ne_none key
  · rw [hstands.elements, hstands.wellFormed.elements, ← h.size]
    exact hstands.wellFormed.fits

theorem insertedSince_append (calls : List LruCall) (call : LruCall) :
    insertedSince (calls ++ [call]) = match call with
      | .insert key => key :: insertedSince calls
      | .clear => [] := by
  rw [insertedSince, List.foldl_append]
  rfl

theorem recalls_lruAfter (hcapacity : 0 < capacity) (calls : List LruCall) :
    ∃ nodes lru, lruAfter capacity calls = some nodes ∧
      Recalls capacity (insertedSince calls) nodes lru := by
  induction calls using List.reverseRecOn with
  | nil => exact ⟨_, _, rfl, recalls_init capacity⟩
  | append_singleton calls call ih =>
      obtain ⟨nodes, lru, hnodes, hrecalls⟩ := ih
      rw [lruAfter] at hnodes
      rw [lruAfter, List.foldlM_append, hnodes, insertedSince_append]
      cases call with
      | clear => exact ⟨nodes.clear, lru.clear, rfl, hrecalls.clear⟩
      | insert key =>
          obtain ⟨status, next, hinsert, -, hnext⟩ := hrecalls.insert hcapacity key
          refine ⟨next, _, ?_, hnext⟩
          simp [LruCall.perform, hinsert]

theorem lru_exact (capacity : ℕ) (hcapacity : 0 < capacity) (calls : List LruCall) :
    ∃ lru, lruAfter capacity calls = some lru ∧ lru.Exact capacity (insertedSince calls) ∧
      ∀ key, ∃ status next, lru.insert key = some (status, next) ∧
        (status = .existed ↔ key ∈ recent capacity (insertedSince calls)) := by
  obtain ⟨nodes, lru, hafter, hrecalls⟩ := recalls_lruAfter hcapacity calls
  refine ⟨nodes, hafter, hrecalls.exact, ?_⟩
  intro key
  obtain ⟨status, next, hinsert, hstatus, -⟩ := hrecalls.insert hcapacity key
  exact ⟨status, next, hinsert, hstatus⟩

end Runs

theorem bumped_lru_exact :
    ∃ lru, lruAfter 3 [.insert "123", .insert "456", .insert "789", .insert "123", .insert "ABC"] =
        some lru ∧
      lru.Exact 3 ["ABC", "123", "789", "456", "123"] ∧
      ∀ key, ∃ status next, lru.insert key = some (status, next) ∧
        (status = .existed ↔ key ∈ recent 3 ["ABC", "123", "789", "456", "123"]) :=
  lru_exact 3 (by decide) _

example : recent 3 ["ABC", "123", "789", "456", "123"] = ["ABC", "123", "789"] := by decide

end ServerSdk
