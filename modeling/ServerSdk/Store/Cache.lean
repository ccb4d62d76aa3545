import Mathlib.Data.List.Nodup
import ServerSdk.Json.Value
import ServerSdk.Program.Keyed

namespace ServerSdk

open Program

structure CacheItem where
  key : String
  feature : Option Json
  updatedOn : Rat
  deriving Repr

-- The items in the order in which the hash table finds them. Adding does not look for an item of the
-- same key; growing the table may move the items.
structure MemoryContext where
  initialized : Bool
  items : List CacheItem
  deriving Repr

namespace MemoryContext

def getCollectionItem (cache : MemoryContext) (cacheKey : String) : Option CacheItem :=
  cache.items.find? fun item => item.key = cacheKey

def deleteAndRemoveCacheItem (cache : MemoryContext) (item : CacheItem) : MemoryContext :=
  { cache with items := cache.items.eraseP fun other => other.key = item.key }

def findAndRemoveCacheItem (cache : MemoryContext) (key : String) : MemoryContext :=
  match cache.getCollectionItem key with
  | none => cache
  | some item => cache.deleteAndRemoveCacheItem item

def flush (cache : MemoryContext) : MemoryContext := { cache with items := [] }

def addToCache (cache : MemoryContext) (item : CacheItem) : MemoryContext :=
  { cache with items := item :: cache.items }

def rehashed (order : Reordering CacheItem) (cache : MemoryContext) : MemoryContext :=
  { cache with items := order.reorder cache.items }

def entries (cache : MemoryContext) (key : String) : List CacheItem :=
  cache.items.filter fun item => item.key = key

theorem entries_rehashed (order : Reordering CacheItem) (cache : MemoryContext) (key : String) :
    ((cache.rehashed order).entries key).Perm (cache.entries key) :=
  (order.perm cache.items).filter _

variable {cache : MemoryContext} {key k : String}

theorem getCollectionItem_eq (cache : MemoryContext) (key : String) :
    cache.getCollectionItem key = (cache.entries key).head? := by
  rw [getCollectionItem, entries, List.head?_filter]

@[simp] theorem entries_flush (cache : MemoryContext) (key : String) :
    cache.flush.entries key = [] := rfl

@[simp] theorem initialized_findAndRemove (cache : MemoryContext) (key : String) :
    (cache.findAndRemoveCacheItem key).initialized = cache.initialized := by
  rw [findAndRemoveCacheItem]
  cases cache.getCollectionItem key <;> rfl

theorem entries_addToCache (cache : MemoryContext) (item : CacheItem) (key : String) :
    (cache.addToCache item).entries key =
      if item.key = key then item :: cache.entries key else cache.entries key := by
  rw [addToCache, entries, List.filter_cons]
  simp only [decide_eq_true_eq]
  rfl

theorem filter_eraseP_same (items : List CacheItem) (key : String) :
    (items.eraseP fun item => item.key = key).filter (fun item => item.key = key) =
      (items.filter fun item => item.key = key).tail := by
  induction items with
  | nil => rfl
  | cons item items ih =>
      by_cases hkey : item.key = key
      · rw [List.eraseP_cons_of_pos (by simpa using hkey),
          List.filter_cons_of_pos (by simpa using hkey), List.tail_cons]
      · rw [List.eraseP_cons_of_neg (by simpa using hkey),
          List.filter_cons_of_neg (by simpa using hkey),
          List.filter_cons_of_neg (by simpa using hkey), ih]

theorem filter_eraseP_other (items : List CacheItem) (h : k ≠ key) :
    (items.eraseP fun item => item.key = k).filter (fun item => item.key = key) =
      items.filter fun item => item.key = key := by
  induction items with
  | nil => rfl
  | cons item items ih =>
      by_cases hkey : item.key = k
      · have hother : ¬item.key = key := fun heq => h (hkey.symm.trans heq)
        rw [List.eraseP_cons_of_pos (by simpa using hkey),
          List.filter_cons_of_neg (by simpa using hother)]
      · rw [List.eraseP_cons_of_neg (by simpa using hkey), List.filter_cons, List.filter_cons, ih]

theorem findAndRemove_items (cache : MemoryContext) (key : String) :
    (cache.findAndRemoveCacheItem key).items = cache.items.eraseP fun item => item.key = key := by
  rw [findAndRemoveCacheItem]
  cases hfind : cache.getCollectionItem key with
  | none =>
      have hnone : ∀ item ∈ cache.items, ¬(decide (item.key = key) = true) :=
        List.find?_eq_none.mp hfind
      exact (List.eraseP_of_forall_not hnone).symm
  | some item =>
      have hkey : item.key = key := by simpa using List.find?_some hfind
      rw [← hkey]
      rfl

theorem entries_findAndRemove (cache : MemoryContext) (k key : String) :
    (cache.findAndRemoveCacheItem k).entries key =
      if k = key then (cache.entries key).tail else cache.entries key := by
  rw [entries, findAndRemove_items]
  split_ifs with hk
  · subst hk
    exact filter_eraseP_same cache.items k
  · exact filter_eraseP_other cache.items hk

def UniqueKeys (cache : MemoryContext) : Prop := (cache.items.map CacheItem.key).Nodup

instance (cache : MemoryContext) : Decidable cache.UniqueKeys :=
  inferInstanceAs (Decidable (cache.items.map CacheItem.key).Nodup)

theorem uniqueKeys_iff : cache.UniqueKeys ↔ ∀ key, (cache.entries key).length ≤ 1 := by
  have hcount : ∀ key, (cache.entries key).length = (cache.items.map CacheItem.key).count key := by
    intro key
    rw [entries, ← List.countP_eq_length_filter, List.count, List.countP_map]
    congr 1
  rw [UniqueKeys, List.nodup_iff_count_le_one]
  constructor
  · intro h key
    rw [hcount]
    exact h key
  · intro h key
    rw [← hcount]
    exact h key

end MemoryContext

end ServerSdk
