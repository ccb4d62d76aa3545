import Mathlib.Data.List.Dedup
import ServerSdk.Store.Collections

namespace ServerSdk

structure Table where
  collections : List StoreCollectionState
  inited : Bool
  deriving DecidableEq, Repr

namespace Table

def holds (table : Table) : BackendContent := contentOf table.collections

def itemsOf (table : Table) (kind : String) : List StoreCollectionStateItem :=
  match table.collections.find? fun collection => collection.kind = kind with
  | none => []
  | some collection => collection.items

def listed (table : Table) (kind : String) : List (String × StoreCollectionItem) :=
  ((table.itemsOf kind).map StoreCollectionStateItem.key).dedup.filterMap fun key =>
    (table.holds kind key).map fun item => (key, item)

def upsert (kind : String) (item : StoreCollectionItem) (key : String) (table : Table) : Table :=
  { table with collections :=
      ⟨kind, ⟨key, newerItem (table.holds kind key) item⟩ :: table.itemsOf kind⟩ ::
        table.collections }

def interface : StoreInterface Table where
  init collections _ := (true, ⟨collections, true⟩)
  get kind key table := (some ((table.holds kind key).getD absentItem), table)
  all kind table := (some ((table.listed kind).map Prod.snd), table)
  upsert kind item key table := (true, table.upsert kind item key)
  initialized table := (table.inited, table)

def empty : Table := ⟨[], false⟩

theorem holds_eq (table : Table) (kind key : String) : table.holds kind key =
    ((table.itemsOf kind).find? fun item => item.key = key).map StoreCollectionStateItem.item := by
  rw [holds, contentOf, itemsOf]
  cases table.collections.find? fun collection => collection.kind = kind <;> rfl

theorem mem_keys_of_holds {table : Table} {kind key : String} {item : StoreCollectionItem}
    (h : table.holds kind key = some item) :
    key ∈ (table.itemsOf kind).map StoreCollectionStateItem.key := by
  rw [holds_eq, Option.map_eq_some_iff] at h
  obtain ⟨found, hfound, _⟩ := h
  have hkey : found.key = key := by simpa using List.find?_some hfound
  exact List.mem_map.mpr ⟨found, List.mem_of_find?_eq_some hfound, hkey⟩

theorem mem_listed {table : Table} {kind key : String} {item : StoreCollectionItem} :
    (key, item) ∈ table.listed kind ↔ table.holds kind key = some item := by
  rw [listed, List.mem_filterMap]
  constructor
  · rintro ⟨other, _, hother⟩
    obtain ⟨held, hheld, heq⟩ := Option.map_eq_some_iff.mp hother
    cases heq
    exact hheld
  · intro h
    exact ⟨key, List.mem_dedup.mpr (mem_keys_of_holds h), by rw [h]; rfl⟩

theorem fst_filterMap {keys : List String} {f : String → Option StoreCollectionItem} :
    (keys.filterMap fun key => (f key).map fun item => (key, item)).map Prod.fst =
      keys.filter fun key => (f key).isSome := by
  induction keys with
  | nil => rfl
  | cons key keys ih =>
      cases hkey : f key with
      | none => simp [hkey, ih]
      | some item => simp [hkey, ih]

theorem nodup_listed (table : Table) (kind : String) :
    ((table.listed kind).map Prod.fst).Nodup := by
  rw [listed, fst_filterMap]
  exact (List.nodup_dedup _).filter _

theorem holds_upsert (kind : String) (item : StoreCollectionItem) (key : String) (table : Table) :
    (table.upsert kind item key).holds = table.holds.offer kind key item := by
  funext kind' key'
  rw [BackendContent.offer]
  by_cases hkind : kind' = kind
  · subst hkind
    have hitems : (table.upsert kind' item key).itemsOf kind' =
        ⟨key, newerItem (table.holds kind' key) item⟩ :: table.itemsOf kind' := by
      rw [itemsOf, upsert, List.find?_cons_of_pos (by simp)]
    rw [holds_eq, hitems]
    by_cases hkey : key' = key
    · subst hkey
      rw [List.find?_cons_of_pos (by simp), if_pos ⟨rfl, rfl⟩]
      rfl
    · rw [List.find?_cons_of_neg (by simpa using Ne.symm hkey), if_neg (by simp [hkey]), ← holds_eq]
  · have hitems : (table.upsert kind item key).itemsOf kind' = table.itemsOf kind' := by
      rw [itemsOf, upsert, List.find?_cons_of_neg (by simpa using Ne.symm hkind)]
      rfl
    rw [holds_eq, hitems, ← holds_eq, if_neg (by simp [hkind])]

theorem conforms : Conforms interface holds where
  init _ _ _ _ := rfl
  init_failed _ _ h := by cases h
  get _ _ _ _ h := (Option.some.inj h).symm
  get_keeps _ _ _ := rfl
  all kind table items h := by
    cases h
    exact ⟨table.listed kind, rfl, nodup_listed table kind, fun _ _ => mem_listed⟩
  all_keeps _ _ := rfl
  upsert kind item key table _ := holds_upsert kind item key table
  upsert_failed _ _ _ _ h := by cases h
  initialized_keeps _ := rfl

theorem holds_empty : empty.holds = fun _ _ => none := rfl

end Table

end ServerSdk
