import Mathlib.Data.List.Basic

namespace Program

structure Reordering (α : Type) where
  reorder : List α → List α
  perm : ∀ items, (reorder items).Perm items

def Reordering.preferring {α : Type} (p : α → Bool) : Reordering α where
  reorder items := items.filter p ++ items.filter fun item => !p item
  perm items := List.filter_append_perm p items

theorem Reordering.find?_preferring {α : Type} {p q : α → Bool} {items : List α}
    (hsome : ∃ item ∈ items, p item = true) (himp : ∀ item, p item = true → q item = true) :
    ∃ item, ((preferring p).reorder items).find? q = some item ∧ p item = true := by
  obtain ⟨item, hitem, hp⟩ := hsome
  cases hfind : (items.filter p).find? q with
  | some found =>
      refine ⟨found, ?_, (List.mem_filter.mp (List.mem_of_find?_eq_some hfind)).2⟩
      rw [preferring, List.find?_append, hfind]
      rfl
  | none =>
      have hnone := List.find?_eq_none.mp hfind item (List.mem_filter.mpr ⟨hitem, hp⟩)
      exact absurd (himp item hp) hnone

theorem eq_of_perm_of_length_le {α : Type} {items items' : List α} (h : items'.Perm items)
    (hlength : items.length ≤ 1) : items' = items := by
  match items with
  | [] => exact List.perm_nil.mp h
  | [item] => exact List.perm_singleton.mp h

variable {α κ : Type}

theorem key_notMem_of_sublist {key : α → κ} {k : κ} {l : List α} {base : List κ}
    (hl : (l.map key).Sublist base) (hk : k ∉ base) {a : α} (ha : a ∈ l) : key a ≠ k :=
  fun h => hk (h ▸ hl.subset (List.mem_map_of_mem ha))

theorem eq_of_sublist_keys {key : α → κ} {l l' : List α} {base : List κ} (hbase : base.Nodup)
    (hl : (l.map key).Sublist base) (hl' : (l'.map key).Sublist base)
    (h : ∀ a, a ∈ l ↔ a ∈ l') : l = l' := by
  induction base generalizing l l' with
  | nil =>
      rw [List.sublist_nil, List.map_eq_nil_iff] at hl hl'
      rw [hl, hl']
  | cons k base ih =>
      rw [List.nodup_cons] at hbase
      rw [List.sublist_cons_iff] at hl hl'
      rcases hl with hl | ⟨rest, heq, hl⟩
      · rcases hl' with hl' | ⟨rest', heq', hl'⟩
        · exact ih hbase.2 hl hl' h
        · obtain ⟨a, tail, rfl, rfl, rfl⟩ := List.map_eq_cons_iff.mp heq'
          exact absurd rfl (key_notMem_of_sublist hl hbase.1 ((h a).mpr (by simp)))
      · obtain ⟨a, tail, rfl, rfl, rfl⟩ := List.map_eq_cons_iff.mp heq
        rcases hl' with hl' | ⟨rest', heq', hl'⟩
        · exact absurd rfl (key_notMem_of_sublist hl' hbase.1 ((h a).mp (by simp)))
        · obtain ⟨b, tail', rfl, hkey, rfl⟩ := List.map_eq_cons_iff.mp heq'
          have hab : a = b := by
            rcases List.mem_cons.mp ((h a).mp (by simp)) with hab | hmem
            · exact hab
            · exact absurd rfl (key_notMem_of_sublist hl' hbase.1 hmem)
          subst hab
          rw [ih hbase.2 hl hl']
          intro c
          have hc := h c
          rw [List.mem_cons, List.mem_cons] at hc
          constructor
          · intro hmem
            exact (hc.mp (.inr hmem)).resolve_left fun heq =>
              key_notMem_of_sublist hl hbase.1 hmem (congrArg key heq)
          · intro hmem
            exact (hc.mpr (.inr hmem)).resolve_left fun heq =>
              key_notMem_of_sublist hl' hbase.1 hmem (congrArg key heq)

theorem lookup_eq_none_of_notMem {β : Type} [BEq κ] [LawfulBEq κ] {entries : List (κ × β)} {k : κ}
    (h : k ∉ entries.map Prod.fst) : entries.lookup k = none := by
  rw [List.lookup_eq_none_iff]
  intro entry hentry
  have hne : k ≠ entry.1 := fun heq => h (heq ▸ List.mem_map_of_mem hentry)
  exact bne_iff_ne.mpr hne

end Program
