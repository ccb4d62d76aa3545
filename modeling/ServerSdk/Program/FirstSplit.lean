import Mathlib.Data.List.Basic

namespace Program

variable {α : Type} {p : α → Prop} {l before before' : List α} {a a' : α}

structure FirstSplit (p : α → Prop) (l before : List α) (a : α) : Prop where
  split : ∃ after, l = before ++ a :: after
  before : ∀ b ∈ before, ¬ p b
  here : p a

namespace FirstSplit

theorem head (h : p a) (l : List α) : FirstSplit p (a :: l) [] a :=
  ⟨⟨l, rfl⟩, List.forall_mem_nil _, h⟩

theorem cons (h : FirstSplit p l before a) {b : α} (hb : ¬ p b) :
    FirstSplit p (b :: l) (b :: before) a := by
  obtain ⟨after, rfl⟩ := h.split
  exact ⟨⟨after, rfl⟩, List.forall_mem_cons.mpr ⟨hb, h.before⟩, h.here⟩

theorem mem (h : FirstSplit p l before a) : a ∈ l := by
  obtain ⟨after, rfl⟩ := h.split
  exact List.mem_append_right _ (List.mem_cons_self ..)

theorem not_forall (h : FirstSplit p l before a) : ¬ ∀ b ∈ l, ¬ p b :=
  fun hall => hall a h.mem h.here

theorem unique (h : FirstSplit p l before a) (h' : FirstSplit p l before' a') :
    before = before' ∧ a = a' := by
  obtain ⟨after, rfl⟩ := h.split
  obtain ⟨after', hsplit⟩ := h'.split
  have hbefore := h.before
  have hbefore' := h'.before
  have hhere := h.here
  have hhere' := h'.here
  clear h h'
  induction before generalizing before' with
  | nil =>
      cases before' with
      | nil =>
          cases hsplit
          exact ⟨rfl, rfl⟩
      | cons b before' =>
          cases hsplit
          exact absurd hhere (hbefore' a (List.mem_cons_self ..))
  | cons b before ih =>
      cases before' with
      | nil =>
          cases hsplit
          exact absurd hhere' (hbefore a' (List.mem_cons_self ..))
      | cons b' before' =>
          obtain ⟨rfl, hrest⟩ := List.cons.inj hsplit
          rw [List.forall_mem_cons] at hbefore hbefore'
          obtain ⟨rfl, rfl⟩ := ih hrest hbefore.2 hbefore'.2
          exact ⟨rfl, rfl⟩

end FirstSplit

end Program
