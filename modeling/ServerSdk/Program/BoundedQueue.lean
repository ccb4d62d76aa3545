import Mathlib.Data.List.Basic

namespace Program

variable {α : Type}

def offer (capacity : ℕ) (queue : List α) (item : α) : List α :=
  if capacity ≤ queue.length then queue else queue ++ [item]

def offerAll (capacity : ℕ) (queue items : List α) : List α := items.foldl (offer capacity) queue

theorem offerAll_eq (capacity : ℕ) (queue items : List α) :
    offerAll capacity queue items = queue ++ items.take (capacity - queue.length) := by
  induction items generalizing queue with
  | nil => simp [offerAll]
  | cons item items ih =>
      rw [offerAll, List.foldl_cons, ← offerAll, ih, offer]
      split
      · rename_i hfull
        have hzero : capacity - queue.length = 0 := by omega
        simp [hzero]
      · rename_i hroom
        have hsucc : capacity - queue.length = capacity - (queue ++ [item]).length + 1 := by
          rw [List.length_append, List.length_singleton]
          omega
        rw [hsucc, List.take_succ_cons, List.append_assoc, List.singleton_append]

theorem length_offerAll {capacity : ℕ} {queue : List α} (h : queue.length ≤ capacity)
    (items : List α) : (offerAll capacity queue items).length ≤ capacity := by
  rw [offerAll_eq, List.length_append, List.length_take]
  omega

def offerLog (capacity : ℕ) : List α → List α → List (α × Bool)
  | _, [] => []
  | queue, item :: items =>
      (item, decide (capacity ≤ queue.length)) :: offerLog capacity (offer capacity queue item) items

def admitted (log : List (α × Bool)) : List α := (log.filter fun entry => !entry.2).map Prod.fst

theorem admitted_append (log log' : List (α × Bool)) :
    admitted (log ++ log') = admitted log ++ admitted log' := by
  rw [admitted, List.filter_append, List.map_append]
  rfl

theorem offerAll_eq_admitted (capacity : ℕ) (queue items : List α) :
    offerAll capacity queue items = queue ++ admitted (offerLog capacity queue items) := by
  induction items generalizing queue with
  | nil => simp [offerAll, offerLog, admitted]
  | cons item items ih =>
      rw [offerAll, List.foldl_cons, ← offerAll, ih, offerLog, offer]
      split
      · rename_i hfull
        simp [admitted, hfull]
      · rename_i hroom
        simp [admitted, hroom]

end Program
