import Mathlib.Data.List.Basic
import Mathlib.Data.List.Nodup

namespace Program

variable {α : Type} [DecidableEq α]

theorem eraseDups_filter (p : α → Bool) (l : List α) :
    (l.filter p).eraseDups = l.eraseDups.filter p := by
  induction hlength : l.length using Nat.strongRecOn generalizing l p with
  | ind length ih =>
      cases l with
      | nil => rfl
      | cons a l =>
          have hlt : (l.filter fun b => !b == a).length < length := by
            have hle := List.length_filter_le (fun b => !b == a) l
            rw [List.length_cons] at hlength
            omega
          have hrest := ih _ hlt p _ rfl
          rw [List.eraseDups_cons, List.filter_cons, List.filter_cons, ← hrest]
          split
          · rw [List.eraseDups_cons, List.filter_filter, List.filter_filter]
            simp only [Bool.and_comm]
          · rename_i hp
            congr 1
            rw [List.filter_filter]
            refine List.filter_congr ?_
            intro b _
            by_cases hb : b = a
            · simp [hb, hp]
            · simp [hb]

theorem nodup_eraseDups (l : List α) : l.eraseDups.Nodup := by
  induction l with
  | nil => exact List.nodup_nil
  | cons a l ih =>
      rw [List.eraseDups_cons, eraseDups_filter, List.nodup_cons]
      exact ⟨by simp, ih.filter _⟩

theorem eraseDups_cons_eq (a : α) (l : List α) :
    (a :: l).eraseDups = a :: l.eraseDups.erase a := by
  rw [List.eraseDups_cons, eraseDups_filter, (nodup_eraseDups l).erase_eq_filter]
  rfl

def recent (capacity : ℕ) (uses : List α) : List α := uses.eraseDups.take capacity

theorem take_erase_take (a : α) (n : ℕ) (l : List α) :
    ((l.take (n + 1)).erase a).take n = (l.erase a).take n := by
  induction l generalizing n with
  | nil => rfl
  | cons b l ih =>
      rw [List.take_succ_cons, List.erase_cons, List.erase_cons]
      split
      · rw [List.take_take, Nat.min_self]
      · cases n with
        | zero => rfl
        | succ n => rw [List.take_succ_cons, List.take_succ_cons, ih]

theorem recent_cons (capacity : ℕ) (a : α) (uses : List α) :
    recent capacity (a :: uses) = (a :: (recent capacity uses).erase a).take capacity := by
  cases capacity with
  | zero => rfl
  | succ n =>
      rw [recent, recent, eraseDups_cons_eq, List.take_succ_cons, List.take_succ_cons,
        take_erase_take]

end Program
