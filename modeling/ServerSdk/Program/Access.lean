import ServerSdk.Program.Memory

namespace Memory

inductive AccessFault where
  | read
  | write
  | fuel
  deriving DecidableEq, Repr

abbrev Access := Except AccessFault

variable {α β : Type}

@[simp] theorem ok_bind (a : α) (f : α → Access β) : (Except.ok a : Access α) >>= f = f a := rfl

@[simp] theorem pure_eq_ok (a : α) : (pure a : Access α) = .ok a := rfl

theorem bind_eq_ok {m : Access α} {f : α → Access β} {b : β} :
    (m >>= f) = .ok b ↔ ∃ a, m = .ok a ∧ f a = .ok b := by
  cases m with
  | error fault => simp only [reduceCtorEq, false_and, exists_false, iff_false]; exact nofun
  | ok a => simp

def attempt (m : Access (Option α)) (f : α → Access (Option β)) : Access (Option β) := do
  match ← m with
  | none => pure none
  | some a => f a

@[simp] theorem attempt_some (a : α) (f : α → Access (Option β)) : attempt (.ok (some a)) f = f a := rfl

@[simp] theorem attempt_none (f : α → Access (Option β)) : attempt (.ok none) f = .ok none := rfl

def read (block : List α) (index : ℕ) : Access α :=
  match block[index]? with
  | some value => .ok value
  | none => .error .read

def write (block : List α) (index : ℕ) (values : List α) : Access (List α) :=
  if index + values.length ≤ block.length then .ok (memcpy block index values)
  else .error .write

def strlen (block : List UInt8) (index : ℕ) : Access ℕ :=
  if 0 ∈ block.drop index then .ok (cString (block.drop index)).length else .error .read

theorem not_mem_cString (block : List UInt8) : 0 ∉ cString block := by
  intro h
  have hzero := List.mem_takeWhile_imp h
  simp at hzero

structure CString where
  bytes : List UInt8
  terminated : 0 ∉ bytes
  deriving DecidableEq, Repr

def CString.ofBlock (block : List UInt8) : CString := ⟨cString block, not_mem_cString block⟩

variable {block front back : List α} {value : α} {index : ℕ}

theorem read_of_drop (h : block.drop index = front ++ value :: back) :
    read block (index + front.length) = .ok value := by
  have hget : block[index + front.length]? = some value := by
    rw [← List.getElem?_drop, h]
    simp
  rw [read, hget]

theorem read_head (h : block.drop index = value :: back) : read block index = .ok value :=
  @read_of_drop _ _ [] _ _ _ h

theorem drop_add_of_drop (front : List α) (h : block.drop index = front ++ back) :
    block.drop (index + front.length) = back := by
  rw [← List.drop_drop, h, List.drop_left]

theorem length_of_drop (h : block.drop index = front) (hfront : front ≠ []) :
    block.length = index + front.length := by
  have hlength := congrArg List.length h
  rw [List.length_drop] at hlength
  have hpos := List.length_pos_iff.mpr hfront
  omega

end Memory
