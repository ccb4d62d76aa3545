import Mathlib.Data.List.Basic
import Mathlib.Data.List.TakeWhile

namespace Memory

variable {α : Type}

-- What realloc adds to a block is whatever garbage the memory holds.
def realloc (garbage : ℕ → α) (block : List α) (size : ℕ) : List α :=
  (List.range size).map fun index => block.getD index (garbage index)

def memcpy (block : List α) (offset : ℕ) (bytes : List α) : List α :=
  block.take offset ++ (bytes ++ block.drop (offset + bytes.length))

def memchr [DecidableEq α] (block : List α) (offset size : ℕ) (byte : α) : Option ℕ :=
  (((block.drop offset).take size).findIdx? fun other => other = byte).map (offset + ·)

def cString (block : List UInt8) : List UInt8 := block.takeWhile fun byte => byte ≠ 0

variable {garbage garbage' : ℕ → α} {block bytes : List α} {size offset : ℕ}

@[simp] theorem length_realloc : (realloc garbage block size).length = size := by
  simp [realloc]

theorem realloc_of_le (h : size ≤ block.length) : realloc garbage block size = block.take size := by
  apply List.ext_getElem
  · simp [h]
  · intro index hindex hindex'
    have hlt : index < block.length := by
      rw [length_realloc] at hindex
      omega
    simp [realloc, hlt]

theorem take_realloc {size' : ℕ} (h : size ≤ size') :
    (realloc garbage block size').take size = realloc garbage block size := by
  rw [realloc, realloc, ← List.map_take, List.take_range, min_eq_left h]

theorem memcpy_append {front back : List α} (h : front.length = offset) :
    memcpy (front ++ back) offset bytes = front ++ (bytes ++ back.drop bytes.length) := by
  subst h
  rw [memcpy, List.take_left, List.drop_append, List.drop_of_length_le (by omega),
    Nat.add_sub_cancel_left, List.nil_append]

theorem take_memcpy_zero : (memcpy block 0 bytes).take bytes.length = bytes := by
  simp [memcpy]

theorem length_memcpy_zero (h : bytes.length ≤ block.length) :
    (memcpy block 0 bytes).length = block.length := by
  simp only [memcpy, List.take_zero, List.nil_append, List.length_append, List.length_drop]
  omega

theorem drop_set_of_drop {line beyond : List α} {byte byte' : α}
    (h : block.drop offset = line ++ byte :: beyond) :
    (block.set (offset + line.length) byte').drop offset = line ++ byte' :: beyond := by
  rw [List.drop_set, if_neg (by omega), Nat.add_sub_cancel_left, h, List.set_append_right _ _ le_rfl]
  simp

theorem memchr_of_mem [DecidableEq α] {front rest : List α} {byte : α}
    (h : (block.drop offset).take size = front ++ byte :: rest) (hfront : byte ∉ front) :
    memchr block offset size byte = some (offset + front.length) := by
  have hindex : (front ++ byte :: rest).findIdx? (fun other => other = byte) = some front.length := by
    rw [List.findIdx?_eq_some_iff_getElem]
    refine ⟨by simp, by simp, ?_⟩
    intro index hlt
    have hne : front[index] ≠ byte := by
      intro heq
      exact hfront (heq ▸ List.getElem_mem hlt)
    simpa [List.getElem_append_left hlt] using hne
  rw [memchr, h, hindex]
  rfl

theorem memchr_of_not_mem [DecidableEq α] {byte : α} (h : byte ∉ (block.drop offset).take size) :
    memchr block offset size byte = none := by
  have hindex : ((block.drop offset).take size).findIdx? (fun other => other = byte) = none := by
    rw [List.findIdx?_eq_none_iff]
    intro other hother
    have hne : other ≠ byte := by
      rintro rfl
      exact h hother
    simpa using hne
  rw [memchr, hindex]
  rfl

theorem cString_append {line rest : List UInt8} :
    cString (line ++ 0 :: rest) = cString line := by
  induction line with
  | nil => simp [cString]
  | cons byte line ih =>
      rw [cString] at ih
      by_cases hzero : byte = 0
      · simp [cString, hzero]
      · simpa [cString, hzero] using ih

theorem cString_of_not_mem {line : List UInt8} (h : (0 : UInt8) ∉ line) :
    cString line = line := by
  rw [cString, List.takeWhile_eq_self_iff]
  intro byte hbyte
  have hne : byte ≠ 0 := by
    rintro rfl
    exact h hbyte
  simpa using hne

theorem cString_terminated {line : List UInt8} (h : (0 : UInt8) ∉ line) :
    cString (line ++ [0]) = line := by
  rw [cString_append, cString_of_not_mem h]

theorem realloc_cString {garbage : ℕ → UInt8} {block : List UInt8} (h : (cString block).length ≤ size) :
    ∃ tail, realloc garbage block size = cString block ++ tail ∧
      tail.length = size - (cString block).length := by
  have hstring : block.take (cString block).length = cString block :=
    (List.prefix_iff_eq_take.mp (List.takeWhile_prefix _)).symm
  have hlength : (cString block).length ≤ block.length := (List.takeWhile_prefix _).length_le
  refine ⟨(realloc garbage block size).drop (cString block).length, ?_, by simp⟩
  have htake := @take_realloc UInt8 garbage block _ _ h
  rw [realloc_of_le hlength, hstring] at htake
  calc realloc garbage block size
      = (realloc garbage block size).take (cString block).length ++
          (realloc garbage block size).drop (cString block).length := (List.take_append_drop _ _).symm
    _ = cString block ++ (realloc garbage block size).drop (cString block).length := by rw [htake]

end Memory
