import Mathlib.Data.List.GetD
import ServerSdk.Cjson.Grammar

namespace ServerSdk

open Memory

namespace CJson

def Ends (content rest : List UInt8) : Prop := ∃ front, content = front ++ (rest ++ [0])

def cursor (content : List UInt8) (depth : ℕ) (rest : List UInt8) : ParseBuffer :=
  ⟨content, content.length - (rest.length + 1), depth⟩

variable {content rest text : List UInt8} {depth : ℕ}

theorem Ends.length (h : Ends content rest) : rest.length + 1 ≤ content.length := by
  obtain ⟨front, rfl⟩ := h
  simp

theorem Ends.drop (h : Ends content rest) :
    content.drop (content.length - (rest.length + 1)) = rest ++ [0] := by
  obtain ⟨front, rfl⟩ := h
  rw [List.length_append, List.length_append, List.length_singleton, Nat.add_sub_cancel,
    List.drop_left]

theorem Ends.tail {front : List UInt8} (h : Ends content (front ++ rest)) : Ends content rest := by
  obtain ⟨before, rfl⟩ := h
  exact ⟨before ++ front, by simp⟩

theorem Ends.afterBlanks (h : Ends content rest) : Ends content (afterBlanks rest) := by
  rw [← List.takeWhile_append_dropWhile (p := fun byte => byte ≤ 32) (l := rest)] at h
  exact h.tail

namespace ParseBuffer

@[simp] theorem content_cursor : (cursor content depth rest).content = content := rfl

@[simp] theorem depth_cursor : (cursor content depth rest).depth = depth := rfl

@[simp] theorem length_cursor : (cursor content depth rest).length = content.length := rfl

@[simp] theorem offset_cursor :
    (cursor content depth rest).offset = content.length - (rest.length + 1) := rfl

@[simp] theorem nested_cursor :
    (cursor content depth rest).nested = cursor content (depth + 1) rest := rfl

theorem advance_cursor {front : List UInt8} (h : Ends content (front ++ rest)) :
    (cursor content depth (front ++ rest)).advance front.length = cursor content depth rest := by
  have hlength := h.length
  rw [List.length_append] at hlength
  simp only [advance, cursor, List.length_append, ParseBuffer.mk.injEq, true_and, and_true]
  omega

theorem advance_drop {count : ℕ} (h : Ends content rest) (hcount : count ≤ rest.length) :
    (cursor content depth rest).advance count = cursor content depth (rest.drop count) := by
  have hadvance := @advance_cursor content (rest.drop count) depth (rest.take count)
  rw [List.take_append_drop, List.length_take_of_le hcount] at hadvance
  exact hadvance h

theorem advance_stepBack (hlength : rest.length + 1 < content.length) :
    (cursor content depth rest).stepBack.advance 1 = cursor content depth rest := by
  simp only [advance, stepBack, cursor, ParseBuffer.mk.injEq, true_and, and_true]
  omega

theorem canAccessAtIndex_cursor (h : Ends content rest) (index : ℕ) :
    (cursor content depth rest).canAccessAtIndex index = decide (index ≤ rest.length) := by
  have hlength := h.length
  rw [canAccessAtIndex, length_cursor, offset_cursor, decide_eq_decide]
  omega

theorem byteAt_cursor {index : ℕ} (h : Ends content rest) (hindex : index ≤ rest.length) :
    (cursor content depth rest).byteAt index = .ok (rest.getD index 0) := by
  have hdrop : content.drop (content.length - (rest.length + 1)) =
      (rest ++ [0]).take index ++ rest.getD index 0 :: (rest ++ [0]).drop (index + 1) := by
    have hlt : index < (rest ++ [0]).length := by
      rw [List.length_append, List.length_singleton]
      omega
    have hget : rest.getD index 0 = (rest ++ [0])[index] := by
      rcases hindex.lt_or_eq with hlt | rfl
      · rw [List.getD_eq_getElem _ _ hlt, List.getElem_append_left hlt]
      · simp
    rw [h.drop, hget, List.getElem_cons_drop, List.take_append_drop]
  have hread := read_of_drop hdrop
  have htake : index ≤ (rest ++ [0]).length := by
    rw [List.length_append]
    omega
  rwa [List.length_take_of_le htake] at hread

theorem byteAt_head {byte : UInt8} (h : Ends content (byte :: rest)) :
    (cursor content depth (byte :: rest)).byteAt 0 = .ok byte := byteAt_cursor h (Nat.zero_le _)

theorem matchesFrom_cursor {literal : List UInt8} (hzero : 0 ∉ literal) (h : Ends content rest) :
    ∀ {index : ℕ}, index ≤ rest.length → (cursor content depth rest).matchesFrom index literal =
      .ok (literal.isPrefixOf (rest.drop index)) := by
  induction literal with
  | nil => exact fun _ => by simp [matchesFrom]
  | cons expected literal ih =>
      intro index hindex
      rw [List.mem_cons, not_or] at hzero
      rw [matchesFrom, byteAt_cursor h hindex, ok_bind]
      rcases hindex.lt_or_eq with hlt | rfl
      · rw [List.drop_eq_getElem_cons hlt, List.isPrefixOf_cons_cons, List.getD_eq_getElem _ _ hlt]
        split_ifs with hequal
        · rw [ih hzero.2 hlt, hequal, beq_self_eq_true, Bool.true_and]
        · rw [beq_false_of_ne (Ne.symm hequal), Bool.false_and]
          rfl
      · rw [List.getD_eq_default _ _ le_rfl, if_neg hzero.1, List.drop_length]
        rfl

theorem startsWith_cursor {literal : List UInt8} (hzero : 0 ∉ literal) (h : Ends content rest) :
    (cursor content depth rest).startsWith literal = .ok (literal.isPrefixOf rest) := by
  rw [startsWith]
  split_ifs with hroom
  · exact matchesFrom_cursor hzero h (Nat.zero_le _)
  · have hlength := h.length
    have hshort : rest.length < literal.length := by
      rw [canRead, length_cursor, offset_cursor, decide_eq_true_eq] at hroom
      omega
    have hwhole : literal.isPrefixOf rest = false := by
      rw [← Bool.not_eq_true, List.isPrefixOf_iff_prefix]
      intro hwhole
      have := hwhole.length_le
      omega
    rw [hwhole]
    rfl

theorem isAt_cursor {byte : UInt8} (hzero : byte ≠ 0) (h : Ends content rest) :
    (cursor content depth rest).isAt byte = .ok (decide (rest.head? = some byte)) := by
  rw [isAt, canAccessAtIndex_cursor h, if_pos (by simp), byteAt_cursor h (Nat.zero_le _), ok_bind]
  cases rest with
  | nil => simp [Ne.symm hzero]
  | cons other rest => simp

theorem skipBlanks_cursor {fuel : ℕ} (h : Ends content rest) (hfuel : rest.length + 1 < fuel) :
    (cursor content depth rest).skipBlanks fuel = .ok (if afterBlanks rest = [] then
      ⟨content, content.length, depth⟩ else cursor content depth (afterBlanks rest)) := by
  induction rest generalizing fuel with
  | nil =>
      obtain ⟨fuel, rfl⟩ : ∃ n, fuel = n + 2 := ⟨fuel - 2, by simp at hfuel; omega⟩
      have hlength := h.length
      have hadvance : (cursor content depth []).advance 1 = ⟨content, content.length, depth⟩ := by
        simp only [advance, cursor, List.length_nil, ParseBuffer.mk.injEq, true_and, and_true] at hlength ⊢
        omega
      rw [skipBlanks, canAccessAtIndex_cursor h, if_pos (by simp), byteAt_cursor h (Nat.zero_le _), ok_bind,
        if_pos (by decide), hadvance, skipBlanks, canAccessAtIndex, if_neg (by simp [length])]
      rfl
  | cons byte rest ih =>
      obtain ⟨fuel, rfl⟩ : ∃ n, fuel = n + 1 := ⟨fuel - 1, by omega⟩
      rw [skipBlanks, canAccessAtIndex_cursor h, if_pos (by simp), byteAt_head h, ok_bind]
      by_cases hblank : byte ≤ 32
      · have htail : Ends content rest := @Ends.tail content rest [byte] h
        have hadvance := @advance_cursor content rest depth [byte] h
        rw [List.singleton_append, List.length_singleton] at hadvance
        have hblanks : afterBlanks (byte :: rest) = afterBlanks rest :=
          List.dropWhile_cons_of_pos (by simpa using hblank)
        rw [if_pos hblank, hadvance, ih htail (by simpa using hfuel), hblanks]
      · have hblanks : afterBlanks (byte :: rest) = byte :: rest :=
          List.dropWhile_cons_of_neg (by simpa using hblank)
        rw [if_neg hblank, hblanks, if_neg (List.cons_ne_nil _ _)]
        rfl

theorem skipWhitespace_cursor (h : Ends content rest) :
    (cursor content depth rest).skipWhitespace = .ok (cursor content depth (afterBlanks rest)) := by
  have hlength := h.length
  rw [skipWhitespace, skipBlanks_cursor h (by rw [length_cursor]; omega), ok_bind]
  split_ifs with hend hoffset hoffset
  · rw [hend]
    rfl
  · exact absurd rfl hoffset
  · have hafter := h.afterBlanks.length
    rw [offset_cursor, length_cursor] at hoffset
    omega
  · rfl

theorem copyNumber_cursor (h : Ends content rest) : ∀ {room index : ℕ}, index ≤ rest.length →
    (cursor content depth rest).copyNumber room index =
      .ok (((rest.drop index).takeWhile isNumeric).take room)
  | 0, _, _ => by rw [copyNumber, List.take_zero]; rfl
  | room + 1, index, hindex => by
      rw [copyNumber, canAccessAtIndex_cursor h, if_pos (by simpa using hindex),
        byteAt_cursor h hindex, ok_bind]
      rcases hindex.lt_or_eq with hlt | rfl
      · rw [List.drop_eq_getElem_cons hlt, List.getD_eq_getElem _ _ hlt, List.takeWhile_cons]
        split_ifs with hnumeric
        · rw [copyNumber_cursor h hlt, ok_bind, List.take_succ_cons]
          rfl
        · rfl
      · rw [List.getD_eq_default _ _ le_rfl, List.drop_length]
        rfl

theorem parseNumber_cursor [CNumbers] (h : Ends content rest) :
    (cursor content depth rest).parseNumber = .ok ((readNumber rest).map fun read =>
      (.number read.1, cursor content depth read.2)) := by
  rw [parseNumber, copyNumber_cursor h (Nat.zero_le _), ok_bind, List.drop_zero, readNumber]
  generalize hread : CNumbers.strtod ((rest.takeWhile isNumeric).take 63) = read
  obtain ⟨valuedouble, consumed⟩ := read
  have hconsumed : consumed.val ≤ rest.length := by
    have hlt := consumed.isLt
    have htake := List.length_take_le' 63 (rest.takeWhile isNumeric)
    have hwhile := (List.takeWhile_prefix (l := rest) isNumeric).length_le
    omega
  simp only
  split_ifs with hzero
  · rfl
  · rw [advance_drop h hconsumed]
    rfl

theorem skipUtf8Bom_cursor (h : Ends content rest) :
    (cursor content depth rest).skipUtf8Bom = .ok (cursor content depth (afterMark rest)) := by
  rw [skipUtf8Bom, canAccessAtIndex_cursor h, afterMark]
  by_cases hroom : 4 ≤ rest.length
  · rw [if_pos (by simpa using hroom), matchesFrom_cursor (by decide) h (Nat.zero_le _), ok_bind,
      List.drop_zero]
    by_cases hmark : byteOrderMark.isPrefixOf rest = true
    · rw [if_pos hmark, if_pos ⟨hroom, hmark⟩, advance_drop h (by omega)]
      rfl
    · rw [if_neg hmark, if_neg fun hboth => hmark hboth.2]
      rfl
  · rw [if_neg (by simpa using hroom), if_neg fun hboth => hroom hboth.1]
    rfl

end ParseBuffer

end CJson

end ServerSdk
