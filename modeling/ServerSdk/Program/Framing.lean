import Mathlib.Data.List.Basic

namespace Framing

structure Framed (α σ : Type) where
  line : List α
  state : σ
  failed : Bool

variable {α σ : Type} [DecidableEq α]

def feedByte (ending : α) (onLine : List α → σ → Bool × σ) (framed : Framed α σ) (byte : α) :
    Framed α σ :=
  if framed.failed then framed
  else if byte = ending then
    let (success, state) := onLine framed.line framed.state
    ⟨[], state, !success⟩
  else { framed with line := framed.line ++ [byte] }

def feed (ending : α) (onLine : List α → σ → Bool × σ) (framed : Framed α σ) (bytes : List α) :
    Framed α σ :=
  bytes.foldl (feedByte ending onLine) framed

variable {ending : α} {onLine : List α → σ → Bool × σ} {framed : Framed α σ} {bytes rest : List α}

theorem feed_append :
    feed ending onLine framed (bytes ++ rest) = feed ending onLine (feed ending onLine framed bytes) rest :=
  List.foldl_append

theorem feed_of_failed (h : framed.failed = true) : feed ending onLine framed bytes = framed := by
  induction bytes with
  | nil => rfl
  | cons byte bytes ih =>
      have hbyte : feedByte ending onLine framed byte = framed := by
        rw [feedByte, h]
        rfl
      rw [feed, List.foldl_cons, hbyte]
      exact ih

theorem feed_of_not_mem (hline : ending ∉ bytes) (h : framed.failed = false) :
    feed ending onLine framed bytes = { framed with line := framed.line ++ bytes } := by
  induction bytes generalizing framed with
  | nil => rw [List.append_nil]; rfl
  | cons byte bytes ih =>
      have hbyte : byte ≠ ending := by
        rintro rfl
        exact hline (by simp)
      have hfirst : feedByte ending onLine framed byte =
          { framed with line := framed.line ++ [byte] } := by
        simp [feedByte, h, hbyte]
      have hrest := @ih { framed with line := framed.line ++ [byte] } (fun hmem => hline (by simp [hmem])) h
      rw [feed, List.foldl_cons, hfirst]
      rw [feed] at hrest
      rw [hrest, List.append_assoc, List.singleton_append]

theorem feed_line {line : List α} (hline : ending ∉ line) (h : framed.failed = false) :
    feed ending onLine framed (line ++ ending :: rest) =
      feed ending onLine ⟨[], (onLine (framed.line ++ line) framed.state).2,
        !(onLine (framed.line ++ line) framed.state).1⟩ rest := by
  have hend : feed ending onLine framed (line ++ [ending]) =
      ⟨[], (onLine (framed.line ++ line) framed.state).2,
        !(onLine (framed.line ++ line) framed.state).1⟩ := by
    rw [feed_append, feed_of_not_mem hline h]
    simp [feed, feedByte, h]
  rw [← List.singleton_append, ← List.append_assoc, feed_append, hend]

theorem feed_accepted {line : List α} {state after : σ} (hline : ending ∉ line)
    (h : onLine line state = (true, after)) :
    feed ending onLine ⟨[], state, false⟩ (line ++ ending :: rest) =
      feed ending onLine ⟨[], after, false⟩ rest := by
  rw [feed_line hline rfl, List.nil_append, h]
  rfl

theorem exists_line (ending : α) (bytes : List α) :
    ending ∉ bytes ∨ ∃ line rest, bytes = line ++ ending :: rest ∧ ending ∉ line := by
  induction bytes with
  | nil => exact .inl (by simp)
  | cons byte bytes ih =>
      by_cases hbyte : byte = ending
      · exact .inr ⟨[], bytes, by simp [hbyte], by simp⟩
      · rcases ih with hnone | ⟨line, rest, rfl, hline⟩
        · exact .inl (by simp [Ne.symm hbyte, hnone])
        · exact .inr ⟨byte :: line, rest, rfl, by simp [Ne.symm hbyte, hline]⟩

theorem ending_not_mem_line (h : ending ∉ framed.line) :
    ending ∉ (feed ending onLine framed bytes).line := by
  induction bytes generalizing framed with
  | nil => exact h
  | cons byte bytes ih =>
      refine ih ?_
      rw [feedByte]
      split_ifs with hfailed hbyte
      · exact h
      · simp
      · simp [h, Ne.symm hbyte]

theorem line_eq_nil_iff (hbytes : bytes ≠ []) (h : (feed ending onLine framed bytes).failed = false) :
    (feed ending onLine framed bytes).line = [] ↔ bytes.getLast? = some ending := by
  obtain ⟨front, byte, rfl⟩ := List.eq_nil_or_concat bytes |>.resolve_left hbytes
  rw [List.concat_eq_append] at h ⊢
  have hlast : feed ending onLine framed (front ++ [byte]) =
      feedByte ending onLine (feed ending onLine framed front) byte := by
    rw [feed_append]
    rfl
  rw [hlast] at h ⊢
  rw [feedByte] at h ⊢
  split_ifs at h ⊢ with hfailed hbyte
  · cases h.symm.trans hfailed
  · simp [hbyte]
  · simp [hbyte]

theorem failed_append (h : (feed ending onLine framed bytes).failed = true) :
    feed ending onLine framed (bytes ++ rest) = feed ending onLine framed bytes := by
  rw [feed_append, feed_of_failed h]

theorem exists_rejected (hstart : framed.failed = false)
    (h : (feed ending onLine framed bytes).failed = true) :
    ∃ line state, onLine line state = (false, (feed ending onLine framed bytes).state) := by
  induction bytes generalizing framed with
  | nil => cases hstart.symm.trans h
  | cons byte bytes ih =>
      have hcons : feed ending onLine framed (byte :: bytes) =
          feed ending onLine (feedByte ending onLine framed byte) bytes := rfl
      rw [hcons] at h ⊢
      cases hfailed : (feedByte ending onLine framed byte).failed with
      | false => exact ih hfailed h
      | true =>
          rw [feed_of_failed hfailed]
          rw [feedByte, hstart] at hfailed ⊢
          by_cases hbyte : byte = ending
          · have hsuccess : (onLine framed.line framed.state).1 = false := by
              simpa [hbyte] using hfailed
            refine ⟨framed.line, framed.state, ?_⟩
            rw [if_neg Bool.false_ne_true, if_pos hbyte]
            exact Prod.ext hsuccess rfl
          · simp [hbyte] at hfailed

theorem feed_resume (hline : ending ∉ framed.line)
    (h : (feed ending onLine framed bytes).failed = false) :
    feed ending onLine ⟨[], (feed ending onLine framed bytes).state, false⟩
      ((feed ending onLine framed bytes).line ++ rest) = feed ending onLine framed (bytes ++ rest) := by
  have hopen : ending ∉ (feed ending onLine framed bytes).line := ending_not_mem_line hline
  rw [feed_append, feed_of_not_mem hopen rfl, List.nil_append, feed_append, ← h]

end Framing
