import ServerSdk.Cjson.Rendering

namespace ServerSdk

open Memory

namespace CJson.PrintBuffer

structure Ready (format : Bool) (depth : ℕ) (done : List UInt8) (p : PrintBuffer) : Prop where
  format : p.format = format
  depth : p.depth = depth
  offset : p.offset = done.length
  block : ∃ back, p.block = done ++ back ∧ back ≠ []

structure Wrote (format : Bool) (depth : ℕ) (done : List UInt8) (p : PrintBuffer) : Prop where
  format : p.format = format
  depth : p.depth = depth
  block : ∃ front text back, p.block = front ++ (text ++ 0 :: back) ∧ p.offset = front.length ∧
    0 ∉ text ∧ done = front ++ text

structure Filled (format : Bool) (depth : ℕ) (done : List UInt8) (needed : ℕ) (filled : List UInt8)
    (p : PrintBuffer) : Prop where
  format : p.format = format
  depth : p.depth = depth
  offset : p.offset = done.length
  block : ∃ back, p.block = done ++ (filled ++ back) ∧ needed + 1 ≤ filled.length + back.length

def Outcome (gaveUp : Prop) (Q : PrintBuffer → Prop) (m : Access (Option PrintBuffer)) : Prop :=
  (gaveUp ∧ m = .ok none) ∨ ∃ p, m = .ok (some p) ∧ Q p

variable {garbage : ℕ → UInt8} {format : Bool} {depth needed : ℕ}
  {done text bytes filled more : List UInt8} {p : PrintBuffer} {gaveUp : Prop}
  {Q R : PrintBuffer → Prop} {m : Access (Option PrintBuffer)}

theorem Outcome.attempt {f : PrintBuffer → Access (Option PrintBuffer)} (h : Outcome gaveUp Q m)
    (hf : ∀ p, Q p → Outcome gaveUp R (f p)) : Outcome gaveUp R (attempt m f) := by
  rcases h with ⟨hgaveUp, rfl⟩ | ⟨p, rfl, hp⟩
  · exact .inl ⟨hgaveUp, rfl⟩
  · exact hf p hp

theorem realloc_append {block : List UInt8} {size : ℕ} (h : block.length ≤ size) :
    ∃ more, realloc garbage block size = block ++ more ∧ more.length = size - block.length := by
  refine ⟨(realloc garbage block size).drop block.length, ?_, by simp⟩
  have htake := @take_realloc _ garbage block _ _ h
  rw [realloc_of_le le_rfl, List.take_length] at htake
  calc realloc garbage block size
      = (realloc garbage block size).take block.length ++
          (realloc garbage block size).drop block.length := (List.take_append_drop _ _).symm
    _ = block ++ (realloc garbage block size).drop block.length := by rw [htake]

theorem Ready.grow {newsize : ℕ} (h : Ready format depth done p)
    (hsize : done.length + needed + 1 ≤ newsize) (hblock : p.block.length ≤ newsize) :
    Filled format depth done needed [] (p.grow garbage newsize) := by
  obtain ⟨back, hback, hne⟩ := h.block
  rw [PrintBuffer.grow]
  split_ifs with hreallocates
  · obtain ⟨more, hmore, hlength⟩ := @realloc_append garbage _ _ hblock
    refine ⟨h.format, h.depth, h.offset, back ++ more, ?_, ?_⟩
    · rw [hmore, hback, List.append_assoc, List.nil_append]
    · rw [List.length_append, hlength, hback, List.length_append]
      rw [hback, List.length_append] at hblock
      simp only [List.length_nil]
      omega
  · obtain ⟨byte, back, rfl⟩ := List.exists_cons_of_ne_nil hne
    have htake : p.block.take (p.offset + 1) = done ++ [byte] := by
      have hsplit : p.block = (done ++ [byte]) ++ back := by
        rw [hback, List.append_assoc, List.singleton_append]
      rw [hsplit, h.offset, ← List.length_singleton (a := byte), ← List.length_append, List.take_left]
    refine ⟨h.format, h.depth, h.offset, byte :: (realloc garbage [] newsize).drop (done.length + 1), ?_, ?_⟩
    · simp only [htake, memcpy, List.take_zero, List.nil_append, List.length_append,
        List.length_singleton, List.append_assoc, List.singleton_append, zero_add]
    · rw [List.length_cons, List.length_drop, length_realloc, List.length_nil]
      omega

theorem Ready.ensure (h : Ready format depth done p)
    (hgaveUp : intMax < done.length + needed + 1 → gaveUp) :
    (gaveUp ∧ p.ensure garbage needed = none) ∨
      ∃ p', p.ensure garbage needed = some p' ∧ Filled format depth done needed [] p' := by
  obtain ⟨back, hback, hne⟩ := h.block
  have hpos := List.length_pos_iff.mpr hne
  have hlength : p.block.length = done.length + back.length := by rw [hback, List.length_append]
  have hoffset := h.offset
  rw [PrintBuffer.ensure, if_neg (by omega)]
  by_cases hneeded : intMax < needed
  · exact .inl ⟨hgaveUp (by omega), if_pos hneeded⟩
  rw [if_neg hneeded]
  simp only
  by_cases hfits : needed + p.offset + 1 ≤ p.block.length
  · have hroom : needed + 1 ≤ ([] : List UInt8).length + back.length := by
      simp only [List.length_nil]
      omega
    exact .inr ⟨p, if_pos hfits, h.format, h.depth, h.offset, back, hback, hroom⟩
  rw [if_neg hfits]
  by_cases hhalf : intMax / 2 < needed + p.offset + 1
  · rw [if_pos hhalf]
    by_cases hmax : needed + p.offset + 1 ≤ intMax
    · exact .inr ⟨_, if_pos hmax, h.grow (by omega) (by omega)⟩
    · exact .inl ⟨hgaveUp (by omega), if_neg hmax⟩
  · rw [if_neg hhalf]
    exact .inr ⟨_, rfl, h.grow (by omega) (by omega)⟩

theorem Filled.put {index : ℕ} (h : Filled format depth done needed filled p)
    (hindex : index = filled.length) (hroom : index + bytes.length ≤ needed + 1) :
    ∃ p', p.put index bytes = .ok p' ∧ Filled format depth done needed (filled ++ bytes) p' := by
  subst hindex
  obtain ⟨back, hblock, hback⟩ := h.block
  have hfits : p.offset + filled.length + bytes.length ≤ p.block.length := by
    rw [hblock, h.offset]
    simp only [List.length_append]
    omega
  have hcopy : memcpy p.block (p.offset + filled.length) bytes =
      done ++ (filled ++ (bytes ++ back.drop bytes.length)) := by
    rw [hblock, ← List.append_assoc, memcpy_append (by rw [List.length_append, h.offset]),
      List.append_assoc]
  refine ⟨{ p with block := memcpy p.block (p.offset + filled.length) bytes }, ?_, h.format,
    h.depth, h.offset, back.drop bytes.length, ?_, ?_⟩
  · rw [PrintBuffer.put, write, if_pos hfits]
    rfl
  · rw [hcopy, List.append_assoc]
  · rw [List.length_append, List.length_drop]
    omega

theorem Filled.put_zero (h : Filled format depth done needed [] p) (hroom : bytes.length ≤ needed + 1) :
    ∃ p', p.put 0 bytes = .ok p' ∧ Filled format depth done needed bytes p' :=
  h.put List.length_nil.symm (by rwa [zero_add])

theorem Filled.forget (h : Filled format depth done needed (filled ++ more) p) :
    Filled format depth done needed filled p := by
  obtain ⟨back, hblock, hroom⟩ := h.block
  refine ⟨h.format, h.depth, h.offset, more ++ back, ?_, ?_⟩
  · rw [hblock, List.append_assoc]
  · rw [List.length_append] at hroom ⊢
    omega

theorem Filled.moveOn (h : Filled format depth done needed filled p) (hlength : filled.length ≤ needed) :
    Ready format depth (done ++ filled) (p.moveOn filled.length) := by
  obtain ⟨back, hblock, hroom⟩ := h.block
  refine ⟨h.format, h.depth, ?_, back, ?_, ?_⟩
  · rw [PrintBuffer.moveOn, h.offset, List.length_append]
  · rw [PrintBuffer.moveOn, hblock, List.append_assoc]
  · rintro rfl
    rw [List.length_nil] at hroom
    omega

theorem Filled.wrote (h : Filled format depth done needed (text ++ [0]) p) (hzero : 0 ∉ text) :
    Wrote format depth (done ++ text) p := by
  obtain ⟨back, hblock, -⟩ := h.block
  refine ⟨h.format, h.depth, done, text, back, ?_, h.offset, hzero, rfl⟩
  rw [hblock, List.append_assoc, List.singleton_append]

theorem Wrote.updateOffset (h : Wrote format depth done p) :
    ∃ p', p.updateOffset = .ok p' ∧ Ready format depth done p' ∧
      ∃ back, p'.block = done ++ 0 :: back := by
  obtain ⟨front, text, back, hblock, hoffset, hzero, rfl⟩ := h.block
  have hdrop : p.block.drop p.offset = text ++ 0 :: back := by rw [hblock, hoffset, List.drop_left]
  have hdone : p.block = (front ++ text) ++ 0 :: back := by rw [hblock, List.append_assoc]
  refine ⟨p.moveOn text.length, ?_, ⟨h.format, h.depth, ?_, 0 :: back, hdone, List.cons_ne_nil _ _⟩,
    back, hdone⟩
  · rw [PrintBuffer.updateOffset, strlen, hdrop, if_pos (by simp), cString_append,
      cString_of_not_mem hzero]
    rfl
  · rw [PrintBuffer.moveOn, hoffset, List.length_append]

theorem printWord_spec {word : List UInt8} (h : Ready format depth done p) (hzero : 0 ∉ word)
    (hgaveUp : intMax < done.length + word.length + 2 → gaveUp) :
    Outcome gaveUp (Wrote format depth (done ++ word)) (printWord garbage word p) := by
  rw [printWord]
  rcases @Ready.ensure garbage _ _ (word.length + 1) _ _ _ h (fun hmax => hgaveUp (by omega)) with
    ⟨hgaveUp, hnone⟩ | ⟨p', hsome, hfilled⟩
  · exact .inl ⟨hgaveUp, by rw [hnone]; rfl⟩
  · have hroom : (word ++ [0]).length ≤ word.length + 1 + 1 := by simp
    obtain ⟨p'', hput, hfilled⟩ := hfilled.put_zero hroom
    refine .inr ⟨p'', ?_, hfilled.wrote hzero⟩
    rw [hsome]
    simp only [hput, ok_bind, pure_eq_ok]

theorem printBytes_spec {terminator : List UInt8} (h : Ready format depth done p)
    (hgaveUp : intMax < done.length + needed + 1 → gaveUp)
    (hlength : bytes.length + terminator.length ≤ needed) :
    Outcome gaveUp (Ready format depth (done ++ bytes))
      (printBytes garbage needed bytes terminator p) := by
  rw [printBytes]
  rcases @Ready.ensure garbage _ _ needed _ _ _ h hgaveUp with
    ⟨hgaveUp, hnone⟩ | ⟨p', hsome, hfilled⟩
  · exact .inl ⟨hgaveUp, by rw [hnone]; rfl⟩
  · have hroom : (bytes ++ terminator).length ≤ needed + 1 := by
      rw [List.length_append]
      omega
    obtain ⟨p'', hput, hfilled⟩ := hfilled.put_zero hroom
    refine .inr ⟨_, ?_, hfilled.forget.moveOn (by omega)⟩
    rw [hsome]
    simp only [hput, ok_bind, pure_eq_ok]

theorem escapeLoop_spec {pointer : ℕ} (input : List UInt8)
    (h : Filled format depth done needed filled p) (hpointer : pointer = filled.length)
    (hroom : pointer + (input.flatMap escapeByte).length ≤ needed) :
    ∃ p', escapeLoop input pointer p = .ok p' ∧
      Filled format depth done needed (filled ++ input.flatMap escapeByte) p' := by
  induction input generalizing pointer filled p with
  | nil => exact ⟨p, rfl, by rwa [List.flatMap_nil, List.append_nil]⟩
  | cons byte input ih =>
      rw [List.flatMap_cons, List.length_append] at hroom
      rw [List.flatMap_cons, ← List.append_assoc, escapeLoop]
      by_cases hnormal : isNormal byte
      · rw [escapeByte, if_pos hnormal] at hroom ⊢
        rw [List.length_singleton] at hroom
        rw [if_pos hnormal]
        obtain ⟨p', hput, hfilled⟩ := @Filled.put _ _ _ _ [byte] _ _ _ h hpointer (by simp; omega)
        rw [hput, ok_bind]
        exact ih hfilled (by simp [hpointer]) (by omega)
      · rw [escapeByte, if_neg hnormal] at hroom ⊢
        rw [if_neg hnormal]
        cases hletter : escapeLetter byte with
        | some letter =>
            simp only [hletter, List.length_cons, List.length_nil] at hroom ⊢
            obtain ⟨p', hput, hfilled⟩ :=
              @Filled.put _ _ _ _ [backslash] _ _ _ h hpointer (by simp; omega)
            rw [hput, ok_bind]
            obtain ⟨p'', hput', hfilled⟩ :=
              @Filled.put _ _ _ _ [letter] _ _ (pointer + 1) hfilled (by simp [hpointer]) (by simp; omega)
            rw [hput', ok_bind]
            rw [List.append_assoc] at hfilled
            exact ih hfilled (by simp [hpointer]) (by omega)
        | none =>
            simp only [hletter] at hroom ⊢
            have hlength : (unicodeLetters byte).length = 5 := rfl
            rw [List.length_cons, hlength] at hroom
            obtain ⟨p', hput, hfilled⟩ :=
              @Filled.put _ _ _ _ [backslash] _ _ _ h hpointer (by simp; omega)
            rw [hput, ok_bind]
            obtain ⟨p'', hput', hfilled⟩ := @Filled.put _ _ _ _ (unicodeLetters byte ++ [0]) _ _
              (pointer + 1) hfilled (by simp [hpointer]) (by simp [hlength]; omega)
            rw [hput', ok_bind]
            rw [← List.append_assoc, List.append_assoc filled] at hfilled
            exact ih hfilled.forget (by simp [hpointer, hlength]) (by omega)

theorem Filled.close {escaped : List UInt8} {outputLength : ℕ}
    (h : Filled format depth done (outputLength + 3) (quote :: escaped) p)
    (hzero : 0 ∉ quote :: (escaped ++ [quote])) (hlength : outputLength = escaped.length) :
    ∃ p', (do
        let p ← p.put (outputLength + 1) [quote]
        let p ← p.put (outputLength + 2) [0]
        pure (some p) : Access (Option PrintBuffer)) = .ok (some p') ∧
      Wrote format depth (done ++ quote :: (escaped ++ [quote])) p' := by
  subst hlength
  obtain ⟨p', hput, hfilled⟩ := @Filled.put _ _ _ _ [quote] _ _ (escaped.length + 1) h (by simp) (by simp)
  rw [hput, ok_bind]
  obtain ⟨p'', hput, hfilled⟩ := @Filled.put _ _ _ _ [0] _ _ (escaped.length + 2) hfilled
    (by simp) (by simp)
  rw [hput, ok_bind]
  exact ⟨p'', rfl, hfilled.wrote hzero⟩

theorem printStringPtr_spec {input : CString} (h : Ready format depth done p)
    (hgaveUp : intMax < done.length + (renderString input).length + 2 → gaveUp) :
    Outcome gaveUp (Wrote format depth (done ++ renderString input)) (printStringPtr garbage input p) := by
  have hescaped : (input.bytes.flatMap escapeByte).length =
      input.bytes.length + escapes input.bytes := length_flatMap_escapeByte
  have hzero := @zero_not_mem_renderString input
  rw [renderString] at hgaveUp hzero ⊢
  simp only [List.length_cons, List.length_append, List.length_nil] at hgaveUp
  rw [printStringPtr]
  rcases @Ready.ensure garbage _ _ (input.bytes.length + escapes input.bytes + 3)
    _ _ _ h (fun hmax => hgaveUp (by omega)) with ⟨hgaveUp, hnone⟩ | ⟨p', hsome, hfilled⟩
  · exact .inl ⟨hgaveUp, by rw [hnone]; rfl⟩
  rw [hsome]
  obtain ⟨p', hput, hfilled⟩ := @Filled.put_zero _ _ _ _ [quote] _ hfilled (by simp)
  by_cases hescapes : escapes input.bytes = 0
  · rw [flatMap_escapeByte_of_escapes hescapes] at hescaped hzero ⊢
    simp only [hescapes, ↓reduceIte, hput, ok_bind]
    rw [hescapes] at hfilled
    obtain ⟨p', hput, hfilled⟩ :=
      @Filled.put _ _ _ _ input.bytes _ _ 1 hfilled (by simp) (by omega)
    rw [hput, ok_bind]
    obtain ⟨p', hclose, hwrote⟩ := hfilled.close hzero rfl
    exact .inr ⟨p', hclose, hwrote⟩
  · simp only [if_neg hescapes, hput, ok_bind]
    obtain ⟨p', hloop, hfilled⟩ := @escapeLoop_spec _ _ _ _ _ _ 1 input.bytes hfilled (by simp) (by omega)
    rw [hloop, ok_bind]
    obtain ⟨p', hclose, hwrote⟩ := hfilled.close hzero hescaped.symm
    exact .inr ⟨p', hclose, hwrote⟩

theorem printNumber_spec [CNumbers] {valuedouble : Double} (h : Ready format depth done p)
    (hgaveUp : intMax < done.length + (numberText valuedouble).length + 2 → gaveUp)
    (hlong : 25 < (numberText valuedouble).length → gaveUp) :
    Outcome gaveUp (Wrote format depth (done ++ numberText valuedouble))
      (printNumber garbage valuedouble p) := by
  rw [printNumber]
  generalize htext : numberText valuedouble = text at hgaveUp hlong ⊢
  by_cases hlength : 25 < text.length
  · exact .inl ⟨hlong hlength, if_pos hlength⟩
  rw [if_neg hlength]
  rcases @Ready.ensure garbage _ _ (text.length + 1) _ _ _ h (fun hmax => hgaveUp (by omega)) with
    ⟨hgaveUp, hnone⟩ | ⟨p', hsome, hfilled⟩
  · exact .inl ⟨hgaveUp, by rw [hnone]; rfl⟩
  · rw [hsome]
    simp only
    obtain ⟨p', hput, hfilled⟩ := @Filled.put_zero _ _ _ _ text _ hfilled (by omega)
    rw [hput, ok_bind]
    obtain ⟨p', hput, hfilled⟩ := @Filled.put _ _ _ _ [0] _ _ _ hfilled rfl (by simp)
    rw [hput, ok_bind]
    obtain ⟨back, hblock, -⟩ := hfilled.block
    refine .inr ⟨_, rfl, hfilled.format, hfilled.depth, done ++ text, [], back, ?_, ?_, ?_, ?_⟩
    · rw [PrintBuffer.moveOn, hblock]
      simp
    · rw [PrintBuffer.moveOn, hfilled.offset, List.length_append]
    · exact List.not_mem_nil
    · rw [List.append_nil]

theorem Ready.deeper (h : Ready format depth done p) : Ready format (depth + 1) done p.deeper := by
  refine ⟨h.format, ?_, h.offset, h.block⟩
  rw [PrintBuffer.deeper, h.depth]

theorem Wrote.shallower (h : Wrote format (depth + 1) done p) : Wrote format depth done p.shallower := by
  refine ⟨h.format, ?_, h.block⟩
  rw [PrintBuffer.shallower, h.depth, Nat.add_sub_cancel]

theorem Ready.close (h : Ready format (depth + 1) done p)
    (hgaveUp : intMax < done.length + needed + 1 → gaveUp) (hroom : bytes.length ≤ needed)
    (hzero : 0 ∉ bytes) :
    (gaveUp ∧ p.ensure garbage needed = none) ∨ ∃ p' p'', p.ensure garbage needed = some p' ∧
      p'.format = format ∧ p'.depth = depth + 1 ∧ p'.put 0 (bytes ++ [0]) = .ok p'' ∧
      Wrote format depth (done ++ bytes) p''.shallower := by
  rcases @Ready.ensure garbage _ _ needed _ _ _ h hgaveUp with hnone | ⟨p', hsome, hfilled⟩
  · exact .inl hnone
  · have hfits : (bytes ++ [0]).length ≤ needed + 1 := by
      rw [List.length_append, List.length_singleton]
      omega
    obtain ⟨p'', hput, hfilled'⟩ := hfilled.put_zero hfits
    exact .inr ⟨p', p'', hsome, hfilled.format, hfilled.depth, hput, (hfilled'.wrote hzero).shallower⟩

theorem Outcome.updateOffset {f : PrintBuffer → Access (Option PrintBuffer)}
    (h : Outcome gaveUp (Wrote format depth done) m)
    (hf : ∀ p, Ready format depth done p → Outcome gaveUp R (f p)) :
    Outcome gaveUp R (Memory.attempt m fun p => do
      let p ← p.updateOffset
      f p) := by
  refine h.attempt ?_
  intro p hp
  obtain ⟨p', hupdate, hready, -⟩ := hp.updateOffset
  rw [hupdate, ok_bind]
  exact hf p' hready

variable [CNumbers]

mutual

theorem printValue_spec (item : CJson) {depth : ℕ} {done : List UInt8} {p : PrintBuffer}
    (h : Ready format depth done p)
    (hgaveUp : intMax < done.length + (render format depth item).length + 2 → gaveUp)
    (hlong : ∀ valuedouble ∈ numbers item, 25 < (numberText valuedouble).length → gaveUp) :
    Outcome gaveUp (Wrote format depth (done ++ render format depth item))
      (printValue garbage item p) := by
  cases item with
  | null =>
      rw [render] at hgaveUp ⊢
      exact printWord_spec h (by decide) hgaveUp
  | bool b =>
      cases b with
      | false =>
          rw [render] at hgaveUp ⊢
          exact printWord_spec h (by decide) hgaveUp
      | true =>
          rw [render] at hgaveUp ⊢
          exact printWord_spec h (by decide) hgaveUp
  | number valuedouble =>
      rw [render] at hgaveUp ⊢
      exact printNumber_spec h hgaveUp (hlong valuedouble (by rw [numbers]; exact List.mem_singleton_self _))
  | string valuestring =>
      rw [render] at hgaveUp ⊢
      exact printStringPtr_spec h hgaveUp
  | array items =>
      rw [render] at hgaveUp ⊢
      rw [numbers] at hlong
      simp only [List.length_cons, List.length_append, List.length_nil] at hgaveUp
      rw [printValue]
      have hopen := @printBytes_spec garbage _ _ 1 _ [openBracket] _ gaveUp [] h
        (fun hmax => hgaveUp (by omega)) le_rfl
      refine hopen.attempt ?_
      intro p hp
      have hgaveUp' : intMax < (done ++ [openBracket]).length +
          (renderItems format (depth + 1) items).length + 2 → gaveUp := by
        rw [List.length_append, List.length_singleton]
        exact fun hmax => hgaveUp (by omega)
      refine (printItems_spec items hp.deeper hgaveUp' hlong).attempt ?_
      intro p hp
      rw [List.append_assoc, List.singleton_append] at hp
      have hmax : intMax < (done ++ openBracket :: renderItems format (depth + 1) items).length + 2 + 1 →
          gaveUp := by
        simp only [List.length_cons, List.length_append]
        exact fun hmax => hgaveUp (by omega)
      rcases @Ready.close garbage _ _ 2 _ [closeBracket] _ gaveUp hp hmax (by decide) (by decide) with
        ⟨hgaveUp, hnone⟩ | ⟨p', p'', hsome, -, -, hput, hwrote⟩
      · exact .inl ⟨hgaveUp, by rw [hnone]; rfl⟩
      · rw [List.append_assoc, List.cons_append] at hwrote
        refine .inr ⟨_, ?_, hwrote⟩
        rw [List.singleton_append] at hput
        rw [hsome]
        simp only [hput, ok_bind, pure_eq_ok]
  | object fields =>
      rw [render] at hgaveUp ⊢
      rw [numbers] at hlong
      simp only [List.length_append, List.length_singleton] at hgaveUp
      rw [printValue]
      rw [h.format]
      have hopen := @printBytes_spec garbage _ _ ((opening format).length + 1) _ (opening format) _
        gaveUp [] h (fun hmax => hgaveUp (by omega)) (Nat.le_succ _)
      refine hopen.attempt ?_
      intro p hp
      have hgaveUp' : intMax < (done ++ opening format).length +
          (renderFields format (depth + 1) fields).length + 2 → gaveUp := by
        rw [List.length_append]
        exact fun hmax => hgaveUp (by omega)
      refine (printFields_spec fields hp.deeper hgaveUp' hlong).attempt ?_
      intro p hp
      rw [hp.format, hp.depth]
      have hroom : (indent format depth ++ [closeBrace]).length ≤
          if format then depth + 1 + 1 else 2 := by
        cases format <;> simp [indent]
      have hneeded : (if format then depth + 1 + 1 else 2) ≤ (indent format depth).length + 2 := by
        cases format <;> simp [indent]
      have hmax : intMax < (done ++ opening format ++ renderFields format (depth + 1) fields).length +
          (if format then depth + 1 + 1 else 2) + 1 → gaveUp := by
        have hopening : 1 ≤ (opening format).length := by cases format <;> decide
        simp only [List.length_append]
        exact fun hmax => hgaveUp (by omega)
      have hzero : 0 ∉ indent format depth ++ [closeBrace] := by
        rw [List.mem_append, not_or]
        exact ⟨zero_not_mem_indent format, by decide⟩
      rcases @Ready.close garbage _ _ (if format then depth + 1 + 1 else 2) _
        (indent format depth ++ [closeBrace]) _ gaveUp hp hmax hroom hzero with
        ⟨hgaveUp, hnone⟩ | ⟨p', p'', hsome, hformat, hdepth, hput, hwrote⟩
      · exact .inl ⟨hgaveUp, by rw [hnone]; rfl⟩
      · rw [List.append_assoc, List.append_assoc] at hwrote
        refine .inr ⟨_, ?_, hwrote⟩
        rw [List.append_assoc, List.singleton_append] at hput
        rw [hsome]
        simp only [hformat, hdepth, Nat.add_sub_cancel, hput, ok_bind, pure_eq_ok]

theorem printItems_spec (items : List CJson) {depth : ℕ} {done : List UInt8} {p : PrintBuffer}
    (h : Ready format depth done p)
    (hgaveUp : intMax < done.length + (renderItems format depth items).length + 2 → gaveUp)
    (hlong : ∀ valuedouble ∈ itemNumbers items, 25 < (numberText valuedouble).length → gaveUp) :
    Outcome gaveUp (Ready format depth (done ++ renderItems format depth items))
      (printItems garbage items p) := by
  cases items with
  | nil =>
      rw [renderItems, List.append_nil, printItems]
      exact .inr ⟨p, rfl, h⟩
  | cons item items =>
      rw [renderItems] at hgaveUp ⊢
      simp only [List.length_append] at hgaveUp
      rw [itemNumbers] at hlong
      rw [printItems]
      have hitem := printValue_spec item h (fun hmax => hgaveUp (by omega)) fun valuedouble hmem =>
        hlong valuedouble (List.mem_append_left _ hmem)
      refine hitem.updateOffset ?_
      intro p hp
      have hlater {front : List UInt8} (hfront : front = if items.isEmpty then [] else separator format)
          {p : PrintBuffer} (hp : Ready format depth (done ++ render format depth item ++ front) p) :
          Outcome gaveUp (Ready format depth (done ++ (render format depth item ++ (front ++
            renderItems format depth items)))) (printItems garbage items p) := by
        have hitems := printItems_spec items hp (by
          simp only [List.length_append, hfront]
          exact fun hmax => hgaveUp (by omega)) fun valuedouble hmem =>
          hlong valuedouble (List.mem_append_right _ hmem)
        simpa only [List.append_assoc] using hitems
      by_cases hlast : items.isEmpty
      · rw [if_pos hlast] at hlater hgaveUp ⊢
        rw [if_pos hlast]
        exact hlater rfl (by rwa [List.append_nil])
      · rw [if_neg hlast] at hlater hgaveUp ⊢
        rw [if_neg hlast, hp.format]
        have hcomma := @printBytes_spec garbage _ _ ((separator format).length + 1) _
          (separator format) _ gaveUp [0] hp (by
          rw [List.length_append]
          exact fun hmax => hgaveUp (by omega)) le_rfl
        refine hcomma.attempt ?_
        intro p hp
        exact hlater rfl hp

theorem printFields_spec (fields : List (CString × CJson)) {depth : ℕ} {done : List UInt8}
    {p : PrintBuffer} (h : Ready format depth done p)
    (hgaveUp : intMax < done.length + (renderFields format depth fields).length + 2 → gaveUp)
    (hlong : ∀ valuedouble ∈ fieldNumbers fields, 25 < (numberText valuedouble).length → gaveUp) :
    Outcome gaveUp (Ready format depth (done ++ renderFields format depth fields))
      (printFields garbage fields p) := by
  cases fields with
  | nil =>
      rw [renderFields, List.append_nil, printFields]
      exact .inr ⟨p, rfl, h⟩
  | cons field fields =>
      obtain ⟨key, item⟩ := field
      rw [renderFields] at hgaveUp ⊢
      simp only [List.length_append] at hgaveUp
      rw [fieldNumbers] at hlong
      rw [printFields, h.format]
      have hindent : Outcome gaveUp (Ready format depth (done ++ indent format depth))
          (if format then printBytes garbage p.depth (indent true p.depth) [] p
            else pure (some p)) := by
        cases format with
        | false => exact .inr ⟨p, rfl, by rwa [indent, if_neg (by decide), List.append_nil]⟩
        | true =>
            rw [if_pos rfl, h.depth]
            rw [indent, if_pos rfl, List.length_replicate] at hgaveUp
            exact printBytes_spec h (fun hmax => hgaveUp (by omega)) (by simp [indent])
      refine hindent.attempt ?_
      intro p hp
      have hkey := @printStringPtr_spec garbage _ _ _ _ gaveUp key hp (by
        rw [List.length_append]
        exact fun hmax => hgaveUp (by omega))
      refine hkey.updateOffset ?_
      intro p hp
      rw [hp.format]
      have hcolon := @printBytes_spec garbage _ _ (afterKey format).length _ (afterKey format) _
        gaveUp [] hp (by
        simp only [List.length_append]
        exact fun hmax => hgaveUp (by omega)) le_rfl
      refine hcolon.attempt ?_
      intro p hp
      have hitem := printValue_spec item hp (by
        simp only [List.length_append]
        exact fun hmax => hgaveUp (by omega)) fun valuedouble hmem =>
        hlong valuedouble (List.mem_append_left _ hmem)
      refine hitem.updateOffset ?_
      intro p hp
      rw [hp.format]
      have hending := @printBytes_spec garbage _ _ ((afterField format fields.isEmpty).length + 1) _
        (afterField format fields.isEmpty) _ gaveUp [0] hp (by
        simp only [List.length_append]
        exact fun hmax => hgaveUp (by omega)) le_rfl
      refine hending.attempt ?_
      intro p hp
      have hfields := printFields_spec fields hp (by
        simp only [List.length_append]
        exact fun hmax => hgaveUp (by omega)) fun valuedouble hmem =>
        hlong valuedouble (List.mem_append_right _ hmem)
      simpa only [List.append_assoc] using hfields

end

theorem print_spec {reallocates : Bool} (item : CJson)
    (hgaveUp : intMax < (render format 0 item).length + 2 → gaveUp)
    (hlong : ∀ valuedouble ∈ numbers item, 25 < (numberText valuedouble).length → gaveUp) :
    (gaveUp ∧ print garbage reallocates format item = .ok none) ∨
      print garbage reallocates format item = .ok (some (render format 0 item ++ [0])) := by
  have hempty : Ready format 0 [] ⟨realloc garbage [] 256, 0, 0, format, reallocates⟩ := by
    refine ⟨rfl, rfl, rfl, realloc garbage [] 256, rfl, ?_⟩
    rw [← List.length_pos_iff, length_realloc]
    decide
  have hmax : intMax < ([] : List UInt8).length + (render format 0 item).length + 2 → gaveUp := by
    rwa [List.length_nil, zero_add]
  rw [print]
  rcases printValue_spec item hempty hmax hlong with ⟨hgaveUp, hnone⟩ | ⟨p, hprint, hwrote⟩
  · exact .inl ⟨hgaveUp, by rw [hnone, attempt_none]⟩
  · obtain ⟨p', hupdate, hready, back, hback⟩ := hwrote.updateOffset
    rw [List.nil_append] at hback hready
    have hoffset := hready.offset
    have hlength : p'.offset + 1 = (render format 0 item ++ [0]).length := by
      rw [hoffset, List.length_append, List.length_singleton]
    have hsplit : p'.block = (render format 0 item ++ [0]) ++ back := by
      rw [hback, List.append_assoc, List.singleton_append]
    rw [hprint, attempt_some, hupdate, ok_bind]
    cases reallocates with
    | true =>
        have hprinted : realloc garbage p'.block (p'.offset + 1) = render format 0 item ++ [0] := by
          rw [hsplit, hlength, realloc_of_le (by simp), List.take_left]
        rw [if_pos rfl, hprinted]
        exact .inr rfl
    | false =>
        have hmin : min p'.block.length (p'.offset + 1) = (render format 0 item ++ [0]).length := by
          have hblock : p'.block.length = (render format 0 item ++ [0]).length + back.length := by
            rw [hsplit]
            exact List.length_append
          omega
        have hcopy : memcpy (realloc garbage [] (p'.offset + 1)) 0 (render format 0 item ++ [0]) =
            render format 0 item ++ [0] := by
          have htake := @take_memcpy_zero _ (realloc garbage [] (p'.offset + 1)) (render format 0 item ++ [0])
          have hsame := @length_memcpy_zero _ (realloc garbage [] (p'.offset + 1))
            (render format 0 item ++ [0]) (by rw [length_realloc, hlength])
          rwa [List.take_of_length_le (by rw [hsame, length_realloc, hlength])] at htake
        have hset : (render format 0 item ++ [0]).set p'.offset 0 = render format 0 item ++ [0] := by
          rw [hoffset, List.set_append_right _ _ le_rfl, Nat.sub_self, List.set_cons_zero]
        refine .inr ?_
        rw [if_neg Bool.false_ne_true, hmin, hsplit, List.take_left]
        simp only [hcopy, hset, pure_eq_ok]

theorem print_writes (garbage : ℕ → UInt8) (reallocates format : Bool) (item : CJson) :
    print garbage reallocates format item = .ok (some (render format 0 item ++ [0])) ∨
      print garbage reallocates format item = .ok none ∧ (intMax < (render format 0 item).length + 2 ∨
        ∃ valuedouble ∈ numbers item, 25 < (numberText valuedouble).length) := by
  have hspec := @print_spec garbage format (intMax < (render format 0 item).length + 2 ∨
    ∃ valuedouble ∈ numbers item, 25 < (numberText valuedouble).length) _ reallocates item .inl
    fun valuedouble hmem hlong => .inr ⟨valuedouble, hmem, hlong⟩
  rcases hspec with ⟨hgaveUp, hnone⟩ | hsome
  · exact .inr ⟨hnone, hgaveUp⟩
  · exact .inl hsome

end CJson.PrintBuffer

end ServerSdk
