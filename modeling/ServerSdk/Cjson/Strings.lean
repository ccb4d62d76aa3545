import ServerSdk.Cjson.Cursor

namespace ServerSdk

open Memory

namespace CJson

def room : Bool → List UInt8 → ℕ
  | _, [] => 0
  | true, _ :: body => room false body + 1
  | false, byte :: body => if byte = backslash then room true body else room false body + 1

def escapedAfter : Bool → List UInt8 → Bool
  | escaped, [] => escaped
  | true, _ :: body => escapedAfter false body
  | false, byte :: body => escapedAfter (byte = backslash) body

def skippedBytes : List UInt8 → ℕ
  | [] => 0
  | [_] => 0
  | byte :: next :: body =>
      if byte = backslash then skippedBytes body + 1 else skippedBytes (next :: body)

variable {content body rest text : List UInt8} {index : ℕ}

theorem room_append (escaped : Bool) (front back : List UInt8) :
    room escaped (front ++ back) = room escaped front + room (escapedAfter escaped front) back := by
  induction front generalizing escaped with
  | nil => simp [room, escapedAfter]
  | cons byte front ih =>
      cases escaped with
      | true =>
          rw [List.cons_append, room, room, escapedAfter, ih]
          omega
      | false =>
          rw [List.cons_append, room, room, escapedAfter, ih, ih]
          split_ifs with hbackslash
          · simp [hbackslash]
          · simp only [hbackslash, decide_false]
            omega

theorem escapedAfter_append (escaped : Bool) (front back : List UInt8) :
    escapedAfter escaped (front ++ back) = escapedAfter (escapedAfter escaped front) back := by
  induction front generalizing escaped with
  | nil => rfl
  | cons byte front ih => cases escaped <;> exact ih _

theorem countP_le_room (escaped : Bool) (body : List UInt8) :
    body.countP (· ≠ backslash) ≤ room escaped body := by
  induction body generalizing escaped with
  | nil => exact Nat.zero_le _
  | cons byte body ih =>
      rw [List.countP_cons]
      cases escaped with
      | true =>
          rw [room]
          have := ih false
          split_ifs <;> omega
      | false =>
          rw [room]
          by_cases hbackslash : byte = backslash
          · simpa [hbackslash] using ih true
          · have := ih false
            simpa [hbackslash] using this

theorem closing_quote (text : List UInt8) : closing (quote :: text) = some ([], text) := by
  rw [closing.eq_def]
  rfl

theorem closing_escape (escaped : UInt8) (text : List UInt8) :
    closing (backslash :: escaped :: text) = (closing text).map fun closed =>
      (backslash :: escaped :: closed.1, closed.2) := by
  rw [closing.eq_def]
  rfl

theorem closing_cons {byte : UInt8} (hquote : byte ≠ quote) (hbackslash : byte ≠ backslash)
    (text : List UInt8) :
    closing (byte :: text) = (closing text).map fun closed => (byte :: closed.1, closed.2) := by
  rw [closing.eq_def]
  simp only [hquote, hbackslash, if_false]

theorem skippedBytes_cons {byte : UInt8} (hbackslash : byte ≠ backslash) (body : List UInt8) :
    skippedBytes (byte :: body) = skippedBytes body := by
  cases body <;> simp [skippedBytes, hbackslash]

theorem closing_spec (h : closing text = some (body, rest)) : text = body ++ quote :: rest ∧
    escapedAfter false body = false ∧ room false body + skippedBytes body = body.length := by
  induction text using closing.induct generalizing body rest with
  | case1 => cases h
  | case2 text =>
      rw [closing_quote] at h
      cases h
      exact ⟨rfl, rfl, rfl⟩
  | case3 => cases h
  | case4 escaped text hquote ih =>
      rw [closing_escape, Option.map_eq_some_iff] at h
      obtain ⟨⟨body, rest⟩, hclosing, hbody⟩ := h
      cases hbody
      obtain ⟨rfl, hafter, hroom⟩ := ih hclosing
      refine ⟨rfl, ?_, ?_⟩
      · simpa [escapedAfter] using hafter
      · simp only [room, skippedBytes, if_true, List.length_cons]
        omega
  | case5 byte text hquote hbackslash ih =>
      rw [closing_cons hquote hbackslash, Option.map_eq_some_iff] at h
      obtain ⟨⟨body, rest⟩, hclosing, hbody⟩ := h
      cases hbody
      obtain ⟨rfl, hafter, hroom⟩ := ih hclosing
      refine ⟨rfl, ?_, ?_⟩
      · simpa [escapedAfter, hbackslash] using hafter
      · simp only [room, if_neg hbackslash, skippedBytes_cons hbackslash, List.length_cons]
        omega

theorem lt_length_of_drop {byte : UInt8} (h : content.drop index = byte :: rest) :
    index < content.length := by
  have hlength := congrArg List.length h
  rw [List.length_drop, List.length_cons] at hlength
  omega

theorem drop_succ_of_drop {byte : UInt8} (h : content.drop index = byte :: rest) :
    content.drop (index + 1) = rest := drop_add_of_drop [byte] h

theorem scanString_end {fuel skipped : ℕ} (h : content.drop index = [0]) :
    scanString content (fuel + 2) index skipped = .ok none := by
  have hlength : content.length = index + 1 := length_of_drop h (by simp)
  rw [scanString, if_pos (by omega), read_head h, ok_bind, if_neg (by decide), if_neg (by decide),
    scanString, if_neg (by omega)]
  rfl

theorem scanString_closing {fuel skipped : ℕ} (h : content.drop index = text ++ [0])
    (hfuel : text.length + 1 < fuel) :
    scanString content fuel index skipped = .ok ((closing text).map fun closed =>
      (index + closed.1.length, skipped + skippedBytes closed.1)) := by
  induction text using closing.induct generalizing index fuel skipped with
  | case1 =>
      obtain ⟨fuel, rfl⟩ : ∃ n, fuel = n + 2 := ⟨fuel - 2, by simp at hfuel; omega⟩
      exact scanString_end h
  | case2 text =>
      obtain ⟨fuel, rfl⟩ : ∃ n, fuel = n + 1 := ⟨fuel - 1, by omega⟩
      rw [scanString, if_pos (lt_length_of_drop h), read_head h, ok_bind, if_pos rfl, closing_quote]
      rfl
  | case3 hquote =>
      obtain ⟨fuel, rfl⟩ : ∃ n, fuel = n + 2 := ⟨fuel - 2, by simp at hfuel; omega⟩
      have hlength : content.length = index + 2 := length_of_drop h (by simp)
      rw [scanString, if_pos (lt_length_of_drop h), read_head h, ok_bind, if_neg (by decide),
        if_pos rfl, if_neg (by omega), scanString, if_neg (by omega)]
      rfl
  | case4 escaped text hquote ih =>
      obtain ⟨fuel, rfl⟩ : ∃ n, fuel = n + 1 := ⟨fuel - 1, by omega⟩
      have hrest : content.drop (index + 2) = text ++ [0] :=
        drop_add_of_drop [backslash, escaped] h
      have hlength : index + 1 < content.length := lt_length_of_drop (drop_succ_of_drop h)
      rw [scanString, if_pos (lt_length_of_drop h), read_head h, ok_bind, if_neg (by decide),
        if_pos rfl, if_neg (by omega), ih hrest (by simp only [List.length_cons] at hfuel; omega),
        closing_escape, Option.map_map]
      congr 2
      funext closed
      simp only [Function.comp_apply, List.length_cons, skippedBytes, if_true, Prod.mk.injEq]
      omega
  | case5 byte text hquote hbackslash ih =>
      obtain ⟨fuel, rfl⟩ : ∃ n, fuel = n + 1 := ⟨fuel - 1, by omega⟩
      rw [scanString, if_pos (lt_length_of_drop h), read_head h, ok_bind, if_neg hquote,
        if_neg hbackslash, ih (drop_succ_of_drop h) (by simp only [List.length_cons] at hfuel; omega),
        closing_cons hquote hbackslash, Option.map_map]
      congr 2
      funext closed
      simp only [Function.comp_apply, List.length_cons, skippedBytes_cons hbackslash, Prod.mk.injEq,
        and_true]
      omega

theorem parseHex4Within_drop {digits after : List UInt8} {h : ℕ}
    (hdrop : content.drop index = digits ++ after) :
    parseHex4Within content digits.length index h = .ok (hex4Within digits h) := by
  induction digits generalizing index h with
  | nil => rfl
  | cons byte digits ih =>
      rw [List.length_cons, parseHex4Within, read_head hdrop, ok_bind, hex4Within]
      cases hexDigit byte with
      | none => rfl
      | some digit => simp only [ih (drop_succ_of_drop hdrop), List.length_eq_zero_iff]

theorem parseHex4_drop {a b c d : UInt8} {after : List UInt8}
    (h : content.drop index = a :: b :: c :: d :: after) :
    parseHex4 content index = .ok (hex4 [a, b, c, d]) :=
  @parseHex4Within_drop _ _ [a, b, c, d] _ _ h

theorem length_utf8Tail (position codepoint : ℕ) (bytes : List UInt8) :
    (utf8Tail position codepoint bytes).2.length = position + bytes.length := by
  induction position generalizing codepoint bytes with
  | zero => simp [utf8Tail]
  | succ position ih =>
      rw [utf8Tail, ih, List.length_cons]
      omega

theorem length_utf8Bytes {length : ℕ} (h : 1 ≤ length) (codepoint firstByteMark : ℕ) :
    (utf8Bytes length codepoint firstByteMark).length = length := by
  have htail := length_utf8Tail (length - 1) codepoint []
  rw [utf8Bytes]
  split_ifs
  all_goals
    rw [List.length_cons, htail, List.length_nil]
    omega

theorem length_utf8Encode {codepoint : ℕ} {bytes : List UInt8}
    (h : utf8Encode codepoint = some bytes) :
    bytes.length ≤ 4 ∧ (codepoint < 0x10000 → bytes.length ≤ 3) ∧
      (codepoint = 0 → bytes.length = 1) := by
  rw [utf8Encode] at h
  split_ifs at h
  all_goals
    cases h
    rw [length_utf8Bytes (by omega)]
    omega

theorem hexDigit_backslash : hexDigit backslash = none := rfl

theorem hex4Within_backslash {digits : List UInt8} (hmem : backslash ∈ digits) (h : ℕ) :
    hex4Within digits h = 0 := by
  induction digits generalizing h with
  | nil => exact absurd hmem List.not_mem_nil
  | cons byte digits ih =>
      rw [hex4Within]
      rcases List.mem_cons.mp hmem with rfl | hmem
      · rw [hexDigit_backslash]
      · cases hexDigit byte with
        | none => rfl
        | some digit => exact ih hmem _

theorem exists_six {body : List UInt8} (h : 6 ≤ body.length) :
    ∃ x y a b c d rest, body = x :: y :: a :: b :: c :: d :: rest := by
  rcases body with _ | ⟨x, _ | ⟨y, _ | ⟨a, _ | ⟨b, _ | ⟨c, _ | ⟨d, rest⟩⟩⟩⟩⟩⟩
  all_goals first
    | exact ⟨x, y, a, b, c, d, rest, rfl⟩
    | simp at h

theorem utf16Literal_short (h : body.length < 6) : utf16Literal body = none := by
  rw [utf16Literal.eq_def]
  split
  · simp only [List.length_cons] at h
    omega
  · rfl

theorem secondHalf_short {firstCode : ℕ} (h : body.length < 6) : secondHalf firstCode body = none := by
  rw [secondHalf.eq_def]
  split
  · simp only [List.length_cons] at h
    omega
  · rfl

theorem utf16LiteralToUtf8_drop {after : List UInt8} (h : content.drop index = body ++ after) :
    utf16LiteralToUtf8 content index (index + body.length) =
      .ok ((utf16Literal body).map fun read => (literalLength read.1, read.2)) := by
  rw [utf16LiteralToUtf8, Nat.add_sub_cancel_left]
  by_cases hlength : body.length < 6
  · rw [if_pos hlength, utf16Literal_short hlength]
    rfl
  obtain ⟨x, y, a, b, c, d, rest, rfl⟩ := exists_six (not_lt.mp hlength)
  have hdigits : content.drop (index + 2) = a :: b :: c :: d :: (rest ++ after) :=
    drop_add_of_drop [x, y] h
  have hrest : content.drop (index + 6) = rest ++ after :=
    drop_add_of_drop [x, y, a, b, c, d] h
  have hleft : index + (x :: y :: a :: b :: c :: d :: rest).length - (index + 6) = rest.length := by
    simp only [List.length_cons]
    omega
  rw [if_neg hlength, parseHex4_drop hdigits, ok_bind]
  simp only [hleft, utf16Literal]
  split_ifs with hinvalid hpair hshort
  · rfl
  · rw [secondHalf_short hshort]
    rfl
  · obtain ⟨x', y', a', b', c', d', rest, rfl⟩ := exists_six (not_lt.mp hshort)
    have hsecond : content.drop (index + 6 + 1) = y' :: a' :: b' :: c' :: d' :: (rest ++ after) :=
      drop_succ_of_drop hrest
    have hdigits' : content.drop (index + 6 + 2) = a' :: b' :: c' :: d' :: (rest ++ after) :=
      drop_add_of_drop [x', y'] hrest
    rw [read_head hrest, ok_bind, secondHalf]
    by_cases hbackslash : x' = backslash
    swap
    · rw [if_pos hbackslash, if_pos hbackslash]
      rfl
    rw [if_neg (not_not.mpr hbackslash), if_neg (not_not.mpr hbackslash), read_head hsecond, ok_bind]
    by_cases hmark : y' = utf16Mark
    swap
    · rw [if_pos hmark, if_pos hmark]
      rfl
    rw [if_neg (not_not.mpr hmark), if_neg (not_not.mpr hmark), parseHex4_drop hdigits', ok_bind]
    by_cases hrange : hex4 [a', b', c', d'] < 0xDC00 ∨ 0xDFFF < hex4 [a', b', c', d']
    · rw [if_pos hrange, if_pos hrange]
      rfl
    · rw [if_neg hrange, if_neg hrange, Option.map_map]
      rfl
  · rw [Option.map_map]
    rfl

theorem digits_of_hex4_ne_zero {digits : List UInt8} (h : hex4 digits ≠ 0) :
    digits.countP (· ≠ backslash) = digits.length := by
  rw [List.countP_eq_length]
  intro digit hdigit
  have hne : digit ≠ backslash := by
    rintro rfl
    exact h (hex4Within_backslash hdigit 0)
  simpa using hne

theorem secondHalf_eq_some {firstCode : ℕ} {paired : Bool} {bytes : List UInt8}
    (h : secondHalf firstCode rest = some (paired, bytes)) :
    paired = true ∧ 6 ≤ rest.length ∧ bytes.length ≤ 4 := by
  rw [secondHalf.eq_def] at h
  split at h
  · simp only at h
    split_ifs at h with hbackslash hmark hrange
    obtain ⟨bytes', hencode, hread⟩ := Option.map_eq_some_iff.mp h
    cases hread
    refine ⟨rfl, ?_, (length_utf8Encode hencode).1⟩
    simp only [List.length_cons]
    omega
  · cases h

theorem countP_take_literal {byte a b c d : UInt8} {length : ℕ} (hlength : 6 ≤ length) :
    [a, b, c, d].countP (· ≠ backslash) + 1 ≤
      ((byte :: utf16Mark :: a :: b :: c :: d :: rest).take length).countP (· ≠ backslash) := by
  have htake : (byte :: utf16Mark :: a :: b :: c :: d :: rest).take length =
      [byte] ++ (utf16Mark :: [a, b, c, d]) ++ rest.take (length - 6) := by
    obtain ⟨more, rfl⟩ := Nat.exists_eq_add_of_le' hlength
    simp
  have hmark : (utf16Mark :: [a, b, c, d]).countP (· ≠ backslash) =
      [a, b, c, d].countP (· ≠ backslash) + 1 := List.countP_cons_of_pos (by decide)
  rw [htake, List.countP_append, List.countP_append, hmark]
  omega

theorem utf16Literal_room {byte : UInt8} {paired : Bool} {bytes : List UInt8}
    (h : utf16Literal (byte :: utf16Mark :: rest) = some (paired, bytes)) :
    literalLength paired ≤ rest.length + 2 ∧ bytes.length ≤
      ((byte :: utf16Mark :: rest).take (literalLength paired)).countP (· ≠ backslash) := by
  by_cases hlength : (byte :: utf16Mark :: rest).length < 6
  · rw [utf16Literal_short hlength] at h
    cases h
  obtain ⟨x, y, a, b, c, d, rest', heq⟩ := exists_six (not_lt.mp hlength)
  simp only [List.cons.injEq] at heq
  obtain ⟨rfl, rfl, rfl⟩ := heq
  have hcount := @countP_take_literal rest' byte a b c d _ (literalLength_pos paired)
  have hdigits : hex4 [a, b, c, d] ≠ 0 → [a, b, c, d].countP (· ≠ backslash) = 4 :=
    digits_of_hex4_ne_zero
  rw [utf16Literal] at h
  split_ifs at h with hinvalid hpair
  · obtain ⟨rfl, hrest, hbytes⟩ := secondHalf_eq_some h
    have hfour := hdigits (by omega)
    refine ⟨?_, by omega⟩
    simp only [literalLength, if_true, List.length_cons]
    omega
  · obtain ⟨bytes', hencode, hread⟩ := Option.map_eq_some_iff.mp h
    cases hread
    obtain ⟨hfour, hthree, hone⟩ := length_utf8Encode hencode
    refine ⟨by simp [literalLength], ?_⟩
    by_cases hzero : hex4 [a, b, c, d] = 0
    · have := hone hzero
      omega
    · have := hdigits hzero
      omega

theorem decode_nil : decode [] = some [] := by rw [decode]

theorem decode_cons {byte : UInt8} (h : byte ≠ backslash) (body : List UInt8) :
    decode (byte :: body) = (decode body).map (byte :: ·) := by
  rw [decode.eq_def]
  exact if_pos h

theorem decode_alone : decode [backslash] = some [quote] := by
  rw [decode, if_neg (not_not.mpr rfl)]

theorem decode_escape {escaped byte : UInt8} (h : simpleEscape escaped = some byte)
    (body : List UInt8) : decode (backslash :: escaped :: body) = (decode body).map (byte :: ·) := by
  rw [decode, if_neg (not_not.mpr rfl)]
  simp only [h]

theorem decode_literal {paired : Bool} {bytes : List UInt8}
    (h : utf16Literal (backslash :: utf16Mark :: body) = some (paired, bytes)) :
    decode (backslash :: utf16Mark :: body) =
      (decode ((backslash :: utf16Mark :: body).drop (literalLength paired))).map (bytes ++ ·) := by
  have hmark : simpleEscape utf16Mark = none := rfl
  rw [decode, if_neg (not_not.mpr rfl)]
  simp only [hmark, h, if_true]

theorem decode_invalid {escaped : UInt8} (hsimple : simpleEscape escaped = none)
    (h : escaped = utf16Mark → utf16Literal (backslash :: escaped :: body) = none) :
    decode (backslash :: escaped :: body) = none := by
  rw [decode, if_neg (not_not.mpr rfl)]
  simp only [hsimple]
  split_ifs with hmark
  · rw [h hmark]
  · rfl

variable {inputEnd : ℕ} {after : List UInt8}

theorem put_of_le {output : StringOutput} {bytes : List UInt8}
    (h : output.written.length + bytes.length ≤ output.allocated) :
    output.put bytes = .ok { output with written := output.written ++ bytes } := if_pos h

theorem unescape_end {fuel : ℕ} (h : inputEnd ≤ index) (output : StringOutput) :
    unescape content inputEnd (fuel + 1) index output = .ok (some output) := if_neg (not_lt.mpr h)

theorem unescape_decode {fuel : ℕ} {escaped : Bool} {output : StringOutput}
    (hdrop : content.drop index = body ++ quote :: after) (hend : inputEnd = index + body.length)
    (hfuel : body.length < fuel) (hwhole : escapedAfter escaped body = false)
    (hroom : output.written.length + room escaped body ≤ output.allocated) :
    unescape content inputEnd fuel index output = .ok ((decode body).map fun bytes =>
        { output with written := output.written ++ bytes }) ∧
      ∀ bytes ∈ decode body, bytes.length ≤ room escaped body := by
  induction fuel generalizing index body escaped output with
  | zero => exact absurd hfuel (Nat.not_lt_zero _)
  | succ fuel ih =>
      have hstep : ∀ (front rest bytes : List UInt8), body = front ++ rest → front ≠ [] →
          bytes.length ≤ front.countP (· ≠ backslash) ∨ bytes.length ≤ room escaped front →
          (do let output ← output.put bytes
              unescape content inputEnd fuel (index + front.length) output) =
            .ok (((decode rest).map (bytes ++ ·)).map fun bytes =>
              { output with written := output.written ++ bytes }) ∧
          ∀ all ∈ (decode rest).map (bytes ++ ·), all.length ≤ room escaped body := by
        rintro front rest bytes rfl hfront hbytes
        have hcount := countP_le_room escaped front
        have hpos := List.length_pos_iff.mpr hfront
        rw [room_append] at hroom ⊢
        rw [escapedAfter_append] at hwhole
        rw [List.length_append] at hend hfuel
        have hfit : output.written.length + bytes.length ≤ output.allocated := by omega
        obtain ⟨hrest, hlength⟩ := @ih rest _ _ { output with written := output.written ++ bytes }
          (drop_add_of_drop front (by simpa using hdrop)) (by omega) (by omega) hwhole
          (by simp only [List.length_append]; omega)
        constructor
        · rw [put_of_le hfit, ok_bind, hrest, Option.map_map]
          congr 2
          funext bytes
          simp
        · intro all hall
          obtain ⟨more, hmore, rfl⟩ := Option.map_eq_some_iff.mp hall
          have := hlength more hmore
          rw [List.length_append]
          omega
      rcases body with _ | ⟨byte, body⟩
      · rw [unescape_end (by simp [hend]), decode_nil]
        simp
      rw [unescape, if_pos (by simp [hend]), read_head hdrop, ok_bind]
      by_cases hplain : byte = backslash
      swap
      · rw [if_pos hplain, decode_cons hplain]
        exact hstep [byte] body [byte] rfl (List.cons_ne_nil _ _) (.inl (by simp [hplain]))
      subst hplain
      rw [if_neg (not_not.mpr rfl)]
      rcases body with _ | ⟨next, body⟩
      · have hescaped : escaped = true := by
          cases escaped with
          | true => rfl
          | false => cases hwhole
        subst hescaped
        have hnext : content.drop (index + 1) = quote :: after := drop_succ_of_drop hdrop
        obtain ⟨fuel, rfl⟩ : ∃ n, fuel = n + 1 := ⟨fuel - 1, by simp at hfuel; omega⟩
        have hsimple : simpleEscape quote = some quote := rfl
        rw [read_head hnext, ok_bind, hsimple, decode_alone]
        simp only
        rw [put_of_le hroom, ok_bind, unescape_end (by simp [hend])]
        simp [room]
      · have hnext : content.drop (index + 1) = next :: (body ++ quote :: after) :=
          drop_succ_of_drop hdrop
        rw [read_head hnext, ok_bind]
        cases hsimple : simpleEscape next with
        | some byte =>
            have hone : 1 ≤ room escaped [backslash, next] := by
              cases escaped <;> simp [room]
            rw [decode_escape hsimple]
            exact hstep [backslash, next] body [byte] rfl (List.cons_ne_nil _ _) (.inr hone)
        | none =>
            simp only
            by_cases hmark : next = utf16Mark
            swap
            · rw [if_neg hmark, decode_invalid hsimple fun h => absurd h hmark]
              simp
            subst hmark
            rw [if_pos rfl, hend, utf16LiteralToUtf8_drop hdrop, ok_bind]
            cases hliteral : utf16Literal (backslash :: utf16Mark :: body) with
            | none =>
                rw [decode_invalid hsimple fun _ => hliteral]
                simp
            | some read =>
                obtain ⟨paired, bytes⟩ := read
                obtain ⟨hlength, hbytes⟩ := utf16Literal_room hliteral
                have htake : ((backslash :: utf16Mark :: body).take (literalLength paired)).length =
                    literalLength paired := List.length_take_of_le (by simpa using hlength)
                have hfront : (backslash :: utf16Mark :: body).take (literalLength paired) ≠ [] := by
                  have := literalLength_pos paired
                  rw [← List.length_pos_iff, htake]
                  omega
                have hread := hstep _ _ bytes (List.take_append_drop (literalLength paired) _).symm
                  hfront (.inl hbytes)
                rw [htake, hend] at hread
                rw [decode_literal hliteral]
                exact hread

theorem readString_of_closing {rest : List UInt8} (h : closing text = some (body, rest)) :
    readString (quote :: text) = (decode body).map fun bytes => (.ofBlock bytes, rest) := by
  rw [readString, if_neg (not_not.mpr rfl), h]

theorem parseString_cursor {depth : ℕ} (h : Ends content rest) :
    (cursor content depth rest).parseString = .ok ((readString rest).map fun read =>
      (read.1, cursor content depth read.2)) := by
  rw [ParseBuffer.parseString, ParseBuffer.byteAt_cursor h (Nat.zero_le _), ok_bind]
  rcases rest with _ | ⟨byte, text⟩
  · rfl
  rw [List.getD_cons_zero]
  by_cases hquote : byte = quote
  swap
  · rw [if_pos hquote, readString, if_pos hquote]
    rfl
  subst hquote
  have hlength := h.length
  have htext : Ends content text := @Ends.tail _ _ [quote] h
  have hstart : content.length - ((quote :: text).length + 1) + 1 =
      content.length - (text.length + 1) := by
    rw [List.length_cons] at hlength ⊢
    omega
  simp only [ne_eq, not_true_eq_false, if_false, ParseBuffer.content_cursor,
    ParseBuffer.offset_cursor, ParseBuffer.length_cursor]
  rw [hstart, scanString_closing htext.drop (by simp only [List.length_cons] at hlength; omega), ok_bind]
  cases hclosing : closing text with
  | none =>
      rw [readString, if_neg (not_not.mpr rfl), hclosing]
      rfl
  | some closed =>
      obtain ⟨body, rest⟩ := closed
      obtain ⟨rfl, hwhole, hroom⟩ := closing_spec hclosing
      rw [readString_of_closing hclosing]
      simp only [Option.map_some]
      have hallocated : content.length - ((body ++ quote :: rest).length + 1) + body.length -
          (content.length - ((quote :: (body ++ quote :: rest)).length + 1)) - (0 + skippedBytes body) + 1 =
            room false body + 2 := by
        simp only [List.length_append, List.length_cons] at hlength ⊢
        omega
      rw [hallocated]
      obtain ⟨hunescape, hbytes⟩ := @unescape_decode content body _ _ (rest ++ [0])
        (content.length + 1) false ⟨room false body + 2, []⟩ (by rw [htext.drop]; simp) rfl
        (by simp only [List.length_append, List.length_cons] at hlength; omega) hwhole (by simp)
      rw [hunescape, ok_bind]
      cases hdecode : decode body with
      | none => rfl
      | some bytes =>
          have hfit := hbytes bytes hdecode
          simp only [Option.map_some]
          rw [put_of_le (by simp; omega), ok_bind]
          have hoffset : content.length - ((body ++ quote :: rest).length + 1) + body.length + 1 =
              content.length - (rest.length + 1) := by
            simp only [List.length_append, List.length_cons] at hlength ⊢
            omega
          have hstring : CString.ofBlock (bytes ++ [0]) = .ofBlock bytes := by
            simp only [CString.ofBlock, cString_append]
          rw [hoffset, List.nil_append, hstring]
          rfl

end CJson

end ServerSdk
