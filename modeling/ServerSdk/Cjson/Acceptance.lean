import Mathlib.Data.List.DropRight
import ServerSdk.Cjson.Strings

namespace ServerSdk

open Memory

namespace CJson

variable [CNumbers] {n depth : ℕ} {content text rest : List UInt8} {item : CJson}

omit [CNumbers] in
theorem readString_head {s : CString} (h : readString text = some (s, rest)) :
    ∃ body, text = quote :: (body ++ quote :: rest) := by
  rcases text with _ | ⟨byte, text⟩
  · cases h
  rw [readString] at h
  split_ifs at h with hquote
  cases hclosing : closing text with
  | none =>
      rw [hclosing] at h
      cases h
  | some closed =>
      obtain ⟨body, rest'⟩ := closed
      rw [hclosing] at h
      obtain ⟨bytes, _, hread⟩ := Option.map_eq_some_iff.mp h
      cases hread
      obtain ⟨rfl, -, -⟩ := closing_spec hclosing
      exact ⟨body, by rw [not_not.mp hquote]⟩

theorem readNumber_rest {d : Double} (h : readNumber text = some (d, rest)) :
    ∃ front, text = front ++ rest ∧ front ≠ [] := by
  rw [readNumber] at h
  generalize hread : CNumbers.strtod ((text.takeWhile isNumeric).take 63) = read at h
  obtain ⟨valuedouble, consumed⟩ := read
  simp only at h
  split_ifs at h with hzero
  cases h
  have hlt := consumed.isLt
  have htake := List.length_take_le' 63 (text.takeWhile isNumeric)
  have hwhile := (List.takeWhile_prefix (l := text) isNumeric).length_le
  refine ⟨text.take consumed, (List.take_append_drop _ _).symm, ?_⟩
  rw [← List.length_pos_iff, List.length_take_of_le (by omega)]
  omega

inductive Word : List UInt8 → CJson → Prop
  | nullWord : Word nullText .null
  | falseWord : Word falseText (.bool false)
  | trueWord : Word trueText (.bool true)

variable {word word' : List UInt8} {literal literal' : CJson}

omit [CNumbers] in
theorem Word.head (h : Word word literal) : ∃ byte more, word = byte :: more ∧ byte ≠ quote ∧
    startsNumber byte = false ∧ byte ≠ openBracket ∧ byte ≠ openBrace := by
  cases h with
  | nullWord | falseWord | trueWord => exact ⟨_, _, rfl, by decide, by decide, by decide, by decide⟩

omit [CNumbers] in
theorem Word.unique (h : Word word literal) (h' : Word word' literal')
    (htext : word ++ text = word' ++ rest) : literal' = literal ∧ rest = text := by
  cases h with
  | nullWord | falseWord | trueWord =>
      cases h' with
      | nullWord | falseWord | trueWord =>
          first
          | exact ⟨rfl, (List.append_cancel_left htext).symm⟩
          | cases htext

theorem Word.value (h : Word word literal) : Value n (word ++ rest) literal rest := by
  cases h with
  | nullWord => exact .nullWord
  | falseWord => exact .falseWord
  | trueWord => exact .trueWord

theorem value_word_iff (h : Word word literal) :
    Value n (word ++ text) item rest ↔ item = literal ∧ rest = text := by
  constructor
  · intro hvalue
    generalize htext : word ++ text = whole at hvalue
    have hhead := h.head
    cases hvalue with
    | nullWord => exact h.unique .nullWord htext
    | falseWord => exact h.unique .falseWord htext
    | trueWord => exact h.unique .trueWord htext
    | string hread =>
        obtain ⟨body, rfl⟩ := readString_head hread
        obtain ⟨byte, more, rfl, hquote, -⟩ := hhead
        exact absurd (List.cons.inj htext).1 hquote
    | number hstarts =>
        obtain ⟨byte, more, rfl, -, hnumber, -⟩ := hhead
        cases htext
        cases hnumber.symm.trans hstarts
    | emptyArray | array =>
        obtain ⟨byte, more, rfl, -, -, hbracket, -⟩ := hhead
        cases htext
        exact absurd rfl hbracket
    | emptyObject | object =>
        obtain ⟨byte, more, rfl, -, -, -, hbrace⟩ := hhead
        cases htext
        exact absurd rfl hbrace
  · rintro ⟨rfl, rfl⟩
    exact h.value

theorem value_string_iff : Value n (quote :: text) item rest ↔
    ∃ s, readString (quote :: text) = some (s, rest) ∧ item = .string s := by
  constructor
  · intro h
    generalize htext : quote :: text = whole at h
    cases h with
    | string hread => exact ⟨_, hread, rfl⟩
    | number hstarts =>
        cases htext
        cases hstarts
    | _ => cases htext
  · rintro ⟨s, hread, rfl⟩
    exact .string hread

theorem value_number_iff {byte : UInt8} (hstarts : startsNumber byte = true) :
    Value n (byte :: text) item rest ↔
      ∃ d, readNumber (byte :: text) = some (d, rest) ∧ item = .number d := by
  constructor
  · intro h
    generalize htext : byte :: text = whole at h
    cases h with
    | string hread =>
        obtain ⟨body, rfl⟩ := readString_head hread
        cases htext
        cases hstarts
    | number _ hread => exact ⟨_, hread, rfl⟩
    | _ =>
        cases htext
        cases hstarts
  · rintro ⟨d, hread, rfl⟩
    exact .number hstarts hread

theorem value_enclosed_iff {byte : UInt8} (hbyte : byte = openBracket ∨ byte = openBrace) :
    Value n (byte :: text) item rest ↔ ∃ m, n = m + 1 ∧
      ((byte = openBracket ∧ ((afterBlanks text = closeBracket :: rest ∧ item = .array []) ∨
          ∃ items, Items m text items (closeBracket :: rest) ∧ item = .array items)) ∨
        byte = openBrace ∧ ((afterBlanks text = closeBrace :: rest ∧ item = .object []) ∨
          ∃ fields, Fields m text fields (closeBrace :: rest) ∧ item = .object fields)) := by
  constructor
  · intro h
    generalize htext : byte :: text = whole at h
    cases h with
    | string hread =>
        obtain ⟨body, rfl⟩ := readString_head hread
        cases htext
        exact absurd hbyte (by decide)
    | number hstarts =>
        cases htext
        rcases hbyte with rfl | rfl <;> cases hstarts
    | emptyArray hempty =>
        cases htext
        exact ⟨_, rfl, .inl ⟨rfl, .inl ⟨hempty, rfl⟩⟩⟩
    | array hitems =>
        cases htext
        exact ⟨_, rfl, .inl ⟨rfl, .inr ⟨_, hitems, rfl⟩⟩⟩
    | emptyObject hempty =>
        cases htext
        exact ⟨_, rfl, .inr ⟨rfl, .inl ⟨hempty, rfl⟩⟩⟩
    | object hfields =>
        cases htext
        exact ⟨_, rfl, .inr ⟨rfl, .inr ⟨_, hfields, rfl⟩⟩⟩
    | nullWord | falseWord | trueWord =>
        cases htext
        exact absurd hbyte (by decide)
  · rintro ⟨m, rfl, ⟨rfl, ⟨hempty, rfl⟩ | ⟨items, hitems, rfl⟩⟩ |
      ⟨rfl, ⟨hempty, rfl⟩ | ⟨fields, hfields, rfl⟩⟩⟩
    · exact .emptyArray hempty
    · exact .array hitems
    · exact .emptyObject hempty
    · exact .object hfields

theorem value_array_iff : Value n (openBracket :: text) item rest ↔ ∃ m, n = m + 1 ∧
    ((afterBlanks text = closeBracket :: rest ∧ item = .array []) ∨
      ∃ items, Items m text items (closeBracket :: rest) ∧ item = .array items) := by
  rw [value_enclosed_iff (.inl rfl)]
  simp only [true_and, (by decide : openBracket ≠ openBrace), false_and, or_false]

theorem value_object_iff : Value n (openBrace :: text) item rest ↔ ∃ m, n = m + 1 ∧
    ((afterBlanks text = closeBrace :: rest ∧ item = .object []) ∨
      ∃ fields, Fields m text fields (closeBrace :: rest) ∧ item = .object fields) := by
  rw [value_enclosed_iff (.inr rfl)]
  simp only [true_and, (by decide : openBrace ≠ openBracket), false_and, false_or]

theorem Value.starts (h : Value n text item rest) : nullText.isPrefixOf text = true ∨
    falseText.isPrefixOf text = true ∨ trueText.isPrefixOf text = true ∨
      ∃ byte t, text = byte :: t ∧ (byte = quote ∨ startsNumber byte = true ∨ byte = openBracket ∨
        byte = openBrace) := by
  cases h with
  | nullWord => exact .inl (List.isPrefixOf_iff_prefix.mpr (List.prefix_append _ _))
  | falseWord => exact .inr (.inl (List.isPrefixOf_iff_prefix.mpr (List.prefix_append _ _)))
  | trueWord => exact .inr (.inr (.inl (List.isPrefixOf_iff_prefix.mpr (List.prefix_append _ _))))
  | string hread =>
      obtain ⟨body, rfl⟩ := readString_head hread
      exact .inr (.inr (.inr ⟨_, _, rfl, .inl rfl⟩))
  | number hstarts => exact .inr (.inr (.inr ⟨_, _, rfl, .inr (.inl hstarts)⟩))
  | emptyArray | array => exact .inr (.inr (.inr ⟨_, _, rfl, .inr (.inr (.inl rfl))⟩))
  | emptyObject | object => exact .inr (.inr (.inr ⟨_, _, rfl, .inr (.inr (.inr rfl))⟩))

theorem items_iff {items : List CJson} : Items n text items rest ↔ ∃ item text',
    Value n (afterBlanks text) item text' ∧
      (((afterBlanks text').head? ≠ some comma ∧ items = [item] ∧ rest = afterBlanks text') ∨
        ∃ text'' items', afterBlanks text' = comma :: text'' ∧ Items n text'' items' rest ∧
          items = item :: items') := by
  constructor
  · intro h
    cases h with
    | last hvalue hlast => exact ⟨_, _, hvalue, .inl ⟨hlast, rfl, rfl⟩⟩
    | more hvalue hcomma hitems => exact ⟨_, _, hvalue, .inr ⟨_, _, hcomma, hitems, rfl⟩⟩
  · rintro ⟨item, text', hvalue, ⟨hlast, rfl, rfl⟩ | ⟨text'', items', hcomma, hitems, rfl⟩⟩
    · exact .last hvalue hlast
    · exact .more hvalue hcomma hitems

theorem fields_iff {fields : List (CString × CJson)} : Fields n text fields rest ↔
    ∃ key text₁ text₂ item text₃, readString (afterBlanks text) = some (key, text₁) ∧
      afterBlanks text₁ = keyColon :: text₂ ∧ Value n (afterBlanks text₂) item text₃ ∧
      (((afterBlanks text₃).head? ≠ some comma ∧ fields = [(key, item)] ∧ rest = afterBlanks text₃) ∨
        ∃ text₄ fields', afterBlanks text₃ = comma :: text₄ ∧ Fields n text₄ fields' rest ∧
          fields = (key, item) :: fields') := by
  constructor
  · intro h
    cases h with
    | last hkey hcolon hvalue hlast =>
        exact ⟨_, _, _, _, _, hkey, hcolon, hvalue, .inl ⟨hlast, rfl, rfl⟩⟩
    | more hkey hcolon hvalue hcomma hfields =>
        exact ⟨_, _, _, _, _, hkey, hcolon, hvalue, .inr ⟨_, _, hcomma, hfields, rfl⟩⟩
  · rintro ⟨key, text₁, text₂, item, text₃, hkey, hcolon, hvalue, hrest⟩
    rcases hrest with ⟨hlast, rfl, rfl⟩ | ⟨text₄, fields', hcomma, hfields, rfl⟩
    · exact .last hkey hcolon hvalue hlast
    · exact .more hkey hcolon hvalue hcomma hfields

omit [CNumbers] in
theorem afterBlanks_suffix (text : List UInt8) : afterBlanks text <:+ text := List.dropWhile_suffix _

omit [CNumbers] in
theorem suffix_of_cons {byte : UInt8} (h : byte :: rest <:+ text) : rest <:+ text :=
  (List.suffix_cons _ _).trans h

omit [CNumbers] in
theorem readString_suffix {s : CString} (h : readString text = some (s, rest)) :
    rest <:+ text ∧ rest.length < text.length := by
  obtain ⟨body, rfl⟩ := readString_head h
  refine ⟨(List.suffix_cons _ _).trans ((List.suffix_append _ _).trans (List.suffix_cons _ _)), ?_⟩
  simp only [List.length_cons, List.length_append]
  omega

theorem readNumber_suffix {d : Double} (h : readNumber text = some (d, rest)) :
    rest <:+ text ∧ rest.length < text.length := by
  obtain ⟨front, rfl, hfront⟩ := readNumber_rest h
  have hpos := List.length_pos_iff.mpr hfront
  refine ⟨List.suffix_append _ _, ?_⟩
  rw [List.length_append]
  omega

mutual

theorem Value.suffix {n : ℕ} {text rest : List UInt8} {item : CJson} (h : Value n text item rest) :
    rest <:+ text ∧ rest.length < text.length := by
  cases h with
  | nullWord | falseWord | trueWord =>
      refine ⟨List.suffix_append _ _, ?_⟩
      simp only [nullText, falseText, trueText, List.length_append, List.length_cons]
      omega
  | string hread => exact readString_suffix hread
  | number _ hread => exact readNumber_suffix hread
  | @emptyArray _ text _ hempty | @emptyObject _ text _ hempty =>
      have hrest := suffix_of_cons (hempty ▸ afterBlanks_suffix text)
      exact ⟨hrest.trans (List.suffix_cons _ _), Nat.lt_succ_of_le hrest.length_le⟩
  | array hinner | object hinner =>
      have hrest := suffix_of_cons hinner.suffix
      exact ⟨hrest.trans (List.suffix_cons _ _), Nat.lt_succ_of_le hrest.length_le⟩

theorem Items.suffix {n : ℕ} {text rest : List UInt8} {items : List CJson}
    (h : Items n text items rest) : rest <:+ text := by
  cases h with
  | @last _ _ rest _ hvalue _ =>
      exact (afterBlanks_suffix rest).trans (hvalue.suffix.1.trans (afterBlanks_suffix text))
  | @more _ _ text' text'' _ _ _ hvalue hcomma hitems =>
      have hnext : text'' <:+ text' := suffix_of_cons (hcomma ▸ afterBlanks_suffix text')
      exact hitems.suffix.trans (hnext.trans (hvalue.suffix.1.trans (afterBlanks_suffix text)))

theorem Fields.suffix {n : ℕ} {text rest : List UInt8} {fields : List (CString × CJson)}
    (h : Fields n text fields rest) : rest <:+ text := by
  cases h with
  | @last _ _ text₁ text₂ rest _ _ hkey hcolon hvalue _ =>
      have hcolon' : text₂ <:+ text₁ := suffix_of_cons (hcolon ▸ afterBlanks_suffix text₁)
      have hfield := hcolon'.trans ((readString_suffix hkey).1.trans (afterBlanks_suffix text))
      exact (afterBlanks_suffix rest).trans
        (hvalue.suffix.1.trans ((afterBlanks_suffix text₂).trans hfield))
  | @more _ _ text₁ text₂ text₃ text₄ _ _ _ _ hkey hcolon hvalue hcomma hfields =>
      have hcolon' : text₂ <:+ text₁ := suffix_of_cons (hcolon ▸ afterBlanks_suffix text₁)
      have hfield := hcolon'.trans ((readString_suffix hkey).1.trans (afterBlanks_suffix text))
      have hnext : text₄ <:+ text₃ := suffix_of_cons (hcomma ▸ afterBlanks_suffix text₃)
      exact hfields.suffix.trans
        (hnext.trans (hvalue.suffix.1.trans ((afterBlanks_suffix text₂).trans hfield)))

end

omit [CNumbers] in
theorem Ends.of_suffix (h : Ends content text) (hrest : rest <:+ text) : Ends content rest := by
  obtain ⟨front, rfl⟩ := hrest
  exact h.tail

def atCursor (content : List UInt8) (depth : ℕ) {α : Type} (read : α × List UInt8) : α × ParseBuffer :=
  (read.1, cursor content depth read.2)

structure Reads (fuel : ℕ) : Prop where
  value {content text : List UInt8} {depth : ℕ} : Ends content text → 3 * text.length < fuel →
    ∃ read, parseValue fuel (cursor content depth text) = .ok (Option.map (atCursor content depth) read) ∧
      ∀ item rest, read = some (item, rest) ↔ Value (nestingLimit - depth) text item rest
  array {content text : List UInt8} {depth : ℕ} : Ends content (openBracket :: text) →
    3 * text.length + 3 ≤ fuel → ∃ read,
      parseArray fuel (cursor content depth (openBracket :: text)) =
        .ok (Option.map (atCursor content depth) read) ∧
      ∀ item rest, read = some (item, rest) ↔
        Value (nestingLimit - depth) (openBracket :: text) item rest
  object {content text : List UInt8} {depth : ℕ} : Ends content (openBrace :: text) →
    3 * text.length + 3 ≤ fuel → ∃ read,
      parseObject fuel (cursor content depth (openBrace :: text)) =
        .ok (Option.map (atCursor content depth) read) ∧
      ∀ item rest, read = some (item, rest) ↔
        Value (nestingLimit - depth) (openBrace :: text) item rest
  items {content text : List UInt8} {depth : ℕ} {buffer : ParseBuffer} :
    buffer.advance 1 = cursor content depth text → Ends content text →
    3 * text.length + 1 < fuel → ∃ read,
      parseItems fuel buffer = .ok (Option.map (atCursor content depth) read) ∧
      ∀ items rest, read = some (items, rest) ↔ Items (nestingLimit - depth) text items rest
  fields {content text : List UInt8} {depth : ℕ} {buffer : ParseBuffer} :
    buffer.advance 1 = cursor content depth text → Ends content text →
    3 * text.length + 1 < fuel → ∃ read,
      parseFields fuel buffer = .ok (Option.map (atCursor content depth) read) ∧
      ∀ fields rest, read = some (fields, rest) ↔ Fields (nestingLimit - depth) text fields rest

theorem Word.reads (h : Word word literal) {m : ℕ} {buffer : ParseBuffer}
    (hbuffer : buffer = cursor content depth text) : ∃ read,
      (.ok (some (literal, buffer)) : Access (Option (CJson × ParseBuffer))) =
        .ok (Option.map (atCursor content depth) read) ∧
      ∀ item rest, read = some (item, rest) ↔ Value m (word ++ text) item rest := by
  refine ⟨some (literal, text), ?_, fun item rest => ?_⟩
  · rw [hbuffer]
    rfl
  · rw [value_word_iff h, Option.some_inj, Prod.mk.injEq]
    exact and_congr eq_comm eq_comm

theorem Reads.value_succ {fuel : ℕ} (h : Reads fuel) {content text : List UInt8} {depth : ℕ}
    (hends : Ends content text) (hfuel : 3 * text.length < fuel + 1) :
    ∃ read, parseValue (fuel + 1) (cursor content depth text) =
        .ok (Option.map (atCursor content depth) read) ∧
      ∀ item rest, read = some (item, rest) ↔ Value (nestingLimit - depth) text item rest := by
  rw [parseValue, ParseBuffer.startsWith_cursor (by decide) hends, ok_bind]
  by_cases hnull : nullText.isPrefixOf text = true
  · obtain ⟨text, rfl⟩ := List.isPrefixOf_iff_prefix.mp hnull
    rw [if_pos hnull]
    exact Word.reads .nullWord (ParseBuffer.advance_cursor hends)
  rw [if_neg hnull, ParseBuffer.startsWith_cursor (by decide) hends, ok_bind]
  by_cases hfalse : falseText.isPrefixOf text = true
  · obtain ⟨text, rfl⟩ := List.isPrefixOf_iff_prefix.mp hfalse
    rw [if_pos hfalse]
    exact Word.reads .falseWord (ParseBuffer.advance_cursor hends)
  rw [if_neg hfalse, ParseBuffer.startsWith_cursor (by decide) hends, ok_bind]
  by_cases htrue : trueText.isPrefixOf text = true
  · obtain ⟨text, rfl⟩ := List.isPrefixOf_iff_prefix.mp htrue
    rw [if_pos htrue]
    exact Word.reads .trueWord (ParseBuffer.advance_cursor hends)
  rw [if_neg htrue, ParseBuffer.isAt_cursor (by decide) hends, ok_bind]
  rcases text with _ | ⟨byte, text⟩
  · refine ⟨none, ?_, fun item rest => iff_of_false (by simp) fun hvalue => ?_⟩
    · rw [if_neg (by simp), ParseBuffer.byteAt_cursor hends (Nat.zero_le _), ok_bind,
        if_neg (by simp [startsNumber, isDigit]), ParseBuffer.isAt_cursor (by decide) hends, ok_bind,
        if_neg (by simp), ParseBuffer.isAt_cursor (by decide) hends, ok_bind, if_neg (by simp)]
      rfl
    · have := hvalue.suffix.2
      exact absurd this (Nat.not_lt_zero _)
  simp only [List.head?_cons, Option.some_inj, decide_eq_true_eq]
  by_cases hquote : byte = quote
  · subst hquote
    refine ⟨(readString (quote :: text)).map fun read => (.string read.1, read.2), ?_, ?_⟩
    · rw [if_pos rfl, parseString_cursor hends, ok_bind]
      cases readString (quote :: text) <;> rfl
    · intro item rest
      rw [value_string_iff, Option.map_eq_some_iff]
      constructor
      · rintro ⟨⟨s, rest⟩, hread, heq⟩
        cases heq
        exact ⟨s, hread, rfl⟩
      · rintro ⟨s, hread, rfl⟩
        exact ⟨_, hread, rfl⟩
  rw [if_neg hquote, ParseBuffer.byteAt_head hends, ok_bind,
    ParseBuffer.canAccessAtIndex_cursor hends, decide_eq_true (Nat.zero_le _), Bool.true_and]
  by_cases hnumber : startsNumber byte = true
  · refine ⟨(readNumber (byte :: text)).map fun read => (.number read.1, read.2), ?_, ?_⟩
    · rw [if_pos hnumber, ParseBuffer.parseNumber_cursor hends, Option.map_map]
      rfl
    · intro item rest
      rw [value_number_iff hnumber, Option.map_eq_some_iff]
      constructor
      · rintro ⟨⟨d, rest⟩, hread, heq⟩
        cases heq
        exact ⟨d, hread, rfl⟩
      · rintro ⟨d, hread, rfl⟩
        exact ⟨_, hread, rfl⟩
  rw [if_neg hnumber, ParseBuffer.isAt_cursor (by decide) hends, ok_bind]
  simp only [List.head?_cons, Option.some_inj, decide_eq_true_eq]
  rw [List.length_cons] at hfuel
  by_cases harray : byte = openBracket
  · subst harray
    rw [if_pos rfl]
    exact h.array hends (by omega)
  rw [if_neg harray, ParseBuffer.isAt_cursor (by decide) hends, ok_bind]
  simp only [List.head?_cons, Option.some_inj, decide_eq_true_eq]
  by_cases hobject : byte = openBrace
  · subst hobject
    rw [if_pos rfl]
    exact h.object hends (by omega)
  refine ⟨none, by rw [if_neg hobject]; rfl, fun item rest =>
    iff_of_false (by simp) fun hvalue => ?_⟩
  rcases hvalue.starts with hword | hword | hword | ⟨other, t, htext, hother⟩
  · exact absurd hword hnull
  · exact absurd hword hfalse
  · exact absurd hword htrue
  · cases htext
    rcases hother with hother | hother | hother | hother
    · exact absurd hother hquote
    · exact absurd hother hnumber
    · exact absurd hother harray
    · exact absurd hother hobject

omit [CNumbers] in
theorem afterBlanks_afterBlanks (text : List UInt8) :
    afterBlanks (afterBlanks text) = afterBlanks text := List.dropWhile_idempotent _ _

theorem items_afterBlanks {items : List CJson} :
    Items n (afterBlanks text) items rest ↔ Items n text items rest := by
  rw [items_iff, items_iff, afterBlanks_afterBlanks]

theorem fields_afterBlanks {fields : List (CString × CJson)} :
    Fields n (afterBlanks text) fields rest ↔ Fields n text fields rest := by
  rw [fields_iff, fields_iff, afterBlanks_afterBlanks]

omit [CNumbers] in
theorem closed_cursor {byte : UInt8} (h : Ends content (byte :: rest)) :
    (cursor content (depth + 1) (byte :: rest)).closed = cursor content depth rest := by
  have hadvance := @ParseBuffer.advance_cursor content rest (depth + 1) [byte] h
  rw [ParseBuffer.closed]
  exact congrArg (fun buffer : ParseBuffer => { buffer with depth := depth }) hadvance

omit [CNumbers] in
theorem advance_one {byte : UInt8} (h : Ends content (byte :: rest)) :
    (cursor content depth (byte :: rest)).advance 1 = cursor content depth rest :=
  @ParseBuffer.advance_cursor content rest depth [byte] h

omit [CNumbers] in
theorem head?_eq_cons {byte : UInt8} (h : text.head? = some byte) : ∃ rest, text = byte :: rest :=
  ⟨_, List.eq_cons_of_mem_head? h⟩

def startsValue (byte : UInt8) : Bool :=
  byte = 110 ∨ byte = 102 ∨ byte = 116 ∨ byte = quote ∨ startsNumber byte ∨ byte = openBracket ∨
    byte = openBrace

theorem Value.head (h : Value n text item rest) :
    ∃ byte t, text = byte :: t ∧ startsValue byte = true := by
  rcases h.starts with hword | hword | hword | ⟨byte, t, htext, hbyte⟩
  · obtain ⟨t, rfl⟩ := List.isPrefixOf_iff_prefix.mp hword
    exact ⟨_, _, rfl, rfl⟩
  · obtain ⟨t, rfl⟩ := List.isPrefixOf_iff_prefix.mp hword
    exact ⟨_, _, rfl, rfl⟩
  · obtain ⟨t, rfl⟩ := List.isPrefixOf_iff_prefix.mp hword
    exact ⟨_, _, rfl, rfl⟩
  · exact ⟨byte, t, htext, by simp only [startsValue, decide_eq_true_eq]; tauto⟩

theorem not_items_of_head {items : List CJson} {byte : UInt8} {after : List UInt8}
    (htext : afterBlanks text = byte :: rest) (hbyte : startsValue byte = false) :
    ¬ Items n text items after := by
  intro h
  obtain ⟨item, text', hvalue, -⟩ := items_iff.mp h
  obtain ⟨byte', t, hhead, hstarts⟩ := hvalue.head
  cases htext.symm.trans hhead
  exact absurd hstarts (by simp [hbyte])

theorem not_fields_of_head {fields : List (CString × CJson)} {byte : UInt8} {after : List UInt8}
    (htext : afterBlanks text = byte :: rest) (hbyte : byte ≠ quote) :
    ¬ Fields n text fields after := by
  intro h
  obtain ⟨key, text₁, _, _, _, hkey, -⟩ := fields_iff.mp h
  obtain ⟨body, hhead⟩ := readString_head hkey
  cases htext.symm.trans hhead
  exact hbyte rfl

section Entries

variable {α : Type} {close : UInt8} {wrap : List α → CJson} {Entries : List α → List UInt8 → Prop}
  {parseEntries : ParseBuffer → Access (Option (List α × ParseBuffer))}

omit [CNumbers] in
theorem parseEnclosed_cursor {opening : UInt8} {read : Option (List α × List UInt8)}
    (hends : Ends content (opening :: text)) (hclose : close ≠ 0)
    (hread : parseEntries (cursor content (depth + 1) (afterBlanks text)).stepBack =
      .ok (Option.map (atCursor content (depth + 1)) read))
    (hiff : ∀ entries rest, read = some (entries, rest) ↔ Entries entries rest)
    (hsuffix : ∀ entries rest, Entries entries rest → rest <:+ text)
    (hdisjoint : ∀ entries rest after, afterBlanks text = close :: rest → ¬ Entries entries after) :
    ∃ result, parseEnclosed close wrap parseEntries (cursor content (depth + 1) (opening :: text)) =
        .ok (Option.map (atCursor content depth) result) ∧
      ∀ item rest, result = some (item, rest) ↔
        (afterBlanks text = close :: rest ∧ item = wrap []) ∨
          ∃ entries, Entries entries (close :: rest) ∧ item = wrap entries := by
  have htext : Ends content text := hends.of_suffix (List.suffix_cons _ _)
  rw [parseEnclosed, advance_one hends, ParseBuffer.skipWhitespace_cursor htext, ok_bind,
    ParseBuffer.isAt_cursor hclose htext.afterBlanks, ok_bind,
    ParseBuffer.canAccessAtIndex_cursor htext.afterBlanks]
  by_cases hempty : (afterBlanks text).head? = some close
  · obtain ⟨rest', hrest⟩ := head?_eq_cons hempty
    have hclosed : Ends content (close :: rest') := hrest ▸ htext.afterBlanks
    refine ⟨some (wrap [], rest'), ?_, fun item rest => ?_⟩
    · rw [if_pos (by simpa using hempty), hrest, closed_cursor hclosed]
      rfl
    · constructor
      · intro heq
        cases heq
        exact .inl ⟨hrest, rfl⟩
      · rintro (⟨hbracket, rfl⟩ | ⟨entries, hentries, rfl⟩)
        · cases hrest.symm.trans hbracket
          rfl
        · exact absurd hentries (hdisjoint _ _ _ hrest)
  · have hnone : ∀ rest, afterBlanks text ≠ close :: rest := by
      intro rest hrest
      exact hempty (by rw [hrest]; rfl)
    rw [if_neg (by simpa using hempty), if_neg (by simp), hread, ok_bind]
    cases read with
    | none =>
        refine ⟨none, rfl, fun item rest => iff_of_false (by simp) ?_⟩
        rintro (⟨hbracket, -⟩ | ⟨entries, hentries, -⟩)
        · exact hnone _ hbracket
        · exact absurd ((hiff _ _).mpr hentries) (by simp)
    | some read =>
        obtain ⟨entries, rest'⟩ := read
        have hentries := (hiff entries rest').mp rfl
        have hrest : Ends content rest' := htext.of_suffix (hsuffix _ _ hentries)
        simp only [Option.map_some, atCursor]
        rw [ParseBuffer.isAt_cursor hclose hrest, ok_bind]
        by_cases hbracket : rest'.head? = some close
        · obtain ⟨after, rfl⟩ := head?_eq_cons hbracket
          refine ⟨some (wrap entries, after), ?_, fun item rest => ?_⟩
          · rw [if_pos (by simp), closed_cursor hrest]
            rfl
          · constructor
            · intro heq
              cases heq
              exact .inr ⟨_, hentries, rfl⟩
            · rintro (⟨hbracket', -⟩ | ⟨entries', hentries', rfl⟩)
              · exact absurd hbracket' (hnone _)
              · cases (hiff _ _).mpr hentries'
                rfl
        · refine ⟨none, by rw [if_neg (by simpa using hbracket)]; rfl, fun item rest =>
            iff_of_false (by simp) ?_⟩
          rintro (⟨hbracket', -⟩ | ⟨entries', hentries', -⟩)
          · exact hnone _ hbracket'
          · cases (hiff _ _).mpr hentries'
            exact hbracket rfl

variable (depth Entries parseEntries) in
omit [CNumbers] in
theorem parseMore_cursor (entry : α) (hends : Ends content text)
    (hread : ∀ text', afterBlanks text = comma :: text' → ∃ read,
      parseEntries (cursor content depth (comma :: text')) =
        .ok (Option.map (atCursor content depth) read) ∧
      ∀ entries rest, read = some (entries, rest) ↔ Entries entries rest) :
    ∃ result, parseMore entry parseEntries (cursor content depth text) =
        .ok (Option.map (atCursor content depth) result) ∧
      ∀ entries rest, result = some (entries, rest) ↔
        ((afterBlanks text).head? ≠ some comma ∧ entries = [entry] ∧ rest = afterBlanks text) ∨
          ∃ text' entries', afterBlanks text = comma :: text' ∧ Entries entries' rest ∧
            entries = entry :: entries' := by
  rw [parseMore, ParseBuffer.skipWhitespace_cursor hends, ok_bind,
    ParseBuffer.isAt_cursor (by decide) hends.afterBlanks, ok_bind]
  by_cases hcomma : (afterBlanks text).head? = some comma
  · obtain ⟨text', htext⟩ := head?_eq_cons hcomma
    obtain ⟨read, hparse, hiff⟩ := hread text' htext
    refine ⟨read.map fun read => (entry :: read.1, read.2), ?_, fun entries rest => ?_⟩
    · rw [if_pos (by simpa using hcomma), htext, hparse, ok_bind]
      cases read <;> rfl
    · rw [Option.map_eq_some_iff]
      constructor
      · rintro ⟨⟨entries', rest⟩, hsome, heq⟩
        cases heq
        exact .inr ⟨text', entries', htext, (hiff _ _).mp hsome, rfl⟩
      · rintro (⟨hlast, -⟩ | ⟨text'', entries', -, hentries, rfl⟩)
        · exact absurd hcomma hlast
        · exact ⟨_, (hiff _ _).mpr hentries, rfl⟩
  · refine ⟨some ([entry], afterBlanks text), ?_, fun entries rest => ?_⟩
    · rw [if_neg (by simpa using hcomma)]
      rfl
    · constructor
      · intro heq
        cases heq
        exact .inl ⟨hcomma, rfl, rfl⟩
      · rintro (⟨-, rfl, rfl⟩ | ⟨text', entries', htext, -⟩)
        · rfl
        · exact absurd (by rw [htext]; rfl) hcomma

end Entries

theorem Reads.array_succ {fuel : ℕ} (h : Reads fuel) {content text : List UInt8} {depth : ℕ}
    (hends : Ends content (openBracket :: text)) (hfuel : 3 * text.length + 3 ≤ fuel + 1) :
    ∃ read, parseArray (fuel + 1) (cursor content depth (openBracket :: text)) =
        .ok (Option.map (atCursor content depth) read) ∧
      ∀ item rest, read = some (item, rest) ↔
        Value (nestingLimit - depth) (openBracket :: text) item rest := by
  rw [parseArray, ParseBuffer.depth_cursor]
  simp only [value_array_iff]
  by_cases hdepth : depth ≥ nestingLimit
  · refine ⟨none, by rw [if_pos hdepth]; rfl, fun item rest => iff_of_false (by simp) ?_⟩
    rintro ⟨m, hm, -⟩
    omega
  have hnesting : nestingLimit - depth = nestingLimit - (depth + 1) + 1 := by omega
  have htext : Ends content text := hends.of_suffix (List.suffix_cons _ _)
  have hlength := hends.length
  have hblanks := (afterBlanks_suffix text).length_le
  rw [List.length_cons] at hlength
  obtain ⟨read, hread, hiff⟩ := h.items
    (@ParseBuffer.advance_stepBack content (afterBlanks text) (depth + 1) (by omega)) htext.afterBlanks (by omega)
  simp only [items_afterBlanks] at hiff
  obtain ⟨result, hresult, hspec⟩ := parseEnclosed_cursor hends
    (by decide : closeBracket ≠ 0) hread hiff
    (fun _ _ hitems => hitems.suffix) fun _ _ _ hclose => not_items_of_head hclose (by decide)
  refine ⟨result, ?_, fun item rest => (hspec item rest).trans ?_⟩
  · rw [if_neg hdepth, ParseBuffer.nested_cursor, ParseBuffer.byteAt_head hends, ok_bind,
      if_neg (not_not.mpr rfl)]
    exact hresult
  · rw [hnesting]
    simp only [Nat.add_right_cancel_iff, exists_eq_left']

theorem Reads.object_succ {fuel : ℕ} (h : Reads fuel) {content text : List UInt8} {depth : ℕ}
    (hends : Ends content (openBrace :: text)) (hfuel : 3 * text.length + 3 ≤ fuel + 1) :
    ∃ read, parseObject (fuel + 1) (cursor content depth (openBrace :: text)) =
        .ok (Option.map (atCursor content depth) read) ∧
      ∀ item rest, read = some (item, rest) ↔
        Value (nestingLimit - depth) (openBrace :: text) item rest := by
  rw [parseObject, ParseBuffer.depth_cursor]
  simp only [value_object_iff]
  by_cases hdepth : depth ≥ nestingLimit
  · refine ⟨none, by rw [if_pos hdepth]; rfl, fun item rest => iff_of_false (by simp) ?_⟩
    rintro ⟨m, hm, -⟩
    omega
  have hnesting : nestingLimit - depth = nestingLimit - (depth + 1) + 1 := by omega
  have htext : Ends content text := hends.of_suffix (List.suffix_cons _ _)
  have hlength := hends.length
  have hblanks := (afterBlanks_suffix text).length_le
  rw [List.length_cons] at hlength
  obtain ⟨read, hread, hiff⟩ := h.fields
    (@ParseBuffer.advance_stepBack content (afterBlanks text) (depth + 1) (by omega)) htext.afterBlanks (by omega)
  simp only [fields_afterBlanks] at hiff
  obtain ⟨result, hresult, hspec⟩ := parseEnclosed_cursor hends
    (by decide : closeBrace ≠ 0) hread hiff
    (fun _ _ hfields => hfields.suffix) fun _ _ _ hclose => not_fields_of_head hclose (by decide)
  refine ⟨result, ?_, fun item rest => (hspec item rest).trans ?_⟩
  · rw [if_neg hdepth, ParseBuffer.nested_cursor, ParseBuffer.isAt_cursor (by decide) hends, ok_bind,
      if_neg (by simp)]
    exact hresult
  · rw [hnesting]
    simp only [Nat.add_right_cancel_iff, exists_eq_left']

theorem Reads.items_succ {fuel : ℕ} (h : Reads fuel) {content text : List UInt8} {depth : ℕ}
    {buffer : ParseBuffer} (hbuffer : buffer.advance 1 = cursor content depth text)
    (hends : Ends content text) (hfuel : 3 * text.length + 1 < fuel + 1) :
    ∃ read, parseItems (fuel + 1) buffer = .ok (Option.map (atCursor content depth) read) ∧
      ∀ items rest, read = some (items, rest) ↔ Items (nestingLimit - depth) text items rest := by
  have hblanks := (afterBlanks_suffix text).length_le
  obtain ⟨read, hread, hiff⟩ := @Reads.value _ _ h _ _ depth hends.afterBlanks (by omega)
  rw [parseItems, hbuffer, ParseBuffer.skipWhitespace_cursor hends, ok_bind, hread, ok_bind]
  cases read with
  | none =>
      refine ⟨none, rfl, fun items rest => iff_of_false (by simp) fun hitems => ?_⟩
      obtain ⟨item, text', hvalue, -⟩ := items_iff.mp hitems
      exact absurd ((hiff _ _).mpr hvalue) (by simp)
  | some read =>
      obtain ⟨item, text'⟩ := read
      have hvalue := (hiff item text').mp rfl
      have hsuffix := hvalue.suffix
      have hends' : Ends content text' := hends.afterBlanks.of_suffix hsuffix.1
      obtain ⟨result, hresult, hspec⟩ := parseMore_cursor depth
        (fun items rest => ∃ text'', afterBlanks text' = comma :: text'' ∧
          Items (nestingLimit - depth) text'' items rest) (fun buffer => parseItems fuel buffer) item hends' (by
        intro text'' htext
        have hends'' : Ends content (comma :: text'') := htext ▸ hends'.afterBlanks
        have hlength := (htext ▸ afterBlanks_suffix text' : comma :: text'' <:+ text').length_le
        rw [List.length_cons] at hlength
        obtain ⟨read, hread, hiff⟩ := h.items (@advance_one depth _ _ _ hends'')
          (hends''.of_suffix (List.suffix_cons _ _)) (by omega)
        refine ⟨read, hread, fun items rest => (hiff items rest).trans ?_⟩
        rw [htext]
        simp only [List.cons.injEq, true_and, exists_eq_left'])
      refine ⟨result, hresult, fun items rest => (hspec items rest).trans (Iff.trans ?_ items_iff.symm)⟩
      constructor
      · rintro (hlast | ⟨_, items', htext, ⟨text'', htext', hitems⟩, rfl⟩)
        · exact ⟨item, text', hvalue, .inl hlast⟩
        · exact ⟨item, text', hvalue, .inr ⟨text'', items', htext', hitems, rfl⟩⟩
      · rintro ⟨item', text₁, hvalue', hmore⟩
        cases (hiff _ _).mpr hvalue'
        rcases hmore with hlast | ⟨text'', items', htext, hitems, rfl⟩
        · exact .inl hlast
        · exact .inr ⟨text'', items', htext, ⟨text'', htext, hitems⟩, rfl⟩

theorem Reads.fields_succ {fuel : ℕ} (h : Reads fuel) {content text : List UInt8} {depth : ℕ}
    {buffer : ParseBuffer} (hbuffer : buffer.advance 1 = cursor content depth text)
    (hends : Ends content text) (hfuel : 3 * text.length + 1 < fuel + 1) :
    ∃ read, parseFields (fuel + 1) buffer = .ok (Option.map (atCursor content depth) read) ∧
      ∀ fields rest, read = some (fields, rest) ↔
        Fields (nestingLimit - depth) text fields rest := by
  have hblanks := (afterBlanks_suffix text).length_le
  rw [parseFields, hbuffer, ParseBuffer.skipWhitespace_cursor hends, ok_bind,
    parseString_cursor hends.afterBlanks, ok_bind]
  cases hkey : readString (afterBlanks text) with
  | none =>
      refine ⟨none, rfl, fun fields rest => iff_of_false (by simp) fun hfields => ?_⟩
      obtain ⟨key, text₁, _, _, _, hread, -⟩ := fields_iff.mp hfields
      cases hkey.symm.trans hread
  | some read =>
      obtain ⟨key, text₁⟩ := read
      have hsuffix := readString_suffix hkey
      have hends₁ : Ends content text₁ := hends.afterBlanks.of_suffix hsuffix.1
      simp only [Option.map_some]
      rw [ParseBuffer.skipWhitespace_cursor hends₁, ok_bind,
        ParseBuffer.isAt_cursor (by decide) hends₁.afterBlanks, ok_bind]
      by_cases hcolon : (afterBlanks text₁).head? = some keyColon
      swap
      · refine ⟨none, by rw [if_pos (by simpa using hcolon)]; rfl, fun fields rest =>
          iff_of_false (by simp) fun hfields => ?_⟩
        obtain ⟨key', text₁', text₂, item, text₃, hread, htext, -⟩ := fields_iff.mp hfields
        cases hkey.symm.trans hread
        exact hcolon (by rw [htext]; rfl)
      obtain ⟨text₂, htext₂⟩ := head?_eq_cons hcolon
      have hends₂ : Ends content (keyColon :: text₂) := htext₂ ▸ hends₁.afterBlanks
      have hends₂' : Ends content text₂ := hends₂.of_suffix (List.suffix_cons _ _)
      have hlength₂ := (htext₂ ▸ afterBlanks_suffix text₁ : keyColon :: text₂ <:+ text₁).length_le
      have hblanks₂ := (afterBlanks_suffix text₂).length_le
      rw [List.length_cons] at hlength₂
      obtain ⟨read, hread, hiff⟩ := @Reads.value _ _ h _ _ depth hends₂'.afterBlanks (by omega)
      rw [if_neg (by simpa using hcolon), htext₂, advance_one hends₂,
        ParseBuffer.skipWhitespace_cursor hends₂', ok_bind, hread, ok_bind]
      cases read with
      | none =>
          refine ⟨none, rfl, fun fields rest => iff_of_false (by simp) fun hfields => ?_⟩
          obtain ⟨key', text₁', text₂', item, text₃, hread, htext, hvalue, -⟩ := fields_iff.mp hfields
          cases hkey.symm.trans hread
          cases htext₂.symm.trans htext
          exact absurd ((hiff _ _).mpr hvalue) (by simp)
      | some read =>
          obtain ⟨item, text₃⟩ := read
          have hvalue := (hiff item text₃).mp rfl
          have hsuffix₃ := hvalue.suffix
          have hends₃ : Ends content text₃ := hends₂'.afterBlanks.of_suffix hsuffix₃.1
          obtain ⟨result, hresult, hspec⟩ := parseMore_cursor depth
            (fun fields rest => ∃ text₄, afterBlanks text₃ = comma :: text₄ ∧
              Fields (nestingLimit - depth) text₄ fields rest) (fun buffer => parseFields fuel buffer)
            (key, item) hends₃ (by
            intro text₄ htext
            have hends₄ : Ends content (comma :: text₄) := htext ▸ hends₃.afterBlanks
            have hlength := (htext ▸ afterBlanks_suffix text₃ : comma :: text₄ <:+ text₃).length_le
            rw [List.length_cons] at hlength
            obtain ⟨read, hread, hiff⟩ := h.fields (@advance_one depth _ _ _ hends₄)
              (hends₄.of_suffix (List.suffix_cons _ _)) (by omega)
            refine ⟨read, hread, fun fields rest => (hiff fields rest).trans ?_⟩
            rw [htext]
            simp only [List.cons.injEq, true_and, exists_eq_left'])
          refine ⟨result, hresult, fun fields rest =>
            (hspec fields rest).trans (Iff.trans ?_ fields_iff.symm)⟩
          constructor
          · rintro (hlast | ⟨_, fields', htext, ⟨text₄, htext', hfields⟩, rfl⟩)
            · exact ⟨key, text₁, text₂, item, text₃, hkey, htext₂, hvalue, .inl hlast⟩
            · exact ⟨key, text₁, text₂, item, text₃, hkey, htext₂, hvalue,
                .inr ⟨text₄, fields', htext', hfields, rfl⟩⟩
          · rintro ⟨key', text₁', text₂', item', text₃', hread, htext, hvalue', hmore⟩
            cases hkey.symm.trans hread
            cases htext₂.symm.trans htext
            cases (hiff _ _).mpr hvalue'
            rcases hmore with hlast | ⟨text₄, fields', htext', hfields, rfl⟩
            · exact .inl hlast
            · exact .inr ⟨text₄, fields', htext', ⟨text₄, htext', hfields⟩, rfl⟩

-- By induction on the fuel: three times the text, as an entry of a list takes three calls at most.
theorem reads (fuel : ℕ) : Reads fuel := by
  induction fuel with
  | zero =>
      constructor
      all_goals
        intros
        omega
  | succ fuel ih =>
      exact ⟨ih.value_succ, ih.array_succ, ih.object_succ, ih.items_succ, ih.fields_succ⟩

theorem deserialize_accepts (text : List UInt8) : ∃ result, deserialize text = .ok result ∧
    ∀ item, result = some item ↔ Denotes text item := by
  have hends : Ends (text ++ [0]) text := ⟨[], rfl⟩
  have hmark : afterMark text <:+ text := by
    rw [afterMark]
    split_ifs
    · exact List.drop_suffix _ _
    · exact List.suffix_rfl
  have hends' : Ends (text ++ [0]) (afterMark text) := hends.of_suffix hmark
  have hlength := hmark.length_le
  have hblanks := (afterBlanks_suffix (afterMark text)).length_le
  have hstart : (⟨text ++ [0], 0, 0⟩ : ParseBuffer) = cursor (text ++ [0]) 0 text := by
    simp [cursor]
  obtain ⟨read, hread, hiff⟩ := @Reads.value _ _ (reads (3 * (text.length + 1))) _ _ 0
    hends'.afterBlanks (by omega)
  refine ⟨read.map Prod.fst, ?_, fun item => ?_⟩
  · rw [deserialize, hstart, ParseBuffer.skipUtf8Bom_cursor hends, ok_bind,
      ParseBuffer.skipWhitespace_cursor hends', ok_bind, hread, ok_bind]
    cases read <;> rfl
  · rw [Option.map_eq_some_iff, Denotes]
    constructor
    · rintro ⟨⟨item, rest⟩, hsome, rfl⟩
      exact ⟨rest, (hiff _ _).mp hsome⟩
    · rintro ⟨rest, hvalue⟩
      exact ⟨_, (hiff _ _).mpr hvalue, rfl⟩

end CJson

end ServerSdk
