import ServerSdk.Cjson.Nesting
import ServerSdk.Cjson.Printing

namespace ServerSdk

open Memory

namespace CJson

variable {byte : UInt8} {bytes body rest text : List UInt8}

theorem isNormal_iff : isNormal byte = true ↔ 31 < byte ∧ byte ≠ quote ∧ byte ≠ backslash := by
  simp [isNormal]

theorem bind_escapeLetter (byte : UInt8) :
    (escapeLetter byte).bind simpleEscape = (escapeLetter byte).map fun _ => byte := by
  refine forall_byte ?_ byte
  decide +kernel

theorem lowerHex_plain (byte : UInt8) :
    (lowerHex (byte.toNat / 16) ≠ quote ∧ lowerHex (byte.toNat / 16) ≠ backslash) ∧
      lowerHex (byte.toNat % 16) ≠ quote ∧ lowerHex (byte.toNat % 16) ≠ backslash := by
  refine forall_byte ?_ byte
  decide +kernel

theorem hex4_lowerHex (byte : UInt8) :
    hex4 [48, 48, lowerHex (byte.toNat / 16), lowerHex (byte.toNat % 16)] = byte.toNat := by
  refine forall_byte ?_ byte
  decide +kernel

theorem utf8Encode_control : byte < 32 → utf8Encode byte.toNat = some [byte] := by
  refine forall_byte ?_ byte
  decide +kernel

theorem control_of_escape :
    isNormal byte = false → escapeLetter byte = none → byte < 32 := by
  refine forall_byte ?_ byte
  decide +kernel

theorem escape_cases (byte : UInt8) : escapeByte byte = [byte] ∧ byte ≠ quote ∧ byte ≠ backslash ∨
    (∃ letter, escapeByte byte = [backslash, letter] ∧ simpleEscape letter = some byte) ∨
    escapeByte byte = backslash :: unicodeLetters byte ∧ byte < 32 := by
  rw [escapeByte]
  by_cases hnormal : isNormal byte = true
  · rw [if_pos hnormal]
    exact .inl ⟨rfl, (isNormal_iff.mp hnormal).2⟩
  · rw [if_neg hnormal]
    cases hletter : escapeLetter byte with
    | some letter =>
        have hescape := bind_escapeLetter byte
        rw [hletter] at hescape
        exact .inr (.inl ⟨letter, rfl, hescape⟩)
    | none => exact .inr (.inr ⟨rfl, control_of_escape (Bool.eq_false_iff.mpr hnormal) hletter⟩)

theorem closing_escapeByte (h : closing text = some (body, rest)) :
    closing (escapeByte byte ++ text) = some (escapeByte byte ++ body, rest) := by
  rcases escape_cases byte with ⟨hescape, hquote, hbackslash⟩ | ⟨letter, hescape, -⟩ | ⟨hescape, -⟩
  · rw [hescape, List.singleton_append, closing_cons hquote hbackslash, h]
    rfl
  · rw [hescape, List.cons_append, List.cons_append, closing_escape, List.nil_append, h]
    rfl
  · obtain ⟨hfirst, hsecond⟩ := lowerHex_plain byte
    rw [hescape, unicodeLetters]
    simp only [List.cons_append, List.nil_append]
    rw [closing_escape, closing_cons (by decide) (by decide), closing_cons (by decide) (by decide),
      closing_cons hfirst.1 hfirst.2, closing_cons hsecond.1 hsecond.2, h]
    rfl

theorem utf16Literal_unicodeLetters (h : byte < 32) (body : List UInt8) :
    utf16Literal (backslash :: (unicodeLetters byte ++ body)) = some (false, [byte]) := by
  have hsmall : byte.toNat < 32 := UInt8.lt_iff_toNat_lt.mp h
  rw [unicodeLetters]
  simp only [List.cons_append, List.nil_append, utf16Literal]
  rw [hex4_lowerHex, if_neg (by omega), if_neg (by omega), utf8Encode_control h, Option.map_some]

theorem decode_escapeByte : decode (escapeByte byte ++ body) = (decode body).map (byte :: ·) := by
  rcases escape_cases byte with ⟨hescape, -, hbackslash⟩ | ⟨letter, hescape, hletter⟩ |
    ⟨hescape, hsmall⟩
  · rw [hescape, List.singleton_append, decode_cons hbackslash]
  · rw [hescape, List.cons_append, List.cons_append, List.nil_append, decode_escape hletter]
  · rw [hescape]
    exact decode_literal (utf16Literal_unicodeLetters hsmall body)

theorem closing_flatMap (bytes : List UInt8) :
    closing (bytes.flatMap escapeByte ++ quote :: rest) = some (bytes.flatMap escapeByte, rest) := by
  induction bytes with
  | nil => exact closing_quote rest
  | cons byte bytes ih =>
      rw [List.flatMap_cons, List.append_assoc]
      exact closing_escapeByte ih

theorem decode_flatMap (bytes : List UInt8) : decode (bytes.flatMap escapeByte) = some bytes := by
  induction bytes with
  | nil => exact decode_nil
  | cons byte bytes ih =>
      rw [List.flatMap_cons, decode_escapeByte, ih]
      rfl

theorem ofBlock_bytes (s : CString) : CString.ofBlock s.bytes = s := by
  obtain ⟨bytes, hzero⟩ := s
  rw [CString.ofBlock, CString.mk.injEq]
  exact cString_of_not_mem hzero

theorem readString_renderString (s : CString) (rest : List UInt8) :
    readString (renderString s ++ rest) = some (s, rest) := by
  rw [renderString, List.cons_append, List.append_assoc, List.singleton_append,
    readString_of_closing (closing_flatMap s.bytes), decode_flatMap, Option.map_some, ofBlock_bytes]

theorem afterBlanks_cons (h : 32 < byte) (text : List UInt8) : afterBlanks (byte :: text) = byte :: text := by
  rw [afterBlanks, List.dropWhile_cons_of_neg]
  simpa using h

theorem afterBlanks_append (h : ∀ byte ∈ text, byte ≤ 32) (rest : List UInt8) :
    afterBlanks (text ++ rest) = afterBlanks rest := by
  rw [afterBlanks, List.dropWhile_append_of_pos]
  · rfl
  · intro byte hbyte
    simpa using h byte hbyte

theorem startsNumber_large : startsNumber byte = true → 32 < byte ∧ byte < 128 := by
  refine forall_byte ?_ byte
  decide +kernel

def gap (format : Bool) (blank : UInt8) : List UInt8 := if format then [blank] else []

theorem separator_eq (format : Bool) : separator format = comma :: gap format space := by
  cases format <;> rfl

theorem opening_eq (format : Bool) : opening format = openBrace :: gap format newline := by
  cases format <;> rfl

theorem afterKey_eq (format : Bool) : afterKey format = keyColon :: gap format tab := by
  cases format <;> rfl

theorem afterBlanks_gap {format : Bool} {blank : UInt8} (h : blank ≤ 32) (text : List UInt8) :
    afterBlanks (gap format blank ++ text) = afterBlanks text := by
  refine afterBlanks_append ?_ text
  intro byte hbyte
  cases format with
  | false => cases hbyte
  | true => rwa [List.mem_singleton.mp hbyte]

theorem afterBlanks_indent {format : Bool} {depth : ℕ} (text : List UInt8) :
    afterBlanks (indent format depth ++ text) = afterBlanks text := by
  refine afterBlanks_append ?_ text
  intro byte hbyte
  cases format with
  | false => cases hbyte
  | true =>
      rw [List.eq_of_mem_replicate hbyte]
      decide

def Stops (rest : List UInt8) : Prop := ∀ byte ∈ rest.head?, isNumeric byte = false

theorem stops_nil : Stops [] := by
  intro byte hbyte
  cases hbyte

theorem stops_cons (h : isNumeric byte = false) : Stops (byte :: rest) := by
  intro other hother
  rwa [← Option.some.inj hother]

theorem stops_afterField {format last : Bool} {depth : ℕ} :
    Stops (afterField format last ++ (indent format depth ++ closeBrace :: rest)) := by
  cases format with
  | false =>
      cases last with
      | false => exact stops_cons (by decide)
      | true => exact stops_cons (by decide)
  | true =>
      cases last with
      | false => exact stops_cons (by decide)
      | true => exact stops_cons (by decide)

def settledNumber : Double → CJson
  | .finite value => .number (.finite value)
  | .infinite _ | .nan => .null

mutual

def settled : CJson → CJson
  | .number valuedouble => settledNumber valuedouble
  | .array items => .array (settledItems items)
  | .object fields => .object (settledFields fields)
  | item => item

def settledItems : List CJson → List CJson
  | [] => []
  | item :: items => settled item :: settledItems items

def settledFields : List (CString × CJson) → List (CString × CJson)
  | [] => []
  | (key, item) :: fields => (key, settled item) :: settledFields fields

end

mutual

theorem nesting_settled (item : CJson) : nesting (settled item) = nesting item := by
  cases item with
  | number valuedouble => cases valuedouble <;> rfl
  | array items => rw [settled, nesting, nesting, nesting_settledItems items]
  | object fields => rw [settled, nesting, nesting, nesting_settledFields fields]
  | _ => rfl

theorem nesting_settledItems (items : List CJson) :
    nestingOfItems (settledItems items) = nestingOfItems items := by
  cases items with
  | nil => rfl
  | cons item items =>
      rw [settledItems, nestingOfItems, nestingOfItems, nesting_settled item, nesting_settledItems items]

theorem nesting_settledFields (fields : List (CString × CJson)) :
    nestingOfFields (settledFields fields) = nestingOfFields fields := by
  cases fields with
  | nil => rfl
  | cons field fields =>
      obtain ⟨key, item⟩ := field
      rw [settledFields, nestingOfFields, nestingOfFields, nesting_settled item,
        nesting_settledFields fields]

end

theorem isEmpty_settledItems (items : List CJson) : (settledItems items).isEmpty = items.isEmpty := by
  cases items <;> rfl

theorem isEmpty_settledFields (fields : List (CString × CJson)) :
    (settledFields fields).isEmpty = fields.isEmpty := by
  cases fields <;> rfl

mutual

theorem numbers_settled (item : CJson) : numbers (settled item) ⊆ numbers item := by
  cases item with
  | number valuedouble =>
      cases valuedouble with
      | finite value => exact List.Subset.refl _
      | infinite negative => exact List.nil_subset _
      | nan => exact List.nil_subset _
  | array items => exact itemNumbers_settled items
  | object fields => exact fieldNumbers_settled fields
  | _ => exact List.Subset.refl _

theorem itemNumbers_settled (items : List CJson) : itemNumbers (settledItems items) ⊆ itemNumbers items := by
  cases items with
  | nil => exact List.Subset.refl _
  | cons item items =>
      exact List.append_subset.mpr ⟨List.subset_append_of_subset_left _ (numbers_settled item),
        List.subset_append_of_subset_right _ (itemNumbers_settled items)⟩

theorem fieldNumbers_settled (fields : List (CString × CJson)) :
    fieldNumbers (settledFields fields) ⊆ fieldNumbers fields := by
  cases fields with
  | nil => exact List.Subset.refl _
  | cons field fields =>
      obtain ⟨key, item⟩ := field
      exact List.append_subset.mpr ⟨List.subset_append_of_subset_left _ (numbers_settled item),
        List.subset_append_of_subset_right _ (fieldNumbers_settled fields)⟩

end

section Numbers

variable [CNumbers]

structure Printed (value : Rat) : Prop where
  starts : ∀ precision ∈ [15, 17], ∃ byte more,
    (CNumbers.sprintf precision value).bytes = byte :: more ∧ startsNumber byte = true
  numeric : ∀ precision ∈ [15, 17], ∀ byte ∈ (CNumbers.sprintf precision value).bytes,
    isNumeric byte = true
  short : ∀ precision ∈ [15, 17], (CNumbers.sprintf precision value).bytes.length ≤ 25
  whole : ∀ precision ∈ [15, 17],
    (CNumbers.strtod (CNumbers.sprintf precision value).bytes).2.val =
      (CNumbers.sprintf precision value).bytes.length
  exact : (CNumbers.strtod (CNumbers.sprintf 17 value).bytes).1 = .finite value

theorem exists_precision {value : Rat} (h : Printed value) : ∃ precision ∈ [15, 17],
    numberText (.finite value) = (CNumbers.sprintf precision value).bytes ∧
      (CNumbers.strtod (CNumbers.sprintf precision value).bytes).1 = .finite value := by
  rw [numberText]
  by_cases hrecovers : recovers (CNumbers.sprintf 15 value).bytes value = true
  · rw [if_pos hrecovers]
    refine ⟨15, by decide, rfl, ?_⟩
    rw [recovers] at hrecovers
    exact (of_decide_eq_true hrecovers).2
  · rw [if_neg hrecovers]
    exact ⟨17, by decide, rfl, h.exact⟩

theorem readNumber_of_front {front : List UInt8} (h : (text.takeWhile isNumeric).take 63 = front) :
    readNumber text = if (CNumbers.strtod front).2.val = 0 then none
      else some ((CNumbers.strtod front).1, text.drop (CNumbers.strtod front).2.val) := by
  subst h
  rfl

theorem readNumber_numberText {value : Rat} (h : Printed value)
    (hrest : ∀ byte ∈ rest.head?, isNumeric byte = false) :
    readNumber (numberText (.finite value) ++ rest) = some (.finite value, rest) := by
  obtain ⟨precision, hprecision, htext, hexact⟩ := exists_precision h
  obtain ⟨byte, more, hstarts, -⟩ := h.starts precision hprecision
  have hlength := h.short precision hprecision
  have hwhole := h.whole precision hprecision
  have hnumeric := h.numeric precision hprecision
  rw [htext]
  generalize (CNumbers.sprintf precision value).bytes = text at *
  have htake : ((text ++ rest).takeWhile isNumeric).take 63 = text := by
    have hstop : rest.takeWhile isNumeric = [] := by
      cases rest with
      | nil => rfl
      | cons byte rest => rw [List.takeWhile_cons, hrest byte rfl, if_neg Bool.false_ne_true]
    rw [List.takeWhile_append_of_pos hnumeric, hstop, List.append_nil,
      List.take_of_length_le (by omega)]
  have hpos : text.length ≠ 0 := by
    rw [hstarts]
    exact Nat.succ_ne_zero _
  rw [readNumber_of_front htake, hwhole, if_neg hpos, hexact, List.drop_left]

theorem head_render {format : Bool} {depth : ℕ} (item : CJson)
    (h : ∀ value, .finite value ∈ numbers item → Printed value) :
    ∃ byte more, render format depth item = byte :: more ∧ 32 < byte ∧ byte < 128 := by
  have hword : ∃ byte more, nullText = byte :: more ∧ (32 : UInt8) < byte ∧ byte < 128 :=
    ⟨_, _, rfl, by decide⟩
  cases item with
  | null =>
      rw [render]
      exact hword
  | bool b =>
      cases b with
      | false => exact ⟨_, _, by rw [render]; rfl, by decide⟩
      | true => exact ⟨_, _, by rw [render]; rfl, by decide⟩
  | number valuedouble =>
      rw [render]
      cases valuedouble with
      | finite value =>
          have hprinted := h value (by rw [numbers]; exact List.mem_singleton_self _)
          obtain ⟨precision, hprecision, htext, -⟩ := exists_precision hprinted
          obtain ⟨byte, more, hstarts, hbyte⟩ := hprinted.starts precision hprecision
          exact ⟨byte, more, htext.trans hstarts, startsNumber_large hbyte⟩
      | infinite negative => exact hword
      | nan => exact hword
  | string valuestring => exact ⟨_, _, by rw [render, renderString], by decide⟩
  | array items => exact ⟨_, _, by rw [render], by decide⟩
  | object fields =>
      cases format with
      | false => exact ⟨openBrace, _, by rw [render]; rfl, by decide⟩
      | true => exact ⟨openBrace, _, by rw [render]; rfl, by decide⟩

theorem afterBlanks_render {format : Bool} {depth : ℕ} {item : CJson}
    (h : ∀ value, .finite value ∈ numbers item → Printed value) (rest : List UInt8) :
    afterBlanks (render format depth item ++ rest) = render format depth item ++ rest := by
  obtain ⟨byte, more, hhead, hbyte⟩ := @head_render _ format depth item h
  rw [hhead, List.cons_append, afterBlanks_cons hbyte.1]

theorem value_numberText {value : Rat} {n : ℕ} (h : Printed value)
    (hrest : ∀ byte ∈ rest.head?, isNumeric byte = false) :
    Value n (numberText (.finite value) ++ rest) (.number (.finite value)) rest := by
  have hread := readNumber_numberText h hrest
  obtain ⟨precision, hprecision, htext, -⟩ := exists_precision h
  obtain ⟨byte, more, hstarts, hbyte⟩ := h.starts precision hprecision
  rw [htext, hstarts] at hread ⊢
  exact .number hbyte hread

variable {format : Bool}

mutual

theorem value_render (item : CJson) {n depth : ℕ} {rest : List UInt8} (hnesting : nesting item ≤ n)
    (hprinted : ∀ value, .finite value ∈ numbers item → Printed value) (hrest : Stops rest) :
    Value n (render format depth item ++ rest) (settled item) rest := by
  cases item with
  | null =>
      rw [render]
      exact .nullWord
  | bool b =>
      cases b with
      | false =>
          rw [render]
          exact .falseWord
      | true =>
          rw [render]
          exact .trueWord
  | number valuedouble =>
      rw [render]
      cases valuedouble with
      | finite value =>
          exact value_numberText (hprinted value (by rw [numbers]; exact List.mem_singleton_self _)) hrest
      | infinite negative => exact .nullWord
      | nan => exact .nullWord
  | string valuestring =>
      rw [render]
      exact .string (readString_renderString valuestring rest)
  | array items =>
      rw [nesting] at hnesting
      obtain ⟨m, rfl, hlevels⟩ : ∃ m, n = m + 1 ∧ nestingOfItems items ≤ m := ⟨n - 1, by omega, by omega⟩
      rw [render, settled, List.cons_append, List.append_assoc, List.singleton_append]
      rw [numbers] at hprinted
      by_cases hempty : items = []
      · subst hempty
        exact .emptyArray (afterBlanks_cons (by decide) rest)
      · exact .array (items_render items hempty hlevels hprinted)
  | object fields =>
      rw [nesting] at hnesting
      obtain ⟨m, rfl, hlevels⟩ : ∃ m, n = m + 1 ∧ nestingOfFields fields ≤ m := ⟨n - 1, by omega, by omega⟩
      rw [render, settled, opening_eq]
      simp only [List.append_assoc, List.cons_append, List.nil_append]
      rw [numbers] at hprinted
      by_cases hempty : fields = []
      · subst hempty
        refine .emptyObject ?_
        rw [renderFields, List.nil_append, afterBlanks_gap (by decide), afterBlanks_indent,
          afterBlanks_cons (by decide)]
      · refine .object (fields_afterBlanks.mp ?_)
        rw [afterBlanks_gap (by decide)]
        exact fields_afterBlanks.mpr (fields_render fields hempty hlevels hprinted)

theorem items_render (items : List CJson) {n depth : ℕ} {rest : List UInt8} (hne : items ≠ [])
    (hnesting : nestingOfItems items ≤ n)
    (hprinted : ∀ value, .finite value ∈ itemNumbers items → Printed value) :
    Items n (renderItems format depth items ++ closeBracket :: rest) (settledItems items)
      (closeBracket :: rest) := by
  cases items with
  | nil => exact absurd rfl hne
  | cons item items =>
      rw [nestingOfItems, Nat.max_le] at hnesting
      rw [itemNumbers] at hprinted
      have hitem value (hmem : .finite value ∈ numbers item) : Printed value :=
        hprinted value (List.mem_append_left _ hmem)
      by_cases hlast : items = []
      · subst hlast
        have hvalue := @value_render item n depth (closeBracket :: rest) hnesting.1 hitem
          (stops_cons (by decide))
        have hclose : afterBlanks (closeBracket :: rest) = closeBracket :: rest :=
          afterBlanks_cons (by decide) rest
        rw [← afterBlanks_render hitem] at hvalue
        have hitems := Items.last hvalue (by rw [hclose]; simp [closeBracket, comma])
        rw [hclose] at hitems
        simpa [renderItems, settledItems] using hitems
      · have hvalue := @value_render item n depth
          (separator format ++ (renderItems format depth items ++ closeBracket :: rest))
          hnesting.1 hitem (by rw [separator_eq]; exact stops_cons (by decide))
        have hitems := @items_render items n depth rest hlast hnesting.2 fun value hmem =>
          hprinted value (List.mem_append_right _ hmem)
        rw [← afterBlanks_render hitem, separator_eq] at hvalue
        rw [← items_afterBlanks, ← @afterBlanks_gap format space (by decide), items_afterBlanks] at hitems
        have hmore := Items.more hvalue (afterBlanks_cons (by decide) _) hitems
        rw [renderItems, settledItems, separator_eq, if_neg (by simpa using hlast)]
        simpa only [List.append_assoc, List.cons_append] using hmore

theorem fields_render (fields : List (CString × CJson)) {n depth outer : ℕ} {rest : List UInt8}
    (hne : fields ≠ []) (hnesting : nestingOfFields fields ≤ n)
    (hprinted : ∀ value, .finite value ∈ fieldNumbers fields → Printed value) :
    Fields n (renderFields format depth fields ++ (indent format outer ++ closeBrace :: rest))
      (settledFields fields) (closeBrace :: rest) := by
  cases fields with
  | nil => exact absurd rfl hne
  | cons field fields =>
      obtain ⟨key, item⟩ := field
      rw [nestingOfFields, Nat.max_le] at hnesting
      rw [fieldNumbers] at hprinted
      have hitem value (hmem : .finite value ∈ numbers item) : Printed value :=
        hprinted value (List.mem_append_left _ hmem)
      have hkey (text : List UInt8) : readString (afterBlanks (indent format depth ++
          (renderString key ++ text))) = some (key, text) := by
        have hquote : afterBlanks (renderString key ++ text) = renderString key ++ text :=
          afterBlanks_cons (by decide) _
        rw [afterBlanks_indent, hquote, readString_renderString]
      have hcolon (text : List UInt8) : afterBlanks (afterKey format ++ text) =
          keyColon :: (gap format tab ++ text) := by
        rw [afterKey_eq, List.cons_append, afterBlanks_cons (by decide)]
      have hvalue {text : List UInt8} (hstops : Stops text) : Value n (afterBlanks (gap format tab ++
          (render format depth item ++ text))) (settled item) text := by
        rw [afterBlanks_gap (by decide), afterBlanks_render hitem]
        exact value_render item hnesting.1 hitem hstops
      by_cases hlast : fields = []
      · subst hlast
        have hclose : afterBlanks (afterField format true ++ (indent format outer ++ closeBrace :: rest)) =
            closeBrace :: rest := by
          rw [afterField, if_pos rfl, List.nil_append]
          exact (afterBlanks_gap (by decide) _).trans
            ((afterBlanks_indent _).trans (afterBlanks_cons (by decide) rest))
        have hfields := Fields.last (hkey _) (hcolon _) (hvalue stops_afterField)
          (by rw [hclose]; simp [closeBrace, comma])
        rw [hclose] at hfields
        simpa [renderFields, settledFields] using hfields
      · have hfields := @fields_render fields n depth outer rest hlast hnesting.2 fun value hmem =>
          hprinted value (List.mem_append_right _ hmem)
        rw [← fields_afterBlanks, ← @afterBlanks_gap format newline (by decide), fields_afterBlanks]
          at hfields
        have hstops : Stops (comma :: (gap format newline ++ (renderFields format depth fields ++
            (indent format outer ++ closeBrace :: rest)))) := stops_cons (by decide)
        have hmore := Fields.more (hkey _) (hcolon _) (hvalue hstops) (afterBlanks_cons (by decide) _)
          hfields
        have hending : afterField format fields.isEmpty = comma :: gap format newline := by
          rw [afterField, if_neg (by simpa using hlast)]
          rfl
        rw [renderFields, settledFields, hending, afterKey_eq]
        rw [afterKey_eq] at hmore
        simpa only [List.append_assoc, List.cons_append] using hmore

end

mutual

theorem render_settled (item : CJson) (depth : ℕ) :
    render format depth (settled item) = render format depth item := by
  cases item with
  | number valuedouble =>
      cases valuedouble with
      | finite value => rfl
      | infinite negative => rw [settled, settledNumber, render, render, numberText]
      | nan => rw [settled, settledNumber, render, render, numberText]
  | array items => rw [settled, render, render, render_settledItems items]
  | object fields => rw [settled, render, render, render_settledFields fields]
  | _ => rfl

theorem render_settledItems (items : List CJson) (depth : ℕ) :
    renderItems format depth (settledItems items) = renderItems format depth items := by
  cases items with
  | nil => rfl
  | cons item items =>
      rw [settledItems, renderItems, renderItems, isEmpty_settledItems, render_settled item,
        render_settledItems items]

theorem render_settledFields (fields : List (CString × CJson)) (depth : ℕ) :
    renderFields format depth (settledFields fields) = renderFields format depth fields := by
  cases fields with
  | nil => rfl
  | cons field fields =>
      obtain ⟨key, item⟩ := field
      rw [settledFields, renderFields, renderFields, isEmpty_settledFields, render_settled item,
        render_settledFields fields]

end

theorem afterMark_render {item : CJson} {depth : ℕ}
    (hprinted : ∀ value, .finite value ∈ numbers item → Printed value) :
    afterMark (render format depth item) = render format depth item := by
  obtain ⟨byte, more, hhead, -, hsmall⟩ := @head_render _ format depth item hprinted
  have hmark : byteOrderMark.isPrefixOf (byte :: more) = false := by
    have hne : ((239 : UInt8) == byte) = false := by
      rw [beq_eq_false_iff_ne]
      rintro rfl
      exact absurd hsmall (by decide)
    rw [byteOrderMark, List.isPrefixOf_cons_cons, hne, Bool.false_and]
  rw [hhead, afterMark, hmark, if_neg (by simp)]

theorem deserialize_render {item : CJson}
    (hprinted : ∀ value, .finite value ∈ numbers item → Printed value) :
    deserialize (render format 0 item) =
      .ok (if nesting item ≤ nestingLimit then some (settled item) else none) := by
  obtain ⟨result, hresult, hdenotes⟩ := deserialize_accepts (render format 0 item)
  have hblanks : afterBlanks (afterMark (render format 0 item)) = render format 0 item := by
    have hrender := @afterBlanks_render _ format 0 item hprinted []
    rw [List.append_nil] at hrender
    rw [afterMark_render hprinted, hrender]
  have hvalue {n : ℕ} (hnesting : nesting item ≤ n) :
      Value n (render format 0 item) (settled item) [] := by
    have hrender := @value_render _ format item n 0 [] hnesting hprinted stops_nil
    rwa [List.append_nil] at hrender
  rw [hresult]
  split_ifs with hnesting
  · rw [(hdenotes (settled item)).mpr ⟨[], hblanks.symm ▸ hvalue hnesting⟩]
  · cases hread : result with
    | none => rfl
    | some item' =>
        obtain ⟨rest, hother⟩ := (hdenotes item').mp hread
        rw [hblanks] at hother
        obtain ⟨rfl, -⟩ := (hvalue le_rfl).unique hother
        rw [← nesting_settled] at hnesting
        exact absurd hother.nesting_le hnesting

theorem print_of_printed {item : CJson}
    (hprinted : ∀ value, .finite value ∈ numbers item → Printed value) (garbage : ℕ → UInt8)
    (reallocates : Bool) :
    (intMax < (render format 0 item).length + 2 ∧ print garbage reallocates format item = .ok none) ∨
      print garbage reallocates format item = .ok (some (render format 0 item ++ [0])) := by
  refine PrintBuffer.print_spec item id ?_
  intro valuedouble hmem hlong
  have hword : nullText.length ≤ 25 := by decide
  have hshort : (numberText valuedouble).length ≤ 25 := by
    cases valuedouble with
    | finite value =>
        obtain ⟨precision, hprecision, htext, -⟩ := exists_precision (hprinted value hmem)
        rw [htext]
        exact (hprinted value hmem).short precision hprecision
    | infinite negative => exact hword
    | nan => exact hword
  exact absurd hlong (not_lt.mpr hshort)

theorem deserialize_print (garbage : ℕ → UInt8) (reallocates format : Bool) (item : CJson)
    (hprinted : ∀ value, .finite value ∈ numbers item → Printed value) :
    (print garbage reallocates format item = .ok none ∧ intMax < (render format 0 item).length + 2) ∨
      ∃ text, 0 ∉ text ∧ print garbage reallocates format item = .ok (some (text ++ [0])) ∧
        deserialize text = .ok (if nesting item ≤ nestingLimit then some (settled item) else none) := by
  rcases @print_of_printed _ format item hprinted garbage reallocates with ⟨hlong, hnone⟩ | hsome
  · exact .inl ⟨hnone, hlong⟩
  · exact .inr ⟨_, zero_not_mem_render item 0, hsome, deserialize_render hprinted⟩

end Numbers

theorem digit_ne_zero (n : ℕ) : (0 : UInt8) ∉ [UInt8.ofNat (48 + n % 10)] := by
  rw [List.mem_singleton]
  intro hzero
  have hvalue := congrArg UInt8.toNat hzero
  rw [UInt8.toNat_ofNat', Nat.mod_eq_of_lt (by omega), UInt8.toNat_zero] at hvalue
  omega

@[reducible] def oneDigit : CNumbers where
  strtod
    | [] => (.finite (.ofInt (.ofNat 0)), ⟨0, Nat.succ_pos _⟩)
    | byte :: rest =>
        if isDigit byte then
          (.finite (.ofInt (.ofNat (byte.toNat - 48))), ⟨1, Nat.succ_lt_succ (Nat.succ_pos rest.length)⟩)
        else (.finite (.ofInt (.ofNat 0)), ⟨0, Nat.succ_pos _⟩)
  sprintf _ value := ⟨[UInt8.ofNat (48 + value.num.toNat % 10)], digit_ne_zero value.num.toNat⟩

theorem printed_oneDigit {value : Rat} {digit : UInt8}
    (htext : (@CNumbers.sprintf oneDigit 0 value).bytes = [digit])
    (hdigit : startsNumber digit = true ∧ isNumeric digit = true)
    (hread : @CNumbers.strtod oneDigit [digit] = (.finite value, 1)) : @Printed oneDigit value := by
  let _ := oneDigit
  have htext (precision : ℕ) : (CNumbers.sprintf precision value).bytes = [digit] := htext
  refine ⟨fun precision _ => ⟨digit, [], htext precision, hdigit.1⟩, fun precision _ => ?_,
    fun precision _ => ?_, fun precision _ => ?_, ?_⟩
  · intro byte hbyte
    rw [htext] at hbyte
    rw [List.mem_singleton.mp hbyte]
    exact hdigit.2
  · rw [htext]
    exact Nat.succ_le_succ (Nat.zero_le 24)
  · rw [htext, hread]
    rfl
  · rw [htext, hread]

theorem printed_one : @Printed oneDigit 1 := printed_oneDigit rfl ⟨rfl, rfl⟩ rfl

theorem printed_seven : @Printed oneDigit 7 := printed_oneDigit rfl ⟨rfl, rfl⟩ rfl

theorem deserialize_print_seven :
    (@print oneDigit (fun _ => 0) false true (.array [.number (.finite 7)]) = .ok none ∧
      intMax < (@render oneDigit true 0 (.array [.number (.finite 7)])).length + 2) ∨
    ∃ text, 0 ∉ text ∧
      @print oneDigit (fun _ => 0) false true (.array [.number (.finite 7)]) = .ok (some (text ++ [0])) ∧
      @deserialize oneDigit text = .ok (if nesting (.array [.number (.finite 7)]) ≤ nestingLimit
        then some (settled (.array [.number (.finite 7)])) else none) := by
  refine @deserialize_print oneDigit _ _ _ _ ?_
  intro value hvalue
  cases List.mem_singleton.mp hvalue
  exact printed_seven

theorem print_deserialize [CNumbers] {text : List UInt8} {item : CJson} (garbage garbage' : ℕ → UInt8)
    (reallocates reallocates' format : Bool) (hread : deserialize text = .ok (some item))
    (hprinted : ∀ value, .finite value ∈ numbers item → Printed value)
    (hlength : (render format 0 item).length + 2 ≤ intMax) :
    ∃ text', 0 ∉ text' ∧ print garbage reallocates format item = .ok (some (text' ++ [0])) ∧
      deserialize text' = .ok (some (settled item)) ∧
      print garbage' reallocates' format (settled item) = .ok (some (text' ++ [0])) := by
  have hnesting : nesting item ≤ nestingLimit := by
    obtain ⟨result, hresult, hdenotes⟩ := deserialize_accepts text
    obtain ⟨rest, hvalue⟩ := (hdenotes item).mp (Except.ok.inj (hresult.symm.trans hread))
    exact hvalue.nesting_le
  have hsettled : (render format 0 (settled item)).length + 2 ≤ intMax := by rwa [render_settled]
  have hread' := @deserialize_render _ format item hprinted
  rw [if_pos hnesting] at hread'
  refine ⟨render format 0 item, zero_not_mem_render item 0, ?_, hread', ?_⟩
  · exact (print_of_printed hprinted garbage reallocates).resolve_left fun hlong => absurd hlong.1 (not_lt.mpr hlength)
  · have hprint := @print_of_printed _ format (settled item)
      (fun value hmem => hprinted value (numbers_settled item hmem)) garbage' reallocates'
    rw [← render_settled item 0]
    exact hprint.resolve_left fun hlong => absurd hlong.1 (not_lt.mpr hsettled)

theorem print_deserialize_seven : ∃ text', 0 ∉ text' ∧
    @print oneDigit (fun _ => 0) false true (.array [.number (.finite 7)]) = .ok (some (text' ++ [0])) ∧
    @deserialize oneDigit text' = .ok (some (settled (.array [.number (.finite 7)]))) ∧
    @print oneDigit (fun _ => 1) true true (settled (.array [.number (.finite 7)])) =
      .ok (some (text' ++ [0])) := by
  have hread : @deserialize oneDigit [91, 55, 32, 93] = .ok (some (.array [.number (.finite 7)])) := rfl
  refine @print_deserialize oneDigit _ _ _ _ false true true hread ?_ (by decide)
  intro value hvalue
  cases List.mem_singleton.mp hvalue
  exact printed_seven

end CJson

end ServerSdk
