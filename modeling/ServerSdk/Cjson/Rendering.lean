import ServerSdk.Cjson.Printer

namespace ServerSdk

open Memory

namespace CJson

def escapeByte (byte : UInt8) : List UInt8 :=
  if isNormal byte then [byte]
  else match escapeLetter byte with
    | some letter => [backslash, letter]
    | none => backslash :: unicodeLetters byte

def renderString (text : CString) : List UInt8 :=
  quote :: (text.bytes.flatMap escapeByte ++ [quote])

variable {byte : UInt8} {text : CString}

@[elab_as_elim]
theorem forall_byte {motive : UInt8 → Prop} (h : ∀ value : Fin 256, motive (.ofFin value))
    (byte : UInt8) : motive byte := h byte.toFin

theorem length_escapeByte (byte : UInt8) :
    (escapeByte byte).length = 1 + escapeCharacters byte := by
  refine forall_byte ?_ byte
  decide +kernel

theorem length_flatMap_escapeByte {bytes : List UInt8} :
    (bytes.flatMap escapeByte).length = bytes.length + escapes bytes := by
  induction bytes with
  | nil => rfl
  | cons byte bytes ih =>
      rw [List.flatMap_cons, List.length_append, ih, length_escapeByte, List.length_cons,
        escapes]
      omega

theorem escapeByte_of_escapeCharacters (h : escapeCharacters byte = 0) : escapeByte byte = [byte] := by
  have hlength : (escapeByte byte).length = 1 := by rw [length_escapeByte, h]
  rw [escapeByte] at hlength ⊢
  split_ifs at hlength ⊢ with hnormal
  · rfl
  · cases hletter : escapeLetter byte with
    | some letter =>
        rw [hletter] at hlength
        simp at hlength
    | none =>
        rw [hletter] at hlength
        simp [unicodeLetters] at hlength

theorem flatMap_escapeByte_of_escapes {bytes : List UInt8} (h : escapes bytes = 0) :
    bytes.flatMap escapeByte = bytes := by
  induction bytes with
  | nil => rfl
  | cons byte bytes ih =>
      rw [escapes, Nat.add_eq_zero_iff] at h
      rw [List.flatMap_cons, escapeByte_of_escapeCharacters h.1, ih h.2, List.singleton_append]

theorem zero_not_mem_escapeByte : byte ≠ 0 → 0 ∉ escapeByte byte := by
  refine forall_byte ?_ byte
  decide +kernel

theorem zero_not_mem_renderString : 0 ∉ renderString text := by
  rw [renderString, List.mem_cons, List.mem_append, List.mem_flatMap, List.mem_singleton]
  rintro (h | ⟨byte, hbyte, h⟩ | h)
  · exact absurd h (by decide)
  · refine zero_not_mem_escapeByte ?_ h
    rintro rfl
    exact text.terminated hbyte
  · exact absurd h (by decide)

theorem zero_not_mem_indent (format : Bool) {depth : ℕ} : 0 ∉ indent format depth := by
  cases format with
  | false => exact List.not_mem_nil
  | true =>
      intro hmem
      exact absurd (List.eq_of_mem_replicate hmem) (by decide)

variable [CNumbers] (format : Bool)

mutual

def render : ℕ → CJson → List UInt8
  | _, .null => nullText
  | _, .bool false => falseText
  | _, .bool true => trueText
  | _, .number valuedouble => numberText valuedouble
  | _, .string valuestring => renderString valuestring
  | depth, .array items => openBracket :: (renderItems (depth + 1) items ++ [closeBracket])
  | depth, .object fields =>
      opening format ++ (renderFields (depth + 1) fields ++ (indent format depth ++ [closeBrace]))

def renderItems : ℕ → List CJson → List UInt8
  | _, [] => []
  | depth, item :: items =>
      render depth item ++ ((if items.isEmpty then [] else separator format) ++ renderItems depth items)

def renderFields : ℕ → List (CString × CJson) → List UInt8
  | _, [] => []
  | depth, (key, item) :: fields =>
      indent format depth ++ (renderString key ++ (afterKey format ++ (render depth item ++
        (afterField format fields.isEmpty ++ renderFields depth fields))))

end

mutual

def numbers : CJson → List Double
  | .number valuedouble => [valuedouble]
  | .array items => itemNumbers items
  | .object fields => fieldNumbers fields
  | _ => []

def itemNumbers : List CJson → List Double
  | [] => []
  | item :: items => numbers item ++ itemNumbers items

def fieldNumbers : List (CString × CJson) → List Double
  | [] => []
  | (_, item) :: fields => numbers item ++ fieldNumbers fields

end

theorem zero_not_mem_numberText (valuedouble : Double) : 0 ∉ numberText valuedouble := by
  have hword : 0 ∉ nullText := by decide
  cases valuedouble with
  | finite value =>
      rw [numberText]
      split_ifs
      · exact (CNumbers.sprintf 15 value).terminated
      · exact (CNumbers.sprintf 17 value).terminated
  | infinite negative => exact hword
  | nan => exact hword

variable {format : Bool}

mutual

theorem zero_not_mem_render (item : CJson) (depth : ℕ) : 0 ∉ render format depth item := by
  cases item with
  | null =>
      rw [render]
      decide
  | bool b =>
      cases b with
      | false =>
          rw [render]
          decide
      | true =>
          rw [render]
          decide
  | number valuedouble =>
      rw [render]
      exact zero_not_mem_numberText valuedouble
  | string valuestring =>
      rw [render]
      exact zero_not_mem_renderString
  | array items =>
      have hitems := zero_not_mem_renderItems items (depth + 1)
      rw [render, List.mem_cons, List.mem_append, not_or, not_or]
      exact ⟨by decide, hitems, by decide⟩
  | object fields =>
      have hopening : 0 ∉ opening format := by cases format <;> decide
      have hfields := zero_not_mem_renderFields fields (depth + 1)
      rw [render]
      simp only [List.mem_append, not_or]
      exact ⟨hopening, hfields, zero_not_mem_indent format, by decide⟩

theorem zero_not_mem_renderItems (items : List CJson) (depth : ℕ) :
    0 ∉ renderItems format depth items := by
  cases items with
  | nil => exact List.not_mem_nil
  | cons item items =>
      have hcomma : 0 ∉ if items.isEmpty then [] else separator format := by
        split_ifs
        · exact List.not_mem_nil
        · cases format <;> decide
      rw [renderItems]
      simp only [List.mem_append, not_or]
      exact ⟨zero_not_mem_render item depth, hcomma, zero_not_mem_renderItems items depth⟩

theorem zero_not_mem_renderFields (fields : List (CString × CJson)) (depth : ℕ) :
    0 ∉ renderFields format depth fields := by
  cases fields with
  | nil => exact List.not_mem_nil
  | cons field fields =>
      obtain ⟨key, item⟩ := field
      have hcolon : 0 ∉ afterKey format := by cases format <;> decide
      have hending : 0 ∉ afterField format fields.isEmpty := by
        cases format <;> cases fields.isEmpty <;> decide
      rw [renderFields]
      simp only [List.mem_append, not_or]
      exact ⟨zero_not_mem_indent format, zero_not_mem_renderString, hcolon,
        zero_not_mem_render item depth, hending, zero_not_mem_renderFields fields depth⟩

end

end CJson

end ServerSdk
