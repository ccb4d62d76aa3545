import ServerSdk.Cjson.Parser

namespace ServerSdk

open Memory

namespace CJson

def afterBlanks (text : List UInt8) : List UInt8 := text.dropWhile fun byte => byte ≤ 32

def hex4Within : List UInt8 → ℕ → ℕ
  | [], h => h
  | byte :: digits, h =>
      match hexDigit byte with
      | none => 0
      | some digit => hex4Within digits (if digits = [] then h + digit else (h + digit) <<< 4)

def hex4 (digits : List UInt8) : ℕ := hex4Within digits 0

def secondHalf (firstCode : ℕ) : List UInt8 → Option (Bool × List UInt8)
  | x :: y :: a :: b :: c :: d :: _ =>
      let secondCode := hex4 [a, b, c, d]
      if x ≠ backslash then none
      else if y ≠ utf16Mark then none
      else if secondCode < 0xDC00 ∨ 0xDFFF < secondCode then none
      else (utf8Encode (surrogatePair firstCode secondCode)).map fun bytes => (true, bytes)
  | _ => none

def utf16Literal : List UInt8 → Option (Bool × List UInt8)
  | _ :: _ :: a :: b :: c :: d :: rest =>
      let firstCode := hex4 [a, b, c, d]
      if 0xDC00 ≤ firstCode ∧ firstCode ≤ 0xDFFF then none
      else if 0xD800 ≤ firstCode ∧ firstCode ≤ 0xDBFF then secondHalf firstCode rest
      else (utf8Encode firstCode).map fun bytes => (false, bytes)
  | _ => none

def literalLength (paired : Bool) : ℕ := if paired then 12 else 6

theorem literalLength_pos (paired : Bool) : 6 ≤ literalLength paired := by cases paired <;> decide

def decode : List UInt8 → Option (List UInt8)
  | [] => some []
  | byte :: body =>
      if byte ≠ backslash then (decode body).map (byte :: ·)
      else match body with
        | [] => some [quote]
        | escaped :: rest =>
            match simpleEscape escaped with
            | some byte => (decode rest).map (byte :: ·)
            | none =>
                if escaped = utf16Mark then
                  match utf16Literal (byte :: escaped :: rest) with
                  | none => none
                  | some (paired, bytes) =>
                      (decode ((byte :: escaped :: rest).drop (literalLength paired))).map (bytes ++ ·)
                else none
termination_by body => body.length
decreasing_by
  all_goals simp only [List.length_cons, List.length_drop]
  all_goals try have := literalLength_pos paired
  all_goals omega

def closing : List UInt8 → Option (List UInt8 × List UInt8)
  | [] => none
  | byte :: text =>
      if byte = quote then some ([], text)
      else if byte = backslash then
        match text with
        | [] => none
        | escaped :: text => (closing text).map fun (body, rest) => (byte :: escaped :: body, rest)
      else (closing text).map fun (body, rest) => (byte :: body, rest)

def readString : List UInt8 → Option (CString × List UInt8)
  | [] => none
  | byte :: text =>
      if byte ≠ quote then none
      else match closing text with
        | none => none
        | some (body, rest) => (decode body).map fun bytes => (.ofBlock bytes, rest)

variable [CNumbers]

def readNumber (text : List UInt8) : Option (Double × List UInt8) :=
  let (valuedouble, consumed) := CNumbers.strtod ((text.takeWhile isNumeric).take 63)
  if consumed.val = 0 then none else some (valuedouble, text.drop consumed)

mutual

inductive Value : ℕ → List UInt8 → CJson → List UInt8 → Prop
  | nullWord {n : ℕ} {rest : List UInt8} : Value n (nullText ++ rest) .null rest
  | falseWord {n : ℕ} {rest : List UInt8} : Value n (falseText ++ rest) (.bool false) rest
  | trueWord {n : ℕ} {rest : List UInt8} : Value n (trueText ++ rest) (.bool true) rest
  | string {n : ℕ} {text rest : List UInt8} {valuestring : CString} :
      readString text = some (valuestring, rest) → Value n text (.string valuestring) rest
  | number {n : ℕ} {byte : UInt8} {text rest : List UInt8} {valuedouble : Double} :
      startsNumber byte = true → readNumber (byte :: text) = some (valuedouble, rest) →
      Value n (byte :: text) (.number valuedouble) rest
  | emptyArray {n : ℕ} {text rest : List UInt8} : afterBlanks text = closeBracket :: rest →
      Value (n + 1) (openBracket :: text) (.array []) rest
  | array {n : ℕ} {text rest : List UInt8} {items : List CJson} :
      Items n text items (closeBracket :: rest) →
      Value (n + 1) (openBracket :: text) (.array items) rest
  | emptyObject {n : ℕ} {text rest : List UInt8} : afterBlanks text = closeBrace :: rest →
      Value (n + 1) (openBrace :: text) (.object []) rest
  | object {n : ℕ} {text rest : List UInt8} {fields : List (CString × CJson)} :
      Fields n text fields (closeBrace :: rest) →
      Value (n + 1) (openBrace :: text) (.object fields) rest

inductive Items : ℕ → List UInt8 → List CJson → List UInt8 → Prop
  | last {n : ℕ} {text rest : List UInt8} {item : CJson} : Value n (afterBlanks text) item rest →
      (afterBlanks rest).head? ≠ some comma → Items n text [item] (afterBlanks rest)
  | more {n : ℕ} {text text' text'' rest : List UInt8} {item : CJson} {items : List CJson} :
      Value n (afterBlanks text) item text' → afterBlanks text' = comma :: text'' →
      Items n text'' items rest → Items n text (item :: items) rest

inductive Fields : ℕ → List UInt8 → List (CString × CJson) → List UInt8 → Prop
  | last {n : ℕ} {text text' text'' rest : List UInt8} {key : CString} {item : CJson} :
      readString (afterBlanks text) = some (key, text') →
      afterBlanks text' = keyColon :: text'' → Value n (afterBlanks text'') item rest →
      (afterBlanks rest).head? ≠ some comma → Fields n text [(key, item)] (afterBlanks rest)
  | more {n : ℕ} {text text' text'' text''' text'''' rest : List UInt8} {key : CString} {item : CJson}
      {fields : List (CString × CJson)} :
      readString (afterBlanks text) = some (key, text') →
      afterBlanks text' = keyColon :: text'' → Value n (afterBlanks text'') item text''' →
      afterBlanks text''' = comma :: text'''' → Fields n text'''' fields rest →
      Fields n text ((key, item) :: fields) rest

end

def afterMark (text : List UInt8) : List UInt8 :=
  if 4 ≤ text.length ∧ byteOrderMark.isPrefixOf text then text.drop 3 else text

def Denotes (text : List UInt8) (item : CJson) : Prop :=
  ∃ rest, Value nestingLimit (afterBlanks (afterMark text)) item rest

end CJson

end ServerSdk
