import Mathlib.Algebra.Ring.Rat
import ServerSdk.Program.Access

namespace ServerSdk

open Memory

inductive Double where
  | finite (value : Rat)
  | infinite (negative : Bool)
  | nan
  deriving DecidableEq, Repr

inductive CJson where
  | null
  | bool (b : Bool)
  | number (valuedouble : Double)
  | string (valuestring : CString)
  | array (items : List CJson)
  | object (fields : List (CString × CJson))
  deriving Repr, Inhabited

class CNumbers where
  strtod : (text : List UInt8) → Double × Fin (text.length + 1)
  sprintf : ℕ → Rat → CString

namespace CJson

def quote : UInt8 := 34

def backslash : UInt8 := 92

def comma : UInt8 := 44

def keyColon : UInt8 := 58

def openBracket : UInt8 := 91

def closeBracket : UInt8 := 93

def openBrace : UInt8 := 123

def closeBrace : UInt8 := 125

def nullText : List UInt8 := [110, 117, 108, 108]

def falseText : List UInt8 := [102, 97, 108, 115, 101]

def trueText : List UInt8 := [116, 114, 117, 101]

def byteOrderMark : List UInt8 := [239, 187, 191]

def nestingLimit : ℕ := 1000

def isDigit (byte : UInt8) : Bool := 48 ≤ byte ∧ byte ≤ 57

def startsNumber (byte : UInt8) : Bool := byte = 45 ∨ isDigit byte

def isNumeric (byte : UInt8) : Bool :=
  isDigit byte ∨ byte = 43 ∨ byte = 45 ∨ byte = 101 ∨ byte = 69 ∨ byte = 46

def hexDigit (byte : UInt8) : Option ℕ :=
  if 48 ≤ byte ∧ byte ≤ 57 then some (byte.toNat - 48)
  else if 65 ≤ byte ∧ byte ≤ 70 then some (10 + byte.toNat - 65)
  else if 97 ≤ byte ∧ byte ≤ 102 then some (10 + byte.toNat - 97)
  else none

def simpleEscape (byte : UInt8) : Option UInt8 :=
  if byte = 98 then some 8
  else if byte = 102 then some 12
  else if byte = 110 then some 10
  else if byte = 114 then some 13
  else if byte = 116 then some 9
  else if byte = quote ∨ byte = backslash ∨ byte = 47 then some byte
  else none

def utf16Mark : UInt8 := 117

def utf8Tail : ℕ → ℕ → List UInt8 → ℕ × List UInt8
  | 0, codepoint, bytes => (codepoint, bytes)
  | position + 1, codepoint, bytes =>
      utf8Tail position (codepoint >>> 6) (UInt8.ofNat ((codepoint ||| 0x80) &&& 0xBF) :: bytes)

def utf8Bytes (length codepoint firstByteMark : ℕ) : List UInt8 :=
  let (codepoint, bytes) := utf8Tail (length - 1) codepoint []
  if length > 1 then UInt8.ofNat ((codepoint ||| firstByteMark) &&& 0xFF) :: bytes
  else UInt8.ofNat (codepoint &&& 0x7F) :: bytes

def utf8Encode (codepoint : ℕ) : Option (List UInt8) :=
  if codepoint < 0x80 then some (utf8Bytes 1 codepoint 0)
  else if codepoint < 0x800 then some (utf8Bytes 2 codepoint 0xC0)
  else if codepoint < 0x10000 then some (utf8Bytes 3 codepoint 0xE0)
  else if codepoint ≤ 0x10FFFF then some (utf8Bytes 4 codepoint 0xF0)
  else none

def surrogatePair (firstCode secondCode : ℕ) : ℕ :=
  0x10000 + (((firstCode &&& 0x3FF) <<< 10) ||| (secondCode &&& 0x3FF))

structure StringOutput where
  allocated : ℕ
  written : List UInt8
  deriving DecidableEq, Repr

def StringOutput.put (output : StringOutput) (bytes : List UInt8) : Access StringOutput :=
  if output.written.length + bytes.length ≤ output.allocated then
    .ok { output with written := output.written ++ bytes }
  else .error .write

section Strings

variable (content : List UInt8)

def parseHex4Within : ℕ → ℕ → ℕ → Access ℕ
  | 0, _, h => pure h
  | left + 1, index, h => do
      let byte ← read content index
      match hexDigit byte with
      | none => pure 0
      | some digit =>
          parseHex4Within left (index + 1) (if left = 0 then h + digit else (h + digit) <<< 4)

def parseHex4 (index : ℕ) : Access ℕ := parseHex4Within content 4 index 0

def utf16LiteralToUtf8 (inputPointer inputEnd : ℕ) : Access (Option (ℕ × List UInt8)) :=
  if inputEnd - inputPointer < 6 then pure none
  else do
    let firstCode ← parseHex4 content (inputPointer + 2)
    if 0xDC00 ≤ firstCode ∧ firstCode ≤ 0xDFFF then pure none
    else if 0xD800 ≤ firstCode ∧ firstCode ≤ 0xDBFF then
      let second := inputPointer + 6
      if inputEnd - second < 6 then pure none
      else if (← read content second) ≠ backslash then pure none
      else if (← read content (second + 1)) ≠ utf16Mark then pure none
      else do
        let secondCode ← parseHex4 content (second + 2)
        if secondCode < 0xDC00 ∨ 0xDFFF < secondCode then pure none
        else pure ((utf8Encode (surrogatePair firstCode secondCode)).map fun bytes => (12, bytes))
    else pure ((utf8Encode firstCode).map fun bytes => (6, bytes))

def scanString : ℕ → ℕ → ℕ → Access (Option (ℕ × ℕ))
  | 0, _, _ => .error .fuel
  | fuel + 1, inputEnd, skippedBytes =>
      if inputEnd < content.length then do
        let byte ← read content inputEnd
        if byte = quote then pure (some (inputEnd, skippedBytes))
        else if byte = backslash then
          if inputEnd + 1 ≥ content.length then pure none
          else scanString fuel (inputEnd + 2) (skippedBytes + 1)
        else scanString fuel (inputEnd + 1) skippedBytes
      else pure none

def unescape (inputEnd : ℕ) : ℕ → ℕ → StringOutput → Access (Option StringOutput)
  | 0, _, _ => .error .fuel
  | fuel + 1, inputPointer, output =>
      if inputPointer < inputEnd then do
        let byte ← read content inputPointer
        if byte ≠ backslash then
          let output ← output.put [byte]
          unescape inputEnd fuel (inputPointer + 1) output
        else do
          let escaped ← read content (inputPointer + 1)
          match simpleEscape escaped with
          | some byte =>
              let output ← output.put [byte]
              unescape inputEnd fuel (inputPointer + 2) output
          | none =>
              if escaped = utf16Mark then
                match ← utf16LiteralToUtf8 content inputPointer inputEnd with
                | none => pure none
                | some (sequenceLength, bytes) =>
                    let output ← output.put bytes
                    unescape inputEnd fuel (inputPointer + sequenceLength) output
              else pure none
      else pure (some output)

end Strings

structure ParseBuffer where
  content : List UInt8
  offset : ℕ
  depth : ℕ
  deriving DecidableEq, Repr

namespace ParseBuffer

def length (buffer : ParseBuffer) : ℕ := buffer.content.length

def canRead (buffer : ParseBuffer) (size : ℕ) : Bool := buffer.offset + size ≤ buffer.length

def canAccessAtIndex (buffer : ParseBuffer) (index : ℕ) : Bool :=
  buffer.offset + index < buffer.length

def byteAt (buffer : ParseBuffer) (index : ℕ) : Access UInt8 :=
  read buffer.content (buffer.offset + index)

def advance (buffer : ParseBuffer) (count : ℕ) : ParseBuffer :=
  { buffer with offset := buffer.offset + count }

def stepBack (buffer : ParseBuffer) : ParseBuffer := { buffer with offset := buffer.offset - 1 }

def nested (buffer : ParseBuffer) : ParseBuffer := { buffer with depth := buffer.depth + 1 }

def closed (buffer : ParseBuffer) : ParseBuffer :=
  { buffer with offset := buffer.offset + 1, depth := buffer.depth - 1 }

-- strncmp reads no further than the first byte that differs.
def matchesFrom (buffer : ParseBuffer) : ℕ → List UInt8 → Access Bool
  | _, [] => pure true
  | index, expected :: literal => do
      let byte ← buffer.byteAt index
      if byte = expected then matchesFrom buffer (index + 1) literal else pure false

def startsWith (buffer : ParseBuffer) (literal : List UInt8) : Access Bool :=
  if buffer.canRead literal.length then buffer.matchesFrom 0 literal else pure false

def isAt (buffer : ParseBuffer) (byte : UInt8) : Access Bool :=
  if buffer.canAccessAtIndex 0 then do return (← buffer.byteAt 0) = byte else pure false

def skipBlanks : ℕ → ParseBuffer → Access ParseBuffer
  | 0, _ => .error .fuel
  | fuel + 1, buffer =>
      if buffer.canAccessAtIndex 0 then do
        if (← buffer.byteAt 0) ≤ 32 then skipBlanks fuel (buffer.advance 1) else pure buffer
      else pure buffer

def skipWhitespace (buffer : ParseBuffer) : Access ParseBuffer := do
  let buffer ← skipBlanks (buffer.length + 1) buffer
  if buffer.offset = buffer.length then pure buffer.stepBack else pure buffer

def skipUtf8Bom (buffer : ParseBuffer) : Access ParseBuffer :=
  if buffer.canAccessAtIndex 4 then do
    if ← buffer.matchesFrom 0 byteOrderMark then pure (buffer.advance 3) else pure buffer
  else pure buffer

def copyNumber (buffer : ParseBuffer) : ℕ → ℕ → Access (List UInt8)
  | 0, _ => pure []
  | room + 1, index =>
      if buffer.canAccessAtIndex index then do
        let byte ← buffer.byteAt index
        if isNumeric byte then do return byte :: (← copyNumber buffer room (index + 1)) else pure []
      else pure []

def parseNumber [CNumbers] (buffer : ParseBuffer) : Access (Option (CJson × ParseBuffer)) := do
  let text ← buffer.copyNumber 63 0
  let (valuedouble, consumed) := CNumbers.strtod text
  if consumed.val = 0 then pure none
  else pure (some (.number valuedouble, buffer.advance consumed))

def parseString (buffer : ParseBuffer) : Access (Option (CString × ParseBuffer)) := do
  if (← buffer.byteAt 0) ≠ quote then pure none
  else
    let start := buffer.offset + 1
    match ← scanString buffer.content (buffer.length + 1) start 0 with
    | none => pure none
    | some (inputEnd, skippedBytes) =>
        let allocationLength := inputEnd - buffer.offset - skippedBytes
        match ← unescape buffer.content inputEnd (buffer.length + 1) start ⟨allocationLength + 1, []⟩ with
        | none => pure none
        | some output => do
            let output ← output.put [0]
            pure (some (.ofBlock output.written, { buffer with offset := inputEnd + 1 }))

end ParseBuffer

open ParseBuffer

def parseEnclosed {α : Type} (close : UInt8) (wrap : List α → CJson)
    (parseEntries : ParseBuffer → Access (Option (List α × ParseBuffer))) (buffer : ParseBuffer) :
    Access (Option (CJson × ParseBuffer)) := do
  let buffer ← (buffer.advance 1).skipWhitespace
  if ← buffer.isAt close then pure (some (wrap [], buffer.closed))
  else if buffer.canAccessAtIndex 0 = false then pure none
  else
    match ← parseEntries buffer.stepBack with
    | none => pure none
    | some (entries, buffer) =>
        if ← buffer.isAt close then pure (some (wrap entries, buffer.closed)) else pure none

def parseMore {α : Type} (entry : α)
    (parseEntries : ParseBuffer → Access (Option (List α × ParseBuffer))) (buffer : ParseBuffer) :
    Access (Option (List α × ParseBuffer)) := do
  let buffer ← buffer.skipWhitespace
  if ← buffer.isAt comma then
    match ← parseEntries buffer with
    | none => pure none
    | some (entries, buffer) => pure (some (entry :: entries, buffer))
  else pure (some ([entry], buffer))

variable [CNumbers]

-- The fuel stands for the recursion of the three functions; it is never exhausted.
mutual

def parseValue : ℕ → ParseBuffer → Access (Option (CJson × ParseBuffer))
  | 0, _ => .error .fuel
  | fuel + 1, buffer => do
      if ← buffer.startsWith nullText then pure (some (.null, buffer.advance 4))
      else if ← buffer.startsWith falseText then pure (some (.bool false, buffer.advance 5))
      else if ← buffer.startsWith trueText then pure (some (.bool true, buffer.advance 4))
      else if ← buffer.isAt quote then do
        match ← buffer.parseString with
        | none => pure none
        | some (valuestring, buffer) => pure (some (.string valuestring, buffer))
      else if buffer.canAccessAtIndex 0 && startsNumber (← buffer.byteAt 0) then buffer.parseNumber
      else if ← buffer.isAt openBracket then parseArray fuel buffer
      else if ← buffer.isAt openBrace then parseObject fuel buffer
      else pure none

def parseArray : ℕ → ParseBuffer → Access (Option (CJson × ParseBuffer))
  | 0, _ => .error .fuel
  | fuel + 1, buffer =>
      if buffer.depth ≥ nestingLimit then pure none
      else do
        if (← buffer.nested.byteAt 0) ≠ openBracket then pure none
        else parseEnclosed closeBracket .array (fun buffer => parseItems fuel buffer) buffer.nested

def parseItems : ℕ → ParseBuffer → Access (Option (List CJson × ParseBuffer))
  | 0, _ => .error .fuel
  | fuel + 1, buffer => do
      let buffer ← (buffer.advance 1).skipWhitespace
      match ← parseValue fuel buffer with
      | none => pure none
      | some (item, buffer) => parseMore item (fun buffer => parseItems fuel buffer) buffer

def parseObject : ℕ → ParseBuffer → Access (Option (CJson × ParseBuffer))
  | 0, _ => .error .fuel
  | fuel + 1, buffer =>
      if buffer.depth ≥ nestingLimit then pure none
      else do
        if (← buffer.nested.isAt openBrace) = false then pure none
        else parseEnclosed closeBrace .object (fun buffer => parseFields fuel buffer) buffer.nested

def parseFields : ℕ → ParseBuffer → Access (Option (List (CString × CJson) × ParseBuffer))
  | 0, _ => .error .fuel
  | fuel + 1, buffer => do
      let buffer ← (buffer.advance 1).skipWhitespace
      match ← buffer.parseString with
      | none => pure none
      | some (key, buffer) => do
          let buffer ← buffer.skipWhitespace
          if (← buffer.isAt keyColon) = false then pure none
          else do
            let buffer ← (buffer.advance 1).skipWhitespace
            match ← parseValue fuel buffer with
            | none => pure none
            | some (item, buffer) =>
                parseMore (key, item) (fun buffer => parseFields fuel buffer) buffer

end

def deserialize (text : List UInt8) : Access (Option CJson) := do
  let buffer : ParseBuffer := ⟨text ++ [0], 0, 0⟩
  let buffer ← (← buffer.skipUtf8Bom).skipWhitespace
  match ← parseValue (3 * (text.length + 1)) buffer with
  | none => pure none
  | some (item, _) => pure (some item)

end CJson

end ServerSdk
