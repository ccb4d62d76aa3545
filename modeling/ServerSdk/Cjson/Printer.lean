import ServerSdk.Cjson.Parser

namespace ServerSdk

open Memory

namespace CJson

def intMax : ℕ := 2147483647

def space : UInt8 := 32

def tab : UInt8 := 9

def newline : UInt8 := 10

structure PrintBuffer where
  block : List UInt8
  offset : ℕ
  depth : ℕ
  format : Bool
  reallocates : Bool
  deriving DecidableEq, Repr

namespace PrintBuffer

def grow (garbage : ℕ → UInt8) (newsize : ℕ) (p : PrintBuffer) : PrintBuffer :=
  if p.reallocates then { p with block := realloc garbage p.block newsize }
  else { p with block := memcpy (realloc garbage [] newsize) 0 (p.block.take (p.offset + 1)) }

def ensure (garbage : ℕ → UInt8) (needed : ℕ) (p : PrintBuffer) : Option PrintBuffer :=
  if 0 < p.block.length ∧ p.block.length ≤ p.offset then none
  else if intMax < needed then none
  else
    let needed := needed + p.offset + 1
    if needed ≤ p.block.length then some p
    else if intMax / 2 < needed then
      if needed ≤ intMax then some (p.grow garbage intMax) else none
    else some (p.grow garbage (needed * 2))

def put (p : PrintBuffer) (index : ℕ) (bytes : List UInt8) : Access PrintBuffer := do
  let block ← write p.block (p.offset + index) bytes
  pure { p with block }

def moveOn (p : PrintBuffer) (count : ℕ) : PrintBuffer := { p with offset := p.offset + count }

def deeper (p : PrintBuffer) : PrintBuffer := { p with depth := p.depth + 1 }

def shallower (p : PrintBuffer) : PrintBuffer := { p with depth := p.depth - 1 }

def updateOffset (p : PrintBuffer) : Access PrintBuffer := do
  let length ← strlen p.block p.offset
  pure (p.moveOn length)

end PrintBuffer

open PrintBuffer

def escapeLetter (byte : UInt8) : Option UInt8 :=
  if byte = backslash then some backslash
  else if byte = quote then some quote
  else if byte = 8 then some 98
  else if byte = 12 then some 102
  else if byte = 10 then some 110
  else if byte = 13 then some 114
  else if byte = 9 then some 116
  else none

def escapeCharacters (byte : UInt8) : ℕ :=
  if (escapeLetter byte).isSome then 1 else if byte < 32 then 5 else 0

def escapes : List UInt8 → ℕ
  | [] => 0
  | byte :: input => escapeCharacters byte + escapes input

def isNormal (byte : UInt8) : Bool := 31 < byte ∧ byte ≠ quote ∧ byte ≠ backslash

def lowerHex (digit : ℕ) : UInt8 := UInt8.ofNat (if digit < 10 then 48 + digit else 87 + digit)

def unicodeLetters (byte : UInt8) : List UInt8 :=
  [utf16Mark, 48, 48, lowerHex (byte.toNat / 16), lowerHex (byte.toNat % 16)]

def escapeLoop : List UInt8 → ℕ → PrintBuffer → Access PrintBuffer
  | [], _, p => pure p
  | byte :: input, pointer, p =>
      if isNormal byte then do
        let p ← p.put pointer [byte]
        escapeLoop input (pointer + 1) p
      else do
        let p ← p.put pointer [backslash]
        match escapeLetter byte with
        | some letter => do
            let p ← p.put (pointer + 1) [letter]
            escapeLoop input (pointer + 2) p
        | none => do
            let p ← p.put (pointer + 1) (unicodeLetters byte ++ [0])
            escapeLoop input (pointer + 6) p

def printStringPtr (garbage : ℕ → UInt8) (input : CString) (p : PrintBuffer) :
    Access (Option PrintBuffer) :=
  let outputLength := input.bytes.length + escapes input.bytes
  match p.ensure garbage (outputLength + 3) with
  | none => pure none
  | some p =>
      if escapes input.bytes = 0 then do
        let p ← p.put 0 [quote]
        let p ← p.put 1 input.bytes
        let p ← p.put (outputLength + 1) [quote]
        let p ← p.put (outputLength + 2) [0]
        pure (some p)
      else do
        let p ← p.put 0 [quote]
        let p ← escapeLoop input.bytes 1 p
        let p ← p.put (outputLength + 1) [quote]
        let p ← p.put (outputLength + 2) [0]
        pure (some p)

def printWord (garbage : ℕ → UInt8) (word : List UInt8) (p : PrintBuffer) :
    Access (Option PrintBuffer) :=
  match p.ensure garbage (word.length + 1) with
  | none => pure none
  | some p => do return some (← p.put 0 (word ++ [0]))

section Numbers

variable [CNumbers]

def recovers (text : List UInt8) (value : Rat) : Bool :=
  let (test, consumed) := CNumbers.strtod text
  consumed.val ≠ 0 ∧ test = .finite value

def numberText : Double → List UInt8
  | .finite value =>
      let text := (CNumbers.sprintf 15 value).bytes
      if recovers text value then text else (CNumbers.sprintf 17 value).bytes
  | .infinite _ | .nan => nullText

def printNumber (garbage : ℕ → UInt8) (valuedouble : Double) (p : PrintBuffer) :
    Access (Option PrintBuffer) :=
  let text := numberText valuedouble
  if 25 < text.length then pure none
  else match p.ensure garbage (text.length + 1) with
    | none => pure none
    | some p => do
        let p ← p.put 0 text
        let p ← p.put text.length [0]
        pure (some (p.moveOn text.length))

end Numbers

def separator (format : Bool) : List UInt8 := if format then [comma, space] else [comma]

def opening (format : Bool) : List UInt8 := if format then [openBrace, newline] else [openBrace]

def afterKey (format : Bool) : List UInt8 := if format then [keyColon, tab] else [keyColon]

def afterField (format last : Bool) : List UInt8 :=
  (if last then [] else [comma]) ++ (if format then [newline] else [])

def indent (format : Bool) (depth : ℕ) : List UInt8 := if format then List.replicate depth tab else []

def printBytes (garbage : ℕ → UInt8) (needed : ℕ) (bytes terminator : List UInt8) (p : PrintBuffer) :
    Access (Option PrintBuffer) :=
  match p.ensure garbage needed with
  | none => pure none
  | some p => do
      let p ← p.put 0 (bytes ++ terminator)
      pure (some (p.moveOn bytes.length))

variable [CNumbers] (garbage : ℕ → UInt8)

mutual

def printValue : CJson → PrintBuffer → Access (Option PrintBuffer)
  | .null, p => printWord garbage nullText p
  | .bool false, p => printWord garbage falseText p
  | .bool true, p => printWord garbage trueText p
  | .number valuedouble, p => printNumber garbage valuedouble p
  | .string valuestring, p => printStringPtr garbage valuestring p
  | .array items, p =>
      attempt (printBytes garbage 1 [openBracket] [] p) fun p =>
      attempt (printItems items p.deeper) fun p =>
      match p.ensure garbage 2 with
      | none => pure none
      | some p => do
          let p ← p.put 0 [closeBracket, 0]
          pure (some p.shallower)
  | .object fields, p =>
      attempt (printBytes garbage ((opening p.format).length + 1) (opening p.format) [] p) fun p =>
      attempt (printFields fields p.deeper) fun p =>
      match p.ensure garbage (if p.format then p.depth + 1 else 2) with
      | none => pure none
      | some p => do
          let p ← p.put 0 (indent p.format (p.depth - 1) ++ [closeBrace, 0])
          pure (some p.shallower)

def printItems : List CJson → PrintBuffer → Access (Option PrintBuffer)
  | [], p => pure (some p)
  | item :: items, p =>
      attempt (printValue item p) fun p => do
        let p ← p.updateOffset
        if items.isEmpty then printItems items p
        else
          let comma := separator p.format
          attempt (printBytes garbage (comma.length + 1) comma [0] p) fun p => printItems items p

def printFields : List (CString × CJson) → PrintBuffer → Access (Option PrintBuffer)
  | [], p => pure (some p)
  | (key, item) :: fields, p =>
      attempt (if p.format then printBytes garbage p.depth (indent true p.depth) [] p
        else pure (some p)) fun p =>
      attempt (printStringPtr garbage key p) fun p => do
      let p ← p.updateOffset
      attempt (printBytes garbage (afterKey p.format).length (afterKey p.format) [] p) fun p =>
        attempt (printValue item p) fun p => do
        let p ← p.updateOffset
        let ending := afterField p.format fields.isEmpty
        attempt (printBytes garbage (ending.length + 1) ending [0] p) fun p => printFields fields p

end

def print (reallocates format : Bool) (item : CJson) : Access (Option (List UInt8)) :=
  attempt (printValue garbage item ⟨realloc garbage [] 256, 0, 0, format, reallocates⟩) fun p => do
    let p ← p.updateOffset
    if reallocates then pure (some (realloc garbage p.block (p.offset + 1)))
    else
      let printed := realloc garbage [] (p.offset + 1)
      pure (some ((memcpy printed 0 (p.block.take (min p.block.length (p.offset + 1)))).set p.offset 0))

def serialize (reallocates : Bool) (item : CJson) : Access (Option (List UInt8)) :=
  print garbage reallocates false item

end CJson

end ServerSdk
