import ServerSdk.Program.Framing
import ServerSdk.Program.Memory

namespace ServerSdk

open Memory

def newline : UInt8 := 10

def colon : UInt8 := 58

def space : UInt8 := 32

def dataField : List UInt8 := [100, 97, 116, 97, 58]

def eventField : List UInt8 := [101, 118, 101, 110, 116, 58]

structure SseEvent where
  name : List UInt8
  body : List UInt8
  deriving DecidableEq, Repr

abbrev SseDispatch := List SseEvent → SseEvent → Bool

structure SseMessage where
  eventName : Option (List UInt8)
  eventBody : Option (List UInt8)
  context : List SseEvent
  deriving DecidableEq, Repr

structure SseParser extends SseMessage where
  buffer : Option (List UInt8)
  bufferSize : ℕ
  deriving DecidableEq, Repr

structure SseChunk where
  bytes : List UInt8
  garbage : ℕ → UInt8

def skipSpace (line : List UInt8) : List UInt8 :=
  if line.head? = some space then line.tail else line

namespace SseMessage

def dispatchEvent (dispatch : SseDispatch) (message : SseMessage) : Bool × List SseEvent :=
  match message.eventName, message.eventBody with
  | some name, some body =>
      let event : SseEvent := ⟨cString name, cString body⟩
      (dispatch message.context event, message.context ++ [event])
  | _, _ => (true, message.context)

def appendBody (garbage : ℕ → UInt8) (eventBody : Option (List UInt8)) (line : List UInt8) :
    List UInt8 :=
  let lineSize := line.length
  match eventBody with
  | none =>
      let block := realloc garbage [] (lineSize + 1)
      (memcpy block 0 line).set lineSize 0
  | some body =>
      let currentBodySize := (cString body).length
      let block := realloc garbage body (lineSize + currentBodySize + 1 + 1)
      let block := block.set currentBodySize newline
      (memcpy block (currentBodySize + 1) line).set (currentBodySize + 1 + lineSize) 0

def processLine (dispatch : SseDispatch) (garbage : ℕ → UInt8) (line : List UInt8)
    (message : SseMessage) : Bool × SseMessage :=
  if line.head? = some colon then (true, message)
  else if line = [] then
    let (success, context) := message.dispatchEvent dispatch
    (success, ⟨none, none, context⟩)
  else if dataField.isPrefixOf line then
    let line := skipSpace (line.drop 5)
    (true, { message with eventBody := some (appendBody garbage message.eventBody line) })
  else if eventField.isPrefixOf line then
    let line := skipSpace (line.drop 6)
    (true, { message with eventName := some (line ++ [0]) })
  else (true, message)

end SseMessage

namespace SseParser

def initial (context : List SseEvent) : SseParser := ⟨⟨none, none, context⟩, none, 0⟩

def destroy (parser : SseParser) : SseParser :=
  { parser with buffer := none, eventName := none, eventBody := none }

-- Every pass consumes a byte at least, so that the size of the buffer bounds their number.
def scan (dispatch : SseDispatch) (garbage : ℕ → UInt8) (bufferSize : ℕ) :
    ℕ → ℕ → List UInt8 → SseMessage → Bool × ℕ × List UInt8 × SseMessage
  | 0, consumed, block, message => (true, consumed, block, message)
  | passes + 1, consumed, block, message =>
      match memchr block consumed (bufferSize - consumed) newline with
      | none => (true, consumed, block, message)
      | some newLineLocation =>
          let block := block.set newLineLocation 0
          match message.processLine dispatch garbage (cString (block.drop consumed)) with
          | (false, message) => (false, consumed, block, message)
          | (true, message) =>
              scan dispatch garbage bufferSize passes (newLineLocation + 1) block message

def process (dispatch : SseDispatch) (chunk : SseChunk) (parser : SseParser) : Bool × SseParser :=
  if chunk.bytes = [] then (true, parser)
  else
    let block := realloc chunk.garbage (parser.buffer.getD [])
      (parser.bufferSize + chunk.bytes.length + 1)
    let block := memcpy block parser.bufferSize chunk.bytes
    let bufferSize := parser.bufferSize + chunk.bytes.length
    let block := block.set bufferSize 0
    match scan dispatch chunk.garbage bufferSize bufferSize 0 block parser.toSseMessage with
    | (false, _, block, message) => (false, ⟨message, some block, bufferSize⟩)
    | (true, consumed, block, message) =>
        if consumed = 0 then (true, ⟨message, some block, bufferSize⟩)
        else
          let remaining := bufferSize - consumed
          let block := memcpy block 0 ((block.drop consumed).take remaining)
          (true, ⟨message, some block, remaining⟩)

def processAll (dispatch : SseDispatch) : List SseChunk → SseParser → Option ℕ × SseParser
  | [], parser => (none, parser)
  | chunk :: chunks, parser =>
      match parser.process dispatch chunk with
      | (false, parser) => (some 0, parser)
      | (true, parser) =>
          let (failed, parser) := processAll dispatch chunks parser
          (failed.map (· + 1), parser)

end SseParser

section Scanning

variable {dispatch : SseDispatch} {garbage garbage' : ℕ → UInt8} {message : SseMessage}
  {block line rest : List UInt8} {bufferSize consumed passes : ℕ}

theorem appendBody_none : SseMessage.appendBody garbage none line = line ++ [0] := by
  have hrest : ((realloc garbage [] (line.length + 1)).drop line.length).length = 1 := by simp
  obtain ⟨byte, hbyte⟩ := List.length_eq_one_iff.mp hrest
  have hblock : memcpy (realloc garbage [] (line.length + 1)) 0 line = line ++ [byte] := by
    simp [memcpy, hbyte]
  rw [SseMessage.appendBody, hblock]
  simp

theorem appendBody_some {body : List UInt8} :
    SseMessage.appendBody garbage (some body) line = cString body ++ newline :: (line ++ [0]) := by
  have hsize : (cString body).length ≤ line.length + (cString body).length + 1 + 1 := by omega
  obtain ⟨tail, hblock, htail⟩ := @realloc_cString _ garbage body hsize
  have hrest : (tail.drop (line.length + 1)).length = 1 := by
    rw [List.length_drop, htail]
    omega
  obtain ⟨byte, hbyte⟩ := List.length_eq_one_iff.mp hrest
  have hnewline : (cString body ++ tail).set (cString body).length newline =
      (cString body ++ [newline]) ++ tail.tail := by
    cases tail with
    | nil => simp at hrest
    | cons first tail => simp
  have hcopied : memcpy ((cString body ++ [newline]) ++ tail.tail) ((cString body).length + 1) line =
      (cString body ++ newline :: line) ++ [byte] := by
    rw [memcpy_append (by simp), List.drop_tail, hbyte]
    simp
  have hlast : (cString body).length + 1 + line.length = (cString body ++ newline :: line).length := by
    simp only [List.length_append, List.length_cons]
    omega
  rw [SseMessage.appendBody, hblock, hnewline, hcopied, hlast, List.set_append_right _ _ le_rfl]
  simp

theorem processLine_garbage :
    message.processLine dispatch garbage line = message.processLine dispatch garbage' line := by
  have hbody : SseMessage.appendBody garbage = SseMessage.appendBody garbage' := by
    funext eventBody line
    cases eventBody with
    | none => rw [appendBody_none, appendBody_none]
    | some body => rw [appendBody_some, appendBody_some]
  rw [SseMessage.processLine, SseMessage.processLine, hbody]

def onLine (dispatch : SseDispatch) (garbage : ℕ → UInt8) (line : List UInt8) (message : SseMessage) :
    Bool × SseMessage :=
  message.processLine dispatch garbage (cString line)

structure Scanned (bufferSize : ℕ) (block : List UInt8)
    (framed : Framing.Framed UInt8 SseMessage) (result : Bool × ℕ × List UInt8 × SseMessage) : Prop where
  success : result.1 = !framed.failed
  message : result.2.2.2 = framed.state
  block : result.2.2.1.length = block.length
  consumed : result.2.1 ≤ bufferSize
  line : result.1 = true →
    (result.2.2.1.drop result.2.1).take (bufferSize - result.2.1) = framed.line

theorem scanned_scan (hblock : bufferSize ≤ block.length) (hconsumed : consumed ≤ bufferSize)
    (hrest : (block.drop consumed).take (bufferSize - consumed) = rest) (hpasses : rest.length ≤ passes) :
    Scanned bufferSize block
      (Framing.feed newline (onLine dispatch garbage) ⟨[], message, false⟩ rest)
      (SseParser.scan dispatch garbage bufferSize passes consumed block message) := by
  induction passes generalizing consumed block message rest with
  | zero =>
      have hnil : rest = [] := List.length_eq_zero_iff.mp (Nat.le_zero.mp hpasses)
      subst hnil
      exact ⟨rfl, rfl, rfl, hconsumed, fun _ => hrest⟩
  | succ passes ih =>
      rcases Framing.exists_line newline rest with hnone | ⟨line, later, rfl, hline⟩
      · rw [SseParser.scan, memchr_of_not_mem (by rw [hrest]; exact hnone),
          Framing.feed_of_not_mem hnone rfl]
        exact ⟨rfl, rfl, rfl, hconsumed, fun _ => hrest⟩
      · have hlength : (line ++ newline :: later).length = bufferSize - consumed := by
          rw [← hrest, List.length_take, List.length_drop]
          omega
        rw [List.length_append, List.length_cons] at hlength hpasses
        obtain ⟨beyond, hdrop⟩ : ∃ beyond, block.drop consumed = line ++ newline :: (later ++ beyond) := by
          refine ⟨(block.drop consumed).drop (bufferSize - consumed), ?_⟩
          rw [← List.cons_append, ← List.append_assoc, ← hrest, List.take_append_drop]
        have hset := @drop_set_of_drop _ block consumed line (later ++ beyond) newline 0 hdrop
        have hlater : ((block.set (consumed + line.length) 0).drop (consumed + line.length + 1)).take
            (bufferSize - (consumed + line.length + 1)) = later := by
          have hsize : bufferSize - (consumed + line.length + 1) = later.length := by omega
          rw [hsize, Nat.add_assoc, ← List.drop_drop, hset]
          simp
        rw [SseParser.scan, memchr_of_mem hrest hline]
        simp only [hset, cString_append]
        rw [Framing.feed_line hline rfl, List.nil_append, onLine]
        cases hprocess : message.processLine dispatch garbage (cString line) with
        | mk success after =>
            cases success with
            | false =>
                rw [Framing.feed_of_failed rfl]
                exact ⟨rfl, rfl, by simp, hconsumed, nofun⟩
            | true =>
                have hscanned := @ih after (block.set (consumed + line.length) 0) later
                  (consumed + line.length + 1) (by simpa using hblock) (by omega) hlater (by omega)
                exact ⟨hscanned.success, hscanned.message, by rw [hscanned.block, List.length_set],
                  hscanned.consumed, hscanned.line⟩

theorem onLine_garbage : onLine dispatch garbage = onLine dispatch garbage' := by
  funext line message
  exact processLine_garbage

end Scanning

def readStream (dispatch : SseDispatch) (message : SseMessage) (bytes : List UInt8) :
    Framing.Framed UInt8 SseMessage :=
  Framing.feed newline (onLine dispatch fun _ => 0) ⟨[], message, false⟩ bytes

def SseParser.buffered (parser : SseParser) (garbage : ℕ → UInt8) : List UInt8 :=
  realloc garbage (parser.buffer.getD []) parser.bufferSize

theorem SseParser.buffered_of_le {message : SseMessage} {block : List UInt8} {bufferSize : ℕ}
    (h : bufferSize ≤ block.length) (garbage : ℕ → UInt8) :
    (SseParser.mk message (some block) bufferSize).buffered garbage = block.take bufferSize :=
  realloc_of_le h

theorem SseParser.buffered_moved {message : SseMessage} {block moved : List UInt8} {bufferSize : ℕ}
    (hsize : moved.length = bufferSize) (h : moved.length ≤ block.length) (garbage : ℕ → UInt8) :
    (SseParser.mk message (some (memcpy block 0 moved)) bufferSize).buffered garbage = moved := by
  subst hsize
  have hblock : moved.length ≤ (memcpy block 0 moved).length := by
    rw [length_memcpy_zero h]
    exact h
  rw [buffered_of_le hblock, take_memcpy_zero]

structure Processed (framed : Framing.Framed UInt8 SseMessage) (size : ℕ)
    (result : Bool × SseParser) : Prop where
  success : result.1 = !framed.failed
  message : result.2.toSseMessage = framed.state
  buffered : framed.failed = false → ∀ garbage, result.2.buffered garbage = framed.line
  kept : framed.failed = true → result.2.bufferSize = size

theorem SseParser.length_received (parser : SseParser) (chunk : SseChunk) :
    (parser.buffered chunk.garbage ++ chunk.bytes).length =
      parser.bufferSize + chunk.bytes.length := by
  rw [List.length_append, buffered, length_realloc]

theorem SseParser.filled (parser : SseParser) (chunk : SseChunk) :
    (memcpy (realloc chunk.garbage (parser.buffer.getD [])
      (parser.bufferSize + chunk.bytes.length + 1)) parser.bufferSize chunk.bytes).set
        (parser.bufferSize + chunk.bytes.length) 0 =
      parser.buffered chunk.garbage ++ chunk.bytes ++ [0] := by
  have hlast : ((realloc chunk.garbage (parser.buffer.getD [])
      (parser.bufferSize + chunk.bytes.length + 1)).drop
        (parser.bufferSize + chunk.bytes.length)).length = 1 := by
    rw [List.length_drop, length_realloc]
    omega
  obtain ⟨byte, hbyte⟩ := List.length_eq_one_iff.mp hlast
  have hlength := (parser.length_received chunk).symm
  have hcopied : memcpy (realloc chunk.garbage (parser.buffer.getD [])
      (parser.bufferSize + chunk.bytes.length + 1)) parser.bufferSize chunk.bytes =
        (parser.buffered chunk.garbage ++ chunk.bytes) ++ [byte] := by
    rw [memcpy, hbyte, take_realloc (by omega), List.append_assoc]
    rfl
  rw [hcopied, hlength, List.set_append_right _ _ le_rfl]
  simp

theorem SseParser.scanned_filled (dispatch : SseDispatch) (parser : SseParser) (chunk : SseChunk) :
    Scanned (parser.bufferSize + chunk.bytes.length)
      (parser.buffered chunk.garbage ++ chunk.bytes ++ [0])
      (readStream dispatch parser.toSseMessage (parser.buffered chunk.garbage ++ chunk.bytes))
      (scan dispatch chunk.garbage (parser.bufferSize + chunk.bytes.length)
        (parser.bufferSize + chunk.bytes.length) 0
        (parser.buffered chunk.garbage ++ chunk.bytes ++ [0]) parser.toSseMessage) := by
  have hlength := parser.length_received chunk
  have hblock : parser.bufferSize + chunk.bytes.length ≤
      (parser.buffered chunk.garbage ++ chunk.bytes ++ [0]).length := by
    rw [List.length_append, hlength]
    omega
  have hregion : ((parser.buffered chunk.garbage ++ chunk.bytes ++ [0]).drop 0).take
      (parser.bufferSize + chunk.bytes.length - 0) = parser.buffered chunk.garbage ++ chunk.bytes := by
    rw [List.drop_zero, Nat.sub_zero, ← hlength, List.take_left]
  rw [readStream, @onLine_garbage dispatch (fun _ => 0) chunk.garbage]
  exact scanned_scan hblock (by omega) hregion (by omega)

theorem SseParser.processed_of_scanned {framed : Framing.Framed UInt8 SseMessage} {size consumed : ℕ}
    {filled block : List UInt8} {message : SseMessage}
    (h : Scanned size filled framed (true, consumed, block, message)) (hsize : size ≤ filled.length) :
    Processed framed size
      (if consumed = 0 then (true, ⟨message, some block, size⟩)
      else (true, ⟨message, some (memcpy block 0 ((block.drop consumed).take (size - consumed))),
        size - consumed⟩)) := by
  have hblock : size ≤ block.length := hsize.trans_eq h.block.symm
  have hconsumed : consumed ≤ size := h.consumed
  have hfailed : framed.failed = false := by simpa using h.success
  have hkept : ∀ kept, framed.failed = true → kept = size := by
    intro kept htrue
    cases hfailed.symm.trans htrue
  split_ifs with hzero
  · subst hzero
    refine ⟨h.success, h.message, ?_, hkept _⟩
    intro _ garbage
    exact (buffered_of_le hblock garbage).trans (h.line rfl)
  · refine ⟨h.success, h.message, ?_, hkept _⟩
    intro _ garbage
    have hmoved : ((block.drop consumed).take (size - consumed)).length = size - consumed := by
      rw [List.length_take, List.length_drop]
      omega
    rw [buffered_moved hmoved (by omega)]
    exact h.line rfl

theorem SseParser.processed {dispatch : SseDispatch} {chunk : SseChunk} (parser : SseParser)
    (hbytes : chunk.bytes ≠ []) :
    Processed
      (readStream dispatch parser.toSseMessage (parser.buffered chunk.garbage ++ chunk.bytes))
      (parser.bufferSize + chunk.bytes.length) (parser.process dispatch chunk) := by
  have hscanned := scanned_filled dispatch parser chunk
  have hsize : parser.bufferSize + chunk.bytes.length ≤
      (parser.buffered chunk.garbage ++ chunk.bytes ++ [0]).length := by
    rw [List.length_append, parser.length_received]
    omega
  rw [process, if_neg hbytes]
  simp only [filled]
  generalize scan dispatch chunk.garbage (parser.bufferSize + chunk.bytes.length)
    (parser.bufferSize + chunk.bytes.length) 0
    (parser.buffered chunk.garbage ++ chunk.bytes ++ [0]) parser.toSseMessage = result at hscanned
  obtain ⟨success, consumed, block, message⟩ := result
  cases success with
  | false =>
      refine ⟨hscanned.success, hscanned.message, ?_, fun _ => rfl⟩
      intro hfailed
      have hsuccess := hscanned.success
      rw [hfailed] at hsuccess
      cases hsuccess
  | true => exact processed_of_scanned hscanned hsize

end ServerSdk
