import Mathlib.Data.Nat.Find
import ServerSdk.Stream.Parser

namespace ServerSdk

def bytesOf (chunks : List SseChunk) : List UInt8 := chunks.flatMap SseChunk.bytes

@[simp] theorem bytesOf_nil : bytesOf [] = [] := rfl

@[simp] theorem bytesOf_cons (chunk : SseChunk) (chunks : List SseChunk) :
    bytesOf (chunk :: chunks) = chunk.bytes ++ bytesOf chunks := List.flatMap_cons

theorem bytesOf_take_append_drop (chunks : List SseChunk) (k : ℕ) :
    bytesOf (chunks.take k) ++ bytesOf (chunks.drop k) = bytesOf chunks := by
  rw [bytesOf, bytesOf, ← List.flatMap_append, List.take_append_drop, bytesOf]

namespace SseParser

def BuffersSame (parser : SseParser) (garbage : ℕ → UInt8) (chunks : List SseChunk) : Prop :=
  ∀ chunk ∈ chunks, parser.buffered chunk.garbage = parser.buffered garbage

def readAll (dispatch : SseDispatch) (garbage : ℕ → UInt8) (parser : SseParser) (bytes : List UInt8) :
    Framing.Framed UInt8 SseMessage :=
  readStream dispatch parser.toSseMessage (parser.buffered garbage ++ bytes)

def Fails (dispatch : SseDispatch) (garbage : ℕ → UInt8) (parser : SseParser) (bytes : List UInt8) :
    Prop :=
  bytes ≠ [] ∧ (parser.readAll dispatch garbage bytes).failed = true

structure Ran (dispatch : SseDispatch) (garbage : ℕ → UInt8) (parser : SseParser)
    (chunks : List SseChunk) (result : Option ℕ × SseParser) : Prop where
  message : result.2.toSseMessage = (parser.readAll dispatch garbage (bytesOf chunks)).state
  finished : (parser.readAll dispatch garbage (bytesOf chunks)).failed = false → result.1 = none ∧
    ∀ garbage', result.2.buffered garbage' = (parser.readAll dispatch garbage (bytesOf chunks)).line
  failed : (parser.readAll dispatch garbage (bytesOf chunks)).failed = true → ∃ k, result.1 = some k ∧
    ¬parser.Fails dispatch garbage (bytesOf (chunks.take k)) ∧
    parser.Fails dispatch garbage (bytesOf (chunks.take (k + 1))) ∧ result.2.bufferSize ≠ 0

variable {dispatch : SseDispatch} {garbage : ℕ → UInt8} {parser next : SseParser} {chunk : SseChunk}
  {chunks : List SseChunk} {bytes : List UInt8}

theorem processAll_of_nil (h : bytesOf chunks = []) :
    processAll dispatch chunks parser = (none, parser) := by
  induction chunks with
  | nil => rfl
  | cons chunk chunks ih =>
      rw [bytesOf_cons, List.append_eq_nil_iff] at h
      have hprocess : parser.process dispatch chunk = (true, parser) := by
        rw [process, if_pos h.1]
      rw [processAll, hprocess]
      simp only [ih h.2]
      rfl

theorem readAll_append (hbuffered : ∀ garbage', next.buffered garbage' =
      (parser.readAll dispatch garbage chunk.bytes).line)
    (hmessage : next.toSseMessage = (parser.readAll dispatch garbage chunk.bytes).state)
    (hfailed : (parser.readAll dispatch garbage chunk.bytes).failed = false) (garbage' : ℕ → UInt8) :
    next.readAll dispatch garbage' bytes = parser.readAll dispatch garbage (chunk.bytes ++ bytes) := by
  rw [readAll, hbuffered, hmessage, readAll, readAll, readStream, readStream, readStream,
    Framing.feed_resume (by simp) hfailed, List.append_assoc]

theorem fails_append (hreads : ∀ bytes, next.readAll dispatch garbage bytes =
      parser.readAll dispatch garbage (chunk.bytes ++ bytes)) (hbytes : chunk.bytes ≠ [])
    (hfailed : (parser.readAll dispatch garbage chunk.bytes).failed = false) :
    next.Fails dispatch garbage bytes ↔ parser.Fails dispatch garbage (chunk.bytes ++ bytes) := by
  constructor
  · rintro ⟨_, hfails⟩
    exact ⟨by simp [hbytes], hreads bytes ▸ hfails⟩
  · rintro ⟨_, hfails⟩
    refine ⟨?_, (hreads bytes).symm ▸ hfails⟩
    rintro rfl
    rw [List.append_nil, hfailed] at hfails
    cases hfails

theorem Ran.skip (h : Ran dispatch garbage parser chunks (processAll dispatch chunks parser))
    (hempty : chunk.bytes = []) :
    Ran dispatch garbage parser (chunk :: chunks) (processAll dispatch (chunk :: chunks) parser) := by
  have hprocess : parser.process dispatch chunk = (true, parser) := by
    rw [process, if_pos hempty]
  have hnext : bytesOf (chunk :: chunks) = bytesOf chunks := by
    rw [bytesOf_cons, hempty, List.nil_append]
  rw [processAll, hprocess]
  refine ⟨?_, ?_, ?_⟩
  · rw [hnext]
    exact h.message
  · rw [hnext]
    intro hfailed
    obtain ⟨hnone, hbuffered⟩ := h.finished hfailed
    exact ⟨by simp [hnone], hbuffered⟩
  · rw [hnext]
    intro hfailed
    obtain ⟨k, hk, hbefore, hafter, hsize⟩ := h.failed hfailed
    refine ⟨k + 1, by simp [hk], ?_, ?_, hsize⟩
    · simpa [hempty] using hbefore
    · simpa [hempty] using hafter

theorem Ran.rejected (hprocess : parser.process dispatch chunk = (false, next))
    (hprocessed : Processed (parser.readAll dispatch garbage chunk.bytes)
      (parser.bufferSize + chunk.bytes.length) (false, next)) (hbytes : chunk.bytes ≠ []) :
    Ran dispatch garbage parser (chunk :: chunks) (processAll dispatch (chunk :: chunks) parser) := by
  have hfails : (parser.readAll dispatch garbage chunk.bytes).failed = true := by
    simpa using hprocessed.success.symm
  have hall : parser.readAll dispatch garbage (bytesOf (chunk :: chunks)) =
      parser.readAll dispatch garbage chunk.bytes := by
    rw [bytesOf_cons, readAll, ← List.append_assoc]
    exact Framing.failed_append hfails
  rw [processAll, hprocess]
  refine ⟨hall ▸ hprocessed.message, ?_, ?_⟩
  · intro hfailed
    rw [hall, hfails] at hfailed
    cases hfailed
  · intro _
    refine ⟨0, rfl, fun h => h.1 rfl, ⟨by simpa using hbytes, by simpa using hfails⟩, ?_⟩
    have hsize : next.bufferSize = parser.bufferSize + chunk.bytes.length := hprocessed.kept hfails
    have hlength := List.length_pos_iff.mpr hbytes
    rw [hsize]
    omega

theorem Ran.accepted (hprocess : parser.process dispatch chunk = (true, next))
    (hprocessed : Processed (parser.readAll dispatch garbage chunk.bytes)
      (parser.bufferSize + chunk.bytes.length) (true, next)) (hbytes : chunk.bytes ≠ [])
    (ih : bytesOf chunks ≠ [] →
      Ran dispatch garbage next chunks (processAll dispatch chunks next)) :
    Ran dispatch garbage parser (chunk :: chunks) (processAll dispatch (chunk :: chunks) parser) := by
  have hreads : (parser.readAll dispatch garbage chunk.bytes).failed = false := by
    simpa using hprocessed.success.symm
  have hbuffered := hprocessed.buffered hreads
  have hmessage : next.toSseMessage = (parser.readAll dispatch garbage chunk.bytes).state :=
    hprocessed.message
  rw [processAll, hprocess]
  by_cases hrest : bytesOf chunks = []
  · have hall : bytesOf (chunk :: chunks) = chunk.bytes := by
      rw [bytesOf_cons, hrest, List.append_nil]
    simp only [processAll_of_nil hrest]
    refine ⟨hall ▸ hmessage, ?_, ?_⟩
    · intro _
      exact ⟨rfl, hall ▸ hbuffered⟩
    · intro hfailed
      rw [hall, hreads] at hfailed
      cases hfailed
  · have hran := ih hrest
    have happend : ∀ bytes, next.readAll dispatch garbage bytes =
        parser.readAll dispatch garbage (chunk.bytes ++ bytes) :=
      fun bytes => readAll_append hbuffered hmessage hreads garbage
    refine ⟨?_, ?_, ?_⟩
    · rw [bytesOf_cons, ← happend]
      exact hran.message
    · rw [bytesOf_cons, ← happend]
      intro hfailed
      obtain ⟨hnone, hline⟩ := hran.finished hfailed
      exact ⟨by simp [hnone], hline⟩
    · rw [bytesOf_cons, ← happend]
      intro hfailed
      obtain ⟨k, hk, hbefore, hafter, hsize⟩ := hran.failed hfailed
      refine ⟨k + 1, by simp [hk], ?_, ?_, hsize⟩
      · rw [List.take_succ_cons, bytesOf_cons, ← fails_append happend hbytes hreads]
        exact hbefore
      · rw [List.take_succ_cons, bytesOf_cons, ← fails_append happend hbytes hreads]
        exact hafter

theorem ran (hsame : parser.BuffersSame garbage chunks) (hbytes : bytesOf chunks ≠ []) :
    Ran dispatch garbage parser chunks (processAll dispatch chunks parser) := by
  induction chunks generalizing parser with
  | nil => exact absurd rfl hbytes
  | cons chunk chunks ih =>
      by_cases hempty : chunk.bytes = []
      · have hnext : bytesOf (chunk :: chunks) = bytesOf chunks := by
          rw [bytesOf_cons, hempty, List.nil_append]
        exact (ih (fun other hother => hsame other (by simp [hother])) (hnext ▸ hbytes)).skip hempty
      · have hprocessed := @processed dispatch chunk parser hempty
        rw [hsame chunk (by simp)] at hprocessed
        cases hprocess : parser.process dispatch chunk with
        | mk success next =>
            rw [hprocess] at hprocessed
            cases success with
            | false => exact Ran.rejected hprocess hprocessed hempty
            | true =>
                have hbuffered := hprocessed.buffered (by simpa using hprocessed.success.symm)
                refine Ran.accepted hprocess hprocessed hempty (ih ?_)
                intro other _
                exact (hbuffered other.garbage).trans (hbuffered garbage).symm

theorem Fails.append (h : parser.Fails dispatch garbage bytes) (rest : List UInt8) :
    parser.Fails dispatch garbage (bytes ++ rest) := by
  refine ⟨by simp [h.1], ?_⟩
  have hfailed := h.2
  rw [readAll, readStream] at hfailed
  rw [readAll, readStream, ← List.append_assoc, Framing.failed_append hfailed]
  exact hfailed

theorem process_eq_false_iff : (parser.process dispatch ⟨bytes, garbage⟩).1 = false ↔
    parser.Fails dispatch garbage bytes := by
  by_cases hempty : bytes = []
  · subst hempty
    simp [process, Fails]
  · rw [(@processed dispatch ⟨bytes, garbage⟩ parser hempty).success, Bool.not_eq_false']
    exact ⟨fun h => ⟨hempty, h⟩, fun h => h.2⟩

theorem exists_failing (h : parser.Fails dispatch garbage bytes) :
    ∃ n, ∀ m, parser.Fails dispatch garbage (bytes.take m) ↔ n ≤ m := by
  classical
  have hsome : ∃ m, parser.Fails dispatch garbage (bytes.take m) :=
    ⟨bytes.length, by rw [List.take_length]; exact h⟩
  refine ⟨Nat.find hsome, ?_⟩
  intro m
  constructor
  · exact fun hm => Nat.find_min' hsome hm
  · intro hle
    have happend := (Nat.find_spec hsome).append ((bytes.take m).drop (Nat.find hsome))
    have hall : bytes.take (Nat.find hsome) ++ (bytes.take m).drop (Nat.find hsome) = bytes.take m := by
      rw [← min_eq_left hle, ← List.take_take, min_eq_left hle, List.take_append_drop]
    rwa [hall] at happend

theorem length_buffered (parser : SseParser) (garbage : ℕ → UInt8) :
    (parser.buffered garbage).length = parser.bufferSize :=
  Memory.length_realloc

structure SameState (first second : SseParser) : Prop where
  eventName : first.eventName = second.eventName
  eventBody : first.eventBody = second.eventBody
  bufferSize : first.bufferSize = second.bufferSize
  buffered : ∀ garbage, first.buffered garbage = second.buffered garbage

end SseParser

theorem take_length_bytesOf (chunks : List SseChunk) (k : ℕ) :
    (bytesOf chunks).take (bytesOf (chunks.take k)).length = bytesOf (chunks.take k) := by
  rw [← bytesOf_take_append_drop chunks k, List.take_left]

def Covers (chunks : List SseChunk) (k n : ℕ) : Prop :=
  (bytesOf (chunks.take k)).length < n ∧ n ≤ (bytesOf (chunks.take (k + 1))).length

theorem covers_of_fails {dispatch : SseDispatch} {parser : SseParser} {garbage : ℕ → UInt8}
    {chunks : List SseChunk} {k n : ℕ}
    (hn : ∀ m, parser.Fails dispatch garbage ((bytesOf chunks).take m) ↔ n ≤ m)
    (hbefore : ¬parser.Fails dispatch garbage (bytesOf (chunks.take k)))
    (hafter : parser.Fails dispatch garbage (bytesOf (chunks.take (k + 1)))) : Covers chunks k n := by
  constructor
  · rw [← not_le, ← hn, take_length_bytesOf]
    exact hbefore
  · rw [← hn, take_length_bytesOf]
    exact hafter

theorem onLine_rejects {dispatch : SseDispatch} {garbage : ℕ → UInt8} {line : List UInt8}
    {message after : SseMessage} (h : onLine dispatch garbage line message = (false, after)) :
    ∃ earlier event, after.context = earlier ++ [event] ∧ dispatch earlier event = false := by
  rw [onLine, SseMessage.processLine] at h
  split_ifs at h
  · cases h
  · rw [SseMessage.dispatchEvent] at h
    cases hname : message.eventName with
    | none =>
        rw [hname] at h
        cases h
    | some name =>
        cases hbody : message.eventBody with
        | none =>
            rw [hname, hbody] at h
            cases h
        | some body =>
            rw [hname, hbody] at h
            obtain ⟨hdispatch, hafter⟩ := Prod.mk.inj h
            exact ⟨_, _, (congrArg SseMessage.context hafter).symm, hdispatch⟩
  · cases h
  · cases h
  · cases h

open SseParser in
theorem sse_chunking_irrelevant (dispatch : SseDispatch) (parser : SseParser) (garbage : ℕ → UInt8)
    (chunks chunks' : List SseChunk) (hbytes : bytesOf chunks = bytesOf chunks')
    (hsame : parser.BuffersSame garbage (chunks ++ chunks')) :
    let run := processAll dispatch chunks parser
    let run' := processAll dispatch chunks' parser
    run.2.context = run'.2.context ∧
      ((run.1 = none ∧ run'.1 = none ∧ run.2.SameState run'.2) ∨
        ∃ k k' n, run.1 = some k ∧ run'.1 = some k' ∧ Covers chunks k n ∧ Covers chunks' k' n ∧
          (∀ m, (parser.process dispatch ⟨(bytesOf chunks).take m, garbage⟩).1 = false ↔ n ≤ m) ∧
          ∃ earlier event, run.2.context = earlier ++ [event] ∧ dispatch earlier event = false) := by
  intro run run'
  by_cases hempty : bytesOf chunks = []
  · have hrun : run = (none, parser) := processAll_of_nil hempty
    have hrun' : run' = (none, parser) := processAll_of_nil (hbytes ▸ hempty)
    rw [hrun, hrun']
    exact ⟨rfl, .inl ⟨rfl, rfl, rfl, rfl, rfl, fun _ => rfl⟩⟩
  · have hran : Ran dispatch garbage parser chunks run :=
      ran (fun chunk hchunk => hsame chunk (by simp [hchunk])) hempty
    have hran' : Ran dispatch garbage parser chunks' run' :=
      ran (fun chunk hchunk => hsame chunk (by simp [hchunk])) (hbytes ▸ hempty)
    have hmessage : run.2.toSseMessage = run'.2.toSseMessage := by
      rw [hran.message, hran'.message, hbytes]
    refine ⟨congrArg SseMessage.context hmessage, ?_⟩
    cases hfailed : (parser.readAll dispatch garbage (bytesOf chunks)).failed with
    | false =>
        obtain ⟨hnone, hbuffered⟩ := hran.finished hfailed
        obtain ⟨hnone', hbuffered'⟩ := hran'.finished (hbytes ▸ hfailed)
        have hsame : ∀ garbage', run.2.buffered garbage' = run'.2.buffered garbage' := by
          intro garbage'
          rw [hbuffered, hbuffered', hbytes]
        have hsize : run.2.bufferSize = run'.2.bufferSize := by
          rw [← length_buffered run.2 garbage, ← length_buffered run'.2 garbage, hsame]
        exact .inl ⟨hnone, hnone', congrArg SseMessage.eventName hmessage,
          congrArg SseMessage.eventBody hmessage, hsize, hsame⟩
    | true =>
        obtain ⟨k, hk, hbefore, hafter, _⟩ := hran.failed hfailed
        obtain ⟨k', hk', hbefore', hafter', _⟩ := hran'.failed (hbytes ▸ hfailed)
        have hfails : parser.Fails dispatch garbage (bytesOf chunks) := ⟨hempty, hfailed⟩
        obtain ⟨n, hn⟩ := exists_failing hfails
        obtain ⟨line, message, hrejected⟩ := Framing.exists_rejected rfl hfailed
        refine .inr ⟨k, k', n, hk, hk', covers_of_fails hn hbefore hafter,
          covers_of_fails (hbytes ▸ hn) hbefore' hafter', ?_, ?_⟩
        · intro m
          rw [process_eq_false_iff]
          exact hn m
        · rw [hran.message]
          exact onLine_rejects hrejected

def shortEvent : List UInt8 := eventField ++ [97, newline] ++ dataField ++ [98, newline, newline]

theorem short_event_split :
    let whole : List SseChunk := [⟨shortEvent, fun _ => 1⟩]
    let parts : List SseChunk :=
      [⟨shortEvent.take 3, fun _ => 2⟩, ⟨[], fun _ => 3⟩, ⟨shortEvent.drop 3, fun _ => 4⟩]
    let accept : SseDispatch := fun _ _ => true
    (SseParser.processAll accept whole (.initial [])).2.context = [⟨[97], [98]⟩] ∧
      (SseParser.processAll accept whole (.initial [])).2.context =
        (SseParser.processAll accept parts (.initial [])).2.context := by
  intro whole parts accept
  have hsame : (SseParser.initial []).BuffersSame (fun _ => 0) (whole ++ parts) := fun _ _ => rfl
  exact ⟨by decide, (sse_chunking_irrelevant accept (.initial []) (fun _ => 0) whole parts (by decide)
    hsame).1⟩

end ServerSdk
