import ServerSdk.Stream.Chunking

namespace ServerSdk

open Memory SseParser

def BehavesFresh (parser : SseParser) : Prop :=
  ∀ dispatch chunks,
    (processAll dispatch chunks parser.destroy).1 =
      (processAll dispatch chunks (.initial parser.context)).1 ∧
    (processAll dispatch chunks parser.destroy).2.context =
      (processAll dispatch chunks (.initial parser.context)).2.context

def EndsLine (bytes : List UInt8) : Prop := bytes = [] ∨ bytes.getLast? = some newline

theorem destroy_eq_initial {parser : SseParser} (h : parser.bufferSize = 0) :
    parser.destroy = .initial parser.context := by
  obtain ⟨⟨name, body, context⟩, buffer, size⟩ := parser
  cases h
  rfl

def probeByte : UInt8 := 120

theorem buffered_destroy (parser : SseParser) :
    parser.destroy.buffered (fun _ => probeByte) = List.replicate parser.bufferSize probeByte := by
  rw [buffered, realloc, List.eq_replicate_iff]
  refine ⟨by simp [destroy], ?_⟩
  intro byte hbyte
  obtain ⟨index, _, rfl⟩ := List.mem_map.mp hbyte
  simp [destroy]

def acceptAll : SseDispatch := fun _ _ => true

theorem onLine_probe {dispatch : SseDispatch} {garbage : ℕ → UInt8} {line : List UInt8}
    {message : SseMessage} : onLine dispatch garbage (probeByte :: line) message = (true, message) := by
  have hline : cString (probeByte :: line) = probeByte :: cString line := by
    simp [cString, probeByte]
  rw [onLine, hline]
  simp [SseMessage.processLine, probeByte, colon, dataField, eventField, List.isPrefixOf]

theorem context_probed {parser : SseParser} (h : parser.bufferSize ≠ 0) :
    (processAll acceptAll [⟨shortEvent, fun _ => probeByte⟩] parser.destroy).2.context =
      parser.context := by
  have hran := @ran acceptAll (fun _ => probeByte) parser.destroy [⟨shortEvent, fun _ => probeByte⟩]
    (fun chunk hchunk => by cases List.mem_singleton.mp hchunk; rfl) (by decide)
  obtain ⟨size, hsize⟩ := Nat.exists_eq_succ_of_ne_zero h
  have hbytes : parser.destroy.buffered (fun _ => probeByte) ++ shortEvent =
      (probeByte :: (List.replicate size probeByte ++ eventField ++ [97])) ++
        newline :: (dataField ++ [98, newline, newline]) := by
    rw [buffered_destroy, hsize, List.replicate_succ]
    simp [shortEvent]
  have hline : newline ∉ probeByte :: (List.replicate size probeByte ++ eventField ++ [97]) := by
    simp [newline, probeByte, eventField, List.mem_replicate]
  have hread : parser.destroy.readAll acceptAll (fun _ => probeByte)
      (bytesOf [⟨shortEvent, fun _ => probeByte⟩]) =
        Framing.feed newline (onLine acceptAll fun _ => 0) ⟨[], ⟨none, none, parser.context⟩, false⟩
          (dataField ++ [98, newline, newline]) := by
    rw [bytesOf_cons, bytesOf_nil, List.append_nil, readAll, hbytes, readStream,
      Framing.feed_accepted hline onLine_probe]
    rfl
  rw [hran.message, hread]
  rfl

theorem context_initial (context : List SseEvent) :
    (processAll acceptAll [⟨shortEvent, fun _ => probeByte⟩] (.initial context)).2.context =
      context ++ [⟨[97], [98]⟩] := by
  rfl

theorem behavesFresh_iff (parser : SseParser) : BehavesFresh parser ↔ parser.bufferSize = 0 := by
  constructor
  · intro hfresh
    by_contra hsize
    obtain ⟨_, hcontext⟩ := hfresh acceptAll [⟨shortEvent, fun _ => probeByte⟩]
    rw [context_probed hsize, context_initial] at hcontext
    simp at hcontext
  · intro hsize dispatch chunks
    rw [destroy_eq_initial hsize]
    exact ⟨rfl, rfl⟩

theorem bufferSize_eq_zero_iff (dispatch : SseDispatch) (context : List SseEvent)
    (chunks : List SseChunk) :
    let run := processAll dispatch chunks (.initial context)
    run.2.bufferSize = 0 ↔ run.1 = none ∧ EndsLine (bytesOf chunks) := by
  intro run
  by_cases hempty : bytesOf chunks = []
  · have hrun : run = (none, .initial context) := processAll_of_nil hempty
    rw [hrun]
    exact iff_of_true rfl ⟨rfl, .inl hempty⟩
  · have hran : Ran dispatch (fun _ => 0) (.initial context) chunks run := ran (fun _ _ => rfl) hempty
    cases hfailed : ((SseParser.initial context).readAll dispatch (fun _ => 0)
        (bytesOf chunks)).failed with
    | false =>
        obtain ⟨hnone, hbuffered⟩ := hran.finished hfailed
        have hline : run.2.bufferSize = 0 ↔ (bytesOf chunks).getLast? = some newline := by
          rw [← length_buffered run.2 fun _ => 0, hbuffered, List.length_eq_zero_iff]
          exact Framing.line_eq_nil_iff hempty hfailed
        rw [hline]
        exact ⟨fun h => ⟨hnone, .inr h⟩, fun h => h.2.resolve_left hempty⟩
    | true =>
        obtain ⟨k, hk, _, _, hsize⟩ := hran.failed hfailed
        refine iff_of_false hsize ?_
        rintro ⟨hnone, _⟩
        cases hk.symm.trans hnone

theorem reconnected_parser_fresh_iff (dispatch : SseDispatch) (context : List SseEvent)
    (chunks : List SseChunk) :
    let run := processAll dispatch chunks (.initial context)
    (BehavesFresh run.2 ↔ run.2.bufferSize = 0) ∧
      (run.2.bufferSize = 0 ↔ run.1 = none ∧ EndsLine (bytesOf chunks)) := by
  intro run
  exact ⟨behavesFresh_iff run.2, bufferSize_eq_zero_iff dispatch context chunks⟩

theorem cut_line_survives_reconnect : ¬ ∀ (dispatch : SseDispatch) (context : List SseEvent)
    (chunks : List SseChunk), BehavesFresh (processAll dispatch chunks (.initial context)).2 := by
  intro hclaim
  have hfresh := hclaim acceptAll [] [⟨shortEvent.take 3, fun _ => 0⟩]
  rw [behavesFresh_iff] at hfresh
  revert hfresh
  decide

end ServerSdk
