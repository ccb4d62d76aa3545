import ServerSdk.Stream.Chunking

namespace ServerSdk

open Memory SseParser

def encodeField (field : List UInt8) (spaced : Bool) (text : List UInt8) : List UInt8 :=
  field ++ if spaced then space :: text else text

structure Encodable (spaced : Bool) (text : List UInt8) : Prop where
  newline : newline ∉ text
  zero : (0 : UInt8) ∉ text
  spaced : text.head? = some space → spaced = true

structure Ignored (line : List UInt8) : Prop where
  newline : newline ∉ line
  skipped : line.head? = some colon ∨
    (line ≠ [] ∧ (0 : UInt8) ∉ line ∧ ¬dataField <+: line ∧ ¬eventField <+: line)

def joinLines : List (List UInt8) → List UInt8
  | [] => []
  | text :: texts => text ++ texts.flatMap fun other => newline :: other

inductive EncodesBody : List (List UInt8) → List (List UInt8) → Prop
  | nil : EncodesBody [] []
  | ignored {texts lines : List (List UInt8)} {line : List UInt8} : Ignored line →
      EncodesBody texts lines → EncodesBody texts (line :: lines)
  | data {texts lines : List (List UInt8)} {text : List UInt8} {spaced : Bool} :
      Encodable spaced text → EncodesBody texts lines →
      EncodesBody (text :: texts) (encodeField dataField spaced text :: lines)

inductive Encodes : List SseEvent → List (List UInt8) → Prop
  | nil : Encodes [] []
  | ignored {events : List SseEvent} {lines : List (List UInt8)} {line : List UInt8} : Ignored line →
      Encodes events lines → Encodes events (line :: lines)
  | event {events : List SseEvent} {name : List UInt8} {spaced : Bool}
      {texts lines rest : List (List UInt8)} : Encodable spaced name → texts ≠ [] →
      EncodesBody texts lines → Encodes events rest →
      Encodes (⟨name, joinLines texts⟩ :: events)
        (encodeField eventField spaced name :: (lines ++ [] :: rest))

def encodedBytes (lines : List (List UInt8)) : List UInt8 :=
  lines.flatMap fun line => line ++ [newline]

def Accepts (dispatch : SseDispatch) (context events : List SseEvent) : Prop :=
  ∀ earlier event later, events = earlier ++ event :: later → dispatch (context ++ earlier) event = true

variable {dispatch : SseDispatch} {garbage : ℕ → UInt8} {message : SseMessage} {spaced : Bool}
  {line text rest : List UInt8} {lines texts : List (List UInt8)}

theorem skipSpace_encoded (h : Encodable spaced text) :
    skipSpace (if spaced then space :: text else text) = text := by
  cases spaced with
  | true => simp [skipSpace]
  | false =>
      have hhead : text.head? ≠ some space := by
        intro hspace
        cases h.spaced hspace
      simp [skipSpace, hhead]

theorem cString_encodeField {field : List UInt8} (hfield : (0 : UInt8) ∉ field)
    (h : Encodable spaced text) : cString (encodeField field spaced text) = encodeField field spaced text := by
  apply cString_of_not_mem
  have hzero := h.zero
  cases spaced with
  | true => simp [encodeField, hfield, hzero, space]
  | false => simp [encodeField, hfield, hzero]

theorem newline_not_mem_encodeField {field : List UInt8} (hfield : newline ∉ field)
    (h : Encodable spaced text) : newline ∉ encodeField field spaced text := by
  have hnewline := h.newline
  cases spaced with
  | true =>
      have hspace : newline ≠ space := by decide
      simp [encodeField, hfield, hnewline, hspace]
  | false => simp [encodeField, hfield, hnewline]

theorem onLine_ignored (h : Ignored line) : onLine dispatch garbage line message = (true, message) := by
  rw [onLine, SseMessage.processLine]
  rcases h.skipped with hcolon | ⟨hne, hzero, hdata, hevent⟩
  · cases line with
    | nil => cases hcolon
    | cons byte line =>
        cases hcolon
        have hstring : cString (colon :: line) = colon :: cString line := by simp [cString, colon]
        rw [hstring]
        rfl
  · rw [cString_of_not_mem hzero]
    split_ifs with hcolon hprefix hprefix'
    · rfl
    · exact absurd (List.isPrefixOf_iff_prefix.mp hprefix) hdata
    · exact absurd (List.isPrefixOf_iff_prefix.mp hprefix') hevent
    · rfl

theorem onLine_data (h : Encodable spaced text) :
    onLine dispatch garbage (encodeField dataField spaced text) message = (true,
      { message with eventBody := some (SseMessage.appendBody garbage message.eventBody text) }) := by
  have hdrop : (dataField ++ if spaced then space :: text else text).drop 5 =
      if spaced then space :: text else text := List.drop_left' rfl
  have hprefix : dataField.isPrefixOf (dataField ++ if spaced then space :: text else text) = true :=
    List.isPrefixOf_iff_prefix.mpr (List.prefix_append _ _)
  have hhead : (dataField ++ if spaced then space :: text else text).head? ≠ some colon := by
    simp [dataField, colon]
  have hne : (dataField ++ if spaced then space :: text else text) ≠ [] := by simp [dataField]
  rw [onLine, cString_encodeField (by decide) h, encodeField, SseMessage.processLine, if_neg hhead,
    if_neg hne, if_pos hprefix, hdrop, skipSpace_encoded h]

theorem onLine_event (h : Encodable spaced text) :
    onLine dispatch garbage (encodeField eventField spaced text) message = (true,
      { message with eventName := some (text ++ [0]) }) := by
  have hdrop : (eventField ++ if spaced then space :: text else text).drop 6 =
      if spaced then space :: text else text := List.drop_left' rfl
  have hprefix : eventField.isPrefixOf (eventField ++ if spaced then space :: text else text) = true :=
    List.isPrefixOf_iff_prefix.mpr (List.prefix_append _ _)
  have hdata : dataField.isPrefixOf (eventField ++ if spaced then space :: text else text) ≠ true := by
    simp [dataField, eventField, List.isPrefixOf]
  have hhead : (eventField ++ if spaced then space :: text else text).head? ≠ some colon := by
    simp [eventField, colon]
  have hne : (eventField ++ if spaced then space :: text else text) ≠ [] := by simp [eventField]
  rw [onLine, cString_encodeField (by decide) h, encodeField, SseMessage.processLine, if_neg hhead,
    if_neg hne, if_neg hdata, if_pos hprefix, hdrop, skipSpace_encoded h]

theorem onLine_dispatched {name body : List UInt8} {context : List SseEvent}
    (hname : (0 : UInt8) ∉ name) (hbody : (0 : UInt8) ∉ body)
    (h : dispatch context ⟨name, body⟩ = true) :
    onLine dispatch garbage [] ⟨some (name ++ [0]), some (body ++ [0]), context⟩ =
      (true, ⟨none, none, context ++ [⟨name, body⟩]⟩) := by
  have hempty : cString ([] : List UInt8) = [] := rfl
  have hevent : SseMessage.dispatchEvent dispatch ⟨some (name ++ [0]), some (body ++ [0]), context⟩ =
      (true, context ++ [⟨name, body⟩]) := by
    rw [SseMessage.dispatchEvent]
    simp only [cString_terminated hname, cString_terminated hbody, h]
  rw [onLine, hempty, SseMessage.processLine, if_neg (by simp), if_pos rfl, hevent]

theorem encodedBytes_cons : encodedBytes (line :: lines) = line ++ newline :: encodedBytes lines := by
  simp [encodedBytes]

theorem encodedBytes_append {later : List (List UInt8)} :
    encodedBytes (lines ++ later) = encodedBytes lines ++ encodedBytes later :=
  List.flatMap_append

def bodyAfter : Option (List UInt8) → List (List UInt8) → Option (List UInt8)
  | body, [] => body
  | none, text :: texts => bodyAfter (some text) texts
  | some body, text :: texts => bodyAfter (some (body ++ newline :: text)) texts

theorem bodyAfter_some {body : List UInt8} :
    bodyAfter (some body) texts = some (body ++ texts.flatMap fun other => newline :: other) := by
  induction texts generalizing body with
  | nil => simp [bodyAfter]
  | cons text texts ih => simp [bodyAfter, ih]

theorem bodyAfter_none (h : texts ≠ []) : bodyAfter none texts = some (joinLines texts) := by
  cases texts with
  | nil => exact absurd rfl h
  | cons text texts => exact bodyAfter_some

theorem EncodesBody.read (h : EncodesBody texts lines) {name : Option (List UInt8)}
    {body : Option (List UInt8)} (hbody : ∀ text, body = some text → (0 : UInt8) ∉ text)
    {context : List SseEvent} :
    Framing.feed newline (onLine dispatch fun _ => 0)
        ⟨[], ⟨name, body.map (· ++ [0]), context⟩, false⟩ (encodedBytes lines ++ rest) =
      Framing.feed newline (onLine dispatch fun _ => 0)
        ⟨[], ⟨name, (bodyAfter body texts).map (· ++ [0]), context⟩, false⟩ rest ∧
      ∀ text, bodyAfter body texts = some text → (0 : UInt8) ∉ text := by
  induction h generalizing body with
  | nil => exact ⟨rfl, hbody⟩
  | ignored hline _ ih =>
      rw [encodedBytes_cons, List.append_assoc, List.cons_append,
        Framing.feed_accepted hline.newline (onLine_ignored hline)]
      exact ih hbody
  | @data texts lines text spaced hencodable _ ih =>
      rw [encodedBytes_cons, List.append_assoc, List.cons_append,
        Framing.feed_accepted (newline_not_mem_encodeField (by decide) hencodable)
          (onLine_data hencodable)]
      have hzero := hencodable.zero
      cases body with
      | none =>
          have hread := @ih (some text) (by rintro _ ⟨⟩; exact hzero)
          rw [bodyAfter, ← hread.1]
          exact ⟨by rw [Option.map_none, appendBody_none]; rfl, hread.2⟩
      | some body =>
          have hold := hbody body rfl
          have hnew : (0 : UInt8) ∉ body ++ newline :: text := by
            simp [hold, hzero, newline]
          have hread := @ih (some (body ++ newline :: text)) (by rintro _ ⟨⟩; exact hnew)
          rw [bodyAfter, ← hread.1]
          refine ⟨?_, hread.2⟩
          rw [Option.map_some, appendBody_some, cString_terminated hold]
          simp

theorem Accepts.tail {context events : List SseEvent} {event : SseEvent}
    (h : Accepts dispatch context (event :: events)) : Accepts dispatch (context ++ [event]) events := by
  intro earlier other later hevents
  have haccepted := h (event :: earlier) other later (by rw [hevents, List.cons_append])
  rw [List.append_assoc, List.singleton_append]
  exact haccepted

theorem Encodes.read {events context : List SseEvent} (h : Encodes events lines)
    (haccepts : Accepts dispatch context events) :
    readStream dispatch ⟨none, none, context⟩ (encodedBytes lines) =
      ⟨[], ⟨none, none, context ++ events⟩, false⟩ := by
  rw [readStream]
  induction h generalizing context with
  | nil =>
      rw [List.append_nil]
      rfl
  | ignored hline _ ih =>
      rw [encodedBytes_cons, Framing.feed_accepted hline.newline (onLine_ignored hline)]
      exact ih haccepts
  | @event events name spaced texts lines rest hname htexts hbody hrest ih =>
      obtain ⟨hread, hzero⟩ := @EncodesBody.read dispatch (encodedBytes ([] :: rest)) lines texts hbody
        (some (name ++ [0])) none (by simp) context
      rw [bodyAfter_none htexts] at hread hzero
      have hempty : encodedBytes ([] :: rest) = [] ++ newline :: encodedBytes rest := encodedBytes_cons
      have hdispatched := @onLine_dispatched dispatch (fun _ => 0) name (joinLines texts) context
        hname.zero (hzero _ rfl) (by simpa using haccepts [] _ events rfl)
      rw [encodedBytes_cons, Framing.feed_accepted (newline_not_mem_encodeField (by decide) hname)
        (onLine_event hname), encodedBytes_append]
      refine hread.trans ?_
      rw [hempty, Option.map_some, Framing.feed_accepted (by simp) hdispatched, ih haccepts.tail, List.append_assoc,
        List.singleton_append]

theorem sse_decodes_encoding (dispatch : SseDispatch) (context events : List SseEvent)
    (lines : List (List UInt8)) (chunks : List SseChunk) (hencodes : Encodes events lines)
    (haccepts : Accepts dispatch context events) (hbytes : bytesOf chunks = encodedBytes lines) :
    let run := processAll dispatch chunks (.initial context)
    run.1 = none ∧ run.2.context = context ++ events ∧ run.2.eventName = none ∧
      run.2.eventBody = none ∧ run.2.bufferSize = 0 := by
  intro run
  have hread := hencodes.read haccepts
  by_cases hempty : bytesOf chunks = []
  · have hrun : run = (none, .initial context) := processAll_of_nil hempty
    rw [← hbytes, hempty] at hread
    have hevents : context = context ++ events := congrArg (fun framed => framed.state.context) hread
    rw [hrun, ← hevents]
    exact ⟨rfl, rfl, rfl, rfl, rfl⟩
  · have hran : Ran dispatch (fun _ => 0) (.initial context) chunks run := ran (fun _ _ => rfl) hempty
    have hall : (SseParser.initial context).readAll dispatch (fun _ => 0) (bytesOf chunks) =
        ⟨[], ⟨none, none, context ++ events⟩, false⟩ := by
      rw [hbytes]
      exact hread
    have hmessage := hran.message
    obtain ⟨hnone, hbuffered⟩ := hran.finished (by rw [hall])
    rw [hall] at hmessage hbuffered
    have hsize : run.2.bufferSize = 0 := by
      rw [← length_buffered run.2 fun _ => 0, hbuffered]
      rfl
    exact ⟨hnone, congrArg SseMessage.context hmessage, congrArg SseMessage.eventName hmessage,
      congrArg SseMessage.eventBody hmessage, hsize⟩

theorem two_line_event_decoded :
    let lines : List (List UInt8) := [encodeField eventField true [97], [colon, 0],
      encodeField dataField false [98], [120], encodeField dataField true [space], []]
    let chunks : List SseChunk :=
      [⟨(encodedBytes lines).take 7, fun _ => 1⟩, ⟨(encodedBytes lines).drop 7, fun _ => 2⟩]
    (processAll (fun _ _ => true) chunks (.initial [])).2.context = [⟨[97], [98, newline, space]⟩] := by
  intro lines chunks
  have hname : Encodable true [97] := ⟨by decide, by decide, by decide⟩
  have hfirst : Encodable false [98] := ⟨by decide, by decide, by decide⟩
  have hsecond : Encodable true [space] := ⟨by decide, by decide, by decide⟩
  have hcomment : Ignored [colon, 0] := ⟨by decide, .inl rfl⟩
  have hother : Ignored [120] := ⟨by decide, .inr ⟨by decide, by decide, by decide, by decide⟩⟩
  have hencodes : Encodes [⟨[97], [98, newline, space]⟩] lines :=
    .event hname (by decide) (.ignored hcomment (.data hfirst (.ignored hother (.data hsecond .nil)))) .nil
  exact (sse_decodes_encoding (fun _ _ => true) [] _ lines chunks hencodes (fun _ _ _ _ => rfl)
    (by decide)).2.1

end ServerSdk
