import ServerSdk.Events.Processor

namespace ServerSdk

open Program

def SummaryEntry.toJSON (entry : SummaryEntry) : Json :=
  let json := (Json.object []).objectSetKey "count" (.number entry.count)
  let json := json.setOptional "value" entry.value
  let json := json.setOptional "version" entry.version
  let json := json.setOptional "variation" entry.variation
  json.setOptional "unknown" (if entry.unknown then some (.bool true) else none)

def countersJSON (counters : List (String × SummaryEntry)) : Json :=
  .object (counters.map fun counter => (counter.1, counter.2.toJSON))

def FlagSummary.toJSON (summary : FlagSummary) : Json :=
  let flagContext := (Json.object []).setOptional "default" summary.default
  flagContext.objectSetKey "counters" (countersJSON summary.counters)

def summaryJSON (summaryCounters : List (String × FlagSummary)) : Json :=
  .object (summaryCounters.map fun flag => (flag.1, flag.2.toJSON))

def Json.assignField (json : Json) (key : String) (item : Json) : Json :=
  match json with
  | .object fields => .object (alterEntry key (fun _ => item) fields)
  | json => json

def newFlagContext (event : Json) : Json :=
  let flagContext := (Json.object []).setOptional "default"
    (Json.meaningful (event.objectLookup "default"))
  flagContext.objectSetKey "counters" (.object [])

def newCounterEntry (event : Json) (unknown : Bool) : Json :=
  let entry := (Json.object []).objectSetKey "count" (.number 1)
  let entry := entry.setOptional "value" (Json.meaningful (event.objectLookup "value"))
  let entry := entry.setOptional "version" (Json.meaningful (event.objectLookup "version"))
  let entry := entry.setOptional "variation" (Json.meaningful (event.objectLookup "variation"))
  if unknown then entry.objectSetKey "unknown" (.bool true) else entry

def countEntry (event : Json) (unknown : Bool) (entry : Option Json) : Checked Json :=
  match entry with
  | none => .ok (newCounterEntry event unknown)
  | some entry =>
      match entry.objectLookup "count" with
      | none => .error .assertion
      | some tmp => do
          Checked.check (tmp.getType == .number)
          pure (entry.assignField "count" (.number (tmp.getNumber + 1)))

def countInObjects (summaryCounters event : Json) (flagKey keytext : String) (unknown : Bool) :
    Checked Json :=
  let flagContext := (summaryCounters.objectLookup flagKey).getD (newFlagContext event)
  match flagContext.objectLookup "counters" with
  | none => .error .assertion
  | some counters => do
      Checked.check (counters.getType == .object)
      let entry ← countEntry event unknown (counters.objectLookup keytext)
      let counters := counters.assignField keytext entry
      pure (summaryCounters.assignField flagKey (flagContext.assignField "counters" counters))

section AlterEntry

variable {α β : Type} {key : String}

theorem alterEntry_eq_assign (f : Option α → α) (entries : List (String × α)) :
    alterEntry key f entries = alterEntry key (fun _ => f (entries.lookup key)) entries := by
  induction entries with
  | nil => rfl
  | cons entry entries ih =>
      obtain ⟨k, a⟩ := entry
      rw [alterEntry, alterEntry]
      by_cases hk : k = key
      · subst hk
        simp
      · rw [if_neg hk, if_neg hk, ih, List.lookup_cons, beq_false_of_ne (Ne.symm hk)]

theorem map_alterEntry (g : α → β) (a : α) (entries : List (String × α)) :
    (alterEntry key (fun _ => a) entries).map (fun entry => (entry.1, g entry.2)) =
      alterEntry key (fun _ => g a) (entries.map fun entry => (entry.1, g entry.2)) := by
  induction entries with
  | nil => rfl
  | cons entry entries ih =>
      obtain ⟨k, b⟩ := entry
      rw [alterEntry, List.map_cons, alterEntry]
      by_cases hk : k = key
      · rw [if_pos hk, if_pos hk, List.map_cons]
      · rw [if_neg hk, if_neg hk, List.map_cons, ih]

theorem lookup_map_snd (g : α → β) (key : String) (entries : List (String × α)) :
    (entries.map fun entry => (entry.1, g entry.2)).lookup key = (entries.lookup key).map g := by
  induction entries with
  | nil => rfl
  | cons entry entries ih =>
      rw [List.map_cons, List.lookup_cons, List.lookup_cons, ih]
      cases key == entry.1 <;> rfl

theorem assignField_map (g : α → Json) (f : Option α → α) (key : String)
    (entries : List (String × α)) :
    (Json.object (entries.map fun entry => (entry.1, g entry.2))).assignField key
        (g (f (entries.lookup key))) =
      .object ((alterEntry key f entries).map fun entry => (entry.1, g entry.2)) := by
  rw [alterEntry_eq_assign, map_alterEntry]
  rfl

end AlterEntry

def SummaryEntry.fields (entry : SummaryEntry) : List (String × Option Json) :=
  [("count", some (.number entry.count)), ("value", entry.value), ("version", entry.version),
    ("variation", entry.variation),
    ("unknown", if entry.unknown then some (.bool true) else none)]

theorem SummaryEntry.lookup_toJSON {entry : SummaryEntry} {key : String} {item : Option Json}
    (h : (key, item) ∈ entry.fields) : entry.toJSON.objectLookup key = item := by
  have hkeys : (entry.fields.map Prod.fst).Nodup := by
    change ["count", "value", "version", "variation", "unknown"].Nodup
    decide
  exact Json.unique_empty.lookup_setFields hkeys (fun _ _ => rfl) h

theorem FlagSummary.unique_toJSON (summary : FlagSummary) : summary.toJSON.Unique :=
  (Json.unique_empty.setOptional "default" summary.default).setKey _ _

theorem FlagSummary.lookup_toJSON (summary : FlagSummary) :
    summary.toJSON.objectLookup "counters" = some (countersJSON summary.counters) :=
  (Json.unique_empty.setOptional "default" summary.default).lookup_setKey _ _

theorem FlagSummary.assign_toJSON (summary : FlagSummary) (counters : List (String × SummaryEntry)) :
    summary.toJSON.assignField "counters" (countersJSON counters) =
      { summary with counters }.toJSON := by
  obtain ⟨default, previous⟩ := summary
  cases default <;> rfl

theorem SummaryEntry.assign_toJSON (entry : SummaryEntry) :
    entry.toJSON.assignField "count" (.number (entry.count + 1)) =
      { entry with count := entry.count + 1 }.toJSON := by
  obtain ⟨count, value, version, variation, unknown⟩ := entry
  simp only [SummaryEntry.toJSON, Nat.cast_succ]
  cases value <;> cases version <;> cases variation <;> cases unknown <;> rfl

theorem newCounterEntry_eq (event : Json) (unknown : Bool) :
    newCounterEntry event unknown = (SummaryEntry.counted event unknown none).toJSON := by
  cases unknown <;> simp [newCounterEntry, SummaryEntry.toJSON, SummaryEntry.counted, Json.setOptional]

theorem countEntry_toJSON (event : Json) (unknown : Bool) (entry : Option SummaryEntry) :
    countEntry event unknown (entry.map SummaryEntry.toJSON) =
      .ok (SummaryEntry.counted event unknown entry).toJSON := by
  cases entry with
  | none => exact congrArg Except.ok (newCounterEntry_eq event unknown)
  | some entry =>
      have hcount : entry.toJSON.objectLookup "count" = some (.number entry.count) :=
        SummaryEntry.lookup_toJSON (by simp [SummaryEntry.fields])
      rw [Option.map_some, countEntry, hcount]
      exact congrArg Except.ok entry.assign_toJSON

theorem countInObjects_toJSON (summaryCounters : List (String × FlagSummary)) (event : Json)
    (flagKey keytext : String) (unknown : Bool) :
    countInObjects (summaryJSON summaryCounters) event flagKey keytext unknown =
      .ok (summaryJSON
        (alterEntry flagKey (FlagSummary.counted event keytext unknown) summaryCounters)) := by
  let summary := (summaryCounters.lookup flagKey).getD
    ⟨Json.meaningful (event.objectLookup "default"), []⟩
  let entry := SummaryEntry.counted event unknown (summary.counters.lookup keytext)
  have hcontext : ((summaryJSON summaryCounters).objectLookup flagKey).getD (newFlagContext event) =
      summary.toJSON := by
    rw [summaryJSON, Json.objectLookup, lookup_map_snd]
    cases hlookup : summaryCounters.lookup flagKey with
    | none =>
        simp only [summary, hlookup]
        rfl
    | some found =>
        simp only [summary, hlookup]
        rfl
  have hentry : countEntry event unknown ((countersJSON summary.counters).objectLookup keytext) =
      .ok entry.toJSON := by
    rw [countersJSON, Json.objectLookup, lookup_map_snd]
    exact countEntry_toJSON event unknown _
  have hcounters : (countersJSON summary.counters).assignField keytext entry.toJSON =
      countersJSON (alterEntry keytext (SummaryEntry.counted event unknown) summary.counters) :=
    assignField_map SummaryEntry.toJSON (SummaryEntry.counted event unknown) keytext summary.counters
  have hflag : (summaryJSON summaryCounters).assignField flagKey
      (FlagSummary.counted event keytext unknown (summaryCounters.lookup flagKey)).toJSON =
        summaryJSON (alterEntry flagKey (FlagSummary.counted event keytext unknown) summaryCounters) :=
    assignField_map FlagSummary.toJSON (FlagSummary.counted event keytext unknown) flagKey
      summaryCounters
  rw [← hflag, countInObjects, hcontext, summary.lookup_toJSON]
  change (countEntry event unknown _ >>= fun entry => pure _) = _
  rw [hentry, Checked.ok_bind, hcounters, summary.assign_toJSON]
  rfl

theorem summarizeEvent_objects [Externals] {σ : Type} (w : World σ) (event : Json) (unknown : Bool)
    (processor : EventProcessor) (s : σ) :
    Run.Ensures (summarizeEvent w event unknown processor) s fun processor' _ =>
      ∃ flagKey keytext, eventKey event = .ok flagKey ∧ makeSummaryKey event = .ok keytext ∧
        countInObjects (summaryJSON processor.summaryCounters) event flagKey keytext unknown =
          .ok (summaryJSON processor'.summaryCounters) := by
  refine Run.ensures_lift_bind fun flagKey hkey => ?_
  refine Run.ensures_lift_bind fun keytext htext => ?_
  refine Run.ensures_bind fun summaryStart t => ?_
  refine Run.ensures_pure ⟨flagKey, keytext, hkey, htext, ?_⟩
  exact countInObjects_toJSON processor.summaryCounters event flagKey keytext unknown

end ServerSdk
