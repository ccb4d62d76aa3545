import ServerSdk.Events.SummaryObjects

namespace ServerSdk

open Program

def objectToArray (object : Json) : Checked Json := do
  Checked.check (object.getType == .object)
  pure (.array object.getIter)

def convertCounters (flagContext : Json) : Checked Json :=
  match flagContext.objectLookup "counters" with
  | none => .error .assertion
  | some countersObject => do
      let countersArray ← objectToArray countersObject
      pure ((flagContext.objectDeleteKey "counters").objectSetKey "counters" countersArray)

def convertFeatures : List (String × Json) → Checked (List (String × Json))
  | [] => pure []
  | (flagKey, flagContext) :: features => do
      let flagContext ← convertCounters flagContext
      let features ← convertFeatures features
      pure ((flagKey, flagContext) :: features)

def prepareSummaryEvent (processor : EventProcessor) (now : Rat) : Checked Json := do
  let summary := (Json.object []).objectSetKey "kind" (.text "summary")
  let summary := summary.objectSetKey "startDate" (.number processor.summaryStart)
  let summary := summary.objectSetKey "endDate" (.number now)
  let counters ← convertFeatures (summaryJSON processor.summaryCounters).iterFields
  pure (summary.objectSetKey "features" (.object counters))

structure EventPayload where
  status : Bool
  result : Option (List Json)
  processor : EventProcessor

def createEventPayloadAndResetState {σ : Type} (w : World σ) (processor : EventProcessor) :
    Run σ EventPayload := do
  let now ← Run.ask w.unixMilliseconds
  if processor.events.length = 0 ∧ processor.summaryCounters.length = 0 then
    pure ⟨true, none, processor⟩
  else if processor.summaryCounters.length ≠ 0 then do
    let summaryEvent ← Run.lift (prepareSummaryEvent processor now)
    let processor' := { processor with events := [], summaryStart := 0, summaryCounters := [] }
    pure ⟨true, some (processor.events ++ [summaryEvent]), processor'⟩
  else pure ⟨true, some processor.events, { processor with events := [] }⟩

theorem convertCounters_toJSON (summary : FlagSummary) :
    ∃ flagContext, convertCounters summary.toJSON = .ok flagContext ∧
      flagContext.objectLookup "counters" =
        some (.array (summary.counters.map fun counter => counter.2.toJSON)) := by
  refine ⟨_, ?_, (summary.unique_toJSON.deleteKey "counters").lookup_setKey "counters" _⟩
  rw [convertCounters, summary.lookup_toJSON]
  simp [objectToArray, Checked.check, countersJSON, Json.getType, Json.getIter, Function.comp_def]

structure SummaryTriple where
  flagKey : String
  variation : Option Rat
  version : Option Rat
  deriving DecidableEq, Repr

def asNumber : Option Json → Option Rat
  | some (.number n) => some n
  | _ => none

def eventTriple (event : Json) : SummaryTriple where
  flagKey := ((event.objectLookup "key").bind Json.getText).getD ""
  variation := asNumber (event.objectLookup "variation")
  version := asNumber (event.objectLookup "version")

def EvaluationResult.triple (result : EvaluationResult) : SummaryTriple where
  flagKey := result.flagKey
  variation := if result.details.hasVariation then some result.details.variationIndex else none
  version := result.flag.bind fun flag => asNumber (flag.objectLookup "version")

def EvaluationResult.triples (result : EvaluationResult) : List SummaryTriple :=
  result.triple :: (result.subEvents.getD []).map eventTriple

def reportedEntry (flagKey : String) (entry : Json) : SummaryTriple × Rat :=
  (⟨flagKey, asNumber (entry.objectLookup "variation"), asNumber (entry.objectLookup "version")⟩,
    (asNumber (entry.objectLookup "count")).getD 0)

def reportedFeature (feature : String × Json) : List (SummaryTriple × Rat) :=
  (feature.2.objectLookup "counters").elim [] fun counters =>
    counters.getIter.map (reportedEntry feature.1)

def reported (summary : Json) : List (SummaryTriple × Rat) :=
  (summary.objectLookup "features").elim [] fun features =>
    features.iterFields.flatMap reportedFeature

def SummaryEntry.triple (flagKey : String) (entry : SummaryEntry) : SummaryTriple :=
  ⟨flagKey, asNumber entry.variation, asNumber entry.version⟩

def FlagSummary.listing (flagKey : String) (summary : FlagSummary) : List (SummaryTriple × Rat) :=
  summary.counters.map fun counter => (counter.2.triple flagKey, (counter.2.count : Rat))

def EventProcessor.listing (processor : EventProcessor) : List (SummaryTriple × Rat) :=
  processor.summaryCounters.flatMap fun flag => flag.2.listing flag.1

theorem reported_toJSON (flagKey : String) (entry : SummaryEntry) :
    reportedEntry flagKey entry.toJSON = (entry.triple flagKey, (entry.count : Rat)) := by
  have hcount : entry.toJSON.objectLookup "count" = some (.number entry.count) :=
    SummaryEntry.lookup_toJSON (by simp [SummaryEntry.fields])
  have hversion : entry.toJSON.objectLookup "version" = entry.version :=
    SummaryEntry.lookup_toJSON (by simp [SummaryEntry.fields])
  have hvariation : entry.toJSON.objectLookup "variation" = entry.variation :=
    SummaryEntry.lookup_toJSON (by simp [SummaryEntry.fields])
  rw [reportedEntry, hcount, hversion, hvariation]
  rfl

theorem convertFeatures_listing (flags : List (String × FlagSummary)) :
    ∃ features, convertFeatures (flags.map fun flag => (flag.1, flag.2.toJSON)) = .ok features ∧
      features.flatMap reportedFeature = flags.flatMap fun flag => flag.2.listing flag.1 := by
  induction flags with
  | nil => exact ⟨[], rfl, rfl⟩
  | cons flag flags ih =>
      obtain ⟨features, hfeatures, hlisting⟩ := ih
      obtain ⟨flagContext, hconvert, hcounters⟩ := convertCounters_toJSON flag.2
      refine ⟨(flag.1, flagContext) :: features, ?_, ?_⟩
      · rw [List.map_cons, convertFeatures, hconvert, Checked.ok_bind, hfeatures]
        rfl
      · rw [List.flatMap_cons, hlisting, List.flatMap_cons]
        congr 1
        simp [reportedFeature, hcounters, Json.getIter, FlagSummary.listing, reported_toJSON]

theorem prepareSummaryEvent_reported (processor : EventProcessor) (now : Rat) :
    ∃ summary, prepareSummaryEvent processor now = .ok summary ∧
      reported summary = processor.listing := by
  obtain ⟨features, hfeatures, hlisting⟩ := convertFeatures_listing processor.summaryCounters
  have hunique := ((Json.unique_empty.setKey "kind" (.text "summary")).setKey "startDate"
    (.number processor.summaryStart)).setKey "endDate" (.number now)
  refine ⟨_, Checked.bind_eq_ok.mpr ⟨features, hfeatures, rfl⟩, ?_⟩
  rw [reported, hunique.lookup_setKey]
  exact hlisting

theorem createEventPayload_listing {σ : Type} {processor : EventProcessor} (w : World σ) (s : σ) :
    Run.Ensures (createEventPayloadAndResetState w processor) s fun payload _ =>
      (payload.processor.summaryCounters = processor.summaryCounters ∧
        (payload.result.getD []).drop processor.events.length = []) ∨
      (payload.processor.summaryCounters = [] ∧ ∃ summary,
        (payload.result.getD []).drop processor.events.length = [summary] ∧
        reported summary = processor.listing) := by
  rw [createEventPayloadAndResetState, Run.ensures_ask_bind]
  split_ifs with hempty hcounters
  · exact Run.ensures_pure (.inl ⟨rfl, List.drop_nil⟩)
  · obtain ⟨summary, hsummary, hreported⟩ := prepareSummaryEvent_reported processor
      (w.unixMilliseconds s).1
    rw [hsummary]
    refine Run.ensures_pure (.inr ⟨rfl, summary, ?_, hreported⟩)
    simp
  · refine Run.ensures_pure (.inl ⟨rfl, ?_⟩)
    simp

end ServerSdk
