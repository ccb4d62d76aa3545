import ServerSdk.Events.SummaryKeys
import ServerSdk.Program.Steps

namespace ServerSdk

open Program

structure SummaryRun (σ : Type) where
  world : σ
  processor : EventProcessor
  evaluated : List SummaryTriple
  summaries : List Json

inductive ProcessorCall where
  | processEvaluation (result : EvaluationResult)
  | createEventPayload

def ProcessorCall.triples : ProcessorCall → List SummaryTriple
  | .processEvaluation result => result.triples
  | .createEventPayload => []

namespace SummaryRun

variable {σ : Type}

def begin (config : Config) (now : Rat) (world : σ) : SummaryRun σ :=
  ⟨world, .create config now, [], []⟩

def answered (run : SummaryRun σ) (result : EvaluationResult) (answer : Bool × EventProcessor)
    (world : σ) : SummaryRun σ :=
  { run with
    world
    processor := answer.2
    evaluated := run.evaluated ++ if answer.1 then result.triples else [] }

def flushed (run : SummaryRun σ) (payload : EventPayload) (world : σ) : SummaryRun σ :=
  { run with
    world
    processor := payload.processor
    summaries := run.summaries ++ (payload.result.getD []).drop run.processor.events.length }

structure CountersExact (run : SummaryRun σ) : Prop where
  accounted : ∀ triple,
    (run.summaries.map fun summary => tally triple (reported summary)).sum +
      tally triple run.processor.listing = run.evaluated.count triple
  pendingOnce : (run.processor.listing.map Prod.fst).Nodup
  listedOnce : ∀ summary ∈ run.summaries, ((reported summary).map Prod.fst).Nodup

variable [Externals]

def step (client : Client σ) (run : SummaryRun σ) : ProcessorCall → Except Halt (SummaryRun σ)
  | .processEvaluation result =>
      match processEvaluation client result run.processor run.world with
      | .ok (answer, world) => .ok (run.answered result answer world)
      | .error halt => .error halt
  | .createEventPayload =>
      match createEventPayloadAndResetState client.world run.processor run.world with
      | .ok (payload, world) => .ok (run.flushed payload world)
      | .error halt => .error halt

end SummaryRun

theorem flagKey_of_mem_listing {flagKey : String} {summary : FlagSummary} {triple : SummaryTriple}
    (h : triple ∈ (summary.listing flagKey).map Prod.fst) : triple.flagKey = flagKey := by
  obtain ⟨_, hcounter, rfl⟩ := List.mem_map.mp h
  obtain ⟨counter, _, rfl⟩ := List.mem_map.mp hcounter
  rfl

section Listed

variable [Externals] {good : Rat → Prop} {processor : EventProcessor}

theorem FlagSummary.Keyed.nodup_listing {summary : FlagSummary} (h : summary.Keyed good)
    (flagKey : String) : ((summary.listing flagKey).map Prod.fst).Nodup := by
  have htexts : (((summary.listing flagKey).map Prod.fst).map fun triple =>
      summaryKeyText triple.variation triple.version) = summary.counters.map Prod.fst := by
    rw [FlagSummary.listing, List.map_map, List.map_map]
    exact List.map_congr_left fun counter hcounter => (h.fields counter hcounter).symm
  exact List.Nodup.of_map _ (htexts ▸ h.texts)

theorem EventProcessor.Keyed.nodup_listing (h : processor.Keyed good) :
    (processor.listing.map Prod.fst).Nodup := by
  rw [EventProcessor.listing, List.map_flatMap, List.nodup_flatMap]
  refine ⟨fun flag hflag => (h.summaries flag hflag).nodup_listing flag.1, ?_⟩
  have hflags : processor.summaryCounters.Pairwise fun flag flag' => flag.1 ≠ flag'.1 :=
    List.pairwise_map.mp h.flags
  refine hflags.imp fun hne => ?_
  intro triple hfirst hsecond
  exact hne ((flagKey_of_mem_listing hfirst).symm.trans (flagKey_of_mem_listing hsecond))

end Listed

namespace SummaryRun

variable [Externals] {σ : Type} {good : Rat → Prop} {client : Client σ} {run next : SummaryRun σ}

structure Balanced (good : Rat → Prop) (run : SummaryRun σ) : Prop where
  keyed : run.processor.Keyed good
  exact : run.CountersExact

theorem balanced_begin (config : Config) (now : Rat) (world : σ) :
    (begin config now world).Balanced good := by
  have hkeyed : (EventProcessor.create config now).Keyed good := ⟨List.nodup_nil, nofun⟩
  refine ⟨hkeyed, fun triple => ?_, hkeyed.nodup_listing, nofun⟩
  simp [begin, EventProcessor.create, EventProcessor.listing]

theorem Balanced.counted {triples : List SummaryTriple} {processor : EventProcessor}
    (h : run.Balanced good) (world : σ) (hgood : ∀ triple ∈ triples, triple.Within good)
    (hcounts : EventProcessor.Counts good triples run.processor processor) :
    Balanced good { run with world, processor, evaluated := run.evaluated ++ triples } := by
  obtain ⟨hkeyed, htally⟩ := hcounts hgood h.keyed
  refine ⟨hkeyed, fun triple => ?_, hkeyed.nodup_listing, h.exact.listedOnce⟩
  have hbefore := h.exact.accounted triple
  have hafter := htally triple
  simp only [List.count_append, Nat.cast_add]
  rw [hafter, ← hbefore, add_assoc]

theorem Balanced.emptied {processor : EventProcessor} {summary : Json} (h : run.Balanced good)
    (world : σ) (hprocessor : processor.summaryCounters = [])
    (hsummary : reported summary = run.processor.listing) :
    Balanced good { run with world, processor, summaries := run.summaries ++ [summary] } := by
  have hkeyed : processor.Keyed good := ⟨by simp [hprocessor], by simp [hprocessor]⟩
  refine ⟨hkeyed, fun triple => ?_, hkeyed.nodup_listing, ?_⟩
  · have hbefore := h.exact.accounted triple
    have hlisting : processor.listing = [] := by simp [EventProcessor.listing, hprocessor]
    simp [hlisting, hsummary, hbefore]
  · intro other hother
    rcases List.mem_append.mp hother with hother | hother
    · exact h.exact.listedOnce other hother
    · cases List.mem_singleton.mp hother
      rw [hsummary]
      exact h.exact.pendingOnce

theorem Balanced.flushed {payload : EventPayload} {s world : σ} (h : run.Balanced good)
    (hpayload : createEventPayloadAndResetState client.world run.processor s =
      .ok (payload, world)) :
    (run.flushed payload world).Balanced good := by
  obtain ⟨hcounters, hnone⟩ | ⟨hcounters, summary, hone, hsummary⟩ :=
    createEventPayload_listing client.world s payload world hpayload
  · have hkept := h.counted world (List.forall_mem_nil _) (EventProcessor.counts_of_eq hcounters)
    rw [List.append_nil] at hkept
    rw [SummaryRun.flushed, hnone, List.append_nil]
    exact hkept
  · rw [SummaryRun.flushed, hone]
    exact h.emptied world hcounters hsummary

theorem Balanced.step (hdistinct : KeysDistinct good) {call : ProcessorCall}
    (h : run.Balanced good) (hgood : ∀ triple ∈ call.triples, triple.Within good)
    (hstep : run.step client call = .ok next) : next.Balanced good := by
  cases call with
  | processEvaluation result =>
      rw [SummaryRun.step] at hstep
      cases hanswer : processEvaluation client result run.processor run.world with
      | error halt =>
          rw [hanswer] at hstep
          cases hstep
      | ok answered =>
          rw [hanswer] at hstep
          cases hstep
          have hcounts := EventProcessor.processEvaluation_counts hdistinct client result run.world
            answered.1 answered.2 hanswer
          refine h.counted answered.2 ?_ hcounts
          intro triple hmem
          split_ifs at hmem
          · exact hgood triple hmem
          · cases hmem
  | createEventPayload =>
      rw [SummaryRun.step] at hstep
      cases hpayload : createEventPayloadAndResetState client.world run.processor run.world with
      | error halt =>
          rw [hpayload] at hstep
          cases hstep
      | ok created =>
          rw [hpayload] at hstep
          cases hstep
          exact h.flushed hpayload

end SummaryRun

theorem summary_counters_exact [Externals] [CNumbers] {σ : Type} (hprints : PrintsKeys)
    (client : Client σ) (now : Rat) (world : σ) {run : SummaryRun σ}
    (h : Steps (SummaryRun.step client)
      (fun _ call => ∀ triple ∈ call.triples, triple.Within CJson.Printed)
      (.begin client.config now world) run) : run.CountersExact := by
  have hbalanced : run.Balanced CJson.Printed := by
    refine h.invariant (SummaryRun.balanced_begin client.config now world) ?_
    intro run next call hbalanced hgood hstep
    exact hbalanced.step hprints.distinct hgood hstep
  exact hbalanced.exact

def keyNumber (key : Json) (name : String) : Option Double :=
  (asNumber (key.objectLookup name)).map .finite

@[reducible] def sampleExternals : Externals :=
  { literalExternals with
    serialize key := asText (@CJson.render CJson.oneDigit false 0
      (CJson.keyItem (keyNumber key "variation") (keyNumber key "version"))) }

theorem sampleExternals_prints : @PrintsKeys sampleExternals CJson.oneDigit := by
  let _ := CJson.oneDigit
  intro variation version garbage reallocates text htext
  have hkey : CJson.keyItem (keyNumber (summaryKey variation version) "variation")
      (keyNumber (summaryKey variation version) "version") =
        CJson.keyItem (variation.map .finite) (version.map .finite) := by
    cases variation <;> cases version <;> rfl
  obtain hprint | ⟨hnone, -⟩ := CJson.PrintBuffer.print_writes garbage reallocates false
    (CJson.keyItem (variation.map .finite) (version.map .finite))
  · have hrender := List.append_cancel_right (Option.some.inj (Except.ok.inj (hprint.symm.trans htext)))
    rw [← hrender, ← hkey]
    rfl
  · cases hnone.symm.trans htext

def sampleWorld : World Unit where
  storeInitialized _ := (true, ())
  storeGet _ _ _ := (none, ())
  storeAll _ _ := (none, ())
  unixMilliseconds _ := (1000, ())
  monotonicMilliseconds _ := (1000, ())

def sampleClient : Client Unit := ⟨configNew, sampleWorld⟩

def sampleResult : EvaluationResult where
  user := userNew "u"
  subEvents := some [.object [("key", .text "b"), ("variation", .number 1), ("version", .number 7)]]
  flagKey := "a"
  actualValue := some (.bool true)
  fallbackValue := .bool false
  flag := some (.object [("version", .number 7)])
  details := ⟨1, true, .fallthrough, .none⟩
  detailedEvaluation := false

def summarizedCalls : List ProcessorCall :=
  [.processEvaluation sampleResult, .createEventPayload, .processEvaluation sampleResult]

theorem summarizedCalls_printed : ∀ call ∈ summarizedCalls, ∀ triple ∈ call.triples,
    triple.Within (@CJson.Printed CJson.oneDigit) := by
  have hresult : ∀ triple ∈ sampleResult.triples, triple.Within (@CJson.Printed CJson.oneDigit) := by
    intro triple htriple
    have hnumbers : triple.variation = some 1 ∧ triple.version = some 7 := by
      revert triple
      decide +kernel
    exact ⟨by simpa [hnumbers.1] using CJson.printed_one, by simpa [hnumbers.2] using CJson.printed_seven⟩
  exact List.forall_mem_cons.mpr ⟨hresult, List.forall_mem_cons.mpr ⟨List.forall_mem_nil _,
    List.forall_mem_singleton.mpr hresult⟩⟩

theorem sample_summary_exact : ∃ run,
    Steps (@SummaryRun.step Unit sampleExternals sampleClient)
      (fun _ call => ∀ triple ∈ call.triples, triple.Within (@CJson.Printed CJson.oneDigit))
      (.begin sampleClient.config 0 ()) run ∧
    (run.summaries.length = 1 ∧ run.evaluated.count ⟨"a", some 1, some 7⟩ = 2) ∧
    run.CountersExact := by
  have halong : Along (@SummaryRun.step Unit sampleExternals sampleClient) (fun _ _ => True)
      (fun run => run.summaries.length = 1 ∧ run.evaluated.count ⟨"a", some 1, some 7⟩ = 2)
      summarizedCalls (.begin sampleClient.config 0 ()) := by
    decide +kernel
  obtain ⟨run, hsteps, hrun⟩ := Steps.of_along (halong.allow fun call hcall _ =>
    summarizedCalls_printed call hcall)
  exact ⟨run, hsteps, hrun, @summary_counters_exact sampleExternals CJson.oneDigit _
    sampleExternals_prints _ _ _ _ hsteps⟩

end ServerSdk
