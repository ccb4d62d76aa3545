import ServerSdk.Events.Decision

namespace ServerSdk

open Program

def LegacyExperiment (flag : Json) (details : Details) : Prop :=
  (flag.objectLookup "trackEventsFallthrough" = some (.bool true) ∧ details.reason = .fallthrough) ∨
    ((matchedRule flag details).bind (·.objectLookup "trackEvents")) = some (.bool true)

def Experiment (flag : Json) (details : Details) : Prop :=
  LegacyExperiment flag details ∨ details.inExperiment = true

instance (flag : Json) (details : Details) : Decidable (LegacyExperiment flag details) :=
  inferInstanceAs (Decidable ((_ ∧ _) ∨ _))

structure CarriesReason (detailed : Bool) (evaluated : Prerequisite) (event : Json) : Prop where
  due : Experiment evaluated.2 evaluated.1.details → ∃ reason,
    reasonToJSON evaluated.1.details = some reason ∧ event.objectLookup "reason" = some reason
  plain : detailed = false → ¬ Experiment evaluated.2 evaluated.1.details →
    event.objectLookup "reason" = none

theorem trackingOf_shouldAlwaysDetail {flag : Json} {details : Details} {shouldTrack : Bool}
    {tracking : Tracking} (h : trackingOf (some flag) details shouldTrack = some tracking) :
    tracking.shouldAlwaysDetail = true ↔ LegacyExperiment flag details := by
  obtain ⟨fallthrough, hfallthrough, hpure⟩ := Option.bind_eq_some_iff.mp h
  cases hpure
  rw [LegacyExperiment, ← ruleTracks_iff, ← typedIfPresent_true hfallthrough, ← map_getBool_iff]
  simp

theorem dropReason_reason {event reason : Json} (hunique : event.Unique)
    (hreason : event.objectLookup "reason" = some reason) {always : Bool}
    (halways : event.objectLookup "shouldAlwaysTrackDetails" =
      if always then some (.bool true) else none) (detailed : Bool) :
    (dropReason event detailed).objectLookup "reason" =
      if always || detailed then some reason else none := by
  rw [dropReason, halways]
  cases always with
  | true =>
      simp only [if_true, Json.meaningful, Json.notNull, Json.getBool, Bool.true_or]
      rw [Json.objectLookup_deleteKey_of_ne (by decide), hreason]
  | false =>
      simp only [Bool.false_eq_true, if_false, Json.meaningful, Json.notNull, Bool.false_or]
      split
      · exact hreason
      · exact hunique.lookup_deleteKey "reason"

section Offered

variable {config : Config} {user : User} {detailed : Bool} {now lastServerTime : Rat}
  {args : FeatureEventArgs} {flag event : Json} {offers : List Json}

theorem offersOf_reason (hflag : args.flag = some flag)
    (hnew : newFeatureEvent args user config = .ok (some event))
    (hoffers : offersOf config user detailed now lastServerTime event = .ok offers) :
    ∃ reason, reasonToJSON args.details = some reason ∧ ∀ offered ∈ offers,
      offered.objectLookup "reason" =
        if LegacyExperiment flag args.details ∨ detailed = true then some reason else none := by
  obtain ⟨filled, reason, track, tracking, hfinished⟩ := newFeatureEvent_finished hnew
  obtain ⟨hunique, hlookup, -, halways⟩ :=
    @finished_lookups filled reason user tracking hfinished.unique hfinished.fresh
  rw [← hfinished.finished] at hunique hlookup halways
  have hdecided := hfinished.decided
  rw [hflag] at hdecided
  have hdropped := dropReason_reason hunique hlookup halways detailed
  have hlegacy := trackingOf_shouldAlwaysDetail hdecided
  obtain ⟨trimmed, debug, shouldTrack, hoffered, rfl⟩ :=
    offersOf_cases hflag (builtEvent_of_new hflag hnew) hoffers
  have htrimmed : trimmed.objectLookup "reason" =
      if LegacyExperiment flag args.details ∨ detailed = true then some reason else none := by
    rw [hoffered.reason, hdropped]
    simp only [Bool.or_eq_true, hlegacy]
  refine ⟨reason, hfinished.explained, fun offered hmem => ?_⟩
  rcases List.mem_append.mp hmem with hdebug | htracked
  · have hconverted := hoffered.converted offered (Option.mem_toList.mp hdebug)
    rw [convertToDebug_lookup hconverted (by decide) (by decide) (by decide), htrimmed]
  · split at htracked
    · cases List.mem_singleton.mp htracked
      exact htrimmed
    · cases htracked

def ReasonKept (detailed : Bool) (evaluated : Prerequisite) : Prop :=
  detailed = true ∨ (evaluated.1.details.inExperiment = true →
    LegacyExperiment evaluated.2 evaluated.1.details)

theorem carriesReason_of_kept (hflag : args.flag = some flag)
    (hnew : newFeatureEvent args user config = .ok (some event))
    (hoffers : offersOf config user detailed now lastServerTime event = .ok offers)
    (hkept : ReasonKept detailed (args, flag)) :
    ∀ offered ∈ offers, CarriesReason detailed (args, flag) offered := by
  obtain ⟨reason, hreason, hoffered⟩ := offersOf_reason hflag hnew hoffers
  intro offered hmem
  refine ⟨fun hexperiment => ⟨reason, hreason, ?_⟩, fun hdetailed hplain => ?_⟩
  · rw [hoffered offered hmem, if_pos]
    rcases hkept with hdetailed | hlegacy
    · exact .inr hdetailed
    · exact .inl (hexperiment.elim id hlegacy)
  · rw [hoffered offered hmem, if_neg]
    rintro (hlegacy | htrue)
    · exact hplain (.inl hlegacy)
    · rw [hdetailed] at htrue
      cases htrue

theorem kept_of_carriesReason (hflag : args.flag = some flag)
    (hnew : newFeatureEvent args user config = .ok (some event))
    (hoffers : offersOf config user detailed now lastServerTime event = .ok offers)
    (hcarries : ∀ offered ∈ offers, CarriesReason detailed (args, flag) offered) :
    ReasonKept detailed (args, flag) := by
  refine or_iff_not_imp_left.mpr fun hdetailed hexperiment => ?_
  obtain ⟨trimmed, debug, shouldTrack, hoffered, rfl⟩ :=
    offersOf_cases hflag (builtEvent_of_new hflag hnew) hoffers
  have htracked : shouldTrack = true := hoffered.tracked.mpr (.inr (.inr (.inr hexperiment)))
  have hmem : trimmed ∈ debug.toList ++ if shouldTrack then [trimmed] else [] := by
    simp [htracked]
  obtain ⟨reason, -, hlookups⟩ := offersOf_reason hflag hnew hoffers
  obtain ⟨_, -, hpresent⟩ := (hcarries trimmed hmem).due (.inr hexperiment)
  by_contra hlegacy
  rw [hlookups trimmed hmem, if_neg (not_or.mpr ⟨hlegacy, hdetailed⟩)] at hpresent
  cases hpresent

end Offered

section Evaluations

def Offering.attributed (offering : Offering) (main : Prerequisite)
    (prerequisites : List Prerequisite) : List (Option Prerequisite × Json) :=
  offering.index.toList.map (fun event => (none, event)) ++
    offering.own.map (fun event => (some main, event)) ++
    (prerequisites.zip offering.others).flatMap fun pair =>
      pair.2.map fun event => (some pair.1, event)

theorem map_snd_attributed_others {prerequisites : List Prerequisite} {others : List (List Json)}
    (h : prerequisites.length = others.length) :
    ((prerequisites.zip others).flatMap fun pair =>
      pair.2.map fun event => (some pair.1, event)).map Prod.snd = others.flatten := by
  induction prerequisites generalizing others with
  | nil =>
      obtain rfl : others = [] := List.eq_nil_of_length_eq_zero h.symm
      rfl
  | cons prerequisite prerequisites ih =>
      cases others with
      | nil => cases h
      | cons events others =>
          rw [List.zip_cons_cons, List.flatMap_cons, List.map_append, ih (Nat.succ.inj h),
            List.flatten_cons, List.map_map]
          simp [Function.comp_def]

theorem Offering.map_snd_attributed {offering : Offering} {prerequisites : List Prerequisite}
    (h : prerequisites.length = offering.others.length) (main : Prerequisite) :
    (offering.attributed main prerequisites).map Prod.snd = offering.events := by
  rw [attributed, List.map_append, List.map_append, map_snd_attributed_others h, events]
  simp [Function.comp_def]

theorem Offering.forall_attributed {offering : Offering} {main : Prerequisite}
    {prerequisites : List Prerequisite} {P : Prerequisite → Json → Prop}
    (hlength : prerequisites.length = offering.others.length) :
    (∀ pair ∈ offering.attributed main prerequisites, ∀ evaluated ∈ pair.1, P evaluated pair.2) ↔
      (∀ event ∈ offering.own, P main event) ∧
        List.Forall₂ (fun prerequisite events => ∀ event ∈ events, P prerequisite event)
          prerequisites offering.others := by
  simp only [attributed, List.forall_mem_append, List.forall_mem_map, List.forall_mem_flatMap,
    Option.mem_def, reduceCtorEq, false_implies, implies_true, true_and, Option.some.injEq,
    forall_eq', List.forall₂_iff_zip, hlength]
  exact and_congr_right fun _ => ⟨fun h _ _ hpair => h _ hpair, fun h _ hpair => h hpair⟩

variable {σ : Type}

def evaluatedFlags (client : Client σ) (result : EvaluationResult) (flag : Json)
    (prerequisites : List Prerequisite) (s : σ) : List Prerequisite :=
  (result.featureEvent (client.world.unixMilliseconds s).1, flag) :: prerequisites

variable [Externals]

def ReasonsCarried (client : Client σ) (result : EvaluationResult) (flag : Json)
    (prerequisites : List Prerequisite) (processor : EventProcessor) (s : σ) : Prop :=
  ∀ returned next t, processEvaluation client result processor s = .ok ((returned, next), t) →
    ∃ offering, offerEvaluation client result processor s = .ok (offering, t) ∧
      next.events = processor.events ++
        ((offering.attributed (result.featureEvent (client.world.unixMilliseconds s).1, flag)
          prerequisites).take (client.config.eventsCapacity - processor.events.length)).map Prod.snd ∧
      ∀ pair ∈ (offering.attributed (result.featureEvent (client.world.unixMilliseconds s).1, flag)
          prerequisites).take (client.config.eventsCapacity - processor.events.length),
        ∀ evaluated ∈ pair.1, CarriesReason result.detailedEvaluation evaluated pair.2

variable {client : Client σ} {result : EvaluationResult} {flag : Json}
  {prerequisites : List Prerequisite} {processor next : EventProcessor} {s t : σ}

structure OffersOwn (client : Client σ) (result : EvaluationResult) (now : Rat)
    (processor : EventProcessor) (offering : Offering) : Prop where
  returned : offering.returned = true
  queue : offering.processor.events = processor.events
  index : offering.index.toList.length ≤ 1
  own : ∃ event lastServerTime,
    newFeatureEvent (result.featureEvent now) result.user client.config = .ok (some event) ∧
      ownOffers client result now lastServerTime event = .ok offering.own
  others : ∃ lastServerTime, offersOfEach client.config result.user result.detailedEvaluation now
    lastServerTime (result.subEvents.getD []) = .ok offering.others

theorem offerSubEvents_cases {now : Rat} {offered : List (List Json) × EventProcessor}
    (h : offerSubEvents client result now processor s = .ok (offered, t)) :
    offered.2.events = processor.events ∧ ∃ lastServerTime,
      offersOfEach client.config result.user result.detailedEvaluation now lastServerTime
        (result.subEvents.getD []) = .ok offered.1 := by
  rw [offerSubEvents] at h
  cases hsub : result.subEvents with
  | none =>
      rw [hsub] at h
      cases h
      exact ⟨rfl, 0, rfl⟩
  | some subEvents =>
      rw [hsub] at h
      obtain ⟨summed, u, hsummed, h⟩ := Run.bind_eq_ok.mp h
      obtain ⟨others, v, hothers, hpure⟩ := Run.bind_eq_ok.mp h
      cases hpure
      exact ⟨(summarizeEvents_sameQueue client.world subEvents processor s summed u hsummed).events, _,
        (Run.lift_eq_ok.mp hothers).1⟩

theorem offerEvaluation_cases {offering : Offering}
    (h : offerEvaluation client result processor s = .ok (offering, t)) :
    offering = ⟨false, none, [], [], processor⟩ ∨
      OffersOwn client result (client.world.unixMilliseconds s).1 processor offering := by
  rw [offerEvaluation, Run.ask_bind_run] at h
  obtain ⟨event, u, hevent, h⟩ := Run.bind_eq_ok.mp h
  obtain ⟨hnew, -⟩ := Run.lift_eq_ok.mp hevent
  cases event with
  | none =>
      cases h
      exact .inl rfl
  | some event =>
      obtain ⟨made, u', hmake, h⟩ := Run.bind_eq_ok.mp h
      obtain ⟨summed, v, hsummed, h⟩ := Run.bind_eq_ok.mp h
      obtain ⟨own, v', hown, h⟩ := Run.bind_eq_ok.mp h
      obtain ⟨others, w, hothers, hpure⟩ := Run.bind_eq_ok.mp h
      have hmade := (maybeMakeIndexEvent_sameQueue client.world client.config result.user _ processor
        u made u' hmake).1.events
      have hqueue := (summarizeEvent_sameQueue client.world event result.flag.isNone made.2 u' summed v
        hsummed).events
      obtain ⟨hevents, lastServerTime, heach⟩ := offerSubEvents_cases hothers
      cases hpure
      refine .inr ⟨rfl, hevents.trans (hqueue.trans hmade), ?_,
        ⟨event, _, hnew, (Run.lift_eq_ok.mp hown).1⟩, lastServerTime, heach⟩
      cases made.1 <;> simp

omit [Externals] in
theorem offersOfEach_forall {config : Config} {user : User} {detailed : Bool}
    {now lastServerTime : Rat} {events : List Json} {others : List (List Json)}
    (hbuilds : List.Forall₂ (Prerequisite.Builds config user) prerequisites events)
    (h : offersOfEach config user detailed now lastServerTime events = .ok others) :
    List.Forall₂ (fun prerequisite offers => ∃ event, Prerequisite.Builds config user prerequisite event ∧
      offersOf config user detailed now lastServerTime event = .ok offers) prerequisites others := by
  induction hbuilds generalizing others with
  | nil =>
      cases h
      exact .nil
  | @cons prerequisite event prerequisites events hfirst _ ih =>
      obtain ⟨offers, hoffers, h⟩ := Checked.bind_eq_ok.mp h
      obtain ⟨rest, hrest, hpure⟩ := Checked.bind_eq_ok.mp h
      cases hpure
      exact .cons ⟨event, hfirst, hoffers⟩ (ih hrest)

omit [Externals] in
theorem length_offersOf {config : Config} {user : User} {detailed : Bool}
    {now lastServerTime : Rat} {args : FeatureEventArgs} {event : Json} {offers : List Json}
    (hflag : args.flag = some flag) (h : BuiltEvent args flag event)
    (hoffers : offersOf config user detailed now lastServerTime event = .ok offers) :
    offers.length ≤ 2 := by
  obtain ⟨trimmed, debug, shouldTrack, -, rfl⟩ := offersOf_cases hflag h hoffers
  cases debug <;> cases shouldTrack <;> simp

structure Attributed (client : Client σ) (result : EvaluationResult) (flag : Json)
    (prerequisites : List Prerequisite) (now : Rat) (offering : Offering) : Prop where
  index : offering.index.toList.length ≤ 1
  own : ∃ event lastServerTime,
    newFeatureEvent (result.featureEvent now) result.user client.config = .ok (some event) ∧
      offersOf client.config result.user result.detailedEvaluation now lastServerTime event =
        .ok offering.own
  others : ∃ lastServerTime, List.Forall₂ (fun prerequisite offers => ∃ event,
      Prerequisite.Builds client.config result.user prerequisite event ∧
        offersOf client.config result.user result.detailedEvaluation now lastServerTime event =
          .ok offers) prerequisites offering.others

omit [Externals] in
theorem OffersOwn.attributed {now : Rat} {offering : Offering} (hflag : result.flag = some flag)
    (hprerequisites : List.Forall₂ (Prerequisite.Builds client.config result.user) prerequisites
      (result.subEvents.getD []))
    (h : OffersOwn client result now processor offering) :
    Attributed client result flag prerequisites now offering := by
  obtain ⟨-, -, hindex, ⟨event, lastServerTime, hnew, hown⟩, lastServerTime', hothers⟩ := h
  rw [ownOffers, hflag] at hown
  exact ⟨hindex, ⟨event, lastServerTime, hnew, hown⟩, lastServerTime',
    offersOfEach_forall hprerequisites hothers⟩

namespace Attributed

variable {now : Rat} {offering : Offering}

omit [Externals] in
theorem carries (h : Attributed client result flag prerequisites now offering)
    (hflag : result.flag = some flag)
    (hkept : ∀ evaluated ∈ (result.featureEvent now, flag) :: prerequisites,
      ReasonKept result.detailedEvaluation evaluated) :
    ∀ pair ∈ offering.attributed (result.featureEvent now, flag) prerequisites,
      ∀ evaluated ∈ pair.1, CarriesReason result.detailedEvaluation evaluated pair.2 := by
  obtain ⟨-, ⟨event, lastServerTime, hnew, hown⟩, lastServerTime', hothers⟩ := h
  obtain ⟨hmain, hrest⟩ := List.forall_mem_cons.mp hkept
  refine (Offering.forall_attributed hothers.length_eq).mpr
    ⟨carriesReason_of_kept hflag hnew hown hmain, ?_⟩
  clear hkept
  generalize offering.others = others at hothers ⊢
  induction hothers with
  | nil => exact .nil
  | cons hfirst _ ih =>
      obtain ⟨hfirstKept, hrest⟩ := List.forall_mem_cons.mp hrest
      obtain ⟨event, ⟨hbuilt, hnew⟩, hoffers⟩ := hfirst
      exact .cons (carriesReason_of_kept hbuilt hnew hoffers hfirstKept) (ih hrest)

omit [Externals] in
theorem kept (h : Attributed client result flag prerequisites now offering)
    (hflag : result.flag = some flag)
    (hcarries : ∀ pair ∈ offering.attributed (result.featureEvent now, flag) prerequisites,
      ∀ evaluated ∈ pair.1, CarriesReason result.detailedEvaluation evaluated pair.2) :
    ∀ evaluated ∈ (result.featureEvent now, flag) :: prerequisites,
      ReasonKept result.detailedEvaluation evaluated := by
  obtain ⟨-, ⟨event, lastServerTime, hnew, hown⟩, lastServerTime', hothers⟩ := h
  obtain ⟨hmain, hrest⟩ := (Offering.forall_attributed hothers.length_eq).mp hcarries
  refine List.forall_mem_cons.mpr ⟨kept_of_carriesReason hflag hnew hown hmain, ?_⟩
  clear hcarries
  generalize offering.others = others at hothers hrest
  induction hothers with
  | nil => exact List.forall_mem_nil _
  | @cons prerequisite offers prerequisites others hfirst _ ih =>
      obtain ⟨hfirstCarries, hrest⟩ := List.forall₂_cons.mp hrest
      obtain ⟨event, ⟨hbuilt, hnew⟩, hoffers⟩ := hfirst
      have hkept : ReasonKept result.detailedEvaluation prerequisite :=
        kept_of_carriesReason hbuilt hnew hoffers hfirstCarries
      exact List.forall_mem_cons.mpr ⟨hkept, ih hrest⟩

omit [Externals] in
theorem length_le (h : Attributed client result flag prerequisites now offering)
    (hflag : result.flag = some flag) :
    offering.events.length ≤ 3 + 2 * prerequisites.length := by
  obtain ⟨hindex, ⟨event, lastServerTime, hnew, hown⟩, lastServerTime', hothers⟩ := h
  have hmain := length_offersOf hflag (builtEvent_of_new hflag hnew) hown
  have hrest : offering.others.flatten.length ≤ 2 * prerequisites.length := by
    generalize offering.others = others at hothers
    induction hothers with
    | nil => exact Nat.le_refl 0
    | cons hfirst _ ih =>
        obtain ⟨event, ⟨hbuilt, hnew⟩, hoffers⟩ := hfirst
        have hlength := length_offersOf hbuilt (builtEvent_of_new hbuilt hnew) hoffers
        rw [List.flatten_cons, List.length_append, List.length_cons]
        omega
  rw [Offering.events, List.length_append, List.length_append]
  omega

end Attributed

theorem processEvaluation_offering {returned : Bool}
    (h : processEvaluation client result processor s = .ok ((returned, next), t)) :
    ∃ offering, offerEvaluation client result processor s = .ok (offering, t) ∧
      returned = offering.returned ∧
      next = offering.processor.offered client.config offering.events := by
  rw [processEvaluation_offers, ← bind_pure_comp] at h
  obtain ⟨offering, u, hoffering, hpure⟩ := Run.bind_eq_ok.mp h
  cases hpure
  exact ⟨offering, hoffering, rfl, rfl⟩

theorem reasonsCarried_of_kept (hflag : result.flag = some flag)
    (hprerequisites : List.Forall₂ (Prerequisite.Builds client.config result.user) prerequisites
      (result.subEvents.getD []))
    (hkept : ∀ evaluated ∈ evaluatedFlags client result flag prerequisites s,
      ReasonKept result.detailedEvaluation evaluated) :
    ReasonsCarried client result flag prerequisites processor s := by
  intro returned next t h
  obtain ⟨offering, hoffering, -, rfl⟩ := processEvaluation_offering h
  refine ⟨offering, hoffering, ?_⟩
  rcases offerEvaluation_cases hoffering with rfl | hown
  · simp [Offering.attributed, Offering.events, EventProcessor.offered_nil]
  · have hattributed := hown.attributed hflag hprerequisites
    obtain ⟨_, hothers⟩ := hattributed.others
    refine ⟨?_, fun pair hpair => hattributed.carries hflag hkept pair (List.mem_of_mem_take hpair)⟩
    rw [List.map_take, Offering.map_snd_attributed hothers.length_eq, EventProcessor.offered,
      offerAll_eq, hown.queue]

theorem kept_of_reasonsCarried (hflag : result.flag = some flag)
    (hprerequisites : List.Forall₂ (Prerequisite.Builds client.config result.user) prerequisites
      (result.subEvents.getD []))
    (hrecorded : processEvaluation client result processor s = .ok ((true, next), t))
    (hroom : processor.events.length + 3 + 2 * prerequisites.length ≤ client.config.eventsCapacity)
    (hcarried : ReasonsCarried client result flag prerequisites processor s) :
    ∀ evaluated ∈ evaluatedFlags client result flag prerequisites s,
      ReasonKept result.detailedEvaluation evaluated := by
  obtain ⟨offering, hoffering, hreturned, -⟩ := processEvaluation_offering hrecorded
  obtain ⟨other, hother, -, hcarries⟩ := hcarried true next t hrecorded
  obtain rfl : offering = other := (Prod.mk.inj (Except.ok.inj (hoffering.symm.trans hother))).1
  rcases offerEvaluation_cases hoffering with rfl | hown
  · cases hreturned
  · have hattributed := hown.attributed hflag hprerequisites
    obtain ⟨_, hothers⟩ := hattributed.others
    have hlength := hattributed.length_le hflag
    rw [← Offering.map_snd_attributed hothers.length_eq, List.length_map] at hlength
    rw [List.take_of_length_le (hlength.trans (by omega))] at hcarries
    exact hattributed.kept hflag hcarries

theorem experiment_reasons_carried_iff (client : Client σ) (result : EvaluationResult) (flag : Json)
    (prerequisites : List Prerequisite) (processor : EventProcessor) (s : σ)
    (hflag : result.flag = some flag)
    (hprerequisites : List.Forall₂ (Prerequisite.Builds client.config result.user) prerequisites
      (result.subEvents.getD [])) :
    ((∀ evaluated ∈ evaluatedFlags client result flag prerequisites s,
        ReasonKept result.detailedEvaluation evaluated) →
      ReasonsCarried client result flag prerequisites processor s) ∧
    (∀ next t, processEvaluation client result processor s = .ok ((true, next), t) →
      processor.events.length + 3 + 2 * prerequisites.length ≤ client.config.eventsCapacity →
      (ReasonsCarried client result flag prerequisites processor s ↔
        ∀ evaluated ∈ evaluatedFlags client result flag prerequisites s,
          ReasonKept result.detailedEvaluation evaluated)) := by
  have hsufficient := @reasonsCarried_of_kept σ _ client result flag prerequisites processor s hflag
    hprerequisites
  refine ⟨hsufficient, fun next t hrecorded hroom => ⟨?_, hsufficient⟩⟩
  exact kept_of_reasonsCarried hflag hprerequisites hrecorded hroom

end Evaluations

def experimentFlag : Json :=
  .object [("version", .number 7), ("trackEventsFallthrough", .bool true)]

def rolloutFlag : Json := .object [("version", .number 7)]

def rolloutResult (flag : Json) (detailedEvaluation : Bool) : EvaluationResult where
  __ := sampleResult
  subEvents := none
  flag := some flag
  details := ⟨1, true, .fallthrough, .fallthrough true⟩
  detailedEvaluation := detailedEvaluation

abbrev processRollout (flag : Json) : Except Halt ((Bool × EventProcessor) × Unit) :=
  @processEvaluation sampleExternals Unit sampleClient (rolloutResult flag false)
    (EventProcessor.create configNew 0) ()

theorem experiment_reason_carried : ∃ next,
    processRollout experimentFlag = .ok ((true, next), ()) ∧
      @ReasonsCarried Unit sampleExternals sampleClient (rolloutResult experimentFlag false)
        experimentFlag [] (EventProcessor.create configNew 0) () := by
  have hruns : Succeeds (fun processed => processed.1.1 = true) (processRollout experimentFlag) := by
    decide +kernel
  obtain ⟨⟨⟨returned, next⟩, t⟩, hrun, htrue⟩ := exists_of_succeeds hruns
  cases htrue
  refine ⟨next, hrun, ((@experiment_reasons_carried_iff Unit sampleExternals sampleClient
    (rolloutResult experimentFlag false) experimentFlag [] (EventProcessor.create configNew 0) () rfl
    .nil).2 next t hrun (by decide)).mpr ?_⟩
  intro evaluated hevaluated
  obtain rfl : evaluated = _ := List.mem_singleton.mp hevaluated
  exact .inr fun _ => .inl ⟨rfl, rfl⟩

theorem rollout_reason_dropped : ∃ next,
    processRollout rolloutFlag = .ok ((true, next), ()) ∧
      ¬ @ReasonsCarried Unit sampleExternals sampleClient (rolloutResult rolloutFlag false)
        rolloutFlag [] (EventProcessor.create configNew 0) () := by
  have hruns : Succeeds (fun processed => processed.1.1 = true) (processRollout rolloutFlag) := by
    decide +kernel
  obtain ⟨⟨⟨returned, next⟩, t⟩, hrun, htrue⟩ := exists_of_succeeds hruns
  cases htrue
  refine ⟨next, hrun, fun hcarried => ?_⟩
  have hkept := @kept_of_reasonsCarried Unit sampleExternals sampleClient
    (rolloutResult rolloutFlag false) rolloutFlag [] (EventProcessor.create configNew 0) next () t rfl
    .nil hrun (by decide) hcarried _ (List.mem_singleton.mpr rfl)
  rcases hkept with hdetailed | hlegacy
  · cases hdetailed
  · exact absurd (hlegacy rfl) (by decide)

end ServerSdk
