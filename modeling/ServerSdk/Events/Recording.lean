import ServerSdk.Events.Processor

namespace ServerSdk

open Program

structure Summarizable (event : Json) : Prop where
  key : ∃ key, event.objectLookup "key" = some (.text key)
  variation : ∀ j, Json.meaningful (event.objectLookup "variation") = some j → j.getType = .number
  version : ∀ j, Json.meaningful (event.objectLookup "version") = some j → j.getType = .number

def DateFits (json : Json) : Prop :=
  ∀ j, Json.meaningful (json.objectLookup "debugEventsUntilDate") = some j → 0 ≤ j.getNumber

theorem meaningful_numberOf {flag : Json} {key : String}
    (h : (typedIfPresent flag key .number).isSome) :
    numberOf (some flag) key = Json.meaningful (flag.objectLookup key) := by
  simp only [numberOf, Option.bind_some, typedIfPresent] at h ⊢
  cases hlookup : flag.objectLookup key with
  | none => rfl
  | some j =>
      rw [hlookup] at h
      cases j with
      | null => rfl
      | number n => rfl
      | bool b => simp [Json.getType] at h
      | text t => simp [Json.getType] at h
      | array items => simp [Json.getType] at h
      | object fields => simp [Json.getType] at h

theorem Json.meaningful_meaningful (json : Option Json) :
    Json.meaningful (Json.meaningful json) = Json.meaningful json := by
  cases h : Json.notNull json with
  | true => simp [Json.meaningful, h]
  | false => simp [Json.meaningful, h]

theorem numberOf_isNumber {flag : Option Json} {key : String} {j : Json}
    (h : numberOf flag key = some j) : j.getType = .number := by
  obtain ⟨f, -, h⟩ := Option.bind_eq_some_iff.mp h
  simp only [typedIfPresent] at h
  split at h
  · cases h
  · cases h
  · split_ifs at h with htype
    · cases h
      exact htype
    · cases h

theorem eq_some_of_meaningful {json : Option Json} {j : Json} (h : Json.meaningful json = some j) :
    json = some j := by
  simp only [Json.meaningful] at h
  split_ifs at h
  exact h

theorem IsFeatureEvent.summarizable {args : FeatureEventArgs} {event : Json}
    (h : IsFeatureEvent args event) : Summarizable event := by
  refine ⟨⟨_, h.key⟩, ?_, ?_⟩
  · intro j hj
    have hvariation := eq_some_of_meaningful hj
    rw [h.variation] at hvariation
    obtain ⟨n, -, rfl⟩ := Option.map_eq_some_iff.mp hvariation
    rfl
  · intro j hj
    have hversion := eq_some_of_meaningful hj
    rw [h.version] at hversion
    exact numberOf_isNumber hversion

theorem IsFeatureEvent.dateFits_iff {args : FeatureEventArgs} {event flag : Json}
    (h : IsFeatureEvent args event) (hflag : args.flag = some flag) (hrecordable : Recordable flag) :
    DateFits event ↔ DateFits flag := by
  have hdate : Json.meaningful (event.objectLookup "debugEventsUntilDate") =
      Json.meaningful (flag.objectLookup "debugEventsUntilDate") := by
    rw [h.debugEventsUntilDate, hflag, meaningful_numberOf hrecordable.debugEventsUntilDate,
      Json.meaningful_meaningful]
  rw [DateFits, DateFits, hdate]

section Queue

variable (config : Config) (user : User) (detailed : Bool) (now : Rat)

theorem dropReason_lookup {key : String} (hreason : key ≠ "reason")
    (hdetails : key ≠ "shouldAlwaysTrackDetails") (event : Json) :
    (dropReason event detailed).objectLookup key = event.objectLookup key := by
  have hdropped : (event.objectDeleteKey "reason").objectLookup key = event.objectLookup key :=
    Json.objectLookup_deleteKey_of_ne hreason event
  simp only [dropReason]
  cases Json.meaningful (event.objectLookup "shouldAlwaysTrackDetails") with
  | none =>
      simp only
      split_ifs
      · rfl
      · exact hdropped
  | some tmp =>
      simp only
      rw [Json.objectLookup_deleteKey_of_ne hdetails]
      split_ifs
      · rfl
      · exact hdropped

theorem takeTracking_lookup {key : String} (h : key ≠ "trackEvents") (event : Json)
    (inExperiment : Bool) :
    (takeTracking event inExperiment).2.objectLookup key = event.objectLookup key := by
  simp only [takeTracking]
  cases Json.meaningful (event.objectLookup "trackEvents") with
  | none => rfl
  | some tmp => exact Json.objectLookup_deleteKey_of_ne h event

theorem convertToDebug_returns (event : Json) :
    Checked.Returns (convertToDebug config user event) := by
  obtain ⟨json, hjson⟩ := userToJSON_returns user true config.allAttributesPrivate
    config.privateAttributeNames
  exact Checked.returns_bind.mpr ⟨json, hjson, Checked.returns_pure _⟩

theorem queueDebug_returns (event : Json) (debugUntil : Rat) (processor : EventProcessor) :
    Checked.Returns (queueDebug config user event now debugUntil processor) := by
  simp only [queueDebug]
  split_ifs
  · obtain ⟨debugEvent, hdebug⟩ := convertToDebug_returns config user event
    exact Checked.returns_bind.mpr ⟨debugEvent, hdebug, Checked.returns_pure _⟩
  · exact Checked.returns_pure _

theorem possiblyQueueEvent_returns_iff (event : Json) (processor : EventProcessor) :
    Checked.Returns (possiblyQueueEvent config user detailed now event processor) ↔
      DateFits event := by
  have hdate : (takeTracking (dropReason event detailed) (reasonInExperiment event)).2.objectLookup
      "debugEventsUntilDate" = event.objectLookup "debugEventsUntilDate" := by
    rw [takeTracking_lookup (by decide), dropReason_lookup detailed (by decide) (by decide)]
  simp only [possiblyQueueEvent, DateFits, hdate]
  cases Json.meaningful (event.objectLookup "debugEventsUntilDate") with
  | none => simp
  | some tmp =>
      simp only [Option.some.injEq, forall_eq', timestampInitUnixMillis]
      by_cases hdate : 0 ≤ tmp.getNumber
      · simp only [hdate, decide_true, Checked.check_true, Checked.ok_bind, pure_bind, iff_true]
        refine Checked.returns_bind_iff.mpr ⟨queueDebug_returns _ _ _ _ _ _, ?_⟩
        intro queued _
        exact Checked.returns_pure _
      · simp [hdate]

theorem possiblyQueueEvents_returns_iff (events : List Json) (processor : EventProcessor) :
    Checked.Returns (possiblyQueueEvents config user detailed now events processor) ↔
      ∀ event ∈ events, DateFits event := by
  induction events generalizing processor with
  | nil => simp [possiblyQueueEvents]
  | cons event events ih =>
      rw [possiblyQueueEvents, Checked.returns_bind_iff, possiblyQueueEvent_returns_iff,
        List.forall_mem_cons]
      constructor
      · rintro ⟨hfirst, hrest⟩
        obtain ⟨next, hnext⟩ :=
          (possiblyQueueEvent_returns_iff config user detailed now event processor).mpr hfirst
        exact ⟨hfirst, (ih next).mp (hrest next hnext)⟩
      · rintro ⟨hfirst, hrest⟩
        exact ⟨hfirst, fun next _ => (ih next).mpr hrest⟩

end Queue

theorem addNumberTo_returns {key event : Json} {name : String}
    (h : ∀ j, Json.meaningful (event.objectLookup name) = some j → j.getType = .number) :
    Checked.Returns (addNumberTo key event name) := by
  simp only [addNumberTo]
  cases hfield : Json.meaningful (event.objectLookup name) with
  | none => exact Checked.returns_pure _
  | some j => simp [h j hfield]

theorem newIndexEvent_returns (config : Config) (user : User) (timestamp : Rat) :
    Checked.Returns (newIndexEvent config user timestamp) := by
  obtain ⟨json, hjson⟩ := userToJSON_returns user true config.allAttributesPrivate
    config.privateAttributeNames
  exact Checked.returns_bind.mpr ⟨json, hjson, Checked.returns_pure _⟩

theorem flushUserKeys_returns {σ : Type} (w : World σ) (config : Config) (processor : EventProcessor) (s : σ) :
    Run.Returns (flushUserKeys w config processor) s := by
  refine (Run.returns_ask _ _).bind (fun elapsed t => ?_)
  split_ifs
  · exact (Run.returns_ask _ _).bind (fun reset u => Run.returns_pure _ _)
  · exact Run.returns_pure _ _

theorem maybeMakeIndexEvent_returns {σ : Type} (w : World σ) (config : Config) (user : User) (timestamp : Rat)
    (processor : EventProcessor) (s : σ) :
    Run.Returns (maybeMakeIndexEvent w config user timestamp processor) s := by
  simp only [maybeMakeIndexEvent]
  split_ifs
  · exact Run.returns_pure _ _
  · refine (flushUserKeys_returns w config processor s).bind (fun flushed t => ?_)
    cases (flushed.userKeys.insert user.key).1 with
    | existed => exact Run.returns_pure _ _
    | new =>
        refine Run.Returns.bind ?_ (fun event u => Run.returns_pure _ _)
        exact Run.returns_lift.mpr (newIndexEvent_returns config user timestamp)

section Summary

variable [Externals]

theorem makeSummaryKey_returns {event : Json} (h : Summarizable event) :
    Checked.Returns (makeSummaryKey event) := by
  refine Checked.returns_bind_iff.mpr ⟨addNumberTo_returns h.variation, fun key _ => ?_⟩
  refine Checked.returns_bind_iff.mpr ⟨addNumberTo_returns h.version, fun key' _ => ?_⟩
  exact Checked.returns_pure _

variable {σ : Type} (w : World σ)

theorem summarizeEvent_returns {event : Json} (h : Summarizable event) (unknown : Bool)
    (processor : EventProcessor) (s : σ) :
    Run.Returns (summarizeEvent w event unknown processor) s := by
  obtain ⟨key, hkey⟩ := h.key
  have hread : Checked.Returns (eventKey event) := by
    rw [eventKey, hkey]
    exact Checked.returns_ok _
  refine (Run.returns_lift.mpr hread).bind (fun flagKey t => ?_)
  refine (Run.returns_lift.mpr (makeSummaryKey_returns h)).bind (fun keytext u => ?_)
  refine Run.Returns.bind ?_ (fun start v => Run.returns_pure _ _)
  rw [startSummary]
  split_ifs
  · exact Run.returns_ask _ _
  · exact Run.returns_pure _ _

theorem summarizeEvents_returns {events : List Json} (h : ∀ event ∈ events, Summarizable event)
    (processor : EventProcessor) (s : σ) :
    Run.Returns (summarizeEvents w events processor) s := by
  induction events generalizing processor s with
  | nil => exact Run.returns_pure _ _
  | cons event events ih =>
      refine (summarizeEvent_returns w (h event (by simp)) _ _ _).bind (fun next t => ?_)
      exact ih (fun e he => h e (by simp [he])) next t

end Summary

structure Queueable (result : EvaluationResult) : Prop where
  flag : ∀ flag, result.flag = some flag → DateFits flag
  subEvents : ∀ event ∈ result.subEvents.getD [], DateFits event

def Recorded (result : EvaluationResult) : Prop :=
  (∀ flag, result.flag = some flag → Recordable flag) ∧ (reasonToJSON result.details).isSome

theorem queueFeatureEvent_returns_iff {σ : Type} {client : Client σ} {result : EvaluationResult}
    {now : Rat} {event : Json}
    (hevent : IsFeatureEvent (result.featureEvent now) event)
    (hrecordable : ∀ flag, result.flag = some flag → Recordable flag) (processor : EventProcessor) :
    Checked.Returns (queueFeatureEvent client result now event processor) ↔
      ∀ flag, result.flag = some flag → DateFits flag := by
  rw [queueFeatureEvent]
  cases hflag : result.flag with
  | none => simp
  | some flag =>
      rw [possiblyQueueEvent_returns_iff, hevent.dateFits_iff hflag (hrecordable flag hflag)]
      simp

section Record

variable [Externals] {σ : Type} {client : Client σ} {result : EvaluationResult}

theorem recordSubEvents_returns_iff (hsub : ∀ event ∈ result.subEvents.getD [], Summarizable event)
    (now : Rat) (processor : EventProcessor) (s : σ) :
    Run.Returns (recordSubEvents client result now processor) s ↔
      ∀ event ∈ result.subEvents.getD [], DateFits event := by
  rw [recordSubEvents]
  cases hcase : result.subEvents with
  | none => simp [Run.returns_pure]
  | some subEvents =>
      rw [hcase] at hsub
      refine (summarizeEvents_returns client.world hsub processor s).bind_iff (fun queued t => ?_)
      rw [Run.returns_lift, possiblyQueueEvents_returns_iff]
      rfl

theorem recordEvaluation_returns_iff {now : Rat} {event : Json}
    (hevent : IsFeatureEvent (result.featureEvent now) event)
    (hrecordable : ∀ flag, result.flag = some flag → Recordable flag)
    (hsub : ∀ event ∈ result.subEvents.getD [], Summarizable event) (processor : EventProcessor) (s : σ) :
    Run.Returns (recordEvaluation client result now event processor) s ↔ Queueable result := by
  rw [recordEvaluation]
  refine (maybeMakeIndexEvent_returns _ _ _ _ _ _).bind_iff (fun made t => ?_)
  refine (summarizeEvent_returns _ hevent.summarizable _ _ _).bind_iff (fun summed u => ?_)
  rw [Run.returns_bind]
  constructor
  · rintro ⟨queued, v, hqueued, hrest⟩
    have hflag : Checked.Returns (queueFeatureEvent client result now event
        (addIndexEvent client.config made.1 summed)) := ⟨queued, (Run.lift_eq_ok.mp hqueued).1⟩
    exact ⟨(queueFeatureEvent_returns_iff hevent hrecordable _).mp hflag,
      (recordSubEvents_returns_iff hsub now queued v).mp hrest⟩
  · rintro ⟨hflag, hfits⟩
    obtain ⟨queued, hqueued⟩ := (queueFeatureEvent_returns_iff hevent hrecordable
      (addIndexEvent client.config made.1 summed)).mpr hflag
    exact ⟨queued, u, Run.lift_eq_ok.mpr ⟨hqueued, rfl⟩,
      (recordSubEvents_returns_iff hsub now queued u).mpr hfits⟩

theorem processEvaluation_unrecorded (h : ¬ Recorded result) (processor : EventProcessor) (s : σ) :
    processEvaluation client result processor s =
      .ok ((false, processor), (client.world.unixMilliseconds s).2) := by
  obtain ⟨event, hevent⟩ := newFeatureEvent_returns
    (result.featureEvent (client.world.unixMilliseconds s).1) result.user client.config
  have hnone : event = none := by
    cases event with
    | none => rfl
    | some event => exact absurd ((newFeatureEvent_isSome_iff hevent).mp rfl) h
  rw [processEvaluation, Run.ask_bind_run, hevent, hnone]
  rfl

theorem processEvaluation_recorded (h : Recorded result)
    (hsub : ∀ event ∈ result.subEvents.getD [], Summarizable event) (processor : EventProcessor)
    (s : σ) :
    (Queueable result → ∃ next t, processEvaluation client result processor s = .ok ((true, next), t)) ∧
    (Run.Returns (processEvaluation client result processor) s → Queueable result) := by
  obtain ⟨event, hevent⟩ := newFeatureEvent_returns
    (result.featureEvent (client.world.unixMilliseconds s).1) result.user client.config
  obtain ⟨built, rfl⟩ := Option.isSome_iff_exists.mp ((newFeatureEvent_isSome_iff hevent).mpr h)
  have hrecord : Run.Returns (recordEvaluation client result (client.world.unixMilliseconds s).1
      built processor) (client.world.unixMilliseconds s).2 ↔ Queueable result :=
    recordEvaluation_returns_iff (newFeatureEvent_isFeatureEvent hevent) h.1 hsub processor _
  rw [processEvaluation, Run.Returns, Run.ask_bind_run, hevent, Run.lift_ok, pure_bind]
  constructor
  · intro hqueue
    obtain ⟨next, t, hnext⟩ := hrecord.mpr hqueue
    exact ⟨next, t, Run.bind_of_ok hnext⟩
  · rintro ⟨answer, t, hanswer⟩
    obtain ⟨next, u, hnext, -⟩ := Run.bind_eq_ok.mp hanswer
    exact hrecord.mp ⟨next, u, hnext⟩

end Record

end ServerSdk
