import ServerSdk.Events.Identify
import ServerSdk.Events.KeyCache
import ServerSdk.Events.Payload

namespace ServerSdk

open Program

structure LeavesIndex (processor next : EventProcessor) : Prop where
  userKeys : next.userKeys = processor.userKeys
  lastUserKeyFlush : next.lastUserKeyFlush = processor.lastUserKeyFlush
  indexEvents : indexEvents next.events = indexEvents processor.events
  grows : processor.events.length ≤ next.events.length

theorem LeavesIndex.refl (processor : EventProcessor) : LeavesIndex processor processor :=
  ⟨rfl, rfl, rfl, le_rfl⟩

theorem LeavesIndex.trans {processor middle next : EventProcessor}
    (h : LeavesIndex processor middle) (h' : LeavesIndex middle next) : LeavesIndex processor next :=
  ⟨h'.userKeys.trans h.userKeys, h'.lastUserKeyFlush.trans h.lastUserKeyFlush,
    h'.indexEvents.trans h.indexEvents, h.grows.trans h'.grows⟩

theorem LeavesIndex.follows {processor next : EventProcessor} (h : LeavesIndex processor next)
    {capacity : ℕ} {ledger : KeyLedger} (hfollows : Follows capacity ledger processor) :
    Follows capacity ledger next := by
  obtain ⟨hwellFormed, hsize, hlist, hcleared⟩ := hfollows
  rw [← h.userKeys] at hwellFormed hsize hlist
  exact ⟨hwellFormed, hsize, hlist, h.lastUserKeyFlush.trans hcleared⟩

theorem Follows.addEvent {capacity : ℕ} {ledger : KeyLedger} {processor : EventProcessor}
    (h : Follows capacity ledger processor) (config : Config) (event : Json) :
    Follows capacity ledger (addEvent config event processor) := by
  obtain ⟨hwellFormed, hsize, hlist, hcleared⟩ := h
  rw [ServerSdk.addEvent]
  split <;> exact ⟨hwellFormed, hsize, hlist, hcleared⟩

theorem Follows.addIndexEvent {capacity : ℕ} {ledger : KeyLedger} {processor : EventProcessor}
    (h : Follows capacity ledger processor) (config : Config) (made : Option Json) :
    Follows capacity ledger (addIndexEvent config made processor) := by
  cases made with
  | none => exact h
  | some event => exact h.addEvent config event

theorem isIndex_of_kind {event : Json} {kind : String}
    (h : event.objectLookup "kind" = some (.text kind)) (hne : kind ≠ "index") :
    isIndex event = false := by
  simp [isIndex, h, hne]

theorem addEvent_leavesIndex (config : Config) {event : Json} (h : isIndex event = false)
    (processor : EventProcessor) : LeavesIndex processor (addEvent config event processor) := by
  rw [addEvent]
  split
  · exact .refl processor
  · exact ⟨rfl, rfl, by simp [indexEvents, h], by simp⟩

theorem offered_leavesIndex (config : Config) {events : List Json}
    (h : ∀ event ∈ events, isIndex event = false) (processor : EventProcessor) :
    LeavesIndex processor (processor.offered config events) := by
  have hnone : ∀ event ∈ events.take (config.eventsCapacity - processor.events.length),
      ¬ isIndex event = true := by
    intro event hevent
    simp [h event (List.mem_of_mem_take hevent)]
  refine ⟨rfl, rfl, ?_, ?_⟩
  · rw [EventProcessor.offered, offerAll_eq, indexEvents, List.filter_append,
      List.filter_eq_nil_iff.mpr hnone, List.append_nil]
    rfl
  · simp [EventProcessor.offered, offerAll_eq]

theorem possiblyQueueEvent_leavesIndex {config : Config} {user : User} {detailed : Bool} {now : Rat}
    {args : FeatureEventArgs} {flag event : Json} {processor next : EventProcessor}
    (hflag : args.flag = some flag) (h : BuiltEvent args flag event)
    (hqueue : possiblyQueueEvent config user detailed now event processor = .ok next) :
    LeavesIndex processor next := by
  rw [possiblyQueueEvent_offers] at hqueue
  cases hoffersOf : offersOf config user detailed now processor.lastServerTime event with
  | error fault =>
      rw [hoffersOf] at hqueue
      cases hqueue
  | ok events =>
      rw [hoffersOf] at hqueue
      cases hqueue
      refine offered_leavesIndex config (fun offered hoffered => ?_) processor
      rcases offersOf_kinds hflag h hoffersOf offered hoffered with hdebug | hfeature
      · exact isIndex_of_kind hdebug (by decide)
      · exact isIndex_of_kind hfeature (by decide)

theorem possiblyQueueEvents_leavesIndex {config : Config} {user : User} {detailed : Bool} {now : Rat}
    {events : List Json} (h : ∀ event ∈ events, SubEventBuilt config user event)
    {processor next : EventProcessor}
    (hqueue : possiblyQueueEvents config user detailed now events processor = .ok next) :
    LeavesIndex processor next := by
  induction events generalizing processor with
  | nil =>
      cases hqueue
      exact .refl _
  | cons event events ih =>
      obtain ⟨prerequisite, hflag, hnew⟩ := h event (by simp)
      obtain ⟨middle, hmiddle, hqueue⟩ := Checked.bind_eq_ok.mp hqueue
      have hfirst := possiblyQueueEvent_leavesIndex hflag (builtEvent_of_new hflag hnew) hmiddle
      exact hfirst.trans (ih (fun other hother => h other (by simp [hother])) hqueue)

section Call

variable {σ : Type} {client : Client σ} {ledger : KeyLedger} {processor : EventProcessor}

theorem queueFeatureEvent_leavesIndex {client : Client σ} {result : EvaluationResult} {now : Rat}
    {event : Json} (hnew : newFeatureEvent (result.featureEvent now) result.user client.config =
      .ok (some event)) {processor next : EventProcessor}
    (h : queueFeatureEvent client result now event processor = .ok next) :
    LeavesIndex processor next := by
  rw [queueFeatureEvent] at h
  cases hflag : result.flag with
  | none =>
      rw [hflag] at h
      cases h
      exact .refl processor
  | some flag =>
      rw [hflag] at h
      exact possiblyQueueEvent_leavesIndex hflag (builtEvent_of_new hflag hnew) h

theorem addIndexEvent_of_grows {config : Config} {made : Option Json} {key : String}
    {capacity : ℕ} {ledger : KeyLedger} (hmade : MakesIndex capacity ledger key made)
    {processor next : EventProcessor} (hnext : LeavesIndex (addIndexEvent config made processor) next)
    (hroom : next.events.length < config.eventsCapacity) :
    indexEvents next.events = indexEvents processor.events ++ made.toList ∧
      processor.events.length ≤ next.events.length := by
  have hgrows := hnext.grows
  rw [hnext.indexEvents]
  cases made with
  | none => exact ⟨(List.append_nil _).symm, hgrows⟩
  | some event =>
      have hadd : (addEvent config event processor).events.length ≤ next.events.length := hgrows
      have hless : processor.events.length < config.eventsCapacity := by
        rw [addEvent] at hadd
        split at hadd <;> omega
      rw [addIndexEvent, addEvent_of_room hless] at hgrows ⊢
      have hindex : isIndex event = true := by
        simp [isIndex, (hmade.indexFor event rfl).kind]
      simp only [List.length_append, List.length_singleton] at hgrows
      exact ⟨by simp [indexEvents, hindex], by omega⟩

def IndexedOnce (capacity : ℕ) (ledger : KeyLedger) (key : String)
    (processor next : EventProcessor) : Prop :=
  ∃ made : Option Json, MakesIndex capacity ledger key made ∧
    indexEvents next.events = indexEvents processor.events ++ made.toList

theorem newCustomEvent_kind {config : Config} {user : User} {args : Measured} {timestamp : Rat}
    {event : Json} (h : newCustomEvent config user args timestamp = .ok event) :
    event.objectLookup "kind" = some (.text "custom") := by
  obtain ⟨base, hbase, hpure⟩ := Checked.bind_eq_ok.mp h
  have hunique : (newBaseEvent "custom" timestamp).Unique := (Json.unique_empty.setKey _ _).setKey _ _
  have hkind := (addUserInfoToEvent_frame hunique hbase).2 "kind" (by decide) (by decide)
  cases hpure
  rw [Json.objectLookup_setIf_of_ne (by decide), Json.objectLookup_setIf_of_ne (by decide),
    Json.objectLookup_setOptional_of_ne (by decide), Json.objectLookup_setKey_of_ne (by decide), hkind]
  rfl

theorem newIdentifyEvent_kind {config : Config} {user : User} {timestamp : Rat} {event : Json}
    (h : newIdentifyEvent config user timestamp = .ok event) :
    event.objectLookup "kind" = some (.text "identify") := by
  obtain ⟨userData, -, hpure⟩ := Checked.bind_eq_ok.mp h
  cases hpure
  rw [Json.objectLookup_setKey_of_ne (by decide), Json.objectLookup_setKey_of_ne (by decide)]
  rfl

theorem track_indexed (hinline : client.config.inlineUsersInEvents = false)
    (hcapacity : 0 < client.config.userKeysCapacity)
    (h : Follows client.config.userKeysCapacity ledger processor) (user : User) (args : Measured)
    (s : σ) :
    Run.Ensures (track client user args processor) s fun tracked _ =>
      tracked.1 = true ∧ (tracked.2.events.length < client.config.eventsCapacity →
        Follows client.config.userKeysCapacity
          ((ledger.tick client.world client.config.userKeysFlushInterval
            (client.world.unixMilliseconds s).2).use user.key) tracked.2 ∧
        IndexedOnce client.config.userKeysCapacity
          (ledger.tick client.world client.config.userKeysFlushInterval
            (client.world.unixMilliseconds s).2) user.key processor tracked.2) := by
  rw [track, Run.ensures_ask_bind]
  have hqueue := maybeMakeIndexEvent_sameQueue client.world client.config user
    (client.world.unixMilliseconds s).1 processor (client.world.unixMilliseconds s).2
  have hmade := maybeMakeIndexEvent_follows client.world client.config hinline hcapacity h user
    (client.world.unixMilliseconds s).1 (client.world.unixMilliseconds s).2
  intro tracked v htracked
  obtain ⟨made, t, hmake, htracked⟩ := Run.bind_eq_ok.mp htracked
  obtain ⟨hfollows, hindex⟩ := hmade made t hmake
  have hevents := (hqueue made t hmake).1.events
  obtain ⟨event, u, hevent, hpure⟩ := Run.bind_eq_ok.mp htracked
  obtain ⟨hcustom, -⟩ := Run.lift_eq_ok.mp hevent
  have hindexFree := isIndex_of_kind (newCustomEvent_kind hcustom) (by decide)
  have hadd := addEvent_leavesIndex client.config hindexFree made.2
  cases hpure
  refine ⟨rfl, fun hroom => ?_⟩
  obtain ⟨hadded, -⟩ := addIndexEvent_of_grows hindex (.refl _) hroom
  refine ⟨(hadd.follows hfollows).addIndexEvent client.config made.1, made.1, hindex, ?_⟩
  rw [hadded, hadd.indexEvents, hevents]

theorem identify_follows (hcapacity : 0 < client.config.userKeysCapacity)
    (h : Follows client.config.userKeysCapacity ledger processor) (user : User) (s : σ) :
    Run.Ensures (identify client user processor) s fun identified _ =>
      Follows client.config.userKeysCapacity
        (if user.key = "" then ledger else ledger.use user.key) identified.2 ∧
      indexEvents identified.2.events = indexEvents processor.events := by
  rw [identify]
  split
  · exact Run.ensures_pure ⟨h, rfl⟩
  · rw [Run.ensures_ask_bind]
    refine Run.ensures_lift_bind fun event hevent => Run.ensures_pure ?_
    have huse := (h.use hcapacity user.key).2
    have hadd := addEvent_leavesIndex client.config
      (isIndex_of_kind (newIdentifyEvent_kind hevent) (by decide))
      { processor with userKeys := (processor.userKeys.insert user.key).2 }
    exact ⟨huse.addEvent client.config event, hadd.indexEvents⟩

theorem createEventPayload_follows {capacity : ℕ} (h : Follows capacity ledger processor)
    (w : World σ) (s : σ) :
    Run.Ensures (createEventPayloadAndResetState w processor) s fun payload _ =>
      Follows capacity ledger payload.processor := by
  obtain ⟨hwellFormed, hsize, hlist, hcleared⟩ := h
  rw [createEventPayloadAndResetState, Run.ensures_ask_bind]
  split_ifs
  · exact Run.ensures_pure ⟨hwellFormed, hsize, hlist, hcleared⟩
  · refine Run.ensures_lift_bind fun summary _ => ?_
    exact Run.ensures_pure ⟨hwellFormed, hsize, hlist, hcleared⟩
  · exact Run.ensures_pure ⟨hwellFormed, hsize, hlist, hcleared⟩

variable [Externals]

theorem summarizeEvent_leavesIndex (w : World σ) (event : Json) (unknown : Bool)
    (processor : EventProcessor) (s : σ) :
    Run.Ensures (summarizeEvent w event unknown processor) s fun next _ =>
      LeavesIndex processor next := by
  rw [summarizeEvent]
  refine Run.ensures_lift_bind fun flagKey _ => Run.ensures_lift_bind fun keytext _ => ?_
  exact Run.ensures_bind fun start t => Run.ensures_pure ⟨rfl, rfl, rfl, le_rfl⟩

theorem summarizeEvents_leavesIndex (w : World σ) (events : List Json) (processor : EventProcessor)
    (s : σ) :
    Run.Ensures (summarizeEvents w events processor) s fun next _ => LeavesIndex processor next := by
  induction events generalizing processor s with
  | nil => exact Run.ensures_pure (.refl processor)
  | cons event events ih =>
      refine (summarizeEvent_leavesIndex w event false processor s).bind fun first t hfirst => ?_
      intro next u hnext
      exact hfirst.trans (ih first t next u hnext)

theorem recordSubEvents_leavesIndex {client : Client σ} {result : EvaluationResult}
    (h : ∀ event ∈ result.subEvents.getD [], SubEventBuilt client.config result.user event)
    (now : Rat) (processor : EventProcessor) (s : σ) :
    Run.Ensures (recordSubEvents client result now processor) s fun next _ =>
      LeavesIndex processor next := by
  rw [recordSubEvents]
  cases hsub : result.subEvents with
  | none => exact Run.ensures_pure (.refl processor)
  | some subEvents =>
      rw [hsub] at h
      refine (summarizeEvents_leavesIndex client.world subEvents processor s).bind
        fun summed t hsummed => ?_
      exact Run.ensures_lift fun next hnext =>
        hsummed.trans (possiblyQueueEvents_leavesIndex h hnext)

theorem recordEvaluation_indexed (hinline : client.config.inlineUsersInEvents = false)
    (hcapacity : 0 < client.config.userKeysCapacity)
    (h : Follows client.config.userKeysCapacity ledger processor) {result : EvaluationResult}
    (hsub : ∀ event ∈ result.subEvents.getD [], SubEventBuilt client.config result.user event)
    {now : Rat} {event : Json}
    (hnew : newFeatureEvent (result.featureEvent now) result.user client.config = .ok (some event))
    (s : σ) :
    Run.Ensures (recordEvaluation client result now event processor) s fun next _ =>
      next.events.length < client.config.eventsCapacity →
        Follows client.config.userKeysCapacity
          ((ledger.tick client.world client.config.userKeysFlushInterval s).use result.user.key) next ∧
        IndexedOnce client.config.userKeysCapacity
          (ledger.tick client.world client.config.userKeysFlushInterval s) result.user.key processor
          next := by
  rw [recordEvaluation]
  have hmade := maybeMakeIndexEvent_follows client.world client.config hinline hcapacity h
    result.user now s
  have hqueue := maybeMakeIndexEvent_sameQueue client.world client.config result.user now processor s
  intro next v hnext hroom
  obtain ⟨made, t, hmake, hnext⟩ := Run.bind_eq_ok.mp hnext
  obtain ⟨hfollows, hindex⟩ := hmade made t hmake
  have hevents := (hqueue made t hmake).1.events
  obtain ⟨summed, u, hsum, hnext⟩ := Run.bind_eq_ok.mp hnext
  have hsummed := summarizeEvent_leavesIndex client.world event result.flag.isNone made.2 t summed u hsum
  obtain ⟨queued, u', hqueued, hnext⟩ := Run.bind_eq_ok.mp hnext
  obtain ⟨hfeature, -⟩ := Run.lift_eq_ok.mp hqueued
  have hlast := (queueFeatureEvent_leavesIndex hnew hfeature).trans
    (recordSubEvents_leavesIndex hsub now queued u' next v hnext)
  obtain ⟨hadded, -⟩ := addIndexEvent_of_grows hindex hlast hroom
  have hkeys := (hsummed.follows hfollows).addIndexEvent client.config made.1
  refine ⟨hlast.follows hkeys, made.1, hindex, ?_⟩
  rw [hadded, hsummed.indexEvents, hevents]

theorem processEvaluation_cases {result : EvaluationResult} {s : σ}
    {returned : Bool} {next : EventProcessor} {t : σ}
    (h : processEvaluation client result processor s = .ok ((returned, next), t)) :
    (returned = false ∧ next = processor) ∨
      (returned = true ∧ ∃ event, newFeatureEvent
          (result.featureEvent (client.world.unixMilliseconds s).1) result.user client.config =
            .ok (some event) ∧
        recordEvaluation client result (client.world.unixMilliseconds s).1 event processor
          (client.world.unixMilliseconds s).2 = .ok (next, t)) := by
  rw [processEvaluation, Run.ask_bind_run] at h
  obtain ⟨event, u, hevent, h⟩ := Run.bind_eq_ok.mp h
  obtain ⟨hnew, rfl⟩ := Run.lift_eq_ok.mp hevent
  cases event with
  | none =>
      cases h
      exact .inl ⟨rfl, rfl⟩
  | some event =>
      obtain ⟨recorded, v, hrecorded, hpure⟩ := Run.bind_eq_ok.mp h
      cases hpure
      exact .inr ⟨rfl, event, hnew, hrecorded⟩

end Call

end ServerSdk
