import ServerSdk.Events.Offers
import ServerSdk.Events.Recording
import ServerSdk.Events.Summaries

namespace ServerSdk

open Program

def Details.inExperiment (details : Details) : Bool :=
  match details.reason, details.extra with
  | .ruleMatch, .rule rule => rule.inExperiment
  | .fallthrough, .fallthrough inExperiment => inExperiment
  | _, _ => false

def matchedRule (flag : Json) (details : Details) : Option Json :=
  match details.reason, details.extra with
  | .ruleMatch, .rule rule => (flag.objectLookup "rules").bind (·.arrayLookup rule.ruleIndex)
  | _, _ => none

def FeatureTracked (flag : Json) (details : Details) : Prop :=
  flag.objectLookup "trackEvents" = some (.bool true) ∨
    (flag.objectLookup "trackEventsFallthrough" = some (.bool true) ∧
      details.reason = .fallthrough) ∨
    ((matchedRule flag details).bind (·.objectLookup "trackEvents")) = some (.bool true) ∨
    details.inExperiment = true

def DebugWanted (flag : Json) (now lastServerTime : Rat) : Prop :=
  ∃ date, flag.objectLookup "debugEventsUntilDate" = some (.number date) ∧
    now < date ∧ lastServerTime < date

def temporaryFields : List String :=
  ["trackEvents", "debugEventsUntilDate", "shouldAlwaysTrackDetails"]

def Json.Stripped (event : Json) : Prop := ∀ key ∈ temporaryFields, event.objectLookup key = none

def IsQueued (kind key : String) (event : Json) : Prop :=
  event.objectLookup "kind" = some (.text kind) ∧ event.objectLookup "key" = some (.text key) ∧
    event.Stripped

structure Decides (args : FeatureEventArgs) (flag : Json) (now lastServerTime : Rat)
    (debug feature : Option Json) : Prop where
  tracked : feature.isSome ↔ FeatureTracked flag args.details
  debugged : debug.isSome ↔ DebugWanted flag now lastServerTime
  feature : ∀ event ∈ feature, IsQueued "feature" args.key event
  debug : ∀ event ∈ debug, IsQueued "debug" args.key event

theorem getBool_eq_true {json : Json} : json.getBool = true ↔ json = .bool true := by
  cases json <;> simp [Json.getBool]

theorem map_getBool_iff {json : Option Json} :
    ((json.map Json.getBool).getD false) = true ↔ json = some (.bool true) := by
  cases json with
  | none => simp
  | some json => simp [getBool_eq_true]

theorem typedIfPresent_true {flag : Json} {key : String} {value : Option Json}
    (h : typedIfPresent flag key .bool = some value) :
    value = some (.bool true) ↔ flag.objectLookup key = some (.bool true) := by
  simp only [typedIfPresent] at h
  split at h
  · rename_i hlookup
    cases h
    simp [hlookup]
  · rename_i hlookup
    cases h
    simp [hlookup]
  · rename_i hlookup
    split_ifs at h
    cases h
    rw [hlookup]

theorem ruleTracks_iff (flag : Json) (details : Details) : ruleTracks flag details = true ↔
    ((matchedRule flag details).bind (·.objectLookup "trackEvents")) = some (.bool true) := by
  rw [ruleTracks, matchedRule]
  cases details.reason with
  | ruleMatch =>
      cases details.extra with
      | rule rule => exact map_getBool_iff
      | _ => simp
  | _ => simp

theorem trackingOf_shouldTrack {flag : Json} {details : Details} {shouldTrack : Bool}
    {tracking : Tracking} (h : trackingOf (some flag) details shouldTrack = some tracking) :
    tracking.shouldTrack = true ↔ shouldTrack = true ∨
      (flag.objectLookup "trackEventsFallthrough" = some (.bool true) ∧
        details.reason = .fallthrough) ∨
      ((matchedRule flag details).bind (·.objectLookup "trackEvents")) = some (.bool true) := by
  obtain ⟨fallthrough, hfallthrough, hpure⟩ := Option.bind_eq_some_iff.mp h
  cases hpure
  rw [← ruleTracks_iff, ← typedIfPresent_true hfallthrough, ← map_getBool_iff]
  simp

theorem addFlagFields_track {event e : Json} {flag : Json} {track : Bool}
    (h : addFlagFields event (some flag) = some (e, track)) :
    track = true ↔ flag.objectLookup "trackEvents" = some (.bool true) := by
  obtain ⟨version, -, h⟩ := Option.bind_eq_some_iff.mp h
  obtain ⟨date, -, h⟩ := Option.bind_eq_some_iff.mp h
  obtain ⟨trackEvents, htrack, hpure⟩ := Option.bind_eq_some_iff.mp h
  cases hpure
  rw [← typedIfPresent_true htrack, ← map_getBool_iff]

theorem Json.Unique.setFields {j : Json} (h : j.Unique) (fields : List (String × Option Json)) :
    (j.setFields fields).Unique := by
  induction fields generalizing j with
  | nil => exact h
  | cons field fields ih => exact ih (h.setOptional field.1 field.2)

theorem isTrue_setInExperiment {json : Json} (h : json.Unique)
    (hnone : json.objectLookup "inExperiment" = none) (inExperiment : Bool) :
    isTrue ((json.setInExperiment inExperiment).objectLookup "inExperiment") = inExperiment := by
  cases inExperiment with
  | false => simp [Json.setInExperiment, hnone, isTrue]
  | true => simp [Json.setInExperiment, h.lookup_setKey, isTrue, Json.getBool]

theorem reasonToJSON_inExperiment {details : Details} {reason : Json}
    (h : reasonToJSON details = some reason) :
    isTrue (reason.objectLookup "inExperiment") = details.inExperiment := by
  obtain ⟨kind, -, h⟩ := Option.bind_eq_some_iff.mp h
  have hkind : ((Json.object []).objectSetKey "kind" (.text kind)).Unique :=
    Json.unique_empty.setKey _ _
  have hplain : isTrue (((Json.object []).objectSetKey "kind" (.text kind)).objectLookup
      "inExperiment") = false := rfl
  rw [Details.inExperiment]
  cases hreason : details.reason with
  | error =>
      cases hextra : details.extra with
      | errorKind errorKind =>
          simp only [hreason, hextra] at h
          obtain ⟨text, -, hpure⟩ := Option.bind_eq_some_iff.mp h
          cases hpure
          rfl
      | _ =>
          simp only [hreason, hextra] at h
          cases h
          rfl
  | prerequisiteFailed =>
      cases hextra : details.extra <;> simp only [hreason, hextra] at h <;> cases h <;> rfl
  | ruleMatch =>
      cases hextra : details.extra with
      | rule rule =>
          simp only [hreason, hextra] at h
          cases h
          refine isTrue_setInExperiment ?_ ?_ rule.inExperiment
          · cases rule.id with
            | none => exact hkind.setKey _ _
            | some id => exact (hkind.setKey _ _).setKey _ _
          · cases rule.id with
            | none => rfl
            | some id => rfl
      | _ =>
          simp only [hreason, hextra] at h
          cases h
          rfl
  | fallthrough =>
      cases hextra : details.extra with
      | fallthrough inExperiment =>
          simp only [hreason, hextra] at h
          cases h
          exact isTrue_setInExperiment hkind rfl inExperiment
      | _ =>
          simp only [hreason, hextra] at h
          cases h
          rfl
  | _ =>
      cases hextra : details.extra <;> simp only [hreason, hextra] at h <;> cases h <;> rfl

structure BuiltEvent (args : FeatureEventArgs) (flag event : Json) : Prop where
  isFeature : IsFeatureEvent args event
  unique : event.Unique
  tracked : (reasonInExperiment event || isTrue (event.objectLookup "trackEvents")) = true ↔
    FeatureTracked flag args.details
  trackEvents : event.objectLookup "trackEvents" ≠ some .null
  shouldAlwaysTrackDetails : event.objectLookup "shouldAlwaysTrackDetails" ≠ some .null

theorem finished_lookups {filled reason : Json} {user : User} {tracking : Tracking}
    (hunique : filled.Unique) (hnone : ∀ key ∈ closingFields, filled.objectLookup key = none) :
    (finishFeatureEvent filled user reason tracking).Unique ∧
      (finishFeatureEvent filled user reason tracking).objectLookup "reason" = some reason ∧
      (finishFeatureEvent filled user reason tracking).objectLookup "trackEvents" =
        (if tracking.shouldTrack then some (.bool true) else none) ∧
      (finishFeatureEvent filled user reason tracking).objectLookup "shouldAlwaysTrackDetails" =
        if tracking.shouldAlwaysDetail then some (.bool true) else none := by
  have hreason := hunique.setKey "reason" reason
  have htrack := hreason.setIf (tracking.shouldTrack = true) "trackEvents" (.bool true)
  have hdetail := htrack.setIf (tracking.shouldAlwaysDetail = true) "shouldAlwaysTrackDetails"
    (.bool true)
  simp only [finishFeatureEvent]
  refine ⟨hdetail.setIf _ _ _, ?_, ?_, ?_⟩
  · rw [Json.objectLookup_setIf_of_ne (by decide), Json.objectLookup_setIf_of_ne (by decide),
      Json.objectLookup_setIf_of_ne (by decide), hunique.lookup_setKey]
  · rw [Json.objectLookup_setIf_of_ne (by decide), Json.objectLookup_setIf_of_ne (by decide),
      hreason.lookup_setIf, Json.objectLookup_setKey_of_ne (by decide), hnone _ (by decide)]
  · rw [Json.objectLookup_setIf_of_ne (by decide), htrack.lookup_setIf,
      Json.objectLookup_setIf_of_ne (by decide), Json.objectLookup_setKey_of_ne (by decide),
      hnone _ (by decide)]

structure Finished (args : FeatureEventArgs) (user : User) (event filled reason : Json) (track : Bool)
    (tracking : Tracking) : Prop where
  unique : filled.Unique
  fresh : ∀ key ∈ closingFields, filled.objectLookup key = none
  added : ∃ before, addFlagFields before args.flag = some (filled, track)
  explained : reasonToJSON args.details = some reason
  decided : trackingOf args.flag args.details track = some tracking
  finished : event = finishFeatureEvent filled user reason tracking

theorem newFeatureEvent_finished {args : FeatureEventArgs} {user : User} {config : Config}
    {event : Json} (h : newFeatureEvent args user config = .ok (some event)) :
    ∃ filled reason track tracking, Finished args user event filled reason track tracking := by
  obtain ⟨base, hbase, hpure⟩ := Checked.bind_eq_ok.mp h
  obtain ⟨hunique, -, hopened⟩ := addUserInfoToEvent_opened hbase
  obtain ⟨⟨filled, track⟩, hfields, hrest⟩ := Option.bind_eq_some_iff.mp (Except.ok.inj hpure)
  have hfilled : filled = base.setFields args.fields := addFlagFields_eq_some hfields
  obtain ⟨reason, hreason, hrest⟩ := Option.bind_eq_some_iff.mp hrest
  obtain ⟨tracking, htracking, hrest⟩ := Option.bind_eq_some_iff.mp hrest
  cases hrest
  have hnone : ∀ key ∈ closingFields, filled.objectLookup key = none := by
    have hclosing : ∀ key ∈ closingFields, key ∉ argumentFields ∧ key ∉ openingFields := by decide
    intro key hkey
    rw [hfilled, Json.objectLookup_setFields_of_notMem (args.keys_fields ▸ (hclosing key hkey).1)]
    exact hopened key (hclosing key hkey).2
  have hfilledUnique : filled.Unique := hfilled ▸ hunique.setFields args.fields
  exact ⟨filled, reason, track, tracking, hfilledUnique, hnone, ⟨_, hfields⟩, hreason, htracking, rfl⟩

theorem builtEvent_of_new {args : FeatureEventArgs} {user : User} {config : Config}
    {flag event : Json} (hflag : args.flag = some flag)
    (h : newFeatureEvent args user config = .ok (some event)) : BuiltEvent args flag event := by
  have hfeature := newFeatureEvent_isFeatureEvent h
  obtain ⟨filled, reason, track, tracking, hunique, hfresh, ⟨before, hfields⟩, hreason, htracking, rfl⟩ :=
    newFeatureEvent_finished h
  rw [hflag] at hfields htracking
  obtain ⟨hunique', hlookup, htrack, hdetail⟩ :=
    @finished_lookups filled reason user tracking hunique hfresh
  refine ⟨hfeature, hunique', ?_, ?_, ?_⟩
  · have hshould : isTrue (if tracking.shouldTrack then some (Json.bool true) else none) =
        tracking.shouldTrack := by
      cases tracking.shouldTrack <;> rfl
    rw [reasonInExperiment, hlookup, htrack, hshould, Bool.or_eq_true, Option.bind_some,
      reasonToJSON_inExperiment hreason, trackingOf_shouldTrack htracking,
      addFlagFields_track hfields, FeatureTracked]
    tauto
  · rw [htrack]
    split <;> simp
  · rw [hdetail]
    split <;> simp

theorem Json.Unique.lookup_deleteKey {j : Json} (h : j.Unique) (key : String) :
    (j.objectDeleteKey key).objectLookup key = none := by
  obtain ⟨⟨fields, rfl⟩, hkeys⟩ := h
  have hkeys : (fields.map Prod.fst).Nodup := hkeys
  change (Json.eraseField key fields).lookup key = none
  rw [Json.eraseField_eq_filter hkeys, Json.lookup_eq_none_of_filter]

theorem eq_none_of_meaningful {json : Option Json} (h : Json.meaningful json = none)
    (hnull : json ≠ some .null) : json = none := by
  cases json with
  | none => rfl
  | some json => cases json <;> simp_all [Json.meaningful, Json.notNull]

structure Trimmed (event trimmed : Json) : Prop where
  unique : trimmed.Unique
  kept : ∀ key, key ≠ "reason" → key ∉ temporaryFields →
    trimmed.objectLookup key = event.objectLookup key

theorem Trimmed.deleteKey {event trimmed : Json} (h : Trimmed event trimmed) {key : String}
    (hkey : key = "reason" ∨ key ∈ temporaryFields) :
    Trimmed event (trimmed.objectDeleteKey key) := by
  refine ⟨h.unique.deleteKey key, fun other hreason htemporary => ?_⟩
  have hne : other ≠ key := by
    rintro rfl
    exact hkey.elim hreason htemporary
  rw [Json.objectLookup_deleteKey_of_ne hne, h.kept other hreason htemporary]

theorem dropReason_trimmed {event : Json} (hunique : event.Unique)
    (hnull : event.objectLookup "shouldAlwaysTrackDetails" ≠ some .null) (detailed : Bool) :
    Trimmed event (dropReason event detailed) ∧
      (dropReason event detailed).objectLookup "shouldAlwaysTrackDetails" = none ∧
      (dropReason event detailed).objectLookup "trackEvents" = event.objectLookup "trackEvents" := by
  have hself : Trimmed event event := ⟨hunique, fun key _ _ => rfl⟩
  have hreason := hself.deleteKey (.inl rfl)
  rw [dropReason]
  cases hdetails : Json.meaningful (event.objectLookup "shouldAlwaysTrackDetails") with
  | none =>
      have hnone := eq_none_of_meaningful hdetails hnull
      simp only
      split
      · exact ⟨hself, hnone, rfl⟩
      · refine ⟨hreason, ?_, Json.objectLookup_deleteKey_of_ne (by decide) event⟩
        rw [Json.objectLookup_deleteKey_of_ne (by decide), hnone]
  | some tmp =>
      have hdelete : "shouldAlwaysTrackDetails" = "reason" ∨
          "shouldAlwaysTrackDetails" ∈ temporaryFields := by decide
      simp only
      split
      · exact ⟨hself.deleteKey hdelete, hunique.lookup_deleteKey _,
          Json.objectLookup_deleteKey_of_ne (by decide) event⟩
      · refine ⟨hreason.deleteKey hdelete, hreason.unique.lookup_deleteKey _, ?_⟩
        rw [Json.objectLookup_deleteKey_of_ne (by decide),
          Json.objectLookup_deleteKey_of_ne (by decide)]

theorem takeTracking_trimmed {event trimmed : Json} (h : Trimmed event trimmed)
    (hnull : trimmed.objectLookup "trackEvents" ≠ some .null) (inExperiment : Bool) :
    (takeTracking trimmed inExperiment).1 =
        (inExperiment || isTrue (trimmed.objectLookup "trackEvents")) ∧
      Trimmed event (takeTracking trimmed inExperiment).2 ∧
      (takeTracking trimmed inExperiment).2.objectLookup "trackEvents" = none ∧
      (takeTracking trimmed inExperiment).2.objectLookup "shouldAlwaysTrackDetails" =
        trimmed.objectLookup "shouldAlwaysTrackDetails" := by
  rw [takeTracking]
  cases htrack : Json.meaningful (trimmed.objectLookup "trackEvents") with
  | none =>
      have hnone := eq_none_of_meaningful htrack hnull
      exact ⟨by simp [hnone, isTrue], h, hnone, rfl⟩
  | some tmp =>
      refine ⟨by simp [eq_some_of_meaningful htrack, isTrue], h.deleteKey (.inr (by decide)),
        h.unique.lookup_deleteKey _, Json.objectLookup_deleteKey_of_ne (by decide) trimmed⟩

theorem addEvent_of_room {config : Config} {processor : EventProcessor}
    (h : processor.events.length < config.eventsCapacity) (event : Json) :
    addEvent config event processor = { processor with events := processor.events ++ [event] } := by
  rw [addEvent, if_neg (Nat.not_le.mpr h)]

def EventProcessor.queue (processor : EventProcessor) (events : List Json) : EventProcessor :=
  { processor with events := processor.events ++ events }

theorem EventProcessor.queue_queue (processor : EventProcessor) (first second : List Json) :
    (processor.queue first).queue second = processor.queue (first ++ second) := by
  rw [queue, queue, queue, List.append_assoc]

theorem addIndexEvent_of_room {config : Config} {processor : EventProcessor}
    (h : processor.events.length < config.eventsCapacity) (indexEvent : Option Json) :
    addIndexEvent config indexEvent processor = processor.queue indexEvent.toList := by
  cases indexEvent with
  | none => simp [addIndexEvent, EventProcessor.queue]
  | some event => exact addEvent_of_room h event

theorem numberOf_eq_some {flag json : Json} {key : String} :
    numberOf (some flag) key = some json ↔
      flag.objectLookup key = some json ∧ json.getType = .number := by
  simp only [numberOf, Option.bind_some, typedIfPresent]
  split
  · rename_i hlookup
    simp [hlookup]
  · rename_i hlookup
    simp only [Option.getD_some, reduceCtorEq, hlookup, Option.some.injEq, false_iff]
    rintro ⟨rfl, htype⟩
    cases htype
  · rename_i value _ hlookup
    split
    · rename_i htype
      simp only [Option.getD_some, Option.some.injEq, hlookup]
      constructor
      · rintro rfl
        exact ⟨rfl, htype⟩
      · exact fun h => h.1
    · rename_i htype
      simp only [Option.getD_none, reduceCtorEq, hlookup, Option.some.injEq, false_iff]
      rintro ⟨rfl, hnumber⟩
      exact htype hnumber

theorem convertToDebug_kind {config : Config} {user : User} {event debug : Json}
    (hunique : event.Unique) (h : convertToDebug config user event = .ok debug) :
    debug.objectLookup "kind" = some (.text "debug") := by
  obtain ⟨json, -, hpure⟩ := Checked.bind_eq_ok.mp h
  cases hpure
  rw [Json.objectLookup_setKey_of_ne (by decide)]
  exact ((hunique.deleteKey "kind").deleteKey "userKey").lookup_setKey "kind" _

theorem convertToDebug_lookup {config : Config} {user : User} {event debug : Json}
    (h : convertToDebug config user event = .ok debug) {key : String} (huser : key ≠ "user")
    (hkind : key ≠ "kind") (huserKey : key ≠ "userKey") :
    debug.objectLookup key = event.objectLookup key := by
  obtain ⟨json, -, hpure⟩ := Checked.bind_eq_ok.mp h
  cases hpure
  rw [Json.objectLookup_setKey_of_ne huser, Json.objectLookup_setKey_of_ne hkind,
    Json.objectLookup_deleteKey_of_ne huserKey, Json.objectLookup_deleteKey_of_ne hkind]

theorem convertToDebug_queued {config : Config} {user : User} {args : FeatureEventArgs}
    {event trimmed debug : Json} (hevent : IsFeatureEvent args event) (h : Trimmed event trimmed)
    (hstripped : trimmed.Stripped) (hdebug : convertToDebug config user trimmed = .ok debug) :
    IsQueued "debug" args.key debug := by
  refine ⟨convertToDebug_kind h.unique hdebug, ?_, ?_⟩
  · rw [convertToDebug_lookup hdebug (by decide) (by decide) (by decide),
      h.kept "key" (by decide) (by decide)]
    exact hevent.key
  · intro key hkey
    have hne : ∀ key ∈ temporaryFields, key ≠ "user" ∧ key ≠ "kind" ∧ key ≠ "userKey" := by decide
    obtain ⟨huser, hkind, huserKey⟩ := hne key hkey
    rw [convertToDebug_lookup hdebug huser hkind huserKey]
    exact hstripped key hkey

theorem Trimmed.queued {args : FeatureEventArgs} {event trimmed : Json} (h : Trimmed event trimmed)
    (hevent : IsFeatureEvent args event) (hstripped : trimmed.Stripped) :
    IsQueued "feature" args.key trimmed :=
  ⟨(h.kept "kind" (by decide) (by decide)).trans hevent.kind,
    (h.kept "key" (by decide) (by decide)).trans hevent.key, hstripped⟩

theorem BuiltEvent.featured {args : FeatureEventArgs} {flag event trimmed : Json}
    {shouldTrack : Bool} (h : BuiltEvent args flag event) (htrimmed : Trimmed event trimmed)
    (hstripped : trimmed.Stripped) (htracked : shouldTrack = true ↔ FeatureTracked flag args.details) :
    ((if shouldTrack then some trimmed else none).isSome ↔ FeatureTracked flag args.details) ∧
      ∀ queued ∈ if shouldTrack then some trimmed else none, IsQueued "feature" args.key queued := by
  refine ⟨?_, ?_⟩
  · rw [← htracked]
    cases shouldTrack <;> simp
  · intro queued hqueued
    split at hqueued
    · cases hqueued
      exact htrimmed.queued h.isFeature hstripped
    · cases hqueued

structure EventOffered (config : Config) (user : User) (detailed : Bool) (now lastServerTime : Rat)
    (args : FeatureEventArgs) (flag event trimmed : Json) (debug : Option Json)
    (shouldTrack : Bool) : Prop where
  tracked : shouldTrack = true ↔ FeatureTracked flag args.details
  debugged : debug.isSome ↔ DebugWanted flag now lastServerTime
  trims : Trimmed event trimmed
  stripped : trimmed.Stripped
  reason : trimmed.objectLookup "reason" = (dropReason event detailed).objectLookup "reason"
  converted : ∀ debugEvent ∈ debug, convertToDebug config user trimmed = .ok debugEvent

theorem debugOffer_cases {config : Config} {user : User} {event : Json}
    {now debugUntil lastServerTime : Rat} {offers : List Json}
    (h : debugOffer config user event now debugUntil lastServerTime = .ok offers) :
    ∃ debug : Option Json, offers = debug.toList ∧
      (debug.isSome ↔ now < debugUntil ∧ lastServerTime < debugUntil) ∧
      ∀ debugEvent ∈ debug, convertToDebug config user event = .ok debugEvent := by
  rw [debugOffer] at h
  split at h
  · rename_i hwanted
    obtain ⟨debugEvent, hdebug, hpure⟩ := Checked.bind_eq_ok.mp h
    cases hpure
    refine ⟨some debugEvent, rfl, by simp [hwanted], ?_⟩
    intro other hother
    cases hother
    exact hdebug
  · rename_i hunwanted
    cases h
    exact ⟨none, rfl, by simp [hunwanted], fun _ hnone => absurd hnone (Option.not_mem_none _)⟩

structure TrackingTaken (detailed : Bool) (args : FeatureEventArgs) (flag event : Json)
    (shouldTrack : Bool) (taken : Json) : Prop where
  tracked : shouldTrack = true ↔ FeatureTracked flag args.details
  trims : Trimmed event taken
  trackEvents : taken.objectLookup "trackEvents" = none
  details : taken.objectLookup "shouldAlwaysTrackDetails" = none
  reason : taken.objectLookup "reason" = (dropReason event detailed).objectLookup "reason"
  deadline : taken.objectLookup "debugEventsUntilDate" = numberOf (some flag) "debugEventsUntilDate"

theorem trackingTaken {args : FeatureEventArgs} {flag event : Json} (hflag : args.flag = some flag)
    (h : BuiltEvent args flag event) (detailed : Bool) :
    TrackingTaken detailed args flag event
      (takeTracking (dropReason event detailed) (reasonInExperiment event)).1
      (takeTracking (dropReason event detailed) (reasonInExperiment event)).2 := by
  obtain ⟨hdropped, hdetails, htrackEvents⟩ :=
    dropReason_trimmed h.unique h.shouldAlwaysTrackDetails detailed
  obtain ⟨hshould, htaken, htrack, hdetails'⟩ := takeTracking_trimmed hdropped
    (htrackEvents ▸ h.trackEvents) (reasonInExperiment event)
  have hdate : (takeTracking (dropReason event detailed) (reasonInExperiment event)).2.objectLookup
      "debugEventsUntilDate" = numberOf (some flag) "debugEventsUntilDate" := by
    rw [takeTracking_lookup (by decide), dropReason_lookup detailed (by decide) (by decide),
      h.isFeature.debugEventsUntilDate, hflag]
  rw [htrackEvents] at hshould
  exact ⟨hshould ▸ h.tracked, htaken, htrack, hdetails'.trans hdetails,
    takeTracking_lookup (by decide) _ _, hdate⟩

section Taken

variable {config : Config} {user : User} {detailed : Bool} {now lastServerTime : Rat}
  {args : FeatureEventArgs} {flag event taken : Json} {shouldTrack : Bool}

theorem TrackingTaken.undated (h : TrackingTaken detailed args flag event shouldTrack taken)
    (hnumber : numberOf (some flag) "debugEventsUntilDate" = none) :
    EventOffered config user detailed now lastServerTime args flag event taken none shouldTrack := by
  have hstripped : taken.Stripped := by
    simp [Json.Stripped, temporaryFields, h.trackEvents, h.deadline, hnumber, h.details]
  have hunwanted : ¬ DebugWanted flag now lastServerTime := by
    rintro ⟨date, hlookup, -⟩
    have hdated := numberOf_eq_some.mpr ⟨hlookup, rfl⟩
    rw [hnumber] at hdated
    cases hdated
  exact ⟨h.tracked, by simp [hunwanted], h.trims, hstripped, h.reason, nofun⟩

theorem TrackingTaken.dated (h : TrackingTaken detailed args flag event shouldTrack taken)
    {date : Rat} (hlookup : flag.objectLookup "debugEventsUntilDate" = some (.number date))
    {debug : Option Json} (hwanted : debug.isSome ↔ now < date ∧ lastServerTime < date)
    (hconverted : ∀ debugEvent ∈ debug,
      convertToDebug config user (taken.objectDeleteKey "debugEventsUntilDate") = .ok debugEvent) :
    EventOffered config user detailed now lastServerTime args flag event
      (taken.objectDeleteKey "debugEventsUntilDate") debug shouldTrack := by
  have hdeleted := h.trims.deleteKey (.inr (by decide : "debugEventsUntilDate" ∈ temporaryFields))
  have hothers : ∀ key, key ≠ "debugEventsUntilDate" →
      (taken.objectDeleteKey "debugEventsUntilDate").objectLookup key = taken.objectLookup key :=
    fun key hkey => Json.objectLookup_deleteKey_of_ne hkey taken
  have hstripped : (taken.objectDeleteKey "debugEventsUntilDate").Stripped := by
    have hnone := h.trims.unique.lookup_deleteKey "debugEventsUntilDate"
    simp [Json.Stripped, temporaryFields, hothers, hnone, h.trackEvents, h.details]
  refine ⟨h.tracked, ?_, hdeleted, hstripped, ?_, hconverted⟩
  · rw [hwanted, DebugWanted]
    simp [hlookup]
  · rw [hothers "reason" (by decide), h.reason]

end Taken

theorem offersOf_cases {config : Config} {user : User} {detailed : Bool} {now lastServerTime : Rat}
    {args : FeatureEventArgs} {flag event : Json} {offers : List Json}
    (hflag : args.flag = some flag) (h : BuiltEvent args flag event)
    (hoffers : offersOf config user detailed now lastServerTime event = .ok offers) :
    ∃ trimmed debug shouldTrack,
      EventOffered config user detailed now lastServerTime args flag event trimmed debug shouldTrack ∧
        offers = debug.toList ++ if shouldTrack then [trimmed] else [] := by
  have htaking := trackingTaken hflag h detailed
  rw [offersOf] at hoffers
  generalize takeTracking (dropReason event detailed) (reasonInExperiment event) = taken at *
  obtain ⟨shouldTrack, taken⟩ := taken
  simp only at htaking
  simp only [htaking.deadline] at hoffers
  cases hnumber : numberOf (some flag) "debugEventsUntilDate" with
  | none =>
      rw [hnumber] at hoffers
      cases hoffers
      exact ⟨taken, none, shouldTrack, htaking.undated hnumber, rfl⟩
  | some json =>
      obtain ⟨hlookup, htype⟩ := numberOf_eq_some.mp hnumber
      obtain ⟨date, rfl⟩ := Json.getType_eq_number.mp htype
      rw [hnumber] at hoffers
      obtain ⟨debugUntil, hdebugUntil, hoffers⟩ := Checked.bind_eq_ok.mp hoffers
      obtain ⟨_, -, hpure⟩ := Checked.bind_eq_ok.mp hdebugUntil
      obtain rfl : date = debugUntil := Except.ok.inj hpure
      obtain ⟨debugOffers, hdebug, hoffers⟩ := Checked.bind_eq_ok.mp hoffers
      obtain ⟨debug, rfl, hwanted, hconverted⟩ := debugOffer_cases hdebug
      cases hoffers
      exact ⟨_, debug, shouldTrack, htaking.dated hlookup hwanted hconverted, rfl⟩

theorem offersOf_kinds {config : Config} {user : User} {detailed : Bool} {now lastServerTime : Rat}
    {args : FeatureEventArgs} {flag event : Json} {offers : List Json}
    (hflag : args.flag = some flag) (h : BuiltEvent args flag event)
    (hoffers : offersOf config user detailed now lastServerTime event = .ok offers) :
    ∀ offered ∈ offers, offered.objectLookup "kind" = some (.text "debug") ∨
      offered.objectLookup "kind" = some (.text "feature") := by
  obtain ⟨trimmed, debug, shouldTrack, hoffered, rfl⟩ := offersOf_cases hflag h hoffers
  intro offered hmem
  rcases List.mem_append.mp hmem with hdebug | htracked
  · have hconverted := hoffered.converted offered (Option.mem_toList.mp hdebug)
    exact .inl (convertToDebug_kind hoffered.trims.unique hconverted)
  · split at htracked
    · cases List.mem_singleton.mp htracked
      exact .inr (hoffered.trims.queued h.isFeature hoffered.stripped).1
    · cases htracked

theorem EventProcessor.offered_of_room {config : Config} {processor : EventProcessor}
    {events : List Json} (h : processor.events.length + events.length ≤ config.eventsCapacity) :
    processor.offered config events = processor.queue events := by
  rw [offered, offerAll_eq, List.take_of_length_le (by omega)]
  rfl

theorem possiblyQueueEvent_decides {config : Config} {user : User} {detailed : Bool} {now : Rat}
    {args : FeatureEventArgs} {flag event : Json} {processor next : EventProcessor}
    (hflag : args.flag = some flag) (h : BuiltEvent args flag event)
    (hroom : processor.events.length + 2 ≤ config.eventsCapacity)
    (hqueue : possiblyQueueEvent config user detailed now event processor = .ok next) :
    ∃ debug feature, Decides args flag now processor.lastServerTime debug feature ∧
      next = processor.queue (debug.toList ++ feature.toList) := by
  rw [possiblyQueueEvent_offers] at hqueue
  cases hoffersOf : offersOf config user detailed now processor.lastServerTime event with
  | error fault =>
      rw [hoffersOf] at hqueue
      cases hqueue
  | ok offers =>
      rw [hoffersOf] at hqueue
      obtain ⟨trimmed, debug, shouldTrack, hoffers, rfl⟩ := offersOf_cases hflag h hoffersOf
      obtain ⟨hsome, hqueued⟩ := h.featured hoffers.trims hoffers.stripped hoffers.tracked
      refine ⟨debug, if shouldTrack then some trimmed else none,
        ⟨hsome, hoffers.debugged, hqueued, ?_⟩, ?_⟩
      · intro debugEvent hdebugEvent
        exact convertToDebug_queued h.isFeature hoffers.trims hoffers.stripped
          (hoffers.converted debugEvent hdebugEvent)
      · cases hqueue
        have hlist : (if shouldTrack then some trimmed else none).toList =
            if shouldTrack then [trimmed] else [] := by
          cases shouldTrack <;> rfl
        rw [hlist]
        refine EventProcessor.offered_of_room ?_
        have hone : debug.toList.length ≤ 1 := by
          cases debug <;> simp
        have hone' : (if shouldTrack then [trimmed] else []).length ≤ 1 := by
          cases shouldTrack <;> simp
        rw [List.length_append]
        omega

abbrev Prerequisite := FeatureEventArgs × Json

abbrev QueueDecision := Option Json × Option Json

def QueueDecision.queued (decision : QueueDecision) : List Json :=
  decision.1.toList ++ decision.2.toList

def Prerequisite.Builds (config : Config) (user : User) (prerequisite : Prerequisite)
    (event : Json) : Prop :=
  prerequisite.1.flag = some prerequisite.2 ∧
    newFeatureEvent prerequisite.1 user config = .ok (some event)

def SubEventBuilt (config : Config) (user : User) (event : Json) : Prop :=
  ∃ prerequisite : Prerequisite, prerequisite.Builds config user event

def Prerequisite.Decided (now lastServerTime : Rat) (prerequisite : Prerequisite)
    (decision : QueueDecision) : Prop :=
  Decides prerequisite.1 prerequisite.2 now lastServerTime decision.1 decision.2

theorem length_queued (decision : QueueDecision) : decision.queued.length ≤ 2 := by
  obtain ⟨debug, feature⟩ := decision
  cases debug <;> cases feature <;> simp [QueueDecision.queued]

theorem possiblyQueueEvents_decide {config : Config} {user : User} {detailed : Bool} {now : Rat}
    {prerequisites : List Prerequisite} {events : List Json} {processor next : EventProcessor}
    (h : List.Forall₂ (Prerequisite.Builds config user) prerequisites events)
    (hroom : processor.events.length + 2 * prerequisites.length ≤ config.eventsCapacity)
    (hqueue : possiblyQueueEvents config user detailed now events processor = .ok next) :
    ∃ decisions : List QueueDecision,
      List.Forall₂ (Prerequisite.Decided now processor.lastServerTime) prerequisites decisions ∧
      next = processor.queue (decisions.flatMap QueueDecision.queued) := by
  induction h generalizing processor with
  | nil =>
      cases hqueue
      exact ⟨[], .nil, by simp [EventProcessor.queue]⟩
  | @cons prerequisite event prerequisites events hbuilds hrest ih =>
      rw [List.length_cons] at hroom
      obtain ⟨first, hfirst, hqueue⟩ := Checked.bind_eq_ok.mp hqueue
      obtain ⟨debug, feature, hdecides, rfl⟩ := possiblyQueueEvent_decides hbuilds.1
        (builtEvent_of_new hbuilds.1 hbuilds.2) (by omega) hfirst
      have hlength : (debug.toList ++ feature.toList).length ≤ 2 := length_queued (debug, feature)
      have hleft : (processor.queue (debug.toList ++ feature.toList)).events.length +
          2 * prerequisites.length ≤ config.eventsCapacity := by
        rw [EventProcessor.queue, List.length_append]
        omega
      obtain ⟨decisions, hdecisions, rfl⟩ := ih hleft hqueue
      refine ⟨(debug, feature) :: decisions, .cons hdecides hdecisions, ?_⟩
      rw [EventProcessor.queue_queue]
      rfl

section Process

variable {σ : Type}

structure SameQueue (processor next : EventProcessor) : Prop where
  events : next.events = processor.events
  lastServerTime : next.lastServerTime = processor.lastServerTime

theorem flushUserKeys_sameQueue (w : World σ) (config : Config) (processor : EventProcessor) (s : σ) :
    Run.Ensures (flushUserKeys w config processor) s fun next _ => SameQueue processor next := by
  rw [flushUserKeys, Run.ensures_ask_bind]
  split
  · rw [Run.ensures_ask_bind]
    exact Run.ensures_pure ⟨rfl, rfl⟩
  · exact Run.ensures_pure ⟨rfl, rfl⟩

theorem newIndexEvent_queued {config : Config} {user : User} {timestamp : Rat} {event : Json}
    (h : newIndexEvent config user timestamp = .ok event) :
    event.objectLookup "kind" = some (.text "index") ∧ event.Stripped := by
  obtain ⟨json, -, hpure⟩ := Checked.bind_eq_ok.mp h
  cases hpure
  have hbase : (newBaseEvent "index" timestamp).Unique := (Json.unique_empty.setKey _ _).setKey _ _
  refine ⟨?_, ?_⟩
  · rw [Json.objectLookup_setKey_of_ne (by decide)]
    rfl
  · have hne : ∀ key ∈ temporaryFields, key ≠ "user" ∧ key ≠ "kind" ∧ key ≠ "creationDate" := by
      decide
    intro key hkey
    obtain ⟨huser, hkind, hdate⟩ := hne key hkey
    rw [Json.objectLookup_setKey_of_ne huser, newBaseEvent, Json.objectLookup_setKey_of_ne hkind,
      Json.objectLookup_setKey_of_ne hdate]
    rfl

theorem maybeMakeIndexEvent_sameQueue (w : World σ) (config : Config) (user : User)
    (timestamp : Rat) (processor : EventProcessor) (s : σ) :
    Run.Ensures (maybeMakeIndexEvent w config user timestamp processor) s fun made _ =>
      SameQueue processor made.2 ∧ ∀ event ∈ made.1,
        event.objectLookup "kind" = some (.text "index") ∧ event.Stripped := by
  rw [maybeMakeIndexEvent]
  split
  · exact Run.ensures_pure ⟨⟨rfl, rfl⟩, by simp⟩
  · refine (flushUserKeys_sameQueue w config processor s).bind fun flushed t hflushed => ?_
    generalize flushed.userKeys.insert user.key = inserted
    obtain ⟨status, userKeys⟩ := inserted
    cases status with
    | existed => exact Run.ensures_pure ⟨⟨hflushed.events, hflushed.lastServerTime⟩, by simp⟩
    | new =>
        refine Run.ensures_lift_bind fun event hevent => Run.ensures_pure ?_
        refine ⟨⟨hflushed.events, hflushed.lastServerTime⟩, ?_⟩
        intro other hother
        cases hother
        exact newIndexEvent_queued hevent

variable [Externals]

theorem summarizeEvent_sameQueue (w : World σ) (event : Json) (unknown : Bool)
    (processor : EventProcessor) (s : σ) :
    Run.Ensures (summarizeEvent w event unknown processor) s fun next _ =>
      SameQueue processor next := by
  rw [summarizeEvent]
  refine Run.ensures_lift_bind fun flagKey _ => Run.ensures_lift_bind fun keytext _ => ?_
  exact Run.ensures_bind fun start t => Run.ensures_pure ⟨rfl, rfl⟩

theorem summarizeEvents_sameQueue (w : World σ) (events : List Json) (processor : EventProcessor)
    (s : σ) :
    Run.Ensures (summarizeEvents w events processor) s fun next _ => SameQueue processor next := by
  induction events generalizing processor s with
  | nil => exact Run.ensures_pure ⟨rfl, rfl⟩
  | cons event events ih =>
      refine (summarizeEvent_sameQueue w event false processor s).bind fun first t hfirst => ?_
      intro next u hnext
      have hrest := ih first t next u hnext
      exact ⟨hrest.events.trans hfirst.events, hrest.lastServerTime.trans hfirst.lastServerTime⟩

def QueuedExactly (result : EvaluationResult) (flag : Json) (prerequisites : List Prerequisite)
    (now : Rat) (processor next : EventProcessor) : Prop :=
  ∃ (index debug feature : Option Json) (decisions : List QueueDecision),
    next.events = processor.events ++ (index.toList ++ (debug.toList ++ feature.toList) ++
      decisions.flatMap QueueDecision.queued) ∧
    (∀ event ∈ index, event.objectLookup "kind" = some (.text "index") ∧ event.Stripped) ∧
    Decides (result.featureEvent now) flag now processor.lastServerTime debug feature ∧
    List.Forall₂ (Prerequisite.Decided now processor.lastServerTime) prerequisites decisions

variable {client : Client σ} {result : EvaluationResult} {flag : Json}
  {prerequisites : List Prerequisite}

theorem recordSubEvents_decide {now : Rat} {processor : EventProcessor} {s : σ}
    (h : List.Forall₂ (Prerequisite.Builds client.config result.user) prerequisites
      (result.subEvents.getD []))
    (hroom : processor.events.length + 2 * prerequisites.length ≤ client.config.eventsCapacity) :
    Run.Ensures (recordSubEvents client result now processor) s fun next _ =>
      ∃ decisions : List QueueDecision,
        List.Forall₂ (Prerequisite.Decided now processor.lastServerTime) prerequisites decisions ∧
        next.events = processor.events ++ decisions.flatMap QueueDecision.queued := by
  rw [recordSubEvents]
  cases hsub : result.subEvents with
  | none =>
      rw [hsub] at h
      cases h
      exact Run.ensures_pure ⟨[], .nil, by simp⟩
  | some subEvents =>
      rw [hsub] at h
      refine (summarizeEvents_sameQueue client.world subEvents processor s).bind
        fun summed t hsummed => ?_
      refine Run.ensures_lift fun next hnext => ?_
      obtain ⟨decisions, hdecisions, rfl⟩ :=
        possiblyQueueEvents_decide h (hsummed.events ▸ hroom) hnext
      rw [hsummed.lastServerTime] at hdecisions
      exact ⟨decisions, hdecisions, by rw [EventProcessor.queue, hsummed.events]⟩

theorem recordEvaluation_decides {now : Rat} {event : Json} {processor : EventProcessor} {s : σ}
    (hflag : result.flag = some flag) (hevent : BuiltEvent (result.featureEvent now) flag event)
    (hprerequisites : List.Forall₂ (Prerequisite.Builds client.config result.user) prerequisites
      (result.subEvents.getD []))
    (hroom : processor.events.length + 3 + 2 * prerequisites.length ≤ client.config.eventsCapacity) :
    Run.Ensures (recordEvaluation client result now event processor) s fun next _ =>
      QueuedExactly result flag prerequisites now processor next := by
  rw [recordEvaluation]
  refine (maybeMakeIndexEvent_sameQueue client.world client.config result.user now processor s).bind
    fun made t hmade => ?_
  refine (summarizeEvent_sameQueue client.world event result.flag.isNone made.2 t).bind
    fun summed u hsummed => ?_
  have hevents : summed.events = processor.events := hsummed.events.trans hmade.1.events
  have htime : summed.lastServerTime = processor.lastServerTime :=
    hsummed.lastServerTime.trans hmade.1.lastServerTime
  have hindexed : addIndexEvent client.config made.1 summed = summed.queue made.1.toList :=
    addIndexEvent_of_room (by rw [hevents]; omega) made.1
  have hone : made.1.toList.length ≤ 1 := by
    cases made.1 <;> simp
  rw [hindexed]
  refine Run.ensures_lift_bind fun queued hqueued => ?_
  rw [queueFeatureEvent, hflag] at hqueued
  have hroomIndexed : (summed.queue made.1.toList).events.length + 2 ≤
      client.config.eventsCapacity := by
    rw [EventProcessor.queue, List.length_append, hevents]
    omega
  obtain ⟨debug, feature, hdecides, rfl⟩ := possiblyQueueEvent_decides hflag hevent hroomIndexed hqueued
  have hlength : (debug.toList ++ feature.toList).length ≤ 2 := length_queued (debug, feature)
  have hroomQueued : ((summed.queue made.1.toList).queue (debug.toList ++ feature.toList)).events.length
      + 2 * prerequisites.length ≤ client.config.eventsCapacity := by
    rw [EventProcessor.queue_queue, EventProcessor.queue, List.length_append, List.length_append,
      hevents]
    omega
  intro next v hnext
  obtain ⟨decisions, hdecisions, hqueue⟩ := recordSubEvents_decide hprerequisites hroomQueued next v
    hnext
  have htimes : ((summed.queue made.1.toList).queue
      (debug.toList ++ feature.toList)).lastServerTime = processor.lastServerTime := htime
  have hdecides' : Decides (result.featureEvent now) flag now processor.lastServerTime debug
      feature := htime ▸ hdecides
  rw [htimes] at hdecisions
  refine ⟨made.1, debug, feature, decisions, ?_, hmade.2, hdecides', hdecisions⟩
  rw [hqueue, EventProcessor.queue_queue, EventProcessor.queue, hevents, List.append_assoc]

def DecidedExactly (client : Client σ) (result : EvaluationResult) (flag : Json)
    (prerequisites : List Prerequisite) (processor : EventProcessor) (s : σ) : Prop :=
  ∃ next t, processEvaluation client result processor s = .ok ((true, next), t) ∧
    QueuedExactly result flag prerequisites (client.world.unixMilliseconds s).1 processor next

omit [Externals] in
theorem reasonToJSON_isSome_iff {details : Details} (h : details.reason ≠ .unknown) :
    (reasonToJSON details).isSome ↔
      ¬ (details.reason = .error ∧ details.extra = .errorKind .oom) := by
  rw [reasonToJSON]
  cases hreason : details.reason with
  | unknown => exact absurd hreason h
  | error =>
      cases details.extra with
      | errorKind kind => cases kind <;> simp [evalReasonKindToString, evalErrorKindToString]
      | _ => simp [evalReasonKindToString]
  | _ => cases details.extra <;> simp [evalReasonKindToString]

omit [Externals] in
theorem Prerequisite.Builds.isFeatureEvent {config : Config} {user : User}
    {prerequisite : Prerequisite} {event : Json} (h : prerequisite.Builds config user event) :
    IsFeatureEvent prerequisite.1 event ∧ (DateFits event ↔ DateFits prerequisite.2) := by
  obtain ⟨hflag, hnew⟩ := h
  have hfeature := newFeatureEvent_isFeatureEvent hnew
  have hrecordable := ((newFeatureEvent_isSome_iff hnew).mp rfl).1 prerequisite.2 hflag
  exact ⟨hfeature, hfeature.dateFits_iff hflag hrecordable⟩

omit [Externals] in
theorem forall_builds {prerequisites : List Prerequisite} {events : List Json} {config : Config}
    {user : User} (h : List.Forall₂ (Prerequisite.Builds config user) prerequisites events) :
    (∀ event ∈ events, Summarizable event) ∧
      ((∀ event ∈ events, DateFits event) ↔ ∀ prerequisite ∈ prerequisites,
        DateFits prerequisite.2) := by
  induction h with
  | nil => exact ⟨nofun, by simp⟩
  | cons hbuilds hrest ih =>
      obtain ⟨hfeature, hdate⟩ := hbuilds.isFeatureEvent
      rw [List.forall_mem_cons, List.forall_mem_cons, List.forall_mem_cons, hdate, ih.2]
      exact ⟨⟨hfeature.summarizable, ih.1⟩, .rfl⟩

theorem processEvaluation_decides {processor next : EventProcessor} {s t : σ}
    (hflag : result.flag = some flag)
    (hprerequisites : List.Forall₂ (Prerequisite.Builds client.config result.user) prerequisites
      (result.subEvents.getD []))
    (hroom : processor.events.length + 3 + 2 * prerequisites.length ≤ client.config.eventsCapacity)
    (h : processEvaluation client result processor s = .ok ((true, next), t)) :
    QueuedExactly result flag prerequisites (client.world.unixMilliseconds s).1 processor next := by
  rw [processEvaluation, Run.ask_bind_run] at h
  obtain ⟨event, u, hevent, hrest⟩ := Run.bind_eq_ok.mp h
  obtain ⟨hnew, -⟩ := Run.lift_eq_ok.mp hevent
  cases event with
  | none => cases hrest
  | some event =>
      obtain ⟨recorded, v, hrecorded, hpure⟩ := Run.bind_eq_ok.mp hrest
      cases hpure
      exact recordEvaluation_decides hflag (builtEvent_of_new hflag hnew) hprerequisites hroom _ _
        hrecorded

theorem evaluation_events_decided_iff (client : Client σ) (result : EvaluationResult) (flag : Json)
    (prerequisites : List Prerequisite) (processor : EventProcessor) (s : σ)
    (hflag : result.flag = some flag) (hfields : Recordable flag)
    (hreason : result.details.reason ≠ .unknown)
    (hprerequisites : List.Forall₂ (Prerequisite.Builds client.config result.user) prerequisites
      (result.subEvents.getD []))
    (hroom : processor.events.length + 3 + 2 * prerequisites.length ≤ client.config.eventsCapacity) :
    DecidedExactly client result flag prerequisites processor s ↔
      ¬ (result.details.reason = .error ∧ result.details.extra = .errorKind .oom) ∧
        DateFits flag ∧ ∀ prerequisite ∈ prerequisites, DateFits prerequisite.2 := by
  obtain ⟨hsummarizable, hdates⟩ := forall_builds hprerequisites
  have hrecorded : Recorded result ↔
      ¬ (result.details.reason = .error ∧ result.details.extra = .errorKind .oom) := by
    rw [Recorded, hflag, reasonToJSON_isSome_iff hreason]
    simp [hfields]
  have hqueueable : Queueable result ↔
      DateFits flag ∧ ∀ prerequisite ∈ prerequisites, DateFits prerequisite.2 := by
    rw [← hdates]
    constructor
    · exact fun h => ⟨h.flag flag hflag, h.subEvents⟩
    · rintro ⟨hdate, hsub⟩
      exact ⟨fun other hother => by rwa [← Option.some.inj (hflag.symm.trans hother)], hsub⟩
  rw [← hrecorded, ← hqueueable]
  constructor
  · rintro ⟨next, t, hprocess, -⟩
    have hrecord : Recorded result := by
      by_contra hnot
      rw [processEvaluation_unrecorded hnot] at hprocess
      cases hprocess
    exact ⟨hrecord, (processEvaluation_recorded hrecord hsummarizable processor s).2
      ⟨_, t, hprocess⟩⟩
  · rintro ⟨hrecord, hqueue⟩
    obtain ⟨next, t, hprocess⟩ :=
      (processEvaluation_recorded hrecord hsummarizable processor s).1 hqueue
    exact ⟨next, t, hprocess, processEvaluation_decides hflag hprerequisites hroom hprocess⟩

end Process

def watchedFlag (debugEventsUntilDate : Rat) : Json :=
  .object [("version", .number 7), ("trackEvents", .bool true),
    ("debugEventsUntilDate", .number debugEventsUntilDate)]

def watchedPrerequisite : FeatureEventArgs where
  key := "b"
  variation := some 0
  value := some (.bool true)
  defaultValue := none
  prereqOf := some "a"
  flag := some (watchedFlag 500)
  details := ⟨0, true, .fallthrough, .none⟩
  timestamp := 1000

def watchedResult (subEvents : List Json) (debugEventsUntilDate : Rat) : EvaluationResult where
  __ := sampleResult
  subEvents := some subEvents
  flag := some (watchedFlag debugEventsUntilDate)

theorem watchedFlag_recordable (date : Rat) : Recordable (watchedFlag date) := ⟨rfl, rfl, rfl, rfl⟩

theorem watchedFlag_fits {date : Rat} (h : 0 ≤ date) : DateFits (watchedFlag date) := by
  intro j hj
  cases hj
  exact h

theorem watched_evaluation_decided : ∃ event : Json,
    @DecidedExactly Unit sampleExternals sampleClient (watchedResult [event] 2000) (watchedFlag 2000)
      [(watchedPrerequisite, watchedFlag 500)] (EventProcessor.create configNew 0) () := by
  have hbuilds : ∃ event, Prerequisite.Builds sampleClient.config sampleResult.user
      (watchedPrerequisite, watchedFlag 500) event := ⟨_, rfl, rfl⟩
  obtain ⟨event, hbuilds⟩ := hbuilds
  refine ⟨event, (@evaluation_events_decided_iff Unit sampleExternals sampleClient
    (watchedResult [event] 2000) (watchedFlag 2000) [(watchedPrerequisite, watchedFlag 500)]
    (EventProcessor.create configNew 0) () rfl (watchedFlag_recordable 2000) nofun
    (.cons hbuilds .nil) (by decide)).mpr ⟨nofun, watchedFlag_fits (by decide +kernel), ?_⟩⟩
  rw [List.forall_mem_singleton]
  exact watchedFlag_fits (by decide +kernel)

theorem negative_date_aborts :
    Recordable (watchedFlag (-1)) ∧
      ¬ Run.Returns (@processEvaluation sampleExternals Unit sampleClient (watchedResult [] (-1))
        (EventProcessor.create configNew 0)) () ∧
      ¬ @DecidedExactly Unit sampleExternals sampleClient (watchedResult [] (-1)) (watchedFlag (-1)) []
        (EventProcessor.create configNew 0) () := by
  have hrecorded : Recorded (watchedResult [] (-1)) := by
    refine ⟨?_, rfl⟩
    rintro flag ⟨⟩
    exact watchedFlag_recordable (-1)
  have habort : ¬ Run.Returns (@processEvaluation sampleExternals Unit sampleClient
      (watchedResult [] (-1)) (EventProcessor.create configNew 0)) () := by
    intro hreturns
    have hqueueable := (@processEvaluation_recorded sampleExternals Unit sampleClient _ hrecorded
      nofun _ _).2 hreturns
    exact absurd (hqueueable.flag _ rfl _ rfl) (by decide +kernel)
  refine ⟨watchedFlag_recordable (-1), habort, ?_⟩
  rintro ⟨next, t, hprocess, -⟩
  exact habort ⟨(true, next), t, hprocess⟩

end ServerSdk
