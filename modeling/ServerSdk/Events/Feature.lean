import ServerSdk.Details
import ServerSdk.User

namespace ServerSdk

open Program

def Json.setOptional (json : Json) (key : String) (item : Option Json) : Json :=
  match item with
  | some item => json.objectSetKey key item
  | none => json

def marshalUnixMillis (timestamp : Rat) : Json := .number timestamp

def newBaseEvent (kind : String) (now : Rat) : Json :=
  ((Json.object []).objectSetKey "creationDate" (marshalUnixMillis now)).objectSetKey "kind"
    (.text kind)

def addUserInfoToEvent (event : Json) (user : User) (config : Config) : Checked Json :=
  if config.inlineUsersInEvents then do
    let json ← userToJSON user true config.allAttributesPrivate config.privateNames
    pure (event.objectSetKey "user" json)
  else pure (event.objectSetKey "userKey" (.text user.key))

def typedIfPresent (flag : Json) (key : String) (expectedType : JsonType) : Option (Option Json) :=
  match flag.objectLookup key with
  | none | some .null => some none
  | some value => if value.getType = expectedType then some (some value) else none

structure Tracking where
  shouldTrack : Bool
  shouldAlwaysDetail : Bool
  deriving DecidableEq, Repr

def addFlagFields (event : Json) (flag : Option Json) : Option (Json × Bool) :=
  match flag with
  | none => some (event, false)
  | some flag => do
      let version ← typedIfPresent flag "version" .number
      let debugEventsUntilDate ← typedIfPresent flag "debugEventsUntilDate" .number
      let trackEvents ← typedIfPresent flag "trackEvents" .bool
      let event := event.setOptional "version" version
      let event := event.setOptional "debugEventsUntilDate" debugEventsUntilDate
      pure (event, (trackEvents.map Json.getBool).getD false)

def ruleTracks (flag : Json) (details : Details) : Bool :=
  match details.reason, details.extra with
  | .ruleMatch, .rule rule =>
      (((((flag.objectLookup "rules").bind (·.arrayLookup rule.ruleIndex)).bind
        (·.objectLookup "trackEvents")).map Json.getBool).getD false)
  | _, _ => false

def trackingOf (flag : Option Json) (details : Details) (shouldTrack : Bool) : Option Tracking :=
  match flag with
  | none => some ⟨shouldTrack, false⟩
  | some flag => do
      let fallthrough ← typedIfPresent flag "trackEventsFallthrough" .bool
      let experiment := (((fallthrough.map Json.getBool).getD false) &&
        decide (details.reason = .fallthrough)) || ruleTracks flag details
      pure ⟨shouldTrack || experiment, experiment⟩

def finishFeatureEvent (event : Json) (user : User) (reason : Json) (tracking : Tracking) : Json :=
  let event := event.objectSetKey "reason" reason
  let event := if tracking.shouldTrack then event.objectSetKey "trackEvents" (.bool true) else event
  let event := if tracking.shouldAlwaysDetail
    then event.objectSetKey "shouldAlwaysTrackDetails" (.bool true) else event
  if user.anonymous then event.objectSetKey "contextKind" (.text "anonymousUser") else event

structure FeatureEventArgs where
  key : String
  variation : Option Nat
  value : Option Json
  defaultValue : Option Json
  prereqOf : Option String
  flag : Option Json
  details : Details
  timestamp : Rat

def newFeatureEvent (args : FeatureEventArgs) (user : User) (config : Config) :
    Checked (Option Json) := do
  let event ← addUserInfoToEvent (newBaseEvent "feature" args.timestamp) user config
  let event := event.objectSetKey "key" (.text args.key)
  let event := event.setOptional "variation" (args.variation.map fun n => .number n)
  let event := event.setOptional "value" args.value
  let event := event.setOptional "default" args.defaultValue
  let event := event.setOptional "prereqOf" (args.prereqOf.map Json.text)
  pure (do
    let (event, shouldTrack) ← addFlagFields event args.flag
    let reason ← reasonToJSON args.details
    let tracking ← trackingOf args.flag args.details shouldTrack
    pure (finishFeatureEvent event user reason tracking))

theorem Json.Unique.setOptional {j : Json} (h : j.Unique) (key : String) (item : Option Json) :
    (j.setOptional key item).Unique := by
  cases item with
  | none => exact h
  | some v => exact h.setKey key v

theorem Json.objectLookup_setOptional_of_ne {key k : String} (h : k ≠ key) (j : Json)
    (item : Option Json) : (j.setOptional key item).objectLookup k = j.objectLookup k := by
  cases item with
  | none => rfl
  | some v => exact Json.objectLookup_setKey_of_ne h j v

theorem Json.Unique.lookup_setOptional {j : Json} (h : j.Unique) {key : String}
    (hnone : j.objectLookup key = none) (item : Option Json) :
    (j.setOptional key item).objectLookup key = item := by
  cases item with
  | none => exact hnone
  | some v => exact h.lookup_setKey key v

theorem Json.Unique.setIf {j : Json} (h : j.Unique) (p : Prop) [Decidable p] (key : String)
    (item : Json) : (if p then j.objectSetKey key item else j).Unique := by
  split
  · exact h.setKey key item
  · exact h

theorem Json.Unique.lookup_setIf {j : Json} (h : j.Unique) (p : Prop) [Decidable p] (key : String)
    (item : Json) : (if p then j.objectSetKey key item else j).objectLookup key =
      if p then some item else j.objectLookup key := by
  split
  · exact h.lookup_setKey key item
  · rfl

theorem Json.objectLookup_setIf_of_ne {key k : String} (h : k ≠ key) (p : Prop) [Decidable p]
    (j item : Json) :
    (if p then j.objectSetKey key item else j).objectLookup k = j.objectLookup k := by
  split
  · exact Json.objectLookup_setKey_of_ne h j item
  · rfl

def Json.setFields (json : Json) (fields : List (String × Option Json)) : Json :=
  fields.foldl (fun json field => json.setOptional field.1 field.2) json

theorem Json.objectLookup_setFields_of_notMem {key : String} {fields : List (String × Option Json)}
    (h : key ∉ fields.map Prod.fst) (j : Json) :
    (j.setFields fields).objectLookup key = j.objectLookup key := by
  induction fields generalizing j with
  | nil => rfl
  | cons field fields ih =>
      rw [List.map_cons, List.mem_cons, not_or] at h
      exact (ih h.2 _).trans (Json.objectLookup_setOptional_of_ne h.1 j field.2)

theorem Json.Unique.lookup_setFields {j : Json} (h : j.Unique)
    {fields : List (String × Option Json)} (hkeys : (fields.map Prod.fst).Nodup)
    (hnone : ∀ key ∈ fields.map Prod.fst, j.objectLookup key = none) {key : String}
    {item : Option Json} (hmem : (key, item) ∈ fields) :
    (j.setFields fields).objectLookup key = item := by
  induction fields generalizing j with
  | nil => cases hmem
  | cons field fields ih =>
      rw [List.map_cons, List.nodup_cons] at hkeys
      rcases List.mem_cons.mp hmem with rfl | hmem
      · exact (Json.objectLookup_setFields_of_notMem hkeys.1 _).trans
          (h.lookup_setOptional (hnone key (by simp)) item)
      · refine ih (h.setOptional field.1 field.2) hkeys.2 ?_ hmem
        intro other hother
        have hne : other ≠ field.1 := fun heq => hkeys.1 (heq ▸ hother)
        rw [Json.objectLookup_setOptional_of_ne hne]
        exact hnone other (List.mem_cons_of_mem _ hother)

def numberOf (flag : Option Json) (key : String) : Option Json :=
  flag.bind fun f => (typedIfPresent f key .number).getD none

theorem addFlagFields_eq_some {event e : Json} {flag : Option Json} {track : Bool}
    (h : addFlagFields event flag = some (e, track)) :
    e = (event.setOptional "version" (numberOf flag "version")).setOptional
      "debugEventsUntilDate" (numberOf flag "debugEventsUntilDate") := by
  cases flag with
  | none =>
      cases h
      rfl
  | some flag =>
      obtain ⟨version, hversion, h⟩ := Option.bind_eq_some_iff.mp h
      obtain ⟨date, hdate, h⟩ := Option.bind_eq_some_iff.mp h
      obtain ⟨trackEvents, -, h⟩ := Option.bind_eq_some_iff.mp h
      cases h
      simp [numberOf, hversion, hdate]

def closingFields : List String :=
  ["reason", "trackEvents", "shouldAlwaysTrackDetails", "contextKind"]

theorem finishFeatureEvent_lookup {key : String} (h : key ∉ closingFields) (event : Json)
    (user : User) (reason : Json) (tracking : Tracking) :
    (finishFeatureEvent event user reason tracking).objectLookup key = event.objectLookup key := by
  have hne : ∀ k ∈ closingFields, key ≠ k := fun k hk heq => h (heq ▸ hk)
  simp only [finishFeatureEvent]
  rw [Json.objectLookup_setIf_of_ne (hne "contextKind" (by decide)),
    Json.objectLookup_setIf_of_ne (hne "shouldAlwaysTrackDetails" (by decide)),
    Json.objectLookup_setIf_of_ne (hne "trackEvents" (by decide)),
    Json.objectLookup_setKey_of_ne (hne "reason" (by decide))]

structure IsFeatureEvent (args : FeatureEventArgs) (event : Json) : Prop where
  kind : event.objectLookup "kind" = some (.text "feature")
  key : event.objectLookup "key" = some (.text args.key)
  variation : event.objectLookup "variation" = args.variation.map fun n => Json.number n
  value : event.objectLookup "value" = args.value
  default : event.objectLookup "default" = args.defaultValue
  prereqOf : event.objectLookup "prereqOf" = args.prereqOf.map Json.text
  version : event.objectLookup "version" = numberOf args.flag "version"
  debugEventsUntilDate : event.objectLookup "debugEventsUntilDate" =
    numberOf args.flag "debugEventsUntilDate"

theorem addUserInfoToEvent_frame {event e : Json} {user : User} {config : Config}
    (hu : event.Unique) (h : addUserInfoToEvent event user config = .ok e) :
    e.Unique ∧ ∀ key, key ≠ "user" → key ≠ "userKey" → e.objectLookup key = event.objectLookup key := by
  simp only [addUserInfoToEvent] at h
  split at h
  · obtain ⟨json, -, hpure⟩ := Checked.bind_eq_ok.mp h
    cases hpure
    exact ⟨hu.setKey _ _, fun key hkey _ => Json.objectLookup_setKey_of_ne hkey _ _⟩
  · cases h
    exact ⟨hu.setKey _ _, fun key _ hkey => Json.objectLookup_setKey_of_ne hkey _ _⟩

def openingFields : List String := ["creationDate", "kind", "user", "userKey"]

theorem addUserInfoToEvent_opened {args : FeatureEventArgs} {user : User} {config : Config}
    {base : Json}
    (h : addUserInfoToEvent (newBaseEvent "feature" args.timestamp) user config = .ok base) :
    base.Unique ∧ base.objectLookup "kind" = some (.text "feature") ∧
      ∀ key ∉ openingFields, base.objectLookup key = none := by
  have hunique : (newBaseEvent "feature" args.timestamp).Unique :=
    (Json.unique_empty.setKey _ _).setKey _ _
  obtain ⟨hbase, hframe⟩ := addUserInfoToEvent_frame hunique h
  refine ⟨hbase, (hframe "kind" (by decide) (by decide)).trans rfl, ?_⟩
  intro key hkey
  simp only [openingFields, List.mem_cons, List.not_mem_nil, not_or] at hkey
  obtain ⟨hdate, hkind, huser, huserKey, _⟩ := hkey
  rw [hframe key huser huserKey, newBaseEvent, Json.objectLookup_setKey_of_ne hkind,
    Json.objectLookup_setKey_of_ne hdate]
  rfl

def FeatureEventArgs.fields (args : FeatureEventArgs) : List (String × Option Json) :=
  [("key", some (.text args.key)), ("variation", args.variation.map fun n => Json.number n),
    ("value", args.value), ("default", args.defaultValue), ("prereqOf", args.prereqOf.map Json.text),
    ("version", numberOf args.flag "version"),
    ("debugEventsUntilDate", numberOf args.flag "debugEventsUntilDate")]

def argumentFields : List String :=
  ["key", "variation", "value", "default", "prereqOf", "version", "debugEventsUntilDate"]

theorem FeatureEventArgs.keys_fields (args : FeatureEventArgs) :
    args.fields.map Prod.fst = argumentFields := rfl

theorem newFeatureEvent_isFeatureEvent {args : FeatureEventArgs} {user : User} {config : Config}
    {event : Json} (h : newFeatureEvent args user config = .ok (some event)) :
    IsFeatureEvent args event := by
  obtain ⟨base, hbase, hpure⟩ := Checked.bind_eq_ok.mp h
  obtain ⟨hunique, hkind, hopened⟩ := addUserInfoToEvent_opened hbase
  obtain ⟨⟨filled, track⟩, hfields, hrest⟩ := Option.bind_eq_some_iff.mp (Except.ok.inj hpure)
  have hfilled : filled = base.setFields args.fields := addFlagFields_eq_some hfields
  obtain ⟨reason, -, hrest⟩ := Option.bind_eq_some_iff.mp hrest
  obtain ⟨tracking, -, hrest⟩ := Option.bind_eq_some_iff.mp hrest
  cases hrest
  have hkeys : (args.fields.map Prod.fst).Nodup := by
    rw [args.keys_fields]
    decide
  have hnone : ∀ key ∈ args.fields.map Prod.fst, base.objectLookup key = none := by
    have hdisjoint : ∀ key ∈ argumentFields, key ∉ openingFields := by decide
    exact fun key hkey => hopened key (hdisjoint key hkey)
  have hset : ∀ {key item}, (key, item) ∈ args.fields →
      (finishFeatureEvent filled user reason tracking).objectLookup key = item := by
    intro key item hmem
    have hclosing : ∀ key ∈ argumentFields, key ∉ closingFields := by decide
    have hkey : key ∈ args.fields.map Prod.fst := List.mem_map_of_mem hmem
    rw [finishFeatureEvent_lookup (hclosing key hkey), hfilled]
    exact hunique.lookup_setFields hkeys hnone hmem
  constructor
  · have hnot : "kind" ∉ args.fields.map Prod.fst := by
      rw [args.keys_fields]
      decide
    rw [finishFeatureEvent_lookup (by decide), hfilled, Json.objectLookup_setFields_of_notMem hnot]
    exact hkind
  all_goals
    refine hset ?_
    simp [FeatureEventArgs.fields]

theorem addUserInfoToEvent_returns (event : Json) (user : User) (config : Config) :
    Checked.Returns (addUserInfoToEvent event user config) := by
  simp only [addUserInfoToEvent]
  split
  · obtain ⟨json, hjson⟩ := userToJSON_returns user true config.allAttributesPrivate
      config.privateAttributeNames
    exact Checked.returns_bind.mpr ⟨json, hjson, Checked.returns_pure _⟩
  · exact Checked.returns_pure _

theorem newFeatureEvent_returns (args : FeatureEventArgs) (user : User) (config : Config) :
    Checked.Returns (newFeatureEvent args user config) := by
  obtain ⟨event, hevent⟩ := addUserInfoToEvent_returns (newBaseEvent "feature" args.timestamp) user
    config
  exact Checked.returns_bind.mpr ⟨event, hevent, Checked.returns_pure _⟩

structure Recordable (flag : Json) : Prop where
  version : (typedIfPresent flag "version" .number).isSome
  debugEventsUntilDate : (typedIfPresent flag "debugEventsUntilDate" .number).isSome
  trackEvents : (typedIfPresent flag "trackEvents" .bool).isSome
  trackEventsFallthrough : (typedIfPresent flag "trackEventsFallthrough" .bool).isSome

theorem featureFields_isSome_iff (event : Json) (flag : Option Json) (user : User)
    (details : Details) :
    (do
      let (event, shouldTrack) ← addFlagFields event flag
      let reason ← reasonToJSON details
      let tracking ← trackingOf flag details shouldTrack
      pure (finishFeatureEvent event user reason tracking) : Option Json).isSome ↔
      (∀ f, flag = some f → Recordable f) ∧ (reasonToJSON details).isSome := by
  cases flag with
  | none =>
      cases reasonToJSON details with
      | none => simp [addFlagFields]
      | some reason => simp [addFlagFields, trackingOf]
  | some f =>
      constructor
      · intro h
        obtain ⟨event, hevent⟩ := Option.isSome_iff_exists.mp h
        obtain ⟨p, hfields, hrest⟩ := Option.bind_eq_some_iff.mp hevent
        obtain ⟨version, hversion, hfields⟩ := Option.bind_eq_some_iff.mp hfields
        obtain ⟨date, hdate, hfields⟩ := Option.bind_eq_some_iff.mp hfields
        obtain ⟨track, htrack, -⟩ := Option.bind_eq_some_iff.mp hfields
        obtain ⟨reason, hreason, hrest⟩ := Option.bind_eq_some_iff.mp hrest
        obtain ⟨tracking, htracking, -⟩ := Option.bind_eq_some_iff.mp hrest
        obtain ⟨fallthrough, hfallthrough, -⟩ := Option.bind_eq_some_iff.mp htracking
        refine ⟨?_, by simp [hreason]⟩
        intro g hg
        cases hg
        exact ⟨by simp [hversion], by simp [hdate], by simp [htrack], by simp [hfallthrough]⟩
      · rintro ⟨hrecordable, hreason⟩
        obtain ⟨hversion, hdate, htrack, hfallthrough⟩ := hrecordable f rfl
        obtain ⟨version, hversion⟩ := Option.isSome_iff_exists.mp hversion
        obtain ⟨date, hdate⟩ := Option.isSome_iff_exists.mp hdate
        obtain ⟨track, htrack⟩ := Option.isSome_iff_exists.mp htrack
        obtain ⟨fallthrough, hfallthrough⟩ := Option.isSome_iff_exists.mp hfallthrough
        obtain ⟨reason, hreason⟩ := Option.isSome_iff_exists.mp hreason
        simp [addFlagFields, trackingOf, hversion, hdate, htrack, hfallthrough, hreason]

theorem newFeatureEvent_isSome_iff {args : FeatureEventArgs} {user : User} {config : Config}
    {event : Option Json} (h : newFeatureEvent args user config = .ok event) :
    event.isSome ↔ (∀ f, args.flag = some f → Recordable f) ∧ (reasonToJSON args.details).isSome := by
  obtain ⟨base, -, hpure⟩ := Checked.bind_eq_ok.mp h
  cases hpure
  exact featureFields_isSome_iff _ args.flag user args.details

def KeptBySetting (R : Json → Json → Prop) : Prop :=
  ∀ {event event' : Json} {key : String} (value : Json), key ≠ "creationDate" → R event event' →
    R (event.objectSetKey key value) (event'.objectSetKey key value)

namespace KeptBySetting

variable {R : Json → Json → Prop} {event event' : Json}

theorem setOptional (hR : KeptBySetting R) {key : String} (hkey : key ≠ "creationDate")
    (item : Option Json) (h : R event event') :
    R (event.setOptional key item) (event'.setOptional key item) := by
  cases item with
  | none => exact h
  | some value => exact hR value hkey h

theorem setIf (hR : KeptBySetting R) {key : String} (hkey : key ≠ "creationDate") (p : Prop)
    [Decidable p] (value : Json) (h : R event event') :
    R (if p then event.objectSetKey key value else event)
      (if p then event'.objectSetKey key value else event') := by
  split
  · exact hR value hkey h
  · exact h

theorem addFlagFields (hR : KeptBySetting R) (flag : Option Json) (h : R event event') :
    Option.Rel (fun p p' => R p.1 p'.1 ∧ p.2 = p'.2) (addFlagFields event flag)
      (addFlagFields event' flag) := by
  cases flag with
  | none => exact .some ⟨h, rfl⟩
  | some flag =>
      simp only [ServerSdk.addFlagFields]
      cases typedIfPresent flag "version" .number with
      | none => exact .none
      | some version =>
          cases typedIfPresent flag "debugEventsUntilDate" .number with
          | none => exact .none
          | some date =>
              cases typedIfPresent flag "trackEvents" .bool with
              | none => exact .none
              | some track =>
                  have hversion := hR.setOptional (by decide : "version" ≠ "creationDate") version h
                  exact .some ⟨hR.setOptional (by decide) date hversion, rfl⟩

theorem finishFeatureEvent (hR : KeptBySetting R) {user user' : User}
    (hanonymous : user.anonymous = user'.anonymous) (reason : Json) (tracking : Tracking)
    (h : R event event') :
    R (finishFeatureEvent event user reason tracking)
      (finishFeatureEvent event' user' reason tracking) := by
  simp only [ServerSdk.finishFeatureEvent, hanonymous]
  have hreason := hR reason (by decide : "reason" ≠ "creationDate") h
  have htrack := hR.setIf (by decide : "trackEvents" ≠ "creationDate") (tracking.shouldTrack = true)
    (.bool true) hreason
  have hdetail := hR.setIf (by decide : "shouldAlwaysTrackDetails" ≠ "creationDate")
    (tracking.shouldAlwaysDetail = true) (.bool true) htrack
  exact hR.setIf (by decide) _ _ hdetail

theorem newFeatureEvent (hR : KeptBySetting R) {args : FeatureEventArgs} {t : Rat}
    {user user' : User} (hanonymous : user.anonymous = user'.anonymous) {config : Config}
    (hevent : addUserInfoToEvent (newBaseEvent "feature" args.timestamp) user config = .ok event)
    (hevent' : addUserInfoToEvent (newBaseEvent "feature" t) user' config = .ok event')
    (h : R event event') :
    ∃ built built', newFeatureEvent args user config = .ok built ∧
      newFeatureEvent { args with timestamp := t } user' config = .ok built' ∧
      Option.Rel R built built' := by
  have hkey := hR (.text args.key) (by decide : "key" ≠ "creationDate") h
  have hvariation := hR.setOptional (by decide : "variation" ≠ "creationDate")
    (args.variation.map fun n => .number n) hkey
  have hvalue := hR.setOptional (by decide : "value" ≠ "creationDate") args.value hvariation
  have hdefault := hR.setOptional (by decide : "default" ≠ "creationDate") args.defaultValue hvalue
  have hprereq := hR.setOptional (by decide : "prereqOf" ≠ "creationDate")
    (args.prereqOf.map Json.text) hdefault
  have hfields := hR.addFlagFields args.flag hprereq
  refine ⟨_, _, by rw [ServerSdk.newFeatureEvent, hevent]; rfl,
    by rw [ServerSdk.newFeatureEvent, hevent']; rfl, ?_⟩
  generalize ServerSdk.addFlagFields _ args.flag = filled at hfields
  generalize ServerSdk.addFlagFields _ args.flag = filled' at hfields
  cases hfields with
  | none => exact .none
  | @some p p' hp =>
      obtain ⟨event, shouldTrack⟩ := p
      obtain ⟨event', shouldTrack'⟩ := p'
      obtain ⟨hfilled, rfl⟩ := hp
      change Option.Rel R ((reasonToJSON args.details).bind _) ((reasonToJSON args.details).bind _)
      cases reasonToJSON args.details with
      | none => exact .none
      | some reason =>
          change Option.Rel R ((trackingOf args.flag args.details shouldTrack).bind _)
            ((trackingOf args.flag args.details shouldTrack).bind _)
          cases trackingOf args.flag args.details shouldTrack with
          | none => exact .none
          | some tracking => exact .some (hR.finishFeatureEvent hanonymous reason tracking hfilled)

end KeptBySetting

end ServerSdk
