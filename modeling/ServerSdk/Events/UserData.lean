import ServerSdk.Events.Identify
import ServerSdk.Redaction

namespace ServerSdk

open Program

namespace Json.Aligned

variable {R : String → Json → Json → Prop} {a b : Json}

theorem deleteKey (h : a.Aligned R b) (key : String) :
    (a.objectDeleteKey key).Aligned R (b.objectDeleteKey key) := by
  obtain ⟨fields, fields', rfl, rfl, h⟩ := h
  refine ⟨_, _, rfl, rfl, ?_⟩
  induction h with
  | nil => exact .nil
  | @cons field field' fields fields' hfield hfields ih =>
      obtain ⟨name, value⟩ := field
      obtain ⟨name', value'⟩ := field'
      obtain ⟨hname, hvalue⟩ := hfield
      obtain rfl : name = name' := hname
      simp only [Json.eraseField]
      split
      · exact hfields
      · exact .cons ⟨rfl, hvalue⟩ ih

theorem setKey (h : a.Aligned R b) {key : String} {value value' : Json}
    (hvalue : R key value value') :
    (a.objectSetKey key value).Aligned R (b.objectSetKey key value') := by
  obtain ⟨fields, fields', ha, hb, hfields⟩ := h.deleteKey key
  refine ⟨_, _, by rw [Json.objectSetKey, ha]; rfl, by rw [Json.objectSetKey, hb]; rfl, ?_⟩
  exact List.rel_append hfields (.cons ⟨rfl, hvalue⟩ .nil)

theorem setOptional (h : a.Aligned R b) (hR : ∀ key value, R key value value) (key : String)
    (item : Option Json) : (a.setOptional key item).Aligned R (b.setOptional key item) := by
  cases item with
  | none => exact h
  | some value => exact h.setKey (hR key value)

theorem refl (hR : ∀ key value, R key value value) (fields : List (String × Json)) :
    (Json.object fields).Aligned R (.object fields) :=
  ⟨_, _, rfl, rfl, List.forall₂_same.mpr fun field _ => ⟨rfl, hR field.1 field.2⟩⟩

end Json.Aligned

def EventMemberAlike (key : String) (a b : Json) : Prop :=
  a = b ∨ key = "user" ∧ SameUserData a b

def EventAlike : Json → Json → Prop := Json.Aligned EventMemberAlike

def BothReturn {α : Type} (R : α → α → Prop) (m m' : Checked α) : Prop :=
  ∃ a b, m = .ok a ∧ m' = .ok b ∧ R a b

theorem BothReturn.of_eq {α : Type} {R : α → α → Prop} {m m' : Checked α} (h : BothReturn R m m')
    (heq : m = m') : BothReturn Eq m m' := by
  obtain ⟨a, _, rfl, -, -⟩ := h
  exact ⟨a, a, rfl, heq.symm, rfl⟩

structure EventsAlike (R : Json → Json → Prop) (config : Config) (user user' : User) : Prop where
  index : ∀ timestamp, BothReturn R (newIndexEvent config user timestamp)
    (newIndexEvent config user' timestamp)
  identify : ∀ timestamp, BothReturn R (newIdentifyEvent config user timestamp)
    (newIdentifyEvent config user' timestamp)
  custom : ∀ args timestamp, BothReturn R (newCustomEvent config user args timestamp)
    (newCustomEvent config user' args timestamp)
  feature : ∀ args, BothReturn (Option.Rel R) (newFeatureEvent args user config)
    (newFeatureEvent args user' config)
  debug : ∀ event event', R event event' →
    BothReturn R (convertToDebug config user event) (convertToDebug config user' event')

section Related

variable {config : Config} {user user' : User} {json json' : Json}

theorem eventMemberAlike_refl (key : String) (value : Json) : EventMemberAlike key value value :=
  .inl rfl

theorem newBaseEvent_aligned (kind : String) (timestamp : Rat) :
    EventAlike (newBaseEvent kind timestamp) (newBaseEvent kind timestamp) :=
  .refl eventMemberAlike_refl _

theorem bothReturn_bind {α β : Type} {R : α → α → Prop} {S : β → β → Prop} {m m' : Checked α}
    {f f' : α → Checked β} (hm : BothReturn R m m')
    (hf : ∀ {a b}, R a b → BothReturn S (f a) (f' b)) : BothReturn S (m >>= f) (m' >>= f') := by
  obtain ⟨a, b, rfl, rfl, hab⟩ := hm
  exact hf hab

theorem bothReturn_pure {α : Type} {R : α → α → Prop} {a b : α} (h : R a b) :
    BothReturn R (pure a) (pure b) := ⟨a, b, rfl, rfl, h⟩

variable (hkey : user.key = user'.key) (hanonymous : user.anonymous = user'.anonymous)
  (hdata : BothReturn SameUserData
    (userToJSON user true config.allAttributesPrivate config.privateNames)
    (userToJSON user' true config.allAttributesPrivate config.privateNames))

include hkey hdata in
theorem addUserInfoToEvent_agree {event event' : Json} (h : EventAlike event event') :
    BothReturn EventAlike (addUserInfoToEvent event user config)
      (addUserInfoToEvent event' user' config) := by
  simp only [addUserInfoToEvent]
  split
  · exact bothReturn_bind hdata fun hjson => bothReturn_pure (h.setKey (.inr ⟨rfl, hjson⟩))
  · exact bothReturn_pure (h.setKey (.inl (by rw [hkey])))

theorem keptBySetting_eventAlike : KeptBySetting EventAlike := fun _ _ h => h.setKey (.inl rfl)

include hkey hanonymous hdata in
theorem newFeatureEvent_agree (args : FeatureEventArgs) :
    BothReturn (Option.Rel EventAlike) (newFeatureEvent args user config)
      (newFeatureEvent args user' config) := by
  obtain ⟨event, event', hevent, hevent', h⟩ :=
    addUserInfoToEvent_agree hkey hdata (newBaseEvent_aligned "feature" args.timestamp)
  exact keptBySetting_eventAlike.newFeatureEvent hanonymous hevent hevent' h

include hkey hanonymous hdata in
theorem newCustomEvent_agree (args : Measured) (timestamp : Rat) :
    BothReturn EventAlike (newCustomEvent config user args timestamp)
      (newCustomEvent config user' args timestamp) := by
  refine bothReturn_bind (addUserInfoToEvent_agree hkey hdata (newBaseEvent_aligned _ _)) ?_
  intro event event' h
  have hkeyed : EventAlike (event.objectSetKey "key" (.text args.key))
    (event'.objectSetKey "key" (.text args.key)) := h.setKey (.inl rfl)
  have hdata : EventAlike _ _ := hkeyed.setOptional eventMemberAlike_refl "data" args.data
  have hmetric := keptBySetting_eventAlike.setIf (by decide : "metricValue" ≠ "creationDate")
    (args.hasMetric = true) (.number args.metric) hdata
  simp only [hanonymous]
  exact bothReturn_pure (keptBySetting_eventAlike.setIf (by decide) _ _ hmetric)

include hdata in
theorem convertToDebug_agree {event event' : Json} (h : EventAlike event event') :
    BothReturn EventAlike (convertToDebug config user event) (convertToDebug config user' event') := by
  have hkind := ((h.deleteKey "kind").deleteKey "userKey").setKey
    (eventMemberAlike_refl "kind" (.text "debug"))
  exact bothReturn_bind hdata fun hjson => bothReturn_pure (hkind.setKey (.inr ⟨rfl, hjson⟩))

include hkey hanonymous hdata in
theorem eventsAlike_of_userData : EventsAlike EventAlike config user user' where
  index timestamp := bothReturn_bind hdata fun hjson =>
    bothReturn_pure ((newBaseEvent_aligned "index" timestamp).setKey (.inr ⟨rfl, hjson⟩))
  identify timestamp := bothReturn_bind hdata fun hjson => by
    have hbase := (newBaseEvent_aligned "identify" timestamp).setKey
      (eventMemberAlike_refl "key" (.text user.key))
    rw [← hkey]
    exact bothReturn_pure (hbase.setKey (.inr ⟨rfl, hjson⟩))
  custom := newCustomEvent_agree hkey hanonymous hdata
  feature := newFeatureEvent_agree hkey hanonymous hdata
  debug _ _ h := convertToDebug_agree hdata h

include hkey hanonymous hdata in
theorem eventsAlike_of_eq (heq :
    userToJSON user true config.allAttributesPrivate config.privateNames =
      userToJSON user' true config.allAttributesPrivate config.privateNames) :
    EventsAlike Eq config user user' := by
  have hevents := eventsAlike_of_userData hkey hanonymous hdata
  have hinfo : ∀ event, addUserInfoToEvent event user config =
      addUserInfoToEvent event user' config := by
    intro event
    simp only [addUserInfoToEvent, heq, hkey]
  constructor
  · intro timestamp
    exact (hevents.index timestamp).of_eq (by simp only [newIndexEvent, heq])
  · intro timestamp
    exact (hevents.identify timestamp).of_eq (by simp only [newIdentifyEvent, heq, hkey])
  · intro args timestamp
    exact (hevents.custom args timestamp).of_eq (by simp only [newCustomEvent, hinfo, hanonymous])
  · intro args
    obtain ⟨event, _, hevent, -, -⟩ := hevents.feature args
    have hsame : newFeatureEvent args user config = newFeatureEvent args user' config := by
      simp only [newFeatureEvent, finishFeatureEvent, hinfo, hanonymous]
    refine ⟨event, event, hevent, hsame ▸ hevent, ?_⟩
    cases event with
    | none => exact .none
    | some event => exact .some rfl
  · rintro event _ rfl
    obtain ⟨json, _, hjson, -, -⟩ := hdata
    have hjson' := heq ▸ hjson
    simp only [convertToDebug, hjson, hjson', Checked.ok_bind]
    exact bothReturn_pure rfl

end Related

def redactUser (config : Config) (user : User) : Checked Json :=
  userToJSON user true config.allAttributesPrivate config.privateNames

theorem private_attributes_do_not_leak (config : Config) :
    (∀ user user', SameVisible config user user' →
      BothReturn SameUserData (redactUser config user) (redactUser config user') ∧
        EventsAlike EventAlike config user user' ∧
        (SameOrder config user user' → BothReturn Eq (redactUser config user) (redactUser config user') ∧
          EventsAlike Eq config user user')) ∧
      ∀ user, ∃ json, redactUser config user = .ok json ∧ Redacted config user json := by
  refine ⟨?_, fun user => ⟨_, userToJSON_redacted user config, redacted_redactedFields user config⟩⟩
  intro user user' h
  have hdata : BothReturn SameUserData (redactUser config user) (redactUser config user') :=
    ⟨_, _, userToJSON_redacted user config, userToJSON_redacted user' config, h.userData⟩
  refine ⟨hdata, eventsAlike_of_userData h.key h.anonymous hdata, fun horder => ?_⟩
  have heq : redactUser config user = redactUser config user' := by
    rw [redactUser, userToJSON_redacted, h.userData_eq horder, redactUser, userToJSON_redacted]
  exact ⟨hdata.of_eq heq, eventsAlike_of_eq h.key h.anonymous hdata heq⟩

def userWithCustom (custom : Option Json) : User where
  __ := userNew "123"
  custom := custom
  privateAttributeNames := ["secret", "hidden"]

theorem private_attributes_do_not_leak_secret :
    BothReturn Eq
      (redactUser configNew (userWithCustom (some (.object [("secret", .number 42)]))))
      (redactUser configNew (userWithCustom (some (.object [("secret", .number 7)])))) :=
  ((private_attributes_do_not_leak configNew).1 _ _
    ⟨⟨rfl, rfl, rfl, fun _ => .rfl, fun _ _ => .rfl⟩, .objects (.refl _) (.refl _)⟩).2.2
      ⟨rfl, rfl⟩ |>.1

def NotCompared (a b : Json) : Prop := a.compare b = false

theorem redactUser_notCompared {config : Config} {user user' : User}
    (h : (Json.object (user.redactedFields (config.hides user))).compare
      (.object (user'.redactedFields (config.hides user'))) = false) :
    BothReturn NotCompared (redactUser config user) (redactUser config user') :=
  ⟨_, _, userToJSON_redacted user config, userToJSON_redacted user' config, h⟩

theorem sameIdentity_withCustom (custom custom' : Option Json) :
    SameIdentity configNew (userWithCustom custom) (userWithCustom custom') :=
  ⟨rfl, rfl, rfl, fun _ => .rfl, fun _ _ => .rfl⟩

theorem same_attributes_differ :
    let secrets := userWithCustom (some (.object [("secret", .number 42), ("hidden", .number 7)]))
    let reordered := userWithCustom (some (.object [("hidden", .number 7), ("secret", .number 42)]))
    let empty := userWithCustom (some (.object []))
    let text := userWithCustom (some (.text "secret"))
    let absent := userWithCustom none
    (SameAttributes configNew secrets reordered ∧
        BothReturn NotCompared (redactUser configNew secrets) (redactUser configNew reordered)) ∧
      (SameAttributes configNew empty absent ∧
        BothReturn NotCompared (redactUser configNew empty) (redactUser configNew absent)) ∧
      (SameAttributes configNew text empty ∧
        BothReturn NotCompared (redactUser configNew text) (redactUser configNew empty)) := by
  refine ⟨⟨⟨sameIdentity_withCustom _ _, ?_, ?_⟩, redactUser_notCompared (by decide +kernel)⟩,
    ⟨⟨sameIdentity_withCustom _ _, fun _ => .rfl, fun _ _ => .rfl⟩,
      redactUser_notCompared (by decide +kernel)⟩,
    ⟨⟨sameIdentity_withCustom _ _, fun _ => .rfl, fun _ _ => .rfl⟩,
      redactUser_notCompared (by decide +kernel)⟩⟩
  · intro name
    simp [userWithCustom, User.customs, Json.iterFields, or_comm]
  · intro entry _
    simp [userWithCustom, User.customs, Json.iterFields, or_comm]

end ServerSdk
