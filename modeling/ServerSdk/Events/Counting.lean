import ServerSdk.Events.Offers
import ServerSdk.Events.Payload
import ServerSdk.Program.Tally

namespace ServerSdk

open Program

theorem asNumber_meaningful (json : Option Json) :
    asNumber (Json.meaningful json) = asNumber json := by
  rcases json with _ | json
  · rfl
  · cases json <;> rfl

theorem numberOf_eq (flag : Option Json) (key : String) :
    asNumber (numberOf flag key) = flag.bind fun flag => asNumber (flag.objectLookup key) := by
  cases flag with
  | none => rfl
  | some flag =>
      simp only [numberOf, Option.bind_some, typedIfPresent]
      rcases flag.objectLookup key with _ | json
      · rfl
      · cases json <;> rfl

theorem IsFeatureEvent.eventTriple {result : EvaluationResult} {now : Rat} {event : Json}
    (h : IsFeatureEvent (result.featureEvent now) event) : eventTriple event = result.triple := by
  rw [ServerSdk.eventTriple, h.key, h.variation, h.version, numberOf_eq, EvaluationResult.triple]
  simp only [EvaluationResult.featureEvent]
  cases result.details.hasVariation <;> rfl

section AlterEntry

variable {α : Type} {key : String} {f : Option α → α}

theorem sum_alterEntry {entries : List (String × α)} {weight : String × α → Rat} {d : Rat}
    (hnew : weight (key, f none) = d)
    (hold : ∀ a, (key, a) ∈ entries → weight (key, f (some a)) = weight (key, a) + d) :
    ((alterEntry key f entries).map weight).sum = (entries.map weight).sum + d := by
  induction entries with
  | nil => simp [alterEntry, hnew]
  | cons entry entries ih =>
      obtain ⟨k, a⟩ := entry
      rw [alterEntry]
      split_ifs with hk
      · cases hk
        rw [List.map_cons, List.map_cons, List.sum_cons, List.sum_cons, hold a (by simp)]
        ring
      · rw [List.map_cons, List.map_cons, List.sum_cons, List.sum_cons,
          ih fun a ha => hold a (List.mem_cons_of_mem _ ha)]
        ring

theorem mem_alterEntry {entries : List (String × α)} {entry : String × α}
    (h : entry ∈ alterEntry key f entries) :
    entry ∈ entries ∨ entry = (key, f none) ∨
      ∃ a, (key, a) ∈ entries ∧ entry = (key, f (some a)) := by
  induction entries with
  | nil => exact .inr (.inl (List.mem_singleton.mp h))
  | cons first entries ih =>
      obtain ⟨k, a⟩ := first
      rw [alterEntry] at h
      split_ifs at h with hk
      · cases hk
        rcases List.mem_cons.mp h with rfl | h
        · exact .inr (.inr ⟨a, by simp, rfl⟩)
        · exact .inl (List.mem_cons_of_mem _ h)
      · rcases List.mem_cons.mp h with rfl | h
        · exact .inl (by simp)
        · obtain h | h | ⟨a, ha, rfl⟩ := ih h
          · exact .inl (List.mem_cons_of_mem _ h)
          · exact .inr (.inl h)
          · exact .inr (.inr ⟨a, List.mem_cons_of_mem _ ha, rfl⟩)

theorem keys_alterEntry (key : String) (f : Option α → α) (entries : List (String × α)) :
    (alterEntry key f entries).map Prod.fst =
      if key ∈ entries.map Prod.fst then entries.map Prod.fst
      else entries.map Prod.fst ++ [key] := by
  induction entries with
  | nil => rfl
  | cons entry entries ih =>
      obtain ⟨k, a⟩ := entry
      rw [alterEntry]
      by_cases hk : k = key
      · simp [hk]
      · rw [if_neg hk, List.map_cons, ih]
        by_cases hmem : key ∈ entries.map Prod.fst
        · simp [hmem]
        · simp [hmem, Ne.symm hk]

theorem nodup_alterEntry {entries : List (String × α)} (h : (entries.map Prod.fst).Nodup) :
    ((alterEntry key f entries).map Prod.fst).Nodup := by
  rw [keys_alterEntry]
  split_ifs with hmem
  · exact h
  · rw [← List.concat_eq_append]
    exact h.concat hmem

end AlterEntry

theorem addNumberTo_eq {key event result : Json} {name : String}
    (h : addNumberTo key event name = .ok result) :
    result = key.setOptional name ((asNumber (event.objectLookup name)).map Json.number) := by
  rw [← asNumber_meaningful]
  rw [addNumberTo] at h
  generalize Json.meaningful (event.objectLookup name) = number at h ⊢
  rcases number with _ | json
  · cases h
    rfl
  · cases json <;> cases h
    rfl

theorem eventKey_eq {event : Json} {flagKey : String} (h : eventKey event = .ok flagKey) :
    (eventTriple event).flagKey = flagKey := by
  rw [eventKey] at h
  rw [eventTriple]
  cases hkey : (event.objectLookup "key").bind Json.getText with
  | none =>
      rw [hkey] at h
      cases h
  | some key =>
      rw [hkey] at h
      cases h
      rfl

theorem fields_counted_none (event : Json) (unknown : Bool) :
    asNumber (SummaryEntry.counted event unknown none).variation = (eventTriple event).variation ∧
      asNumber (SummaryEntry.counted event unknown none).version = (eventTriple event).version :=
  ⟨asNumber_meaningful _, asNumber_meaningful _⟩

section Frames

variable {config : Config} {processor : EventProcessor}

theorem summaryCounters_possiblyQueueEvent (user : User) (detailed : Bool) (now : Rat)
    (event : Json) :
    Checked.Ensures (possiblyQueueEvent config user detailed now event processor) fun processor' =>
      processor'.summaryCounters = processor.summaryCounters := by
  rw [possiblyQueueEvent_offers]
  intro processor' h
  cases hoffers : offersOf config user detailed now processor.lastServerTime event with
  | error fault =>
      rw [hoffers] at h
      cases h
  | ok offers =>
      rw [hoffers] at h
      cases h
      rfl

theorem summaryCounters_possiblyQueueEvents (user : User) (detailed : Bool) (now : Rat)
    (events : List Json) :
    Checked.Ensures (possiblyQueueEvents config user detailed now events processor)
      fun processor' => processor'.summaryCounters = processor.summaryCounters := by
  induction events generalizing processor with
  | nil => exact Checked.ensures_pure rfl
  | cons event events ih =>
      refine (summaryCounters_possiblyQueueEvent user detailed now event).bind fun queued hqueued => ?_
      intro processor' hprocessor'
      exact (ih processor' hprocessor').trans hqueued

theorem summaryCounters_addIndexEvent (indexEvent : Option Json) :
    (addIndexEvent config indexEvent processor).summaryCounters = processor.summaryCounters := by
  rw [addIndexEvent_eq_offered]
  rfl

variable {σ : Type}

theorem summaryCounters_flushUserKeys (w : World σ) (s : σ) :
    Run.Ensures (flushUserKeys w config processor) s fun flushed _ =>
      flushed.summaryCounters = processor.summaryCounters := by
  rw [flushUserKeys, Run.ensures_ask_bind]
  split_ifs
  · rw [Run.ensures_ask_bind]
    exact Run.ensures_pure rfl
  · exact Run.ensures_pure rfl

theorem summaryCounters_maybeMakeIndexEvent (w : World σ) (user : User) (timestamp : Rat) (s : σ) :
    Run.Ensures (maybeMakeIndexEvent w config user timestamp processor) s fun result _ =>
      result.2.summaryCounters = processor.summaryCounters := by
  rw [maybeMakeIndexEvent]
  split_ifs
  · exact Run.ensures_pure rfl
  · refine (summaryCounters_flushUserKeys w s).bind fun flushed t hflushed => ?_
    generalize flushed.userKeys.insert user.key = inserted
    obtain ⟨status, userKeys⟩ := inserted
    cases status with
    | existed => exact Run.ensures_pure hflushed
    | new => exact Run.ensures_lift_bind fun event _ => Run.ensures_pure hflushed

end Frames

def summaryKey (variation version : Option Rat) : Json :=
  let key := (Json.object []).setOptional "variation" (variation.map Json.number)
  key.setOptional "version" (version.map Json.number)

section Keys

variable [Externals]

def summaryKeyText (variation version : Option Rat) : String :=
  Externals.serialize (summaryKey variation version)

structure NumbersWithin (good : Rat → Prop) (variation version : Option Rat) : Prop where
  variation : ∀ number ∈ variation, good number
  version : ∀ number ∈ version, good number

def SummaryTriple.Within (good : Rat → Prop) (triple : SummaryTriple) : Prop :=
  NumbersWithin good triple.variation triple.version

variable {good : Rat → Prop}

def KeysDistinct (good : Rat → Prop) : Prop :=
  ∀ variation version variation' version', NumbersWithin good variation version →
    NumbersWithin good variation' version' →
    summaryKeyText variation version = summaryKeyText variation' version' →
      variation = variation' ∧ version = version'

theorem makeSummaryKey_eq {event : Json} {keytext : String}
    (h : makeSummaryKey event = .ok keytext) :
    keytext = summaryKeyText (eventTriple event).variation (eventTriple event).version := by
  obtain ⟨variation, hvariation, h⟩ := Checked.bind_eq_ok.mp h
  obtain ⟨version, hversion, h⟩ := Checked.bind_eq_ok.mp h
  cases h
  rw [addNumberTo_eq hversion, addNumberTo_eq hvariation]
  rfl

structure FlagSummary.Keyed (good : Rat → Prop) (summary : FlagSummary) : Prop where
  texts : (summary.counters.map Prod.fst).Nodup
  fields : ∀ counter ∈ summary.counters,
    counter.1 = summaryKeyText (asNumber counter.2.variation) (asNumber counter.2.version)
  numbers : ∀ counter ∈ summary.counters,
    NumbersWithin good (asNumber counter.2.variation) (asNumber counter.2.version)

structure EventProcessor.Keyed (good : Rat → Prop) (processor : EventProcessor) : Prop where
  flags : (processor.summaryCounters.map Prod.fst).Nodup
  summaries : ∀ flag ∈ processor.summaryCounters, flag.2.Keyed good

variable {event : Json} {flagKey keytext : String} {unknown : Bool} {summary : FlagSummary}

theorem FlagSummary.Keyed.counted (h : summary.Keyed good) (hgood : (eventTriple event).Within good)
    (htext : keytext = summaryKeyText (eventTriple event).variation (eventTriple event).version) :
    (FlagSummary.counted event keytext unknown (some summary)).Keyed good := by
  obtain ⟨hvariation, hversion⟩ := fields_counted_none event unknown
  refine ⟨nodup_alterEntry h.texts, fun counter hcounter => ?_, fun counter hcounter => ?_⟩
  · obtain hcounter | rfl | ⟨entry, hentry, rfl⟩ := mem_alterEntry hcounter
    · exact h.fields counter hcounter
    · rw [hvariation, hversion, htext]
    · exact h.fields (keytext, entry) hentry
  · obtain hcounter | rfl | ⟨entry, hentry, rfl⟩ := mem_alterEntry hcounter
    · exact h.numbers counter hcounter
    · rw [hvariation, hversion]
      exact hgood
    · exact h.numbers (keytext, entry) hentry

theorem FlagSummary.keyed_empty (default : Option Json) : FlagSummary.Keyed good ⟨default, []⟩ :=
  ⟨List.nodup_nil, nofun, nofun⟩

theorem FlagSummary.tally_counted (hdistinct : KeysDistinct good) (h : summary.Keyed good)
    (hgood : (eventTriple event).Within good) (hkey : (eventTriple event).flagKey = flagKey)
    (htext : keytext = summaryKeyText (eventTriple event).variation (eventTriple event).version)
    (triple : SummaryTriple) :
    tally triple ((FlagSummary.counted event keytext unknown (some summary)).listing flagKey) =
      tally triple (summary.listing flagKey) + if eventTriple event = triple then 1 else 0 := by
  rw [FlagSummary.listing, FlagSummary.listing, tally_map, tally_map]
  refine sum_alterEntry ?_ ?_
  · obtain ⟨hvariation, hversion⟩ := fields_counted_none event unknown
    have htriple : (SummaryEntry.counted event unknown none).triple flagKey = eventTriple event := by
      rw [SummaryEntry.triple, hvariation, hversion, ← hkey]
    simp only [htriple]
    simp [SummaryEntry.counted]
  · intro entry hentry
    obtain ⟨hvariation, hversion⟩ := hdistinct _ _ _ _ hgood (h.numbers _ hentry)
      (htext.symm.trans (h.fields _ hentry))
    have htriple : entry.triple flagKey = eventTriple event := by
      rw [SummaryEntry.triple, ← hvariation, ← hversion, ← hkey]
    have hcounted : (SummaryEntry.counted event unknown (some entry)).triple flagKey =
        eventTriple event := htriple
    simp only [htriple, hcounted]
    split_ifs
    · simp [SummaryEntry.counted]
    · simp

theorem FlagSummary.tally_counted_none (hdistinct : KeysDistinct good)
    (hgood : (eventTriple event).Within good) (hkey : (eventTriple event).flagKey = flagKey)
    (htext : keytext = summaryKeyText (eventTriple event).variation (eventTriple event).version)
    (triple : SummaryTriple) :
    tally triple ((FlagSummary.counted event keytext unknown none).listing flagKey) =
      if eventTriple event = triple then 1 else 0 := by
  let empty : FlagSummary := ⟨Json.meaningful (event.objectLookup "default"), []⟩
  have hcounted : tally triple
      ((FlagSummary.counted event keytext unknown (some empty)).listing flagKey) =
        tally triple (empty.listing flagKey) + if eventTriple event = triple then 1 else 0 :=
    FlagSummary.tally_counted hdistinct (FlagSummary.keyed_empty _) hgood hkey htext triple
  have hempty : tally triple (empty.listing flagKey) = 0 := rfl
  rw [hempty, zero_add] at hcounted
  exact hcounted

def EventProcessor.Counts (good : Rat → Prop) (triples : List SummaryTriple)
    (processor processor' : EventProcessor) : Prop :=
  (∀ triple ∈ triples, triple.Within good) → processor.Keyed good → processor'.Keyed good ∧
    ∀ triple, tally triple processor'.listing =
      tally triple processor.listing + (triples.count triple : Rat)

namespace EventProcessor

variable {processor processor' processor'' : EventProcessor} {triples triples' : List SummaryTriple}

theorem counts_of_eq (h : processor'.summaryCounters = processor.summaryCounters) :
    Counts good [] processor processor' := by
  intro _ hkeyed
  refine ⟨⟨by rw [h]; exact hkeyed.flags, by rw [h]; exact hkeyed.summaries⟩, fun triple => ?_⟩
  simp [listing, h]

theorem Counts.append (h : Counts good triples processor processor')
    (h' : Counts good triples' processor' processor'') :
    Counts good (triples ++ triples') processor processor'' := by
  intro hgood hkeyed
  obtain ⟨hkeyed', htally⟩ := h (fun triple hmem => hgood triple (List.mem_append_left _ hmem)) hkeyed
  obtain ⟨hkeyed'', htally'⟩ :=
    h' (fun triple hmem => hgood triple (List.mem_append_right _ hmem)) hkeyed'
  refine ⟨hkeyed'', fun triple => ?_⟩
  rw [htally' triple, htally triple, List.count_append, Nat.cast_add, add_assoc]

theorem counts_summarized (hdistinct : KeysDistinct good) (hkey : eventKey event = .ok flagKey)
    (htext : makeSummaryKey event = .ok keytext)
    (h : processor'.summaryCounters =
      alterEntry flagKey (FlagSummary.counted event keytext unknown) processor.summaryCounters) :
    Counts good [eventTriple event] processor processor' := by
  intro hgood hkeyed
  have hgood := hgood _ (List.mem_singleton_self _)
  have htext := makeSummaryKey_eq htext
  have hkey := eventKey_eq hkey
  refine ⟨⟨?_, ?_⟩, fun triple => ?_⟩
  · rw [h]
    exact nodup_alterEntry hkeyed.flags
  · rw [h]
    intro flag hflag
    obtain hflag | rfl | ⟨summary, hsummary, rfl⟩ := mem_alterEntry hflag
    · exact hkeyed.summaries flag hflag
    · exact (FlagSummary.keyed_empty _).counted hgood htext
    · exact (hkeyed.summaries _ hsummary).counted hgood htext
  · have hcount : (([eventTriple event].count triple : ℕ) : Rat) =
        if eventTriple event = triple then 1 else 0 := by
      rw [List.count_singleton]
      simp
    rw [listing, listing, h, tally_flatMap, tally_flatMap, hcount]
    refine sum_alterEntry ?_ ?_
    · exact FlagSummary.tally_counted_none hdistinct hgood hkey htext triple
    · intro summary hsummary
      exact FlagSummary.tally_counted hdistinct (hkeyed.summaries _ hsummary) hgood hkey htext triple

variable {σ : Type}

theorem summarizeEvent_counts (hdistinct : KeysDistinct good) (w : World σ) (event : Json)
    (unknown : Bool) (s : σ) :
    Run.Ensures (summarizeEvent w event unknown processor) s fun processor' _ =>
      Counts good [eventTriple event] processor processor' := by
  refine Run.ensures_lift_bind fun flagKey hkey => ?_
  refine Run.ensures_lift_bind fun keytext htext => ?_
  refine Run.ensures_bind fun summaryStart t => ?_
  exact Run.ensures_pure (counts_summarized hdistinct hkey htext rfl)

theorem summarizeEvents_counts (hdistinct : KeysDistinct good) (w : World σ) (events : List Json)
    (s : σ) :
    Run.Ensures (summarizeEvents w events processor) s fun processor' _ =>
      Counts good (events.map eventTriple) processor processor' := by
  induction events generalizing processor s with
  | nil => exact Run.ensures_pure (counts_of_eq rfl)
  | cons event events ih =>
      refine (summarizeEvent_counts hdistinct w event false s).bind fun middle t hmiddle => ?_
      intro processor' u hrest
      exact hmiddle.append (ih t processor' u hrest)

theorem recordSubEvents_counts (hdistinct : KeysDistinct good) (client : Client σ)
    (result : EvaluationResult) (now : Rat) (s : σ) :
    Run.Ensures (recordSubEvents client result now processor) s fun processor' _ =>
      Counts good ((result.subEvents.getD []).map eventTriple) processor processor' := by
  rw [recordSubEvents]
  cases result.subEvents with
  | none => exact Run.ensures_pure (counts_of_eq rfl)
  | some subEvents =>
      refine (summarizeEvents_counts hdistinct client.world subEvents s).bind fun middle t hmiddle => ?_
      refine Run.ensures_lift fun processor' hqueued => ?_
      have hframe := summaryCounters_possiblyQueueEvents _ _ _ _ processor' hqueued
      simpa using hmiddle.append (counts_of_eq hframe)

theorem queueFeatureEvent_counts (client : Client σ) (result : EvaluationResult) (now : Rat)
    (featureEvent : Json) :
    Checked.Ensures (queueFeatureEvent client result now featureEvent processor) fun processor' =>
      Counts good [] processor processor' := by
  rw [queueFeatureEvent]
  cases result.flag with
  | none => exact Checked.ensures_pure (counts_of_eq rfl)
  | some flag =>
      intro processor' hqueued
      exact counts_of_eq (summaryCounters_possiblyQueueEvent _ _ _ _ processor' hqueued)

theorem recordEvaluation_counts (hdistinct : KeysDistinct good) (client : Client σ)
    (result : EvaluationResult) (now : Rat) (featureEvent : Json) (s : σ) :
    Run.Ensures (recordEvaluation client result now featureEvent processor) s fun processor' _ =>
      Counts good (eventTriple featureEvent :: (result.subEvents.getD []).map eventTriple) processor
        processor' := by
  refine (summaryCounters_maybeMakeIndexEvent client.world result.user now s).bind
    fun indexed t hindexed => ?_
  refine (summarizeEvent_counts hdistinct client.world featureEvent _ t).bind
    fun summarized u hsummarized => ?_
  refine Run.ensures_lift_bind fun queued hqueued => ?_
  have hmain : Counts good [eventTriple featureEvent] processor queued := by
    have hindex : Counts good [] processor indexed.2 := counts_of_eq hindexed
    have hadded : Counts good [] summarized (addIndexEvent client.config indexed.1 summarized) :=
      counts_of_eq (summaryCounters_addIndexEvent indexed.1)
    have hqueued : Counts good [] _ queued :=
      queueFeatureEvent_counts client result now featureEvent queued hqueued
    exact ((hindex.append hsummarized).append hadded).append hqueued
  intro processor' v hsub
  exact hmain.append (recordSubEvents_counts hdistinct client result now u processor' v hsub)

theorem processEvaluation_counts (hdistinct : KeysDistinct good) (client : Client σ)
    (result : EvaluationResult) (s : σ) :
    Run.Ensures (processEvaluation client result processor) s fun answer _ =>
      Counts good (if answer.1 then result.triples else []) processor answer.2 := by
  refine Run.ensures_ask_bind.mpr ?_
  refine Run.ensures_lift_bind fun event hevent => ?_
  cases event with
  | none => exact Run.ensures_pure (counts_of_eq rfl)
  | some featureEvent =>
      refine (recordEvaluation_counts hdistinct client result _ featureEvent _).bind
        fun recorded t hrecorded => ?_
      have htriple := (newFeatureEvent_isFeatureEvent hevent).eventTriple
      rw [htriple] at hrecorded
      exact Run.ensures_pure hrecorded

end EventProcessor

end Keys

end ServerSdk
