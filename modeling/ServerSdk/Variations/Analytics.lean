import ServerSdk.Variations.Outcome

namespace ServerSdk

open Program

def VersionTyped (flag : Json) : Prop := (typedIfPresent flag "version" .number).isSome

structure AnalyticsTyped (flag : Json) : Prop where
  debugEventsUntilDate : (typedIfPresent flag "debugEventsUntilDate" .number).isSome
  trackEvents : (typedIfPresent flag "trackEvents" .bool).isSome
  trackEventsFallthrough : (typedIfPresent flag "trackEventsFallthrough" .bool).isSome

theorem recordable_iff_typed {flag : Json} :
    Recordable flag ↔ VersionTyped flag ∧ AnalyticsTyped flag := by
  constructor
  · rintro ⟨hversion, hdate, htrack, hfallthrough⟩
    exact ⟨hversion, hdate, htrack, hfallthrough⟩
  · rintro ⟨hversion, hdate, htrack, hfallthrough⟩
    exact ⟨hversion, hdate, htrack, hfallthrough⟩

theorem SameFlag.versionTyped {flag flag' : Json} (h : SameFlag flag flag') :
    VersionTyped flag ↔ VersionTyped flag' := by
  rw [VersionTyped, VersionTyped, typedIfPresent, typedIfPresent, h.lookup "version" (by decide)]

theorem isEvalError_of_ne {status : EvalStatus} (hmem : status ≠ .mem) (hschema : status ≠ .schema)
    (hstore : status ≠ .store) : isEvalError status = false := by
  cases status with
  | mem => exact absurd rfl hmem
  | schema => exact absurd rfl hschema
  | store => exact absurd rfl hstore
  | matched => rfl
  | miss => rfl

structure SameResult (v v' : VariationResult) : Prop where
  served : v.served = v'.served
  details : v.details = v'.details

def Concur {σ τ : Type} (x : Except Halt (VariationResult × σ))
    (y : Except Halt (VariationResult × τ)) : Prop :=
  (∃ e e', x = .error e ∧ y = .error e') ∨
    ∃ v s v' t, x = .ok (v, s) ∧ y = .ok (v', t) ∧ SameResult v v'

theorem chooseValue_same (checkType : JsonType → Bool) (details : Details) (value : Option Json)
    (processor processor' : EventProcessor) :
    SameResult (chooseValue checkType details value processor)
      (chooseValue checkType details value processor') := by
  cases value with
  | none => exact ⟨rfl, rfl⟩
  | some v =>
      cases hcheck : checkType v.getType with
      | true => cases v <;> simp [chooseValue, hcheck] <;> exact ⟨rfl, rfl⟩
      | false => cases v <;> simp [chooseValue, hcheck] <;> exact ⟨rfl, rfl⟩

section Recording

variable [Externals] {σ τ : Type}

structure Inert (client : Client σ) (user : User) (c : Content) (fuel : ℕ) (flag : Json) :
    Prop where
  prerequisites : ∀ g, Attempted client user c flag g → AnalyticsTyped g
  recorded : client.config.sendEvents = true →
    ∀ r, Run.Yields (evaluate client user fuel flag freshOutputs) r → r.1 ≠ .mem →
      VersionTyped flag → AnalyticsTyped flag ∧ DateFits flag ∧
        (isEvalError r.1 = false → ∀ g, Attempted client user c flag g → DateFits g)

structure Undisturbed (client : Client σ) (client' : Client τ) (user : User) (c c' : Content)
    (fuel : ℕ) (key : String) : Prop where
  first : ∀ flag, c.get .flag key = some flag → Inert client user c fuel flag
  second : ∀ flag, c'.get .flag key = some flag → Inert client' user c' fuel flag
  version : client.config.sendEvents ≠ client'.config.sendEvents →
    ∀ flag, c.get .flag key = some flag → ∀ r,
      Run.Yields (evaluate client user fuel flag freshOutputs) r → r.1 ≠ .mem → VersionTyped flag

def Dated (client : Client σ) (user : User) (c : Content) (flag event : Json) : Prop :=
  ∃ g, Attempted client user c flag g ∧ (DateFits g → DateFits event)

def BothDated (client : Client σ) (client' : Client τ) (user : User) (c c' : Content)
    (flag flag' event event' : Json) : Prop :=
  Dated client user c flag event ∧ Dated client' user c' flag' event'

variable {client : Client σ} {client' : Client τ} {user : User} {c c' : Content} {fuel : ℕ}
  {flag flag' : Json}

theorem prerequisiteEvent_dated {f g event : Json} {key : String} {t : Rat} {sub : Outputs}
    (hg : Attempted client user c flag g)
    (h : prerequisiteEvent client user f key g t sub = .ok (some event)) :
    Dated client user c flag event := by
  have hrecordable : Recordable g := ((newFeatureEvent_isSome_iff h).mp rfl).1 g rfl
  have hdates := (newFeatureEvent_isFeatureEvent h).dateFits_iff rfl hrecordable
  exact ⟨g, hg, hdates.mpr⟩

theorem eventsMatch_of_typed
    (htyped : ∀ g, Attempted client user c flag g → AnalyticsTyped g)
    (htyped' : ∀ g, Attempted client' user c' flag' g → AnalyticsTyped g) :
    EventsMatch (BothDated client client' user c c' flag flag') client client' user c c' flag
      flag' := by
  intro f f' key g g' t t' sub sub' _ _ hg hg' hgg hsub
  have hrecordable : Recordable g ↔ Recordable g' := by
    rw [recordable_iff_typed, recordable_iff_typed, hgg.versionTyped,
      and_iff_left (htyped g hg), and_iff_left (htyped' g' hg')]
  refine prerequisiteEvent_match hrecordable hsub.details ?_
  intro event event' hevent hevent'
  exact ⟨prerequisiteEvent_dated hg hevent, prerequisiteEvent_dated hg' hevent'⟩

variable {call : VariationCall} {s t : σ} {r : Evaluation}

def QueuesEvents (client : Client σ) (flag : Json) (r : Evaluation) : Prop :=
  client.config.sendEvents = true →
    Recordable flag ∧ DateFits flag ∧ ∀ event ∈ (reportedEvents r).getD [], DateFits event

theorem Inert.queueable (h : Inert client user c fuel flag) (hw : Serves client.world c)
    (heval : evaluate client user fuel flag freshOutputs s = .ok (r, t)) (hmem : r.1 ≠ .mem)
    (hversion : VersionTyped flag)
    (hdated : ∀ event ∈ r.2.events.getD [], Dated client user c flag event) :
    QueuesEvents client flag r := by
  intro hsend
  obtain ⟨htyped, hfits, hsub⟩ := h.recorded hsend r ⟨s, t, heval⟩ hmem hversion
  refine ⟨recordable_iff_typed.mpr ⟨hversion, htyped⟩, hfits, ?_⟩
  intro event hevent
  rw [reportedEvents] at hevent
  split_ifs at hevent with hschema
  · cases hevent
  · obtain ⟨g, hg, hdate⟩ := hdated event hevent
    have hok := isEvalError_of_ne hmem hschema (evaluate_answered hw heval)
    exact hdate (hsub hok g hg)

theorem settle_recorded (hw : Serves client.world c)
    (heval : evaluate client user fuel flag freshOutputs s = .ok (r, t)) (hmem : r.1 ≠ .mem)
    (h : QueuesEvents client flag r) (call : VariationCall) (processor : EventProcessor) (u : σ) :
    ∃ next z, settleEvaluation client call flag processor r u =
      .ok (chooseValue call.checkType (reportedDetails r) r.2.value next, z) := by
  rw [settleEvaluation_of_ne_mem hmem]
  cases hsend : client.config.sendEvents with
  | false =>
      rw [recordAndChoose_silent hsend]
      exact ⟨processor, u, rfl⟩
  | true =>
      obtain ⟨hrecordable, hfits⟩ := h hsend
      have hrecorded : Recorded (resultOf call (some flag) (reportedDetails r) (reportedEvents r)
          r.2.value) := (recorded_iff heval hmem (evaluate_answered hw heval)).mpr hrecordable
      exact recordAndChoose_recorded hsend hrecorded (reportedEvents_summarizable hw heval)
        (queueable_iff.mpr hfits) processor u

theorem settle_unrecorded (hw : Serves client.world c)
    (heval : evaluate client user fuel flag freshOutputs s = .ok (r, t)) (hmem : r.1 ≠ .mem)
    (hsend : client.config.sendEvents = true) (hrecordable : ¬ Recordable flag)
    (call : VariationCall) (processor : EventProcessor) (u : σ) :
    ∃ z, settleEvaluation client call flag processor r u =
      .ok (⟨.fallback, reportedDetails r, processor⟩, z) := by
  have hunrecorded : ¬ Recorded (resultOf call (some flag) (reportedDetails r) (reportedEvents r)
      r.2.value) := by
    rw [recorded_iff heval hmem (evaluate_answered hw heval)]
    exact hrecordable
  rw [settleEvaluation_of_ne_mem hmem]
  exact ⟨_, recordAndChoose_unrecorded hsend hunrecorded processor u⟩

variable {s' t' : τ} {r' : Evaluation}

theorem dated_of_pairs {xs ys : List Json}
    (h : List.Forall₂ (BothDated client client' user c c' flag flag') xs ys) :
    (∀ event ∈ xs, Dated client user c flag event) ∧
      ∀ event ∈ ys, Dated client' user c' flag' event := by
  induction h with
  | nil => simp
  | cons hboth _ ih =>
      rw [List.forall_mem_cons, List.forall_mem_cons]
      exact ⟨⟨hboth.1, ih.1⟩, hboth.2, ih.2⟩

theorem settle_concur_recorded (hw : Serves client.world c) (hw' : Serves client'.world c')
    (heval : evaluate client user fuel flag freshOutputs s = .ok (r, t))
    (heval' : evaluate client' user fuel flag' freshOutputs s' = .ok (r', t'))
    (hmem : r.1 ≠ .mem) (hmem' : r'.1 ≠ .mem) (h : QueuesEvents client flag r)
    (h' : QueuesEvents client' flag' r') (hdetails : reportedDetails r = reportedDetails r')
    (hvalue : r.2.value = r'.2.value) (call : VariationCall)
    (processor processor' : EventProcessor) :
    Concur (settleEvaluation client call flag processor r t)
      (settleEvaluation client' call flag' processor' r' t') := by
  obtain ⟨next, z, hz⟩ := settle_recorded hw heval hmem h call processor t
  obtain ⟨next', z', hz'⟩ := settle_recorded hw' heval' hmem' h' call processor' t'
  rw [← hdetails, ← hvalue] at hz'
  exact .inr ⟨_, z, _, z', hz, hz', chooseValue_same _ _ _ _ _⟩

theorem settle_concur_mem {out out' : Outputs} {Q : Json → Json → Prop}
    (hdetails : out.details = out'.details) (hevents : Option.Rel (List.Forall₂ Q) out.events out'.events)
    (call : VariationCall) (processor processor' : EventProcessor) :
    Concur (settleEvaluation client call flag processor (.mem, out) t)
      (settleEvaluation client' call flag' processor' (.mem, out') t') := by
  rw [settleEvaluation, settleEvaluation, hdetails]
  cases hcase : out.events with
  | none =>
      rw [hcase] at hevents
      cases hcase' : out'.events with
      | none => exact .inr ⟨_, _, _, _, rfl, rfl, rfl, rfl⟩
      | some events =>
          rw [hcase'] at hevents
          cases hevents
  | some events =>
      rw [hcase] at hevents
      cases hcase' : out'.events with
      | none =>
          rw [hcase'] at hevents
          cases hevents
      | some events => exact .inl ⟨_, _, rfl, rfl⟩

theorem settle_concur (hw : Serves client.world c) (hw' : Serves client'.world c')
    (hflag : SameFlag flag flag') (h : Inert client call.user c fuel flag)
    (h' : Inert client' call.user c' fuel flag')
    (hversion : client.config.sendEvents ≠ client'.config.sendEvents → r.1 ≠ .mem →
      VersionTyped flag)
    (heval : evaluate client call.user fuel flag freshOutputs s = .ok (r, t))
    (heval' : evaluate client' call.user fuel flag' freshOutputs s' = .ok (r', t'))
    (hsame : SameEvaluation (BothDated client client' call.user c c' flag flag') r r')
    (processor processor' : EventProcessor) :
    Concur (settleEvaluation client call flag processor r t)
      (settleEvaluation client' call flag' processor' r' t') := by
  obtain ⟨hstatus, hout⟩ := hsame
  have hdetails : reportedDetails r = reportedDetails r' := by
    rw [reportedDetails, reportedDetails, hstatus, show r.2.details = r'.2.details from hout.details]
  by_cases hmem : r.1 = .mem
  · obtain ⟨status, out⟩ := r
    obtain ⟨status', out'⟩ := r'
    cases hstatus
    cases hmem
    exact settle_concur_mem hout.details hout.events call processor processor'
  · have hmem' : r'.1 ≠ .mem := hstatus ▸ hmem
    obtain ⟨hdated, hdated'⟩ := dated_of_pairs (forall₂_getD hout.events)
    by_cases htyped : VersionTyped flag
    · have htyped' : VersionTyped flag' := hflag.versionTyped.mp htyped
      exact settle_concur_recorded hw hw' heval heval' hmem hmem'
        (h.queueable hw heval hmem htyped hdated) (h'.queueable hw' heval' hmem' htyped' hdated')
        hdetails hout.value call processor processor'
    · have hsends : client.config.sendEvents = client'.config.sendEvents := by
        by_contra hne
        exact htyped (hversion hne hmem)
      cases hsend : client.config.sendEvents with
      | false =>
          have hsend' : client'.config.sendEvents = false := hsends.symm.trans hsend
          exact settle_concur_recorded hw hw' heval heval' hmem hmem' (by simp [QueuesEvents, hsend])
            (by simp [QueuesEvents, hsend']) hdetails hout.value call processor processor'
      | true =>
          have hsend' : client'.config.sendEvents = true := hsends.symm.trans hsend
          have hnot : ¬ Recordable flag := fun hr => htyped (recordable_iff_typed.mp hr).1
          have hnot' : ¬ Recordable flag' := fun hr =>
            htyped (hflag.versionTyped.mpr (recordable_iff_typed.mp hr).1)
          obtain ⟨z, hz⟩ := settle_unrecorded hw heval hmem hsend hnot call processor t
          obtain ⟨z', hz'⟩ := settle_unrecorded hw' heval' hmem' hsend' hnot' call processor' t'
          exact .inr ⟨_, z, _, z', hz, hz', rfl, hdetails⟩

theorem evaluate_concur (hw : Serves client.world c) (hw' : Serves client'.world c')
    (hsame : AlikeContent c c') (hflag : SameFlag flag flag')
    (h : Inert client user c fuel flag) (h' : Inert client' user c' fuel flag') (s : σ) (s' : τ) :
    Related Policy.exact AnyState
      (SameEvaluation (BothDated client client' user c c' flag flag'))
      (evaluate client user fuel flag freshOutputs s)
      (evaluate client' user fuel flag' freshOutputs s') :=
  evaluate_attempts hw hw' hsame (eventsMatch_of_typed h.prerequisites h'.prerequisites) hflag fuel
    s s' trivial

theorem recordAndChoose_missing (client : Client σ) (call : VariationCall)
    (processor : EventProcessor) (s : σ) :
    ∃ next z, recordAndChoose client call none (detailsInit.setError .flagNotFound) none none
      processor s = .ok (⟨.fallback, detailsInit.setError .flagNotFound, next⟩, z) := by
  cases hsend : client.config.sendEvents with
  | false =>
      rw [recordAndChoose_silent hsend]
      exact ⟨processor, s, rfl⟩
  | true =>
      have hnone : ∀ P : Json → Prop, ∀ f, (none : Option Json) = some f → P f := by
        intro P f hf
        cases hf
      have hrecorded : Recorded (resultOf call none (detailsInit.setError .flagNotFound) none none) :=
        ⟨hnone _, rfl⟩
      have hqueue : Queueable (resultOf call none (detailsInit.setError .flagNotFound) none none) :=
        ⟨hnone _, fun _ he => by cases he⟩
      exact recordAndChoose_recorded hsend hrecorded (fun _ he => by cases he) hqueue processor s

theorem variation_unaffected_by_analytics (hw : Serves client.world c)
    (hw' : Serves client'.world c') (hinit : ∀ s, (client.world.storeInitialized s).1 = true)
    (hinit' : ∀ s, (client'.world.storeInitialized s).1 = true) (hsame : AlikeContent c c')
    (hquiet : Undisturbed client client' call.user c c' fuel call.key)
    (processor processor' : EventProcessor) (s : σ) (s' : τ) :
    Concur (variation client fuel call processor s) (variation client' fuel call processor' s') := by
  have hget := hw .flag call.key (client.world.storeInitialized s).2
  have hget' := hw' .flag call.key (client'.world.storeInitialized s').2
  rw [variation, variation, Run.ask_bind_run, Run.ask_bind_run, hinit s, hinit' s', if_pos rfl,
    if_pos rfl, storeGet, storeGet, Run.ask_bind_run, Run.ask_bind_run, hget, hget']
  have hrel := hsame.flags call.key
  generalize hfound : c.get .flag call.key = found at hrel
  generalize hfound' : c'.get .flag call.key = found' at hrel
  cases hrel with
  | none =>
      obtain ⟨next, z, hz⟩ := recordAndChoose_missing client call processor
        (client.world.storeGet .flag call.key (client.world.storeInitialized s).2).2
      obtain ⟨next', z', hz'⟩ := recordAndChoose_missing client' call processor'
        (client'.world.storeGet .flag call.key (client'.world.storeInitialized s').2).2
      exact .inr ⟨_, z, _, z', hz, hz', rfl, rfl⟩
  | @some flag flag' hflag =>
      have h := hquiet.first flag hfound
      have h' := hquiet.second flag' hfound'
      have hsim := evaluate_concur hw hw' hsame hflag h h'
        (client.world.storeGet .flag call.key (client.world.storeInitialized s).2).2
        (client'.world.storeGet .flag call.key (client'.world.storeInitialized s').2).2
      simp only [Run.bind_run]
      cases heval : evaluate client call.user fuel flag freshOutputs
          (client.world.storeGet .flag call.key (client.world.storeInitialized s).2).2 with
      | error e =>
          cases heval' : evaluate client' call.user fuel flag' freshOutputs
              (client'.world.storeGet .flag call.key (client'.world.storeInitialized s').2).2 with
          | error e' => exact .inl ⟨e, e', rfl, rfl⟩
          | ok q =>
              rw [heval, heval'] at hsim
              exact hsim.elim
      | ok p =>
          cases heval' : evaluate client' call.user fuel flag' freshOutputs
              (client'.world.storeGet .flag call.key (client'.world.storeInitialized s').2).2 with
          | error e' =>
              rw [heval, heval'] at hsim
              exact hsim.elim
          | ok q =>
              rw [heval, heval'] at hsim
              have hversion := fun hne hmem => hquiet.version hne flag hfound p.1 ⟨_, _, heval⟩ hmem
              exact settle_concur hw hw' hflag h h' hversion heval heval' hsim.1 processor processor'

theorem inert_of_content
    (h : ∀ key g, c.get .flag key = some g → AnalyticsTyped g ∧ DateFits g) {key : String}
    (hflag : c.get .flag key = some flag) : Inert client user c fuel flag := by
  refine ⟨?_, ?_⟩
  · intro g hg
    obtain ⟨f, k, n, -, -, hget⟩ := hg.reached
    exact (h k g hget).1
  · intro _ r _ _ _
    refine ⟨(h key flag hflag).1, (h key flag hflag).2, ?_⟩
    intro _ g hg
    obtain ⟨f, k, n, -, -, hget⟩ := hg.reached
    exact (h k g hget).2

end Recording

def trackedFlag (track : Json) : Json := .object (childFlag.iterFields ++ [("trackEvents", track)])

def trackedContent (track : Json) : Content :=
  ⟨[("parent", parentFlag), ("child", trackedFlag track)], []⟩

def parentCall : VariationCall := ⟨userNew "u", "parent", .text "none", isText, true⟩

theorem trackedFlag_same (track : Json) : SameFlag childFlag (trackedFlag track) := by
  refine ⟨rfl, ?_, .same none⟩
  intro key hkey
  have hne : key ≠ "trackEvents" := by
    rintro rfl
    exact hkey (by decide)
  change childFlag.iterFields.lookup key =
    (childFlag.iterFields ++ [("trackEvents", track)]).lookup key
  rw [Json.lookup_append_singleton, if_neg hne, Option.or_none]

theorem trackedContent_alike (track : Json) : AlikeContent familyContent (trackedContent track) := by
  refine ⟨?_, fun _ => rfl⟩
  intro key
  by_cases hparent : key = "parent"
  · subst hparent
    exact .some (.refl parentFlag)
  · by_cases hchild : key = "child"
    · subst hchild
      exact .some (trackedFlag_same track)
    · have hnone : ∀ child : Json,
          ([("parent", parentFlag), ("child", child)] : List (String × Json)).lookup key = none := by
        intro child
        rw [List.lookup_cons, beq_false_of_ne hparent, List.lookup_cons, beq_false_of_ne hchild]
        rfl
      have hget : familyContent.get .flag key = none := hnone childFlag
      have hget' : (trackedContent track).get .flag key = none := hnone (trackedFlag track)
      rw [hget, hget']
      exact .none

theorem family_typed {child : Json} (h : AnalyticsTyped child ∧ DateFits child) (key : String)
    (g : Json) (hget : (⟨[("parent", parentFlag), ("child", child)], []⟩ : Content).get .flag key =
      some g) : AnalyticsTyped g ∧ DateFits g := by
  have hmem := mem_flags_of_get hget
  rcases List.mem_cons.mp hmem with hparent | hrest
  · cases hparent
    refine ⟨⟨rfl, rfl, rfl⟩, ?_⟩
    intro j hj
    cases hj
  · rcases List.mem_cons.mp hrest with hchild | hnil
    · cases hchild
      exact h
    · cases hnil

section Fixed

attribute [local instance] literalExternals

theorem tracking_a_prerequisite_unaffecting :
    Concur (variation familyContent.client 2 parentCall (EventProcessor.create configNew 0) ())
      (variation (trackedContent (.bool true)).client 2 parentCall
        (EventProcessor.create configNew 0) ()) := by
  have hchild : AnalyticsTyped childFlag ∧ DateFits childFlag := by
    refine ⟨⟨rfl, rfl, rfl⟩, ?_⟩
    intro j hj
    cases hj
  have htracked : AnalyticsTyped (trackedFlag (.bool true)) ∧ DateFits (trackedFlag (.bool true)) := by
    refine ⟨⟨rfl, rfl, rfl⟩, ?_⟩
    intro j hj
    cases hj
  refine variation_unaffected_by_analytics familyContent.world_serves
    (trackedContent (.bool true)).world_serves (fun _ => rfl) (fun _ => rfl)
    (trackedContent_alike (.bool true)) ⟨?_, ?_, ?_⟩ _ _ () ()
  · intro flag hflag
    exact inert_of_content (family_typed hchild) hflag
  · intro flag hflag
    exact inert_of_content (family_typed htracked) hflag
  · intro hne
    exact absurd rfl hne

theorem mistyped_tracking_of_prerequisite_affects :
    AlikeContent familyContent (trackedContent (.text "x")) ∧
    ¬ Concur
      (variation familyContent.quietClient 2 parentCall (EventProcessor.create configNew 0) ())
      (variation (trackedContent (.text "x")).quietClient 2 parentCall
        (EventProcessor.create configNew 0) ()) := by
  refine ⟨trackedContent_alike _, ?_⟩
  rintro (⟨e, e', hfirst, -⟩ | ⟨v, s, v', t, hfirst, hsecond, hsame⟩)
  · cases hfirst
  · cases hfirst
    cases hsecond
    cases hsame.served

end Fixed

end ServerSdk
