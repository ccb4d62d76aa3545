import ServerSdk.Evaluate.Attempts
import ServerSdk.Evaluate.Failures
import ServerSdk.Events.Decision
import ServerSdk.Variations.Variation

namespace ServerSdk

open Program

theorem reasonToJSON_malformed (details : Details) :
    (reasonToJSON (details.setError .malformedFlag)).isSome := rfl

theorem reasonToJSON_isSome {details : Details} (hunknown : details.reason ≠ .unknown)
    (herror : details.reason ≠ .error) : (reasonToJSON details).isSome := by
  obtain ⟨index, has, reason, extra⟩ := details
  cases reason with
  | unknown => exact absurd rfl hunknown
  | error => exact absurd rfl herror
  | off => cases extra <;> rfl
  | prerequisiteFailed => cases extra <;> rfl
  | targetMatch => cases extra <;> rfl
  | ruleMatch => cases extra <;> rfl
  | fallthrough => cases extra <;> rfl

section Reasons

variable {flag : Json} {out : Outputs} {r : Evaluation}

theorem addValueAs_reason {status : EvalStatus} {index : Option Json}
    (hobj : flag.getType = .object) (hunknown : out.details.reason ≠ .unknown)
    (herror : out.details.reason ≠ .error) (h : addValueAs status flag index out = .ok r)
    (hok : isEvalError r.1 = false) : (reasonToJSON r.2.details).isSome := by
  rw [addValueAs_of_object hobj] at h
  cases h
  cases hfound : valueAt flag index with
  | none =>
      rw [hfound] at hok
      cases hok
  | some p => exact reasonToJSON_isSome hunknown herror

theorem evaluateOff_reason (hobj : flag.getType = .object) (h : evaluateOff flag out = .ok r)
    (hok : isEvalError r.1 = false) : (reasonToJSON r.2.details).isSome := by
  have hoff : (reasonToJSON (out.setReason .off).details).isSome :=
    reasonToJSON_isSome (by simp [Outputs.setReason]) (by simp [Outputs.setReason])
  simp only [evaluateOff] at h
  split at h
  · cases h
    exact hoff
  · cases h
    exact hoff
  · exact addValueAs_reason hobj (by simp [Outputs.setReason]) (by simp [Outputs.setReason]) h hok

variable [Externals] {user : User}

theorem serveRule_reason {rule : Json} {n : Nat} (hobj : flag.getType = .object)
    (hrule : rule.getType = .object) (h : serveRule flag rule n user out = .ok r)
    (hok : isEvalError r.1 = false) : (reasonToJSON r.2.details).isSome := by
  cases ruleServed hobj hrule h with
  | index => cases hok
  | value => cases hok
  | id => cases hok
  | served => rfl

theorem evaluateFallthrough_reason (hobj : flag.getType = .object)
    (h : evaluateFallthrough flag user out = .ok r) (hok : isEvalError r.1 = false) :
    (reasonToJSON r.2.details).isSome := by
  obtain ⟨index, -, hrest⟩ := Checked.bind_eq_ok.mp h
  cases index with
  | none =>
      cases hrest
      cases hok
  | some p =>
      exact addValueAs_reason hobj (by simp [Outputs.setReason, Outputs.setExtra])
        (by simp [Outputs.setReason, Outputs.setExtra]) hrest hok

theorem evaluate_reason {σ : Type} {client : Client σ} {fuel : ℕ} {s t : σ}
    (h : evaluate client user fuel flag freshOutputs s = .ok (r, t))
    (hok : isEvalError r.1 = false) : (reasonToJSON r.2.details).isSome := by
  have hexit := evaluateWith_exit h
  cases hexit with
  | malformed _ => cases hok
  | off hobj _ hr => exact evaluateOff_reason hobj hr hok
  | prerequisiteError _ _ _ herr =>
      rw [hok] at herr
      cases herr
  | prerequisiteFailed hobj _ _ _ hr =>
      exact addValueAs_reason hobj (by simp [Outputs.setReason, Outputs.setExtra])
        (by simp [Outputs.setReason, Outputs.setExtra]) hr hok
  | targeting hobj _ _ _ hexit =>
      cases hexit with
      | failed hfailure =>
          have herr := hfailure.error
          rw [hok] at herr
          cases herr
      | target hr =>
          exact addValueAs_reason hobj (by simp [Outputs.setReason]) (by simp [Outputs.setReason]) hr
            hok
      | rule _ _ _ hfirst hr => exact serveRule_reason hobj hfirst.object hr hok
      | fallthrough _ _ _ _ hr => exact evaluateFallthrough_reason hobj hr hok

end Reasons

section Events

variable [Externals] {σ τ : Type} {client : Client σ} {client' : Client τ} {user : User}
  {c : Content} {Ev : Json → Json → Prop}

omit [Externals] in
theorem prerequisiteEvent_match {f f' g g' : Json} {key : String} {t t' : Rat}
    {sub sub' : Outputs} (hg : Recordable g ↔ Recordable g') (hd : sub.details = sub'.details)
    (hEv : ∀ event event', prerequisiteEvent client user f key g t sub = .ok (some event) →
      prerequisiteEvent client' user f' key g' t' sub' = .ok (some event') → Ev event event') :
    Checked.Alike (Option.Rel Ev) (prerequisiteEvent client user f key g t sub)
      (prerequisiteEvent client' user f' key g' t' sub') := by
  obtain ⟨event, hevent⟩ : Checked.Returns (prerequisiteEvent client user f key g t sub) :=
    newFeatureEvent_returns _ _ _
  obtain ⟨event', hevent'⟩ : Checked.Returns (prerequisiteEvent client' user f' key g' t' sub') :=
    newFeatureEvent_returns _ _ _
  have hsome : event.isSome ↔ Recordable g ∧ (reasonToJSON sub.details).isSome := by
    simpa using newFeatureEvent_isSome_iff hevent
  have hsome' : event'.isSome ↔ Recordable g' ∧ (reasonToJSON sub'.details).isSome := by
    simpa using newFeatureEvent_isSome_iff hevent'
  rw [← hd, ← hg, ← hsome] at hsome'
  rw [hevent, hevent'] at hEv ⊢
  refine .ok ?_
  cases event with
  | none =>
      cases event' with
      | none => exact .none
      | some event' => cases hsome'.mp rfl
  | some event =>
      cases event' with
      | none => cases hsome'.mpr rfl
      | some event' => exact .some (hEv event event' rfl rfl)

omit [Externals] in
theorem prerequisiteEvent_summarizable {f g event : Json} {key : String} {t : Rat} {sub : Outputs}
    (h : prerequisiteEvent client user f key g t sub = .ok (some event)) : Summarizable event :=
  (newFeatureEvent_isFeatureEvent h).summarizable

theorem evaluate_events {P : Json → Prop} (hw : Serves client.world c)
    (hP : ∀ f g key t sub event,
      prerequisiteEvent client user f key g t sub = .ok (some event) → P event)
    {fuel : ℕ} {flag : Json} {s t : σ} {r : Evaluation}
    (h : evaluate client user fuel flag freshOutputs s = .ok (r, t)) :
    ∀ event ∈ r.2.events.getD [], P event := by
  have hevents : EventsMatch (fun event _ => P event) client client user c c flag flag := by
    intro f f' key g g' t t' sub sub' hget hget' _ _ _ hsub
    have hgg : g = g' := Option.some.inj (hget.symm.trans hget')
    refine prerequisiteEvent_match (by rw [hgg]) hsub.details ?_
    intro event _ hevent _
    exact hP f g key t sub event hevent
  have hsim := evaluate_attempts hw hw (.refl c) hevents (.refl flag) fuel s s trivial
  rw [h] at hsim
  have hforall := forall₂_getD hsim.1.2.events
  exact fun event hevent => List.forall₂_same.mp hforall event hevent

theorem evaluate_summarizable (hw : Serves client.world c) {fuel : ℕ} {flag : Json} {s t : σ}
    {r : Evaluation} (h : evaluate client user fuel flag freshOutputs s = .ok (r, t)) :
    ∀ event ∈ r.2.events.getD [], Summarizable event :=
  evaluate_events hw (fun _ _ _ _ _ _ hevent => prerequisiteEvent_summarizable hevent) h

end Events

def reportedDetails (r : Evaluation) : Details :=
  if r.1 = .schema then r.2.details.setError .malformedFlag else r.2.details

def reportedEvents (r : Evaluation) : Option (List Json) :=
  if r.1 = .schema then none else r.2.events

theorem queueable_iff {call : VariationCall} {flag : Json} {r : Evaluation} :
    Queueable (resultOf call (some flag) (reportedDetails r) (reportedEvents r) r.2.value) ↔
      DateFits flag ∧ ∀ event ∈ (reportedEvents r).getD [], DateFits event := by
  constructor
  · rintro ⟨hflag, hsub⟩
    exact ⟨hflag flag rfl, hsub⟩
  · rintro ⟨hflag, hsub⟩
    refine ⟨?_, hsub⟩
    rintro f hf
    cases hf
    exact hflag

section Settle

variable [Externals] {σ : Type} {client : Client σ} {user : User} {c : Content} {fuel : ℕ}
  {flag : Json} {r : Evaluation} {call : VariationCall} {s t : σ}

theorem settleEvaluation_of_ne_mem (h : r.1 ≠ .mem) (flag : Json) (processor : EventProcessor) :
    settleEvaluation client call flag processor r =
      recordAndChoose client call (some flag) (reportedDetails r) (reportedEvents r) r.2.value
        processor := by
  obtain ⟨status, out⟩ := r
  cases status with
  | mem => exact absurd rfl h
  | schema => rfl
  | store => rfl
  | matched => rfl
  | miss => rfl

theorem reportedEvents_summarizable (hw : Serves client.world c)
    (heval : evaluate client user fuel flag freshOutputs s = .ok (r, t)) :
    ∀ event ∈ (reportedEvents r).getD [], Summarizable event := by
  intro event hevent
  rw [reportedEvents] at hevent
  split_ifs at hevent
  · cases hevent
  · exact evaluate_summarizable hw heval event hevent

theorem recorded_iff (heval : evaluate client user fuel flag freshOutputs s = .ok (r, t))
    (hmem : r.1 ≠ .mem) (hstore : r.1 ≠ .store) :
    Recorded (resultOf call (some flag) (reportedDetails r) (reportedEvents r) r.2.value) ↔
      Recordable flag := by
  have hreason : (reasonToJSON (reportedDetails r)).isSome := by
    rw [reportedDetails]
    split_ifs with hschema
    · exact reasonToJSON_malformed _
    · refine evaluate_reason heval ?_
      cases hstatus : r.1 with
      | mem => exact absurd hstatus hmem
      | schema => exact absurd hstatus hschema
      | store => exact absurd hstatus hstore
      | matched => rfl
      | miss => rfl
  constructor
  · rintro ⟨h, -⟩
    exact h flag rfl
  · intro h
    refine ⟨?_, hreason⟩
    rintro f hf
    cases hf
    exact h

end Settle

structure Found {σ : Type} (client : Client σ) (key : String) (flag : Json) (s u : σ) : Prop where
  initialized : (client.world.storeInitialized s).1 = true
  found : client.world.storeGet .flag key (client.world.storeInitialized s).2 = (some (some flag), u)

theorem typedVariation_found [Externals] {σ α : Type} {client : Client σ} {fuel : ℕ} {flag : Json}
    {request : Request α} {of : Evaluatee} {processor : EventProcessor} {s t u : σ} {r : Evaluation}
    (hfound : Found client of.key flag s u)
    (heval : evaluate client of.user fuel flag freshOutputs u = .ok (r, t)) :
    typedVariation client fuel request of processor s =
      (settleEvaluation client (request.call of) flag processor r >>= fun v =>
        pure ⟨request.read v.served, v.details, v.processor⟩) t := by
  have hget : client.world.storeGet .flag (request.call of).key (client.world.storeInitialized s).2 =
      (some (some flag), u) := hfound.found
  have hvariation : variation client fuel (request.call of) processor s =
      settleEvaluation client (request.call of) flag processor r t := by
    refine variation_found hfound.initialized (by rw [hget]) ?_ processor
    rw [hget]
    exact heval
  rw [typedVariation, Run.bind_run, Run.bind_run, hvariation]

end ServerSdk
