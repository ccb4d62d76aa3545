import ServerSdk.Variations.Outcome

namespace ServerSdk

open Program

def errorKindOf : EvalStatus → Option EvalErrorKind
  | .schema => some .malformedFlag
  | .mem => some .oom
  | .store => some .storeError
  | .matched | .miss => none

structure ReportsError {α : Type} (request : Request α) (status : EvalStatus)
    (result : TypedResult α) : Prop where
  fallback : result.value = request.fallback
  reason : result.details.reason = .error
  kind : ∃ kind, errorKindOf status = some kind ∧ result.details.extra = .errorKind kind

theorem chooseValue_reports_iff {α : Type} {request : Request α}
    (hrequest : TypedRequest α request) (details : Details) (value : Option Json)
    (processor : EventProcessor) :
    ReportsError request .schema
      ⟨request.read (chooseValue request.checkType (details.setError .malformedFlag) value
          processor).served,
        (chooseValue request.checkType (details.setError .malformedFlag) value processor).details,
        (chooseValue request.checkType (details.setError .malformedFlag) value processor).processor⟩ ↔
      ∀ v, value = some v → v = .null ∨
        (request.checkType v.getType = true ∧ request.read (.value v) = request.fallback) := by
  have hfallback : ReportsError request .schema
      ⟨request.read .fallback, details.setError .malformedFlag, processor⟩ :=
    ⟨hrequest.read_fallback, rfl, .malformedFlag, rfl, rfl⟩
  cases value with
  | none =>
      refine ⟨?_, fun _ => hfallback⟩
      intro _ v hv
      cases hv
  | some v =>
      by_cases hnull : v = .null
      · subst hnull
        exact ⟨fun _ w hw => .inl (Option.some.inj hw).symm, fun _ => hfallback⟩
      · have hchoose : chooseValue request.checkType (details.setError .malformedFlag) (some v)
            processor = if request.checkType v.getType
              then ⟨.value v, details.setError .malformedFlag, processor⟩
              else ⟨.fallback, { (details.setError .malformedFlag).setError .wrongType with
                hasVariation := false }, processor⟩ := by
          cases v with
          | null => exact absurd rfl hnull
          | bool b => rfl
          | number n => rfl
          | text x => rfl
          | array items => rfl
          | object fields => rfl
        rw [hchoose]
        simp only [Option.some.injEq, forall_eq', hnull, false_or]
        split_ifs with hcheck
        · simp only [hcheck, true_and]
          exact ⟨fun h => h.fallback, fun h => ⟨h, rfl, .malformedFlag, rfl, rfl⟩⟩
        · constructor
          · intro h
            obtain ⟨kind, hkind, hextra⟩ := h.kind
            cases hkind
            cases hextra
          · rintro ⟨htrue, -⟩
            exact absurd htrue hcheck

section Evaluation

variable [Externals] {σ : Type} {client : Client σ} {user : User} {fuel : Nat} {flag : Json}
  {s t : σ} {out : Outputs}

def MemoryFailure (client : Client σ) (user : User) (fuel : Nat) (flag : Json) (s : σ)
    (events : Option (List Json)) : Prop :=
  flag.getType = .object ∧ (optionalField flag "on" .bool).isTrue = true ∧
    ∃ pre t, checkPrerequisites client user fuel flag none s = .ok (pre, t) ∧
      pre.status = .mem ∧ pre.events = events

theorem MemoryFailure.evaluate {events : Option (List Json)}
    (h : MemoryFailure client user fuel flag s events) :
    ∃ t, evaluate client user fuel flag freshOutputs s =
      .ok ((.mem, { freshOutputs with events := events }), t) := by
  obtain ⟨hobj, hon, pre, t, hpre, hmem, rfl⟩ := h
  refine ⟨t, ?_⟩
  rw [ServerSdk.evaluate, evaluateWith_of_on hobj hon]
  refine (Run.bind_of_ok hpre).trans ?_
  rw [evaluateAfterPrerequisites, hmem]
  rfl

theorem memoryFailure_of_evaluate
    (h : evaluate client user fuel flag freshOutputs s = .ok ((.mem, out), t)) :
    MemoryFailure client user fuel flag s out.events ∧ out.details = detailsInit := by
  obtain ⟨hobj, hon, pre, hpre, hmem, rfl⟩ := evaluateWith_mem h
  exact ⟨⟨hobj, hon, pre, t, hpre, hmem, rfl⟩, rfl⟩

theorem evaluate_store_blank
    (h : evaluate client user fuel flag freshOutputs s = .ok ((.store, out), t)) :
    out.details = detailsInit ∧ out.value = none := by
  generalize hr : (EvalStatus.store, out) = r at h
  have hstatus : r.1 = .store := by rw [← hr]
  have hout : r.2 = out := by rw [← hr]
  rw [← hout]
  have hexit := evaluateWith_exit h
  cases hexit with
  | malformed _ => exact ⟨rfl, rfl⟩
  | off _ _ hoff => exact absurd hstatus (evaluateOff_plain _ hoff).2
  | prerequisiteError _ _ _ _ => exact ⟨rfl, rfl⟩
  | prerequisiteFailed _ _ _ _ hfailed =>
      exact absurd hstatus (addValueAs_plain plain_miss _ _ hfailed).2
  | targeting _ _ _ _ hexit =>
      cases hexit with
      | failed _ => exact ⟨rfl, rfl⟩
      | target htarget => exact absurd hstatus (addValueAs_plain plain_matched _ _ htarget).2
      | rule _ _ _ _ hrule => exact absurd hstatus (serveRule_plain _ _ _ hrule).2
      | fallthrough _ _ _ _ hfall => exact absurd hstatus (evaluateFallthrough_plain _ hfall).2

end Evaluation

section Report

variable [Externals] {σ α : Type}

structure Reportable (client : Client σ) (user : User) (fuel : Nat) (flag : Json)
    (request : Request α) (s : σ) : Prop where
  answered : ¬ LookupFails client user fuel flag s
  unpended : ∀ events, ¬ MemoryFailure client user fuel flag s (some events)
  dated : client.config.sendEvents = true → Recordable flag → ¬ DateFits flag →
    ∃ events, MemoryFailure client user fuel flag s events
  labelled : ∀ v, MislabelledRule client user fuel flag s v → v = .null ∨
    (client.config.sendEvents = true ∧ ¬ Recordable flag) ∨
    (request.checkType v.getType = true ∧ request.read (.value v) = request.fallback)

variable {client : Client σ} {fuel : Nat} {flag : Json} {request : Request α} {of : Evaluatee}
  {processor : EventProcessor} {s t : σ} {out : Outputs}

def Reports (client : Client σ) (request : Request α) (of : Evaluatee) (flag : Json)
    (processor : EventProcessor) (r : Evaluation) (t : σ) : Prop :=
  ∃ v u, settleEvaluation client (request.call of) flag processor r t = .ok (v, u) ∧
    ReportsError request r.1 ⟨request.read v.served, v.details, v.processor⟩

theorem reports_mem_iff (hrequest : TypedRequest α request)
    (heval : evaluate client of.user fuel flag freshOutputs s = .ok ((.mem, out), t)) :
    Reports client request of flag processor (.mem, out) t ↔
      Reportable client of.user fuel flag request s := by
  obtain ⟨hfailure, hdetails⟩ := memoryFailure_of_evaluate heval
  constructor
  · rintro ⟨v, u, hsettle, -⟩
    refine ⟨?_, ?_, fun _ _ _ => ⟨_, hfailure⟩, ?_⟩
    · rw [lookupFails_iff heval]
      simp
    · intro events hpending
      obtain ⟨w, hw⟩ := hpending.evaluate
      rw [heval] at hw
      cases hw
      cases hsettle
    · intro w hrule
      obtain ⟨out', u', heval', -⟩ := hrule.evaluate
      rw [heval] at heval'
      cases heval'
  · intro h
    cases hevents : out.events with
    | some events =>
        rw [hevents] at hfailure
        exact absurd hfailure (h.unpended events)
    | none =>
        refine ⟨⟨.fallback, out.details.setError .oom, processor⟩, t, ?_, ?_⟩
        · rw [settleEvaluation, hevents]
          rfl
        · exact ⟨hrequest.read_fallback, rfl, .oom, rfl, rfl⟩

theorem settleEvaluation_store
    (heval : evaluate client of.user fuel flag freshOutputs s = .ok ((.store, out), t)) :
    ∃ u, settleEvaluation client (request.call of) flag processor (.store, out) t =
      .ok (⟨.fallback, detailsInit, processor⟩, u) := by
  obtain ⟨hdetails, hvalue⟩ := evaluate_store_blank heval
  rw [settleEvaluation_of_ne (by simp) (by simp), hdetails, hvalue]
  cases hsend : client.config.sendEvents with
  | false =>
      rw [recordAndChoose_silent hsend]
      exact ⟨t, rfl⟩
  | true =>
      have hunrecorded : ¬ Recorded (resultOf (request.call of) (some flag) detailsInit out.events
          none) := by
        rintro ⟨-, hreason⟩
        cases hreason
      exact ⟨_, recordAndChoose_unrecorded hsend hunrecorded processor t⟩

theorem reports_store
    (heval : evaluate client of.user fuel flag freshOutputs s = .ok ((.store, out), t)) :
    ¬ Reports client request of flag processor (.store, out) t := by
  obtain ⟨w, hw⟩ := settleEvaluation_store heval
  rintro ⟨v, u, hsettle, hreports⟩
  rw [hw] at hsettle
  cases hsettle
  cases hreports.reason

theorem reportable_schema_iff
    (heval : evaluate client of.user fuel flag freshOutputs s = .ok ((.schema, out), t)) :
    Reportable client of.user fuel flag request s ↔
      (client.config.sendEvents = true → Recordable flag → DateFits flag) ∧
      ∀ v, out.value = some v → v = .null ∨
        (client.config.sendEvents = true ∧ ¬ Recordable flag) ∨
        (request.checkType v.getType = true ∧ request.read (.value v) = request.fallback) := by
  have hmemory : ∀ events, ¬ MemoryFailure client of.user fuel flag s events := by
    intro events hfailure
    obtain ⟨w, hw⟩ := hfailure.evaluate
    rw [heval] at hw
    cases hw
  have hvalue : ∀ v, out.value = some v ↔ MislabelledRule client of.user fuel flag s v := by
    intro v
    constructor
    · exact mislabelledRule_of_value heval rfl
    · intro hrule
      obtain ⟨out', u, heval', hv⟩ := hrule.evaluate
      rw [heval] at heval'
      cases heval'
      exact hv
  constructor
  · rintro ⟨-, -, hdated, hlabelled⟩
    refine ⟨?_, fun v hv => hlabelled v ((hvalue v).mp hv)⟩
    intro hsend hrecordable
    by_contra hfits
    obtain ⟨events, hfailure⟩ := hdated hsend hrecordable hfits
    exact hmemory events hfailure
  · rintro ⟨hdated, hlabelled⟩
    refine ⟨?_, fun events => hmemory _, ?_, fun v hrule => hlabelled v ((hvalue v).mpr hrule)⟩
    · rw [lookupFails_iff heval]
      simp
    · intro hsend hrecordable hfits
      exact absurd (hdated hsend hrecordable) hfits

theorem reports_schema_iff (hrequest : TypedRequest α request)
    (heval : evaluate client of.user fuel flag freshOutputs s = .ok ((.schema, out), t)) :
    Reports client request of flag processor (.schema, out) t ↔
      Reportable client of.user fuel flag request s := by
  have hrecorded : Recorded (resultOf (request.call of) (some flag)
      (out.details.setError .malformedFlag) none out.value) ↔ Recordable flag :=
    recorded_iff heval (by simp) (by simp)
  have hqueue : Queueable (resultOf (request.call of) (some flag)
      (out.details.setError .malformedFlag) none out.value) ↔ DateFits flag := by
    have hiff : Queueable (resultOf (request.call of) (some flag) (reportedDetails (.schema, out))
        (reportedEvents (.schema, out)) out.value) ↔ DateFits flag ∧
        ∀ event ∈ (reportedEvents (.schema, out)).getD [], DateFits event := queueable_iff
    exact hiff.trans (and_iff_left (fun _ he => by cases he))
  have hchoose := chooseValue_reports_iff hrequest out.details out.value
  rw [reportable_schema_iff heval, Reports, settleEvaluation]
  cases hsend : client.config.sendEvents with
  | false =>
      rw [recordAndChoose_silent hsend, Run.pure_run, Run.exists_ok_iff]
      refine (hchoose processor).trans ?_
      simp
  | true =>
      by_cases hrecordable : Recordable flag
      · by_cases hfits : DateFits flag
        · obtain ⟨next, u, hnext⟩ := recordAndChoose_recorded hsend (hrecorded.mpr hrecordable)
            (fun _ he => by cases he) (hqueue.mpr hfits) processor t
          rw [hnext, Run.exists_ok_iff]
          refine (hchoose next).trans ?_
          simp [hrecordable, hfits]
        · refine iff_of_false ?_ (fun h => hfits (h.1 rfl hrecordable))
          rintro ⟨v, u, hsettle, -⟩
          exact hfits (hqueue.mp (recordAndChoose_queueable hsend (hrecorded.mpr hrecordable)
            (fun _ he => by cases he) ⟨v, u, hsettle⟩))
      · rw [recordAndChoose_unrecorded hsend (fun h => hrecordable (hrecorded.mp h)),
          Run.exists_ok_iff]
        refine iff_of_true ⟨hrequest.read_fallback, rfl, .malformedFlag, rfl, rfl⟩ ⟨?_, ?_⟩
        · intro _ h
          exact absurd h hrecordable
        · intro v _
          exact .inr (.inl ⟨rfl, hrecordable⟩)

theorem failed_evaluation_reported_iff (hrequest : TypedRequest α request) {u : σ}
    (hfound : Found client of.key flag s u) {status : EvalStatus}
    (heval : evaluate client of.user fuel flag freshOutputs u = .ok ((status, out), t))
    (herr : isEvalError status = true) :
    (∃ result v, typedVariation client fuel request of processor s = .ok (result, v) ∧
      ReportsError request status result) ↔
    Reportable client of.user fuel flag request u := by
  have hreports : (∃ result v, typedVariation client fuel request of processor s = .ok (result, v) ∧
      ReportsError request status result) ↔
      Reports client request of flag processor (status, out) t := by
    rw [typedVariation_found hfound heval]
    constructor
    · rintro ⟨result, v, hresult, hreported⟩
      obtain ⟨w, z, hsettle, hpure⟩ := Run.bind_eq_ok.mp hresult
      cases hpure
      exact ⟨w, v, hsettle, hreported⟩
    · rintro ⟨w, z, hsettle, hreported⟩
      exact ⟨_, z, Run.bind_of_ok hsettle, hreported⟩
  rw [hreports]
  cases status with
  | mem => exact reports_mem_iff hrequest heval
  | schema => exact reports_schema_iff hrequest heval
  | store =>
      constructor
      · intro h
        exact absurd h (reports_store heval)
      · intro h
        exact absurd ((lookupFails_iff heval).mpr rfl) h.answered
  | matched => cases herr
  | miss => cases herr

end Report

def unservedFlag : Json :=
  .object [("key", .text "a"), ("on", .bool true), ("salt", .text ""),
    ("fallthrough", .object [("variation", .number 1)]), ("variations", .array [.bool true])]

def unservedContent : Content := ⟨[("a", unservedFlag)], []⟩

def severedWorld : World Unit where
  storeInitialized _ := (true, ())
  storeGet _ key _ := (if key = "parent" then some (some parentFlag) else none, ())
  storeAll _ _ := (none, ())
  unixMilliseconds _ := (0, ())
  monotonicMilliseconds _ := (0, ())

def severedClient : Client Unit := ⟨configNew, severedWorld⟩

def sampleEvaluatee (key : String) : Evaluatee := ⟨userNew "u", key, true⟩

section Fixed

attribute [local instance] literalExternals

theorem unserved_evaluate :
    ∃ out, evaluate unservedContent.client (userNew "u") 0 unservedFlag freshOutputs () =
      .ok ((.schema, out), ()) ∧ out.value = none := ⟨_, rfl, rfl⟩

theorem unserved_reportable :
    Reportable unservedContent.client (userNew "u") 0 unservedFlag (boolRequest false) () := by
  obtain ⟨out, hout, hnone⟩ := unserved_evaluate
  refine ⟨?_, ?_, ?_, ?_⟩
  · rw [lookupFails_iff hout]
    simp
  · intro events hfailure
    obtain ⟨w, hw⟩ := hfailure.evaluate
    rw [hout] at hw
    cases hw
  · intro _ _ hdate
    refine absurd ?_ hdate
    intro j hj
    cases hj
  · intro v hrule
    obtain ⟨out', t, heval', hv⟩ := hrule.evaluate
    rw [hout] at heval'
    cases heval'
    rw [hnone] at hv
    cases hv

theorem unserved_evaluation_reported :
    ∃ result v, typedVariation unservedContent.client 0 (boolRequest false) (sampleEvaluatee "a")
        (EventProcessor.create configNew 0) () = .ok (result, v) ∧
      ReportsError (boolRequest false) .schema result := by
  obtain ⟨out, hout, -⟩ := unserved_evaluate
  have hfound : Found unservedContent.client (sampleEvaluatee "a").key unservedFlag () () := ⟨rfl, rfl⟩
  have heval : evaluate unservedContent.client (sampleEvaluatee "a").user 0 unservedFlag
      freshOutputs () = .ok ((.schema, out), ()) := hout
  exact (failed_evaluation_reported_iff (.bool false) hfound heval rfl).mpr unserved_reportable

theorem severed_evaluation_unreported :
    Found severedClient "parent" parentFlag () () ∧
    (∃ out, evaluate severedClient (userNew "u") 2 parentFlag freshOutputs () =
      .ok ((.store, out), ())) ∧
    ∃ result v, typedVariation severedClient 2 (boolRequest false) (sampleEvaluatee "parent")
        (EventProcessor.create configNew 0) () = .ok (result, v) ∧
      result.details.reason = .unknown ∧ ¬ ReportsError (boolRequest false) .store result := by
  have hfound : Found severedClient (sampleEvaluatee "parent").key parentFlag () () := ⟨rfl, rfl⟩
  have heval : ∃ out, evaluate severedClient (sampleEvaluatee "parent").user 2 parentFlag
      freshOutputs () = .ok ((.store, out), ()) := ⟨_, rfl⟩
  obtain ⟨out, hout⟩ := heval
  have hsettle : ∃ u, settleEvaluation severedClient
      ((boolRequest false).call (sampleEvaluatee "parent")) parentFlag
      (EventProcessor.create configNew 0) (.store, out) () =
        .ok (⟨.fallback, detailsInit, EventProcessor.create configNew 0⟩, u) :=
    settleEvaluation_store hout
  obtain ⟨v, hsettle⟩ := hsettle
  refine ⟨hfound, ⟨out, hout⟩, ⟨false, detailsInit, EventProcessor.create configNew 0⟩, v, ?_, rfl, ?_⟩
  · rw [typedVariation_found hfound hout]
    exact Run.bind_of_ok hsettle
  · intro h
    cases h.reason

end Fixed

end ServerSdk
