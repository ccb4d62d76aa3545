import ServerSdk.Variations.AllFlags
import ServerSdk.Variations.Outcome

namespace ServerSdk

open Program

def valueOr (value fallback : Option Json) : Option Json :=
  if Json.notNull value then value else fallback

structure Agrees (state : AllFlagsState) (key : String) (fallback : Option Json)
    (result : TypedResult (Option Json)) : Prop where
  details : allFlagsStateDetails state key = some result.details
  value : result.value = valueOr (allFlagsStateValue state key) fallback

def Logged (config : Config) (flag : Json) (r : Evaluation) : Prop :=
  config.sendEvents = true →
    (Recordable flag → DateFits flag ∧ ∀ event ∈ (reportedEvents r).getD [], DateFits event) ∧
    (¬ Recordable flag → Json.notNull r.2.value = false)

theorem SameEvent.dateFits_iff {e e' : Json} (h : SameEvent e e') : DateFits e ↔ DateFits e' := by
  have hlookup : e.objectLookup "debugEventsUntilDate" = e'.objectLookup "debugEventsUntilDate" := by
    have hdel : e.objectDeleteKey "creationDate" = e'.objectDeleteKey "creationDate" := h
    have hne : "debugEventsUntilDate" ≠ "creationDate" := by decide
    rw [← Json.objectLookup_deleteKey_of_ne hne e, hdel, Json.objectLookup_deleteKey_of_ne hne e']
  rw [DateFits, DateFits, hlookup]

theorem forall_dateFits_iff {xs ys : List Json} (h : List.Forall₂ SameEvent xs ys) :
    (∀ event ∈ xs, DateFits event) ↔ ∀ event ∈ ys, DateFits event := by
  induction h with
  | nil => simp
  | cons hxy _ ih => rw [List.forall_mem_cons, List.forall_mem_cons, hxy.dateFits_iff, ih]

theorem Logged.congr {config : Config} {flag : Json} {r r' : Evaluation}
    (h : SameEvaluation SameEvent r' r) : Logged config flag r' ↔ Logged config flag r := by
  obtain ⟨hstatus, hout⟩ := h
  have hvalue : r'.2.value = r.2.value := hout.value
  have hevents : List.Forall₂ SameEvent ((reportedEvents r').getD []) ((reportedEvents r).getD []) := by
    rw [reportedEvents, reportedEvents, hstatus]
    split_ifs
    · exact .nil
    · exact forall₂_getD hout.events
  rw [Logged, Logged, forall_dateFits_iff hevents, hvalue]

theorem FailsSilently.congr {r r' : Evaluation} (h : SameEvaluation SameEvent r' r) :
    FailsSilently r' ↔ FailsSilently r := by
  obtain ⟨hstatus, hout⟩ := h
  have hdetails : r'.2.details = r.2.details := hout.details
  rw [FailsSilently, FailsSilently, hstatus, hdetails]

theorem chooseValue_any (details : Details) (value fallback : Option Json)
    (processor : EventProcessor) :
    (chooseValue isAnyType details value processor).details = details ∧
      (jsonRequest fallback).read (chooseValue isAnyType details value processor).served =
        valueOr value fallback := by
  have hfallback : (jsonRequest fallback).read .fallback = fallback := by
    cases fallback <;> rfl
  cases value with
  | none => exact ⟨rfl, hfallback⟩
  | some v =>
      have hread : (jsonRequest fallback).read (.value v) = some v := by
        cases fallback <;> rfl
      cases v with
      | null => exact ⟨rfl, hfallback⟩
      | bool b => exact ⟨rfl, hread⟩
      | number n => exact ⟨rfl, hread⟩
      | text x => exact ⟨rfl, hread⟩
      | array items => exact ⟨rfl, hread⟩
      | object fields => exact ⟨rfl, hread⟩

section Single

variable [Externals] {σ : Type} {client : Client σ} {c : Content} {fuel : ℕ} {flag : Json}
  {of : Evaluatee} {s t u : σ} {r : Evaluation}

theorem reportedDetails_eq_iff
    (heval : evaluate client of.user fuel flag freshOutputs s = .ok (r, t)) (hmem : r.1 ≠ .mem)
    (hstore : r.1 ≠ .store) : reportedDetails r = r.2.details ↔ ¬ FailsSilently r := by
  rw [reportedDetails]
  split_ifs with hschema
  · constructor
    · rintro hdetails ⟨-, hreason⟩
      rw [← hdetails] at hreason
      exact hreason rfl
    · intro hloud
      have hexplained : ¬ Unexplained client of.user fuel flag s := by
        rw [unexplained_iff heval]
        exact hloud
      have herr : isEvalError r.1 = true := by
        rw [hschema]
        rfl
      exact (explained_of_evaluate heval herr hexplained).details.symm
  · refine iff_of_true rfl ?_
    rintro ⟨herr, -⟩
    cases hstatus : r.1 with
    | mem => exact hmem hstatus
    | schema => exact hschema hstatus
    | store => exact hstore hstatus
    | matched =>
        rw [hstatus] at herr
        cases herr
    | miss =>
        rw [hstatus] at herr
        cases herr

def Replays (client : Client σ) (fuel : ℕ) (of : Evaluatee) (processor : EventProcessor) (s : σ)
    (r : Evaluation) : Prop :=
  ∀ fallback, ∃ result v, jsonVariation client fuel fallback of processor s = .ok (result, v) ∧
    result.details = r.2.details ∧ result.value = valueOr r.2.value fallback

theorem replays_iff_settles (hfound : Found client of.key flag s u)
    (heval : evaluate client of.user fuel flag freshOutputs u = .ok (r, t))
    (processor : EventProcessor) :
    Replays client fuel of processor s r ↔ ∀ fallback, ∃ v z,
      settleEvaluation client ((jsonRequest fallback).call of) flag processor r t = .ok (v, z) ∧
      v.details = r.2.details ∧
      (jsonRequest fallback).read v.served = valueOr r.2.value fallback := by
  refine forall_congr' (fun fallback => ?_)
  rw [jsonVariation, typedVariation_found hfound heval]
  constructor
  · rintro ⟨result, v, hresult, hdetails, hvalue⟩
    obtain ⟨w, z, hsettle, hpure⟩ := Run.bind_eq_ok.mp hresult
    cases hpure
    exact ⟨w, v, hsettle, hdetails, hvalue⟩
  · rintro ⟨w, z, hsettle, hdetails, hvalue⟩
    exact ⟨_, z, Run.bind_of_ok hsettle, hdetails, hvalue⟩

theorem not_replays_mem (hfound : Found client of.key flag s u) {out : Outputs}
    (heval : evaluate client of.user fuel flag freshOutputs u = .ok ((.mem, out), t))
    (processor : EventProcessor) : ¬ Replays client fuel of processor s (.mem, out) := by
  obtain ⟨-, -, pre, -, -, rfl⟩ := evaluateWith_mem heval
  rw [replays_iff_settles hfound heval]
  intro h
  obtain ⟨v, z, hsettle, hdetails, -⟩ := h none
  have hblank : v.details = detailsInit := hdetails
  rw [settleEvaluation] at hsettle
  obtain ⟨_, y, -, hpure⟩ := Run.bind_eq_ok.mp hsettle
  cases hpure
  cases hblank

def Chooses (client : Client σ) (of : Evaluatee) (flag : Json) (processor : EventProcessor)
    (r : Evaluation) (t : σ) : Prop :=
  ∀ fallback, ∃ v z, recordAndChoose client ((jsonRequest fallback).call of) (some flag)
      (reportedDetails r) (reportedEvents r) r.2.value processor t = .ok (v, z) ∧
    v.details = r.2.details ∧ (jsonRequest fallback).read v.served = valueOr r.2.value fallback

theorem chooses_silent_iff (hsend : client.config.sendEvents = false) (processor : EventProcessor) :
    Chooses client of flag processor r t ↔ reportedDetails r = r.2.details := by
  constructor
  · intro h
    obtain ⟨v, z, hsettle, hsame, -⟩ := h none
    rw [recordAndChoose_silent hsend] at hsettle
    cases hsettle
    exact (chooseValue_any _ _ none _).1.symm.trans hsame
  · intro hsame fallback
    have hany := chooseValue_any (reportedDetails r) r.2.value fallback processor
    refine ⟨_, t, ?_, hany.1.trans hsame, hany.2⟩
    rw [recordAndChoose_silent hsend]
    rfl

theorem chooses_unrecorded_iff (hsend : client.config.sendEvents = true)
    (hunrecorded : ∀ call, ¬ Recorded (resultOf call (some flag) (reportedDetails r)
      (reportedEvents r) r.2.value)) (processor : EventProcessor) :
    Chooses client of flag processor r t ↔
      reportedDetails r = r.2.details ∧ Json.notNull r.2.value = false := by
  have hread : ∀ fallback, (jsonRequest fallback).read .fallback = fallback := by
    intro fallback
    cases fallback <;> rfl
  constructor
  · intro h
    obtain ⟨v, z, hsettle, hsame, hvalue⟩ := h none
    rw [recordAndChoose_unrecorded hsend (hunrecorded _)] at hsettle
    cases hsettle
    refine ⟨hsame, ?_⟩
    cases hnull : Json.notNull r.2.value with
    | false => rfl
    | true =>
        obtain ⟨j, hj, -⟩ := Json.notNull_iff.mp hnull
        rw [hread, valueOr, hnull, if_pos rfl, hj] at hvalue
        cases hvalue
  · rintro ⟨hsame, hnull⟩ fallback
    refine ⟨_, _, recordAndChoose_unrecorded hsend (hunrecorded _) processor t, hsame, ?_⟩
    rw [hread, valueOr, hnull]
    rfl

theorem chooses_recorded_iff (hsend : client.config.sendEvents = true)
    (hrecorded : ∀ call, Recorded (resultOf call (some flag) (reportedDetails r)
      (reportedEvents r) r.2.value))
    (hsub : ∀ event ∈ (reportedEvents r).getD [], Summarizable event)
    (processor : EventProcessor) :
    Chooses client of flag processor r t ↔ reportedDetails r = r.2.details ∧
      DateFits flag ∧ ∀ event ∈ (reportedEvents r).getD [], DateFits event := by
  constructor
  · intro h
    obtain ⟨v, z, hsettle, hsame, -⟩ := h none
    have hqueue := recordAndChoose_queueable hsend (hrecorded _) hsub ⟨v, z, hsettle⟩
    obtain ⟨next, y, hnext⟩ := recordAndChoose_recorded hsend (hrecorded _) hsub hqueue processor t
    rw [hnext] at hsettle
    cases hsettle
    exact ⟨(chooseValue_any _ _ none _).1.symm.trans hsame, queueable_iff.mp hqueue⟩
  · rintro ⟨hsame, hfits⟩ fallback
    obtain ⟨next, y, hnext⟩ := recordAndChoose_recorded hsend (hrecorded _) hsub
      (queueable_iff.mpr hfits) processor t
    have hany := chooseValue_any (reportedDetails r) r.2.value fallback next
    exact ⟨_, y, hnext, hany.1.trans hsame, hany.2⟩

theorem chooses_iff (hw : Serves client.world c)
    (heval : evaluate client of.user fuel flag freshOutputs s = .ok (r, t)) (hmem : r.1 ≠ .mem)
    (processor : EventProcessor) :
    Chooses client of flag processor r t ↔ ¬ FailsSilently r ∧ Logged client.config flag r := by
  have hstore : r.1 ≠ .store := evaluate_answered hw heval
  have hrecord : ∀ call, Recorded (resultOf call (some flag) (reportedDetails r) (reportedEvents r)
      r.2.value) ↔ Recordable flag := fun call => recorded_iff heval hmem hstore
  rw [← reportedDetails_eq_iff heval hmem hstore]
  cases hsend : client.config.sendEvents with
  | false =>
      rw [chooses_silent_iff hsend]
      refine (and_iff_left ?_).symm
      intro htrue
      rw [hsend] at htrue
      cases htrue
  | true =>
      by_cases hrecordable : Recordable flag
      · have hlogged : Logged client.config flag r ↔
            DateFits flag ∧ ∀ event ∈ (reportedEvents r).getD [], DateFits event := by
          simp [Logged, hsend, hrecordable]
        rw [hlogged]
        exact chooses_recorded_iff hsend (fun call => (hrecord call).mpr hrecordable)
          (reportedEvents_summarizable hw heval) processor
      · have hlogged : Logged client.config flag r ↔ Json.notNull r.2.value = false := by
          simp [Logged, hsend, hrecordable]
        rw [hlogged]
        exact chooses_unrecorded_iff hsend (fun call h => hrecordable ((hrecord call).mp h)) processor

theorem replays_iff (of : Evaluatee) (hw : Serves client.world c)
    (hfound : Found client of.key flag s u)
    (heval : evaluate client of.user fuel flag freshOutputs u = .ok (r, t))
    (processor : EventProcessor) :
    Replays client fuel of processor s r ↔ ¬ FailsSilently r ∧ Logged client.config flag r := by
  by_cases hmem : r.1 = .mem
  · obtain ⟨status, out⟩ := r
    have hmem : status = .mem := hmem
    subst hmem
    have hsilent : FailsSilently (.mem, out) := by
      obtain ⟨-, -, pre, -, -, rfl⟩ := evaluateWith_mem heval
      refine ⟨rfl, ?_⟩
      intro hreason
      cases hreason
    exact iff_of_false (not_replays_mem hfound heval processor) (fun h => h.1 hsilent)
  · rw [replays_iff_settles hfound heval, ← chooses_iff hw heval hmem processor]
    simp only [settleEvaluation_of_ne_mem hmem]
    rfl

end Single

def FlagState.entry (flag : FlagState) : String × Json := (flag.key, flag.value.getD .null)

def FlagState.served (flag : FlagState) : Option (String × Json) :=
  flag.value.map fun value => (flag.key, value)

theorem foldl_allFlagsStateAdd_hash (flags : List FlagState) (state : AllFlagsState) :
    (flags.foldl allFlagsStateAdd state).hash = flags.reverse ++ state.hash := by
  induction flags generalizing state with
  | nil => rfl
  | cons flag flags ih =>
      rw [List.foldl_cons, ih]
      simp [allFlagsStateAdd]

theorem Json.objectSetKey_new {fields : List (String × Json)} {key : String}
    (h : key ∉ fields.map Prod.fst) (v : Json) :
    (Json.object fields).objectSetKey key v = .object (fields ++ [(key, v)]) := by
  have hnone : fields.lookup key = none := by
    rw [List.lookup_eq_none_iff]
    intro field hfield
    have hne : key ≠ field.1 := fun heq => h (heq ▸ List.mem_map_of_mem hfield)
    simpa using hne
  have herase := Json.eraseField_of_lookup_none hnone
  rw [Json.objectSetKey, Json.objectDeleteKey, Json.objectSetReference, herase]

theorem allFlagsStateAdd_map {state : AllFlagsState} {fields : List (String × Json)}
    (hmap : state.map = some (.object fields)) {flag : FlagState}
    (hnew : flag.key ∉ fields.map Prod.fst) :
    (allFlagsStateAdd state flag).map = some (.object (fields ++ [flag.entry])) := by
  simp only [allFlagsStateAdd, hmap, Option.map_some, FlagState.entry]
  cases flag.value with
  | some value => rfl
  | none =>
      rw [Json.objectSetKey_new hnew]
      rfl

theorem foldl_allFlagsStateAdd_map (flags : List FlagState) {state : AllFlagsState}
    {fields : List (String × Json)} (hmap : state.map = some (.object fields))
    (hnodup : (fields.map Prod.fst ++ flags.map FlagState.key).Nodup) :
    (flags.foldl allFlagsStateAdd state).map =
      some (.object (fields ++ flags.map FlagState.entry)) := by
  induction flags generalizing state fields with
  | nil => simpa using hmap
  | cons flag flags ih =>
      have hnew : flag.key ∉ fields.map Prod.fst := by
        intro hmem
        rw [List.map_cons, List.nodup_append] at hnodup
        exact hnodup.2.2 _ hmem _ (by simp) rfl
      have hnext := allFlagsStateAdd_map hmap hnew
      have hnodup' : ((fields ++ [flag.entry]).map Prod.fst ++ flags.map FlagState.key).Nodup := by
        simpa [FlagState.entry] using hnodup
      rw [List.foldl_cons, ih hnext hnodup']
      simp

theorem find?_of_mem {flags : List FlagState} (hnodup : (flags.map FlagState.key).Nodup)
    {flag : FlagState} (h : flag ∈ flags) : flags.find? (fun f => f.key = flag.key) = some flag := by
  induction flags with
  | nil => cases h
  | cons f flags ih =>
      rw [List.map_cons, List.nodup_cons] at hnodup
      rcases List.mem_cons.mp h with heq | hmem
      · rw [heq]
        simp
      · have hne : f.key ≠ flag.key := by
          intro heq
          exact hnodup.1 (heq ▸ List.mem_map_of_mem hmem)
        rw [List.find?_cons_of_neg (by simpa using hne)]
        exact ih hnodup.2 hmem

theorem find_of_mem {states : List FlagState} (hnodup : (states.map FlagState.key).Nodup)
    {flag : FlagState} (hmem : flag ∈ states) :
    ((newAllFlagsBuilder includeReason).add states).state.find flag.key = some flag := by
  have hreverse : (states.reverse.map FlagState.key).Nodup := by
    rw [List.map_reverse]
    exact List.nodup_reverse.mpr hnodup
  have hhash : ((newAllFlagsBuilder includeReason).add states).state.hash = states.reverse := by
    rw [AllFlagsBuilder.add, foldl_allFlagsStateAdd_hash]
    exact List.append_nil _
  rw [AllFlagsState.find, hhash]
  exact find?_of_mem hreverse (List.mem_reverse.mpr hmem)

theorem filter_entries {state : AllFlagsState} {states : List FlagState}
    (hfind : ∀ flag ∈ states, state.find flag.key = some flag) :
    (states.map FlagState.entry).filter (fun entry => (allFlagsStateValue state entry.1).isSome) =
      states.filterMap FlagState.served := by
  induction states with
  | nil => rfl
  | cons flag states ih =>
      rw [List.forall_mem_cons] at hfind
      have hvalue : allFlagsStateValue state flag.entry.1 = flag.value := by
        rw [allFlagsStateValue, FlagState.entry, hfind.1]
        rfl
      rw [List.map_cons, List.filter_cons, hvalue, List.filterMap_cons, ih hfind.2]
      cases hserved : flag.value with
      | none =>
          simp [FlagState.served, hserved]
      | some value =>
          simp [FlagState.served, FlagState.entry, hserved]

section Store

variable [Externals] {σ : Type}

structure Holds (client : Client σ) (c : Content) : Prop where
  online : client.config.offline = false
  initialized : ∀ s, (client.world.storeInitialized s).1 = true
  serves : Serves client.world c
  all : ∀ s, (client.world.storeAll .flag s).1 = some (some (.object c.flags)) ∨
    (c.flags = [] ∧ (client.world.storeAll .flag s).1 = some none)
  unique : (c.flags.map Prod.fst).Nodup
  keyed : ∀ entry ∈ c.flags, OwnKey entry.1 entry.2

structure Agreeable (c : Content) (config : Config) (user : User) (fuel : ℕ) (flag : Json) :
    Prop where
  explained : ¬ Unexplained ⟨config, c.world⟩ user fuel flag ()
  evaluated : ∃ r, evaluate ⟨config, c.world⟩ user fuel flag freshOutputs () = .ok (r, ()) ∧
    Logged config flag r

def AllFlagsAgree (client : Client σ) (c : Content) (user : User) (fuel : ℕ)
    (processor : EventProcessor) (s u : σ) : Prop :=
  ∃ state t, allFlagsState client user fuel includeReason s = .ok (state, t) ∧
    (∀ entry ∈ c.flags, ∀ fallback, ∃ result v,
      jsonVariation client fuel fallback ⟨user, entry.1, true⟩ processor u = .ok (result, v) ∧
      Agrees state entry.1 fallback result) ∧
    ∃ entries z, allFlagsStateValuesMap state = some (.object entries) ∧
      allFlags client user fuel s = .ok (some (.object (entries.filter fun entry =>
        (allFlagsStateValue state entry.1).isSome)), z)

def Records (c : Content) (config : Config) (user : User) (fuel : ℕ) (entry : String × Json)
    (state : FlagState) : Prop :=
  ∃ r, evaluate ⟨config, c.world⟩ user fuel entry.2 freshOutputs () = .ok (r, ()) ∧
    StateOf entry.1 r state

variable {client : Client σ} {c : Content} {user : User} {fuel : ℕ}

theorem addFlagStates_of_canonical (hw : Serves client.world c) {entries : List (String × Json)}
    (hkeys : ∀ entry ∈ entries, OwnKey entry.1 entry.2)
    (heval : ∀ entry ∈ entries, ∃ r,
      evaluate ⟨client.config, c.world⟩ user fuel entry.2 freshOutputs () = .ok (r, ()))
    {builder : AllFlagsBuilder} (hreasons : builder.includeReasons = true)
    (hall : builder.detailsOnlyForTrackedFlags = false) (s : σ) :
    ∃ states t, addFlagStates client user fuel includeReason (entries.map Prod.snd) builder s =
        .ok (builder.add states, t) ∧
      List.Forall₂ (Records c client.config user fuel) entries states := by
  induction entries generalizing builder s with
  | nil => exact ⟨[], s, rfl, .nil⟩
  | cons entry entries ih =>
      rw [List.forall_mem_cons] at hkeys heval
      obtain ⟨⟨r, hr⟩, hrest⟩ := heval
      obtain ⟨r', u, hr', hsame⟩ := evaluate_of_canonical hw hr s
      obtain ⟨state, hadd, hstate⟩ := addFlagState_of_evaluate hkeys.1 hr' hreasons hall
      have hnext : (builder.add [state]).includeReasons = true := hreasons
      obtain ⟨states, t, hadds, hstates⟩ := ih hkeys.2 hrest hnext hall u
      refine ⟨state :: states, t, ?_, .cons ⟨r, hr, ?_⟩ hstates⟩
      · exact (Run.bind_of_ok hadd).trans hadds
      · have hvalue : r'.2.value = r.2.value := hsame.2.value
        have hdetails : r'.2.details = r.2.details := hsame.2.details
        exact ⟨hstate.key, hstate.value.trans hvalue, hstate.details.trans hdetails⟩

theorem canonical_of_addFlagStates (hw : Serves client.world c) {entries : List (String × Json)}
    (hkeys : ∀ entry ∈ entries, OwnKey entry.1 entry.2) {builder next : AllFlagsBuilder} {s t : σ}
    (h : addFlagStates client user fuel includeReason (entries.map Prod.snd) builder s =
      .ok (next, t)) :
    ∀ entry ∈ entries, ∃ r,
      evaluate ⟨client.config, c.world⟩ user fuel entry.2 freshOutputs () = .ok (r, ()) := by
  induction entries generalizing builder s with
  | nil =>
      intro entry hentry
      cases hentry
  | cons entry entries ih =>
      rw [List.forall_mem_cons] at hkeys
      obtain ⟨b, u, hadd, hrest⟩ := Run.bind_eq_ok.mp h
      obtain ⟨r', v, hr'⟩ := evaluate_of_addFlagState hkeys.1 hadd
      obtain ⟨r, hr, -⟩ := canonical_of_evaluate hw hr'
      rw [List.forall_mem_cons]
      exact ⟨⟨r, hr⟩, ih hkeys.2 hrest⟩

theorem addEvaluatedFlags_of_records (hw : Serves client.world c) {entries : List (String × Json)}
    {states : List FlagState} (hkeys : ∀ entry ∈ entries, OwnKey entry.1 entry.2)
    (hstates : List.Forall₂ (Records c client.config user fuel) entries states)
    {fields : List (String × Json)} (hnodup : (fields.map Prod.fst ++ entries.map Prod.fst).Nodup)
    (s : σ) :
    ∃ t, addEvaluatedFlags client user fuel (entries.map Prod.snd) (.object fields) s =
      .ok (.object (fields ++ states.filterMap FlagState.served), t) := by
  induction hstates generalizing fields s with
  | nil =>
      refine ⟨s, ?_⟩
      rw [List.filterMap_nil, List.append_nil]
      rfl
  | @cons entry state entries states hrecords _ ih =>
      rw [List.forall_mem_cons] at hkeys
      obtain ⟨r, hr, hstate⟩ := hrecords
      obtain ⟨r', u, hr', hsame⟩ := evaluate_of_canonical hw hr s
      have hvalue : r'.2.value = state.value := by
        rw [hstate.value]
        exact hsame.2.value
      have hadd := addEvaluatedFlag_of_evaluate hkeys.1 hr' (.object fields)
      rw [hvalue] at hadd
      have hnew : entry.1 ∉ fields.map Prod.fst := by
        intro hmem
        rw [List.map_cons, List.nodup_append] at hnodup
        exact hnodup.2.2 _ hmem _ (by simp) rfl
      cases hserved : state.value with
      | none =>
          rw [hserved] at hadd
          have hrest : (fields.map Prod.fst ++ entries.map Prod.fst).Nodup := by
            refine hnodup.sublist ?_
            rw [List.map_cons]
            exact List.Sublist.append_left (List.sublist_cons_self _ _) _
          obtain ⟨t, ht⟩ := ih hkeys.2 hrest u
          refine ⟨t, (Run.bind_of_ok hadd).trans ?_⟩
          have hskip : state.served = none := by
            rw [FlagState.served, hserved]
            rfl
          rw [List.filterMap_cons, hskip]
          exact ht
      | some value =>
          rw [hserved] at hadd
          have hset : (Json.object fields).objectSetKey entry.1 value =
              .object (fields ++ [(entry.1, value)]) := Json.objectSetKey_new hnew value
          have hrest : ((fields ++ [(entry.1, value)]).map Prod.fst ++ entries.map Prod.fst).Nodup := by
            simpa using hnodup
          obtain ⟨t, ht⟩ := ih hkeys.2 hrest u
          refine ⟨t, (Run.bind_of_ok hadd).trans ?_⟩
          have hkeep : state.served = some (entry.1, value) := by
            rw [FlagState.served, hserved, hstate.key]
            rfl
          rw [List.filterMap_cons, hkeep, Option.elim_some, hset]
          simpa using ht

theorem allFlagsState_of_holds (h : Holds client c) (user : User) (fuel : ℕ) (s : σ) :
    ∃ u, allFlagsState client user fuel includeReason s =
        (addFlagStates client user fuel includeReason (c.flags.map Prod.snd)
          (newAllFlagsBuilder includeReason) >>= fun builder => pure builder.state) u ∧
      allFlags client user fuel s =
        (addEvaluatedFlags client user fuel (c.flags.map Prod.snd) (.object []) >>= fun flags =>
          pure (some flags)) u := by
  have hall := h.all (client.world.storeInitialized s).2
  refine ⟨(client.world.storeAll .flag (client.world.storeInitialized s).2).2, ?_⟩
  rw [allFlagsState, allFlags, h.online, if_neg Bool.false_ne_true, if_neg Bool.false_ne_true,
    Run.ask_bind_run, Run.ask_bind_run, h.initialized s, if_pos rfl, if_pos rfl, Run.ask_bind_run,
    Run.ask_bind_run]
  rcases hall with hfull | ⟨hempty, hnone⟩
  · rw [hfull]
    exact ⟨rfl, rfl⟩
  · rw [hnone, hempty]
    exact ⟨rfl, rfl⟩

theorem records_keys {entries : List (String × Json)} {states : List FlagState} {config : Config}
    (h : List.Forall₂ (Records c config user fuel) entries states) :
    states.map FlagState.key = entries.map Prod.fst := by
  induction h with
  | nil => rfl
  | cons hrecords _ ih =>
      obtain ⟨r, -, hstate⟩ := hrecords
      rw [List.map_cons, List.map_cons, ih, hstate.key]

theorem exists_record {entries : List (String × Json)} {states : List FlagState} {config : Config}
    (h : List.Forall₂ (Records c config user fuel) entries states) {entry : String × Json}
    (hentry : entry ∈ entries) : ∃ state ∈ states, Records c config user fuel entry state := by
  induction h with
  | nil => cases hentry
  | @cons e state entries states hrecords _ ih =>
      rcases List.mem_cons.mp hentry with heq | hmem
      · subst heq
        exact ⟨state, by simp, hrecords⟩
      · obtain ⟨state', hmem', hrecords'⟩ := ih hmem
        exact ⟨state', List.mem_cons_of_mem _ hmem', hrecords'⟩

theorem entry_agrees_iff (h : Holds client c) {entry : String × Json} (hentry : entry ∈ c.flags)
    {r : Evaluation}
    (hr : evaluate ⟨client.config, c.world⟩ user fuel entry.2 freshOutputs () = .ok (r, ()))
    {state : AllFlagsState} (hdetails : allFlagsStateDetails state entry.1 = some r.2.details)
    (hvalue : allFlagsStateValue state entry.1 = r.2.value) (processor : EventProcessor) (u : σ) :
    (∀ fallback, ∃ result v,
      jsonVariation client fuel fallback ⟨user, entry.1, true⟩ processor u = .ok (result, v) ∧
      Agrees state entry.1 fallback result) ↔ Agreeable c client.config user fuel entry.2 := by
  have hget : c.get .flag entry.1 = some entry.2 := (Json.mem_iff_lookup h.unique).mp hentry
  have hserved := h.serves .flag entry.1 (client.world.storeInitialized u).2
  rw [hget] at hserved
  have hfound : Found client entry.1 entry.2 u
      (client.world.storeGet .flag entry.1 (client.world.storeInitialized u).2).2 :=
    ⟨h.initialized u, Prod.ext hserved rfl⟩
  obtain ⟨r', t, hr', hsame⟩ := evaluate_of_canonical h.serves hr
    (client.world.storeGet .flag entry.1 (client.world.storeInitialized u).2).2
  have hreplays : Replays client fuel ⟨user, entry.1, true⟩ processor u r' ↔
      ¬ FailsSilently r' ∧ Logged client.config entry.2 r' :=
    replays_iff ⟨user, entry.1, true⟩ h.serves hfound hr' processor
  rw [FailsSilently.congr hsame, Logged.congr hsame] at hreplays
  have hagreeable : Agreeable c client.config user fuel entry.2 ↔
      ¬ FailsSilently r ∧ Logged client.config entry.2 r := by
    rw [← unexplained_iff hr]
    constructor
    · rintro ⟨hexplained, r'', hr'', hlogged⟩
      rw [hr] at hr''
      cases hr''
      exact ⟨hexplained, hlogged⟩
    · rintro ⟨hexplained, hlogged⟩
      exact ⟨hexplained, r, hr, hlogged⟩
  rw [hagreeable, ← hreplays]
  have hd : r'.2.details = r.2.details := hsame.2.details
  have hv : r'.2.value = r.2.value := hsame.2.value
  refine forall_congr' (fun fallback => exists_congr (fun result => exists_congr (fun v => ?_)))
  refine and_congr_right (fun _ => ?_)
  rw [hd, hv]
  constructor
  · rintro ⟨hagree, hagree'⟩
    rw [hdetails, Option.some.injEq] at hagree
    rw [hvalue] at hagree'
    exact ⟨hagree.symm, hagree'⟩
  · rintro ⟨hagree, hagree'⟩
    refine ⟨by rw [hdetails, hagree], ?_⟩
    rw [hvalue]
    exact hagree'

theorem recorded_entry {config : Config} {states : List FlagState}
    (hunique : (c.flags.map Prod.fst).Nodup)
    (hrecords : List.Forall₂ (Records c config user fuel) c.flags states) {entry : String × Json}
    (hentry : entry ∈ c.flags) :
    ∃ r, evaluate ⟨config, c.world⟩ user fuel entry.2 freshOutputs () = .ok (r, ()) ∧
      allFlagsStateDetails ((newAllFlagsBuilder includeReason).add states).state entry.1 =
        some r.2.details ∧
      allFlagsStateValue ((newAllFlagsBuilder includeReason).add states).state entry.1 =
        r.2.value := by
  have hnodup : (states.map FlagState.key).Nodup := by
    rw [records_keys hrecords]
    exact hunique
  obtain ⟨flag, hmem, r, hr, hflag⟩ := exists_record hrecords hentry
  have hfind := find_of_mem hnodup hmem
  rw [hflag.key] at hfind
  refine ⟨r, hr, ?_, ?_⟩
  · rw [allFlagsStateDetails, hfind, Option.map_some, hflag.details]
  · rw [allFlagsStateValue, hfind, Option.bind_some, hflag.value]

theorem all_flags_agree_iff (h : Holds client c) (user : User) (fuel : ℕ)
    (processor : EventProcessor) (s u : σ) :
    AllFlagsAgree client c user fuel processor s u ↔
      ∀ entry ∈ c.flags, Agreeable c client.config user fuel entry.2 := by
  obtain ⟨w, hstate, hflags⟩ := allFlagsState_of_holds h user fuel s
  have hbuilder : (newAllFlagsBuilder includeReason).includeReasons = true := by decide
  have hall : (newAllFlagsBuilder includeReason).detailsOnlyForTrackedFlags = false := by decide
  constructor
  · rintro ⟨state, t, hrun, hagree, -⟩ entry hentry
    rw [hstate] at hrun
    obtain ⟨builder, v, hadd, hpure⟩ := Run.bind_eq_ok.mp hrun
    cases hpure
    have hcanonical := canonical_of_addFlagStates h.serves h.keyed hadd
    obtain ⟨states, t', hadd', hrecords⟩ :=
      addFlagStates_of_canonical h.serves h.keyed hcanonical hbuilder hall w
    rw [hadd'] at hadd
    cases hadd
    obtain ⟨r, hr, hdetails, hvalue⟩ := recorded_entry h.unique hrecords hentry
    exact (entry_agrees_iff h hentry hr hdetails hvalue processor u).mp (hagree entry hentry)
  · intro hagreeable
    have hcanonical : ∀ entry ∈ c.flags, ∃ r,
        evaluate ⟨client.config, c.world⟩ user fuel entry.2 freshOutputs () = .ok (r, ()) := by
      intro entry hentry
      obtain ⟨r, hr, -⟩ := (hagreeable entry hentry).evaluated
      exact ⟨r, hr⟩
    obtain ⟨states, t, hadd, hrecords⟩ :=
      addFlagStates_of_canonical h.serves h.keyed hcanonical hbuilder hall w
    have hkeys := records_keys hrecords
    have hnodup : (states.map FlagState.key).Nodup := by
      rw [hkeys]
      exact h.unique
    refine ⟨_, t, hstate.trans (Run.bind_of_ok hadd), ?_, ?_⟩
    · intro entry hentry
      obtain ⟨r, hr, hdetails, hvalue⟩ := recorded_entry h.unique hrecords hentry
      exact (entry_agrees_iff h hentry hr hdetails hvalue processor u).mpr (hagreeable entry hentry)
    · have hunique : (([] : List (String × Json)).map Prod.fst ++ c.flags.map Prod.fst).Nodup :=
        h.unique
      obtain ⟨z, hz⟩ := addEvaluatedFlags_of_records h.serves h.keyed hrecords hunique w
      have hmap : ((newAllFlagsBuilder includeReason).add states).state.map =
          some (.object ([] ++ states.map FlagState.entry)) :=
        foldl_allFlagsStateAdd_map states rfl hnodup
      refine ⟨_, z, hmap, ?_⟩
      rw [hflags, Run.bind_of_ok hz, List.nil_append, List.nil_append,
        filter_entries (fun flag hflag => find_of_mem hnodup hflag)]
      rfl

end Store

def childContent : Content := ⟨[("child", childFlag)], []⟩

def mistypedFlag : Json :=
  .object [("key", .text "a"), ("on", .text "x"), ("salt", .text ""),
    ("fallthrough", .object [("variation", .number 0)]), ("variations", .array [.bool true])]

def mistypedContent : Content := ⟨[("a", mistypedFlag)], []⟩

theorem childContent_holds : Holds childContent.client childContent := by
  refine ⟨rfl, fun _ => rfl, childContent.world_serves, fun _ => .inl rfl, by decide, ?_⟩
  intro entry hentry
  rw [childContent, List.mem_singleton] at hentry
  subst hentry
  refine ⟨rfl, ?_⟩
  intro v hv
  simpa [childFlag, Json.iterFields] using hv

theorem mistypedContent_holds : Holds mistypedContent.quietClient mistypedContent := by
  refine ⟨rfl, fun _ => rfl, mistypedContent.world_serves, fun _ => .inl rfl, by decide, ?_⟩
  intro entry hentry
  rw [mistypedContent, List.mem_singleton] at hentry
  subst hentry
  refine ⟨rfl, ?_⟩
  intro v hv
  simpa [mistypedFlag, Json.iterFields] using hv

section Fixed

attribute [local instance] literalExternals

theorem child_all_flags_agree :
    AllFlagsAgree childContent.client childContent (userNew "u") 0
      (EventProcessor.create configNew 0) () () := by
  refine (all_flags_agree_iff childContent_holds (userNew "u") 0 _ () ()).mpr ?_
  intro entry hentry
  rw [childContent, List.mem_singleton] at hentry
  subst hentry
  have heval : ∃ r, evaluate (⟨childContent.client.config, childContent.world⟩ : Client Unit)
      (userNew "u") 0 childFlag freshOutputs () = .ok (r, ()) ∧ r.1 = .matched ∧
      r.2.events = none := ⟨_, rfl, rfl, rfl⟩
  obtain ⟨r, hr, hmatched, hevents⟩ := heval
  refine ⟨?_, r, hr, ?_⟩
  · rw [unexplained_iff hr, FailsSilently, hmatched]
    rintro ⟨herr, -⟩
    cases herr
  · intro _
    have hrecordable : Recordable childFlag := ⟨rfl, rfl, rfl, rfl⟩
    refine ⟨fun _ => ⟨?_, ?_⟩, fun hnot => absurd hrecordable hnot⟩
    · intro j hj
      cases hj
    · rw [reportedEvents, hmatched, hevents]
      simp

theorem mistyped_all_flags_disagree :
    Holds mistypedContent.quietClient mistypedContent ∧
    ¬ AllFlagsAgree mistypedContent.quietClient mistypedContent (userNew "u") 0
      (EventProcessor.create configNew 0) () () := by
  refine ⟨mistypedContent_holds, ?_⟩
  rintro ⟨state, t, hstate, hagree, -⟩
  obtain ⟨result, v, hresult, hagrees⟩ := hagree ("a", mistypedFlag) (by simp [mistypedContent]) none
  cases hstate
  cases hresult
  cases hagrees.details

end Fixed

end ServerSdk
