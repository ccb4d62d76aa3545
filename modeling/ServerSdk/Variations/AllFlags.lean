import ServerSdk.Variations.Variation

namespace ServerSdk

open Program

structure ClientSideAvailability where
  usingMobileKey : Bool
  usingEnvironmentID : Bool
  usingExplicitSchema : Bool
  deriving DecidableEq, Repr

structure AvailabilityParser where
  usingEnvironmentId : Bool
  usingMobileKey : Bool
  clientSide : Bool
  isExplicit : Bool
  deriving DecidableEq, Repr

def initParser : AvailabilityParser := ⟨false, false, false, false⟩

def readAvailability (parser : AvailabilityParser) (prop : String) (item : Json) :
    AvailabilityParser :=
  if prop = "usingEnvironmentId" then { parser with usingEnvironmentId := item.getBool }
  else if prop = "usingMobileKey" then { parser with usingMobileKey := item.getBool }
  else parser

def parserReadExplicit (parser : AvailabilityParser) (object : Json) : AvailabilityParser :=
  object.iterFields.foldl (fun parser field => readAvailability parser field.1 field.2)
    { parser with isExplicit := decide (object.getType = .object) }

def parserReadDeprecated (parser : AvailabilityParser) (object : Json) : AvailabilityParser :=
  if object.getType = .bool then { parser with clientSide := object.getBool } else parser

def parserStoreAvailability (parser : AvailabilityParser) : ClientSideAvailability :=
  if parser.isExplicit then ⟨parser.usingMobileKey, parser.usingEnvironmentId, true⟩
  else ⟨true, parser.clientSide, false⟩

structure FlagModel where
  key : String
  version : Nat
  clientSideAvailability : ClientSideAvailability
  trackEvents : Bool
  debugEventsUntilDate : Rat
  deriving Repr

structure FlagReading where
  key : Option String
  version : Nat
  trackEvents : Bool
  debugEventsUntilDate : Rat
  parser : AvailabilityParser

def initReading : FlagReading := ⟨none, 0, false, 0, initParser⟩

def readFlagProperty (reading : FlagReading) (prop : String) (item : Json) : FlagReading :=
  if prop = "key" then { reading with key := item.getText }
  else if prop = "version" then { reading with version := toUnsignedInt item.getNumber }
  else if prop = "trackEvents" then
    if item.getType = .bool then { reading with trackEvents := item.getBool } else reading
  else if prop = "debugEventsUntilDate" then
    if item.getType = .number then { reading with debugEventsUntilDate := item.getNumber }
    else reading
  else if prop = "clientSideAvailability" then
    { reading with parser := parserReadExplicit reading.parser item }
  else if prop = "clientSide" then
    { reading with parser := parserReadDeprecated reading.parser item }
  else reading

def readFlagEntries : List (Option String × Json) → FlagReading → Checked FlagReading
  | [], reading => pure reading
  | (none, _) :: _, _ => .error .nullText
  | (some prop, item) :: entries, reading =>
      readFlagEntries entries (readFlagProperty reading prop item)

def initFlagModel (json : Json) : Checked FlagModel := do
  let reading ← readFlagEntries json.iterEntries initReading
  match reading.key with
  | none => .error .assertion
  | some key =>
      pure ⟨key, reading.version, parserStoreAvailability reading.parser, reading.trackEvents,
        reading.debugEventsUntilDate⟩

structure FlagState where
  key : String
  value : Option Json
  details : Details
  version : Nat
  trackEvents : Bool
  debugEventsUntilDate : Rat
  omitDetails : Bool
  deriving Repr

def newFlagState (key : String) : FlagState := ⟨key, none, detailsInit, 0, false, 0, false⟩

def flagModelPopulate (model : FlagModel) (flag : FlagState) : FlagState :=
  { flag with
    version := model.version
    debugEventsUntilDate := model.debugEventsUntilDate
    trackEvents := model.trackEvents }

-- The hash table lists the newest flag first, the order in which a bucket is searched.
structure AllFlagsState where
  hash : List FlagState
  map : Option Json
  valid : Bool
  deriving Repr

def invalidSingleton : AllFlagsState := ⟨[], none, false⟩

def newAllFlagsState (valid : Bool) : AllFlagsState :=
  if valid then ⟨[], some (.object []), true⟩ else invalidSingleton

def allFlagsStateAdd (state : AllFlagsState) (flag : FlagState) : AllFlagsState :=
  { state with
    map := state.map.map fun map =>
      match flag.value with
      | some value => map.objectSetReference flag.key value
      | none => map.objectSetKey flag.key .null
    hash := flag :: state.hash }

def AllFlagsState.find (state : AllFlagsState) (key : String) : Option FlagState :=
  state.hash.find? fun flag => flag.key = key

def allFlagsStateDetails (state : AllFlagsState) (key : String) : Option Details :=
  (state.find key).map FlagState.details

def allFlagsStateValue (state : AllFlagsState) (key : String) : Option Json :=
  (state.find key).bind FlagState.value

def allFlagsStateValuesMap (state : AllFlagsState) : Option Json := state.map

def includeReason : Nat := 1 <<< 0

def detailsOnlyForTracked : Nat := 1 <<< 1

def clientSideOnly : Nat := 1 <<< 2

def hasOption (options option : Nat) : Bool := options &&& option != 0

structure AllFlagsBuilder where
  state : AllFlagsState
  includeReasons : Bool
  detailsOnlyForTrackedFlags : Bool
  deriving Repr

def newAllFlagsBuilder (options : Nat) : AllFlagsBuilder :=
  ⟨newAllFlagsState true, hasOption options includeReason, hasOption options detailsOnlyForTracked⟩

def omitUntracked (flag : FlagState) (now : Rat) : FlagState :=
  if !flag.trackEvents &&
      !(flag.debugEventsUntilDate != 0 && decide (now < flag.debugEventsUntilDate))
  then { flag with omitDetails := true }
  else flag

def dropReasonOf (flag : FlagState) : FlagState :=
  { flag with details := { flag.details with reason := .unknown } }

section AllFlags

variable {σ : Type}

def allFlagsBuilderAdd (w : World σ) (builder : AllFlagsBuilder) (flag : FlagState) :
    Run σ AllFlagsBuilder := do
  let flag ←
    if builder.detailsOnlyForTrackedFlags then do
      let now ← Run.ask w.monotonicMilliseconds
      pure (omitUntracked flag now)
    else pure flag
  let flag := if builder.includeReasons then flag else dropReasonOf flag
  pure { builder with state := allFlagsStateAdd builder.state flag }

def allFlagsBuilderBuild (builder : AllFlagsBuilder) : AllFlagsState := builder.state

variable [Externals] (client : Client σ) (user : User) (fuel : Nat)

def addEvaluatedFlag (evaluatedFlags flag : Json) : Run σ Json := do
  let (_, out) ← evaluate client user fuel flag freshOutputs
  match out.value with
  | none => pure evaluatedFlags
  | some value =>
    match (flag.objectLookup "key").bind Json.getText with
    | none => Run.lift (.error .assertion)
    | some key => pure (evaluatedFlags.objectSetKey key value)

def addEvaluatedFlags : List Json → Json → Run σ Json
  | [], evaluatedFlags => pure evaluatedFlags
  | flag :: flags, evaluatedFlags => do
      let evaluatedFlags ← addEvaluatedFlag client user fuel evaluatedFlags flag
      addEvaluatedFlags flags evaluatedFlags

def allFlags : Run σ (Option Json) :=
  if client.config.offline then pure none
  else do
    if ← Run.ask client.world.storeInitialized then
      match ← Run.ask (client.world.storeAll .flag) with
      | none => pure none
      | some none => pure (some (.object []))
      | some (some rawFlags) => do
          let evaluatedFlags ← addEvaluatedFlags client user fuel rawFlags.getIter (.object [])
          pure (some evaluatedFlags)
    else pure none

def addFlagState (options : Nat) (builder : AllFlagsBuilder) (rawFlag : Json) :
    Run σ AllFlagsBuilder := do
  let model ← Run.lift (initFlagModel rawFlag)
  if hasOption options clientSideOnly && !model.clientSideAvailability.usingEnvironmentID then
    pure builder
  else do
    let (_, out) ← evaluate client user fuel rawFlag freshOutputs
    let flag := { newFlagState model.key with value := out.value, details := out.details }
    allFlagsBuilderAdd client.world builder (flagModelPopulate model flag)

def addFlagStates (options : Nat) : List Json → AllFlagsBuilder → Run σ AllFlagsBuilder
  | [], builder => pure builder
  | rawFlag :: rawFlags, builder => do
      let builder ← addFlagState client user fuel options builder rawFlag
      addFlagStates options rawFlags builder

def allFlagsState (options : Nat) : Run σ AllFlagsState :=
  if client.config.offline then pure (newAllFlagsState false)
  else do
    if ← Run.ask client.world.storeInitialized then
      match ← Run.ask (client.world.storeAll .flag) with
      | none => pure (newAllFlagsState false)
      | some none => pure (allFlagsBuilderBuild (newAllFlagsBuilder options))
      | some (some rawFlags) => do
          let builder ← addFlagStates client user fuel options rawFlags.getIter
            (newAllFlagsBuilder options)
          pure (allFlagsBuilderBuild builder)
    else pure (newAllFlagsState false)

end AllFlags

structure OwnKey (key : String) (flag : Json) : Prop where
  lookup : flag.objectLookup "key" = some (.text key)
  unique : ∀ v, ("key", v) ∈ flag.iterFields → v = .text key

theorem readFlagProperty_key (reading : FlagReading) (prop : String) (item : Json) :
    (readFlagProperty reading prop item).key = if prop = "key" then item.getText else reading.key := by
  rw [readFlagProperty]
  split_ifs <;> rfl

theorem readFlagEntries_key {key : String} {fields : List (String × Json)}
    (hunique : ∀ v, ("key", v) ∈ fields → v = .text key) {reading : FlagReading}
    (h : reading.key = some key ∨ ∃ v, ("key", v) ∈ fields) :
    ∃ next, readFlagEntries (fields.map fun field => (some field.1, field.2)) reading = .ok next ∧
      next.key = some key := by
  induction fields generalizing reading with
  | nil =>
      refine ⟨reading, rfl, ?_⟩
      rcases h with hkey | ⟨v, hv⟩
      · exact hkey
      · cases hv
  | cons field fields ih =>
      obtain ⟨prop, item⟩ := field
      have hrest : ∀ v, ("key", v) ∈ fields → v = .text key :=
        fun v hv => hunique v (List.mem_cons_of_mem _ hv)
      apply ih hrest
      rw [readFlagProperty_key]
      by_cases hprop : prop = "key"
      · subst hprop
        have hitem : item = .text key := hunique item (by simp)
        left
        rw [if_pos rfl, hitem]
        rfl
      · rw [if_neg hprop]
        rcases h with hkey | ⟨v, hv⟩
        · exact .inl hkey
        · refine .inr ⟨v, ?_⟩
          rcases List.mem_cons.mp hv with heq | hmem
          · cases heq
            exact absurd rfl hprop
          · exact hmem

theorem OwnKey.initFlagModel {key : String} {flag : Json} (h : OwnKey key flag) :
    ∃ model, initFlagModel flag = .ok model ∧ model.key = key := by
  obtain ⟨hlookup, hunique⟩ := h
  cases flag with
  | object fields =>
      have hfield : fields.lookup "key" = some (.text key) := hlookup
      have hmem : ∃ v, ("key", v) ∈ fields := by
        obtain ⟨before, after, heq, -⟩ := List.lookup_eq_some_iff.mp hfield
        refine ⟨.text key, ?_⟩
        rw [heq]
        simp
      have hread : ∃ next, readFlagEntries (fields.map fun field => (some field.1, field.2))
          initReading = .ok next ∧ next.key = some key := readFlagEntries_key hunique (.inr hmem)
      obtain ⟨next, hnext, hkey⟩ := hread
      refine ⟨⟨key, next.version, parserStoreAvailability next.parser, next.trackEvents,
        next.debugEventsUntilDate⟩, ?_, rfl⟩
      change (readFlagEntries (fields.map fun field => (some field.1, field.2)) initReading >>= _) = _
      rw [hnext, Checked.ok_bind, hkey]
      rfl
  | null => cases hlookup
  | bool b => cases hlookup
  | number n => cases hlookup
  | text s => cases hlookup
  | array items => cases hlookup

structure StateOf (key : String) (r : Evaluation) (flag : FlagState) : Prop where
  key : flag.key = key
  value : flag.value = r.2.value
  details : flag.details = r.2.details

def AllFlagsBuilder.add (builder : AllFlagsBuilder) (flags : List FlagState) : AllFlagsBuilder :=
  { builder with state := flags.foldl allFlagsStateAdd builder.state }

section Loops

variable [Externals] {σ : Type} {client : Client σ} {user : User} {fuel : ℕ} {s t : σ}
  {builder : AllFlagsBuilder} {key : String} {flag : Json}

theorem addFlagState_of_evaluate (hkey : OwnKey key flag) {r : Evaluation}
    (heval : evaluate client user fuel flag freshOutputs s = .ok (r, t))
    (hreasons : builder.includeReasons = true)
    (hall : builder.detailsOnlyForTrackedFlags = false) :
    ∃ state, addFlagState client user fuel includeReason builder flag s =
      .ok (builder.add [state], t) ∧ StateOf key r state := by
  obtain ⟨model, hmodel, hmodelKey⟩ := hkey.initFlagModel
  have hoption : hasOption includeReason clientSideOnly = false := by decide
  refine ⟨flagModelPopulate model
    { newFlagState model.key with value := r.2.value, details := r.2.details }, ?_, ?_⟩
  · rw [addFlagState, hmodel, Run.lift_ok, pure_bind, hoption]
    refine (Run.bind_of_ok heval).trans ?_
    obtain ⟨state, includeReasons, detailsOnlyForTrackedFlags⟩ := builder
    cases hreasons
    cases hall
    rfl
  · exact ⟨hmodelKey, rfl, rfl⟩

theorem evaluate_of_addFlagState {next : AllFlagsBuilder} (hkey : OwnKey key flag)
    (h : addFlagState client user fuel includeReason builder flag s = .ok (next, t)) :
    ∃ r u, evaluate client user fuel flag freshOutputs s = .ok (r, u) := by
  obtain ⟨model, hmodel, -⟩ := hkey.initFlagModel
  have hoption : hasOption includeReason clientSideOnly = false := by decide
  rw [addFlagState, hmodel, Run.lift_ok, pure_bind, hoption] at h
  obtain ⟨r, u, heval, -⟩ := Run.bind_eq_ok.mp h
  exact ⟨r, u, heval⟩

theorem addEvaluatedFlag_of_evaluate (hkey : OwnKey key flag) {r : Evaluation}
    (heval : evaluate client user fuel flag freshOutputs s = .ok (r, t)) (evaluatedFlags : Json) :
    addEvaluatedFlag client user fuel evaluatedFlags flag s =
      .ok (r.2.value.elim evaluatedFlags (evaluatedFlags.objectSetKey key), t) := by
  rw [addEvaluatedFlag]
  refine (Run.bind_of_ok heval).trans ?_
  simp only [hkey.lookup, Option.bind_some, Json.getText_text]
  cases r.2.value with
  | none => rfl
  | some value => rfl

end Loops

end ServerSdk
