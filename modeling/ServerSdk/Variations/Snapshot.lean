import ServerSdk.Events.Reasons
import ServerSdk.Program.Keyed
import ServerSdk.Variations.AllFlags

namespace ServerSdk

open Program

def Tracked (flag : Json) : Prop := flag.objectLookup "trackEvents" = some (.bool true)

def DatedAfter (flag : Json) (now : Rat) : Prop :=
  ∃ date, flag.objectLookup "debugEventsUntilDate" = some (.number date) ∧ now < date

def StillReported (flag : Json) (now : Rat) : Prop := Tracked flag ∨ DebugWanted flag now 0

structure ClocksAgree (flag : Json) (wall monotonic : Rat) : Prop where
  same : ∀ date, flag.objectLookup "debugEventsUntilDate" = some (.number date) →
    (wall < date ↔ date ≠ 0 ∧ monotonic < date)
  positive : ∀ date, flag.objectLookup "debugEventsUntilDate" = some (.number date) →
    wall < date → 0 < date

structure DetailsAgree (flag : Json) (wall : Rat) (record : FlagState) : Prop where
  kept : record.omitDetails = false ↔ Tracked flag ∨ DatedAfter flag wall
  reported : record.omitDetails = false ↔ StillReported flag wall

def inSnapshot (options : Nat) (flag : Json) : Bool :=
  match initFlagModel flag with
  | .ok model => !(hasOption options clientSideOnly && !model.clientSideAvailability.usingEnvironmentID)
  | .error _ => false

def Client.listedFlags {σ : Type} (client : Client σ) (s : σ) : List Json :=
  if client.config.offline then []
  else if (client.world.storeInitialized s).1 then
    match (client.world.storeAll .flag (client.world.storeInitialized s).2).1 with
    | some (some rawFlags) => rawFlags.getIter
    | _ => []
  else []

section Reading

theorem readFlagEntries_view {α : Type} (view : FlagReading → α) (update : α → Json → α)
    (key : String)
    (hother : ∀ reading prop item, prop ≠ key →
      view (readFlagProperty reading prop item) = view reading)
    (hown : ∀ reading item, view (readFlagProperty reading key item) = update (view reading) item)
    {fields : List (String × Json)} (hunique : (fields.map Prod.fst).Nodup)
    {reading next : FlagReading}
    (h : readFlagEntries (fields.map fun field => (some field.1, field.2)) reading = .ok next) :
    view next = (fields.lookup key).elim (view reading) (update (view reading)) := by
  induction fields generalizing reading with
  | nil =>
      cases h
      rfl
  | cons field fields ih =>
      obtain ⟨prop, item⟩ := field
      obtain ⟨hfresh, hrest⟩ := List.nodup_cons.mp hunique
      rw [ih hrest h]
      by_cases hprop : prop = key
      · subst hprop
        rw [lookup_eq_none_of_notMem hfresh, List.lookup_cons_self, Option.elim_none, Option.elim_some, hown]
      · have hne : (key == prop) = false := beq_eq_false_iff_ne.mpr (Ne.symm hprop)
        rw [hother _ _ _ hprop, List.lookup_cons, hne]

theorem initFlagModel_entries {fields : List (String × Json)} {model : FlagModel}
    (h : initFlagModel (.object fields) = .ok model) :
    ∃ reading, readFlagEntries (fields.map fun field => (some field.1, field.2)) initReading =
        .ok reading ∧ reading.trackEvents = model.trackEvents ∧
      reading.debugEventsUntilDate = model.debugEventsUntilDate := by
  obtain ⟨reading, hreading, h⟩ := Checked.bind_eq_ok.mp h
  refine ⟨reading, hreading, ?_⟩
  cases hkey : reading.key with
  | none =>
      rw [hkey] at h
      cases h
  | some key =>
      rw [hkey] at h
      cases h
      exact ⟨rfl, rfl⟩

theorem initFlagModel_tracked {flag : Json} {model : FlagModel} (hunique : flag.Unique)
    (h : initFlagModel flag = .ok model) : model.trackEvents = true ↔ Tracked flag := by
  obtain ⟨⟨fields, rfl⟩, hkeys⟩ := hunique
  obtain ⟨reading, hreading, htrack, -⟩ := initFlagModel_entries h
  have hview := readFlagEntries_view FlagReading.trackEvents
    (fun tracked item => if item.getType = .bool then item.getBool else tracked) "trackEvents"
    (fun reading prop item hprop => by
      rw [readFlagProperty]
      split_ifs <;> rfl)
    (fun reading item => by
      rw [readFlagProperty]
      split_ifs <;> simp_all) hkeys hreading
  rw [← htrack, hview]
  change (fields.lookup "trackEvents").elim _ _ = _ ↔ fields.lookup "trackEvents" = _
  cases fields.lookup "trackEvents" with
  | none => simp [initReading]
  | some item => cases item <;> simp [initReading, Json.getType, Json.getBool]

theorem initFlagModel_date {flag : Json} {model : FlagModel} (hunique : flag.Unique)
    (h : initFlagModel flag = .ok model) (now : Rat) :
    (model.debugEventsUntilDate ≠ 0 ∧ now < model.debugEventsUntilDate) ↔
      ∃ date, flag.objectLookup "debugEventsUntilDate" = some (.number date) ∧ date ≠ 0 ∧
        now < date := by
  obtain ⟨⟨fields, rfl⟩, hkeys⟩ := hunique
  obtain ⟨reading, hreading, -, hdate⟩ := initFlagModel_entries h
  have hview := readFlagEntries_view FlagReading.debugEventsUntilDate
    (fun date item => if item.getType = .number then item.getNumber else date)
    "debugEventsUntilDate"
    (fun reading prop item hprop => by
      rw [readFlagProperty]
      split_ifs <;> rfl)
    (fun reading item => by
      rw [readFlagProperty]
      split_ifs <;> simp_all) hkeys hreading
  rw [← hdate, hview]
  simp only [Json.iterFields, Json.objectLookup]
  cases fields.lookup "debugEventsUntilDate" with
  | none => simp [initReading]
  | some item => cases item <;> simp [initReading, Json.getType, Json.getNumber]

end Reading

section Loops

variable {σ : Type}

structure Snapshotted (w : World σ) (shot : Json × σ) (record : FlagState) : Prop where
  model : ∃ model, initFlagModel shot.1 = .ok model ∧ record.key = model.key ∧
    record.version = model.version
  kept : shot.1.Unique → (record.omitDetails = false ↔ Tracked shot.1 ∨
    ∃ date, shot.1.objectLookup "debugEventsUntilDate" = some (.number date) ∧ date ≠ 0 ∧
      (w.monotonicMilliseconds shot.2).1 < date)

theorem omitUntracked_kept {flag : FlagState} (hfresh : flag.omitDetails = false) (now : Rat) :
    (omitUntracked flag now).omitDetails = false ↔
      flag.trackEvents = true ∨ (flag.debugEventsUntilDate ≠ 0 ∧ now < flag.debugEventsUntilDate) := by
  rw [omitUntracked]
  cases htracked : flag.trackEvents with
  | true => simp [hfresh]
  | false =>
      by_cases hdated : flag.debugEventsUntilDate ≠ 0 ∧ now < flag.debugEventsUntilDate
      · simp [hdated, hfresh]
      · simp only [not_and_or, not_not] at hdated
        rcases hdated with hzero | hpassed
        · simp [hzero]
        · simp [hpassed]

theorem omitUntracked_same (flag : FlagState) (now : Rat) :
    (omitUntracked flag now).key = flag.key ∧ (omitUntracked flag now).version = flag.version := by
  rw [omitUntracked]
  split <;> exact ⟨rfl, rfl⟩

theorem allFlagsBuilderAdd_record {w : World σ} {builder next : AllFlagsBuilder} {flag : FlagState}
    {s t : σ} (hdetails : builder.detailsOnlyForTrackedFlags = true)
    (h : allFlagsBuilderAdd w builder flag s = .ok (next, t)) :
    next.detailsOnlyForTrackedFlags = true ∧ ∃ record,
      next.state.hash = record :: builder.state.hash ∧ record.key = flag.key ∧
      record.version = flag.version ∧
      record.omitDetails = (omitUntracked flag (w.monotonicMilliseconds s).1).omitDetails := by
  obtain ⟨hkey, hversion⟩ := omitUntracked_same flag (w.monotonicMilliseconds s).1
  rw [allFlagsBuilderAdd, hdetails] at h
  cases h
  refine ⟨rfl, _, rfl, ?_⟩
  cases builder.includeReasons with
  | true => exact ⟨hkey, hversion, rfl⟩
  | false => exact ⟨hkey, hversion, rfl⟩

variable [Externals] {client : Client σ} {user : User} {fuel options : Nat} {s t : σ}
  {builder next : AllFlagsBuilder}

theorem addFlagState_snapshotted {rawFlag : Json} (hdetails : builder.detailsOnlyForTrackedFlags = true)
    (h : addFlagState client user fuel options builder rawFlag s = .ok (next, t)) :
    (inSnapshot options rawFlag = false ∧ next = builder) ∨
      (inSnapshot options rawFlag = true ∧ next.detailsOnlyForTrackedFlags = true ∧
        ∃ u record, Snapshotted client.world (rawFlag, u) record ∧
          next.state.hash = record :: builder.state.hash) := by
  obtain ⟨model, u, hlift, hadded⟩ := Run.bind_eq_ok.mp h
  obtain ⟨hmodel, rfl⟩ : initFlagModel rawFlag = .ok model ∧ u = s := Run.lift_eq_ok.mp hlift
  rw [inSnapshot, hmodel]
  split at hadded
  · rename_i hexcluded
    cases hadded
    exact .inl ⟨by simp [hexcluded], rfl⟩
  · rename_i hincluded
    obtain ⟨⟨status, out⟩, v, -, hbuilt⟩ := Run.bind_eq_ok.mp hadded
    obtain ⟨hnext, record, hhash, hkey, hversion, homit⟩ := allFlagsBuilderAdd_record hdetails hbuilt
    refine .inr ⟨by simp [Bool.eq_false_of_not_eq_true hincluded], hnext, v, record,
      ⟨⟨model, hmodel, hkey, hversion⟩, fun hunique => ?_⟩, hhash⟩
    rw [homit, omitUntracked_kept rfl, ← initFlagModel_tracked hunique hmodel,
      ← initFlagModel_date hunique hmodel]
    rfl

theorem addFlagStates_snapshotted {rawFlags : List Json}
    (hdetails : builder.detailsOnlyForTrackedFlags = true)
    (h : addFlagStates client user fuel options rawFlags builder s = .ok (next, t)) :
    ∃ shots records, shots.map Prod.fst = rawFlags.filter (inSnapshot options) ∧
      List.Forall₂ (Snapshotted client.world) shots records ∧
      next.state.hash = records.reverse ++ builder.state.hash := by
  induction rawFlags generalizing builder s with
  | nil =>
      cases h
      exact ⟨[], [], rfl, .nil, rfl⟩
  | cons rawFlag rawFlags ih =>
      obtain ⟨added, u, hadded, hrest⟩ := Run.bind_eq_ok.mp h
      rcases addFlagState_snapshotted hdetails hadded with
        ⟨hexcluded, rfl⟩ | ⟨hincluded, hadd, v, record, hrecord, hhash⟩
      · obtain ⟨shots, records, hshots, hforall, hnext⟩ := ih hdetails hrest
        refine ⟨shots, records, ?_, hforall, hnext⟩
        rw [hshots, List.filter_cons_of_neg (by simp [hexcluded])]
      · obtain ⟨shots, records, hshots, hforall, hnext⟩ := ih hadd hrest
        refine ⟨(rawFlag, v) :: shots, record :: records, ?_, .cons hrecord hforall, ?_⟩
        · rw [List.map_cons, hshots, List.filter_cons_of_pos hincluded]
        · rw [hnext, hhash, List.reverse_cons, List.append_assoc]
          rfl

theorem allFlagsState_snapshotted {state : AllFlagsState}
    (hoption : hasOption options detailsOnlyForTracked = true)
    (h : allFlagsState client user fuel options s = .ok (state, t)) :
    ∃ shots, shots.map Prod.fst = (client.listedFlags s).filter (inSnapshot options) ∧
      List.Forall₂ (Snapshotted client.world) shots state.hash.reverse := by
  rw [allFlagsState] at h
  rw [Client.listedFlags]
  split at h
  · rename_i hoffline
    cases h
    exact ⟨[], by simp [hoffline], .nil⟩
  · rename_i honline
    rw [if_neg honline]
    rw [Run.ask_bind_run] at h
    split at h
    · rename_i hready
      rw [if_pos hready]
      rw [Run.ask_bind_run] at h
      cases hall : (client.world.storeAll .flag (client.world.storeInitialized s).2).1 with
      | none =>
          rw [hall] at h
          cases h
          exact ⟨[], rfl, .nil⟩
      | some listed =>
          rw [hall] at h
          cases listed with
          | none =>
              cases h
              exact ⟨[], rfl, .nil⟩
          | some rawFlags =>
              obtain ⟨built, u, hbuilt, hpure⟩ := Run.bind_eq_ok.mp h
              cases hpure
              obtain ⟨shots, records, hshots, hforall, hhash⟩ := addFlagStates_snapshotted hoption hbuilt
              refine ⟨shots, hshots, ?_⟩
              have hrecords : (allFlagsBuilderBuild built).hash = records.reverse :=
                hhash.trans (List.append_nil _)
              rw [hrecords, List.reverse_reverse]
              exact hforall
    · rename_i hunready
      rw [if_neg hunready]
      cases h
      exact ⟨[], rfl, .nil⟩

end Loops

def ReportsWhileDue (config : Config) (user : User) (flag : Json) (now : Rat) : Prop :=
  ∀ (args : FeatureEventArgs) (detailed : Bool) (event : Json) (offers : List Json),
    args.flag = some flag → ¬ Experiment flag args.details →
    newFeatureEvent args user config = .ok (some event) →
    offersOf config user detailed now 0 event = .ok offers → (offers ≠ [] ↔ StillReported flag now)

theorem reportsWhileDue (config : Config) (user : User) (flag : Json) (now : Rat) :
    ReportsWhileDue config user flag now := by
  intro args detailed event offers hflag hplain hnew hoffers
  obtain ⟨trimmed, debug, shouldTrack, hoffered, rfl⟩ :=
    offersOf_cases hflag (builtEvent_of_new hflag hnew) hoffers
  have htracked : shouldTrack = true ↔ Tracked flag := by
    rw [hoffered.tracked, FeatureTracked, Tracked]
    rw [Experiment, LegacyExperiment] at hplain
    tauto
  rw [StillReported, ← htracked, ← hoffered.debugged]
  cases debug <;> cases shouldTrack <;> simp

theorem Snapshotted.agree_iff {σ : Type} {w : World σ} {shot : Json × σ} {record : FlagState}
    (h : Snapshotted w shot record) (hunique : shot.1.Unique) (wall : Rat) :
    DetailsAgree shot.1 wall record ↔
      Tracked shot.1 ∨ ClocksAgree shot.1 wall (w.monotonicMilliseconds shot.2).1 := by
  have hkept := h.kept hunique
  constructor
  · rintro ⟨hsnapshot, hreported⟩
    refine or_iff_not_imp_left.mpr fun huntracked => ?_
    have hagree := hkept.symm.trans hsnapshot
    have hpositive := hsnapshot.symm.trans hreported
    simp only [StillReported, huntracked, false_or, DatedAfter, DebugWanted] at hagree hpositive
    refine ⟨fun date hdate => ?_, fun date hdate => ?_⟩
    · simp only [hdate, Option.some.injEq, Json.number.injEq, exists_eq_left'] at hagree
      exact hagree.symm
    · simp only [hdate, Option.some.injEq, Json.number.injEq, exists_eq_left'] at hpositive
      exact fun hlater => (hpositive.mp hlater).2
  · rintro (htracked | ⟨hsame, hpositive⟩)
    · have htrue : record.omitDetails = false := hkept.mpr (.inl htracked)
      exact ⟨iff_of_true htrue (.inl htracked), iff_of_true htrue (.inl htracked)⟩
    · constructor
      · rw [hkept]
        refine or_congr_right (exists_congr fun date => and_congr_right fun hdate => ?_)
        exact (hsame date hdate).symm
      · rw [hkept]
        refine or_congr_right (exists_congr fun date => and_congr_right fun hdate => ?_)
        rw [← hsame date hdate]
        exact ⟨fun hlater => ⟨hlater, hpositive date hdate hlater⟩, fun hboth => hboth.1⟩

theorem snapshot_details_kept_iff {σ : Type} [Externals] (client : Client σ) (user : User)
    (fuel options : Nat) (s t : σ) (state : AllFlagsState)
    (hoption : hasOption options detailsOnlyForTracked = true)
    (h : allFlagsState client user fuel options s = .ok (state, t)) :
    ∃ shots : List (Json × σ),
      shots.map Prod.fst = (client.listedFlags s).filter (inSnapshot options) ∧
      List.Forall₂ (fun shot record => Snapshotted client.world shot record ∧
        ReportsWhileDue client.config user shot.1 (client.world.unixMilliseconds shot.2).1 ∧
        (shot.1.Unique →
          (DetailsAgree shot.1 (client.world.unixMilliseconds shot.2).1 record ↔
            Tracked shot.1 ∨ ClocksAgree shot.1 (client.world.unixMilliseconds shot.2).1
              (client.world.monotonicMilliseconds shot.2).1))) shots state.hash.reverse := by
  obtain ⟨shots, hshots, hforall⟩ := allFlagsState_snapshotted hoption h
  refine ⟨shots, hshots, hforall.imp fun shot record hrecord => ⟨hrecord, ?_, fun hunique => ?_⟩⟩
  · exact reportsWhileDue client.config user shot.1 _
  · exact hrecord.agree_iff hunique _

def deadlineFlag (date : Rat) : Json :=
  .object [("key", .text "a"), ("version", .number 7), ("debugEventsUntilDate", .number date)]

def deadlineWorld (date : Rat) : World Unit where
  __ := sampleWorld
  storeAll _ _ := (some (some (.object [("a", deadlineFlag date)])), ())
  unixMilliseconds _ := (1700000000000, ())
  monotonicMilliseconds _ := (5000, ())

abbrev deadlineSnapshot (date : Rat) : Except Halt (AllFlagsState × Unit) :=
  @allFlagsState Unit sampleExternals ⟨configNew, deadlineWorld date⟩ (userNew "u") 1
    detailsOnlyForTracked ()

theorem future_deadline_snapshot : ∃ state record,
    deadlineSnapshot 1800000000000 = .ok (state, ()) ∧ state.hash = [record] ∧
      DetailsAgree (deadlineFlag 1800000000000) 1700000000000 record := by
  have hruns : Succeeds (fun snapshot => snapshot.1.hash.map FlagState.omitDetails = [false])
      (deadlineSnapshot 1800000000000) := by
    decide +kernel
  obtain ⟨⟨state, t⟩, hrun, hkept⟩ := exists_of_succeeds hruns
  obtain ⟨record, hhash, -⟩ := List.map_eq_singleton_iff.mp hkept
  obtain ⟨shots, hshots, hforall⟩ := @snapshot_details_kept_iff Unit sampleExternals
    ⟨configNew, deadlineWorld 1800000000000⟩ (userNew "u") 1 detailsOnlyForTracked () t state
    (by decide) hrun
  have hone : shots.map Prod.fst = [deadlineFlag 1800000000000] := hshots.trans (by decide +kernel)
  obtain ⟨⟨flag, u⟩, rfl, rfl⟩ := List.map_eq_singleton_iff.mp hone
  rw [hhash] at hforall
  obtain ⟨-, -, hagree⟩ := (List.forall₂_cons.mp hforall).1
  have hunique : (deadlineFlag 1800000000000).Unique := ⟨⟨_, rfl⟩, by decide⟩
  have hclocks : ClocksAgree (deadlineFlag 1800000000000) 1700000000000 5000 := by
    refine ⟨?_, ?_⟩
    · rintro date ⟨⟩
      decide +kernel
    · rintro date ⟨⟩
      decide +kernel
  exact ⟨state, record, hrun, hhash, (hagree hunique).mpr (.inr hclocks)⟩

theorem passed_deadline_kept : ∃ state record,
    deadlineSnapshot 1600000000000 = .ok (state, ()) ∧ state.hash = [record] ∧
      ¬ DetailsAgree (deadlineFlag 1600000000000) 1700000000000 record := by
  have hruns : Succeeds (fun snapshot => snapshot.1.hash.map FlagState.omitDetails = [false])
      (deadlineSnapshot 1600000000000) := by
    decide +kernel
  obtain ⟨⟨state, t⟩, hrun, hkept⟩ := exists_of_succeeds hruns
  obtain ⟨record, hhash, homit⟩ := List.map_eq_singleton_iff.mp hkept
  refine ⟨state, record, hrun, hhash, ?_⟩
  rintro ⟨hsnapshot, -⟩
  rcases hsnapshot.mp homit with htracked | ⟨date, hdate, hlater⟩
  · cases htracked
  · cases hdate
    exact absurd hlater (by decide +kernel)

end ServerSdk
