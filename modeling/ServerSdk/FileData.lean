import ServerSdk.Program.LeftUnion
import ServerSdk.Program.Run
import ServerSdk.Json.Value

namespace ServerSdk

open Program

namespace Json

def objectMerge (into source : Json) : Json :=
  source.iterFields.foldl (fun into field => into.objectSetKey field.1 field.2) into

theorem Unique.finalEntry {j : Json} (h : j.Unique) (key : String) :
    finalEntry j.iterFields key = j.objectLookup key := by
  obtain ⟨⟨fields, rfl⟩, hkeys⟩ := h
  exact finalEntry_eq_lookup hkeys key

theorem Unique.setFields_lookup {into : Json} (h : into.Unique) (fields : List (String × Json)) :
    (fields.foldl (fun into field => into.objectSetKey field.1 field.2) into).Unique ∧
      ∀ key, (fields.foldl (fun into field => into.objectSetKey field.1 field.2) into).objectLookup key =
        (Program.finalEntry fields key).or (into.objectLookup key) := by
  induction fields generalizing into with
  | nil => exact ⟨h, fun key => rfl⟩
  | cons field fields ih =>
      obtain ⟨hunique, hlookup⟩ := ih (h.setKey field.1 field.2)
      refine ⟨hunique, fun key => ?_⟩
      rw [List.foldl_cons, hlookup, finalEntry_cons, Option.or_assoc]
      congr 1
      by_cases hkey : key = field.1
      · rw [hkey, h.lookup_setKey, if_pos rfl, Option.some_or]
      · rw [objectLookup_setKey_of_ne hkey, if_neg hkey, Option.none_or]

theorem Unique.objectMerge {into : Json} (h : into.Unique) (source : Json) :
    (into.objectMerge source).Unique ∧ ∀ key, (into.objectMerge source).objectLookup key =
      (Program.finalEntry source.iterFields key).or (into.objectLookup key) :=
  h.setFields_lookup source.iterFields

end Json

structure FileDataSet where
  flags : Json
  segments : Json
  deriving Repr

def expandSimpleFlag (key : String) (value : Json) : Json :=
  let flag := (Json.object []).objectSetKey "variations" (.array [value])
  let fallthrough := (Json.object []).objectSetKey "variation" (.number 0)
  let flag := flag.objectSetKey "fallthrough" fallthrough
  let flag := flag.objectSetKey "key" (.text key)
  let flag := flag.objectSetKey "on" (.bool true)
  let flag := flag.objectSetKey "version" (.number 1)
  flag.objectSetKey "salt" (.text "salt")

def expandSimpleFlags (json : Json) : Checked Json := do
  Checked.check (json.getType = .object)
  pure (json.iterFields.foldl
    (fun flags field => flags.objectSetKey field.1 (expandSimpleFlag field.1 field.2)) (.object []))

def setVersionAndSalt (flag : Json) : Json :=
  (flag.objectSetKey "version" (.number 1)).objectSetKey "salt" (.text "salt")

def setVersionsAndSalts : Json → Json
  | .object fields => .object (fields.map fun field => (field.1, setVersionAndSalt field.2))
  | .array items => .array (items.map setVersionAndSalt)
  | flags => flags

def mergeUnder (added current : Json) : Json :=
  ((Json.object []).objectMerge added).objectMerge current

namespace FileDataSet

def addFlags (data : FileDataSet) (json : Json) : Json × FileDataSet :=
  match json.objectLookup "flags" with
  | none => (json, data)
  | some tempFlags =>
      (json.objectDeleteKey "flags",
        { data with flags := mergeUnder (setVersionsAndSalts tempFlags) data.flags })

def addFlagValues (data : FileDataSet) (json : Json) : Checked FileDataSet :=
  match json.objectLookup "flagValues" with
  | none => pure data
  | some tempFlagValues => do
      let expandedFlagValues ← expandSimpleFlags tempFlagValues
      pure { data with flags := mergeUnder expandedFlagValues data.flags }

def addSegments (data : FileDataSet) (json : Json) : FileDataSet :=
  match json.objectLookup "segments" with
  | none => data
  | some tempSegments => { data with segments := mergeUnder tempSegments data.segments }

def addFile (data : FileDataSet) (json : Json) : Checked FileDataSet :=
  if json.getType ≠ .object then pure data
  else do
    let (json, data) := data.addFlags json
    let data ← data.addFlagValues json
    pure (data.addSegments json)

def addFiles (loadJSONFile : String → Option Json) :
    List (Option String) → FileDataSet → Checked FileDataSet
  | [], data => pure data
  | filename :: filenames, data =>
      match filename.bind loadJSONFile with
      | none => addFiles loadJSONFile filenames data
      | some json => do
          let data ← data.addFile json
          addFiles loadJSONFile filenames data

end FileDataSet

def fileDataInit (loadJSONFile : String → Option Json) (filenames : List (Option String)) :
    Checked Json := do
  let data ← FileDataSet.addFiles loadJSONFile filenames ⟨.object [], .object []⟩
  pure (((Json.object []).objectSetKey "features" data.flags).objectSetKey "segments" data.segments)

def sectionEntries (json : Json) (name : String) : List (String × Json) :=
  ((json.objectLookup name).map Json.iterFields).getD []

inductive FlagSource where
  | flag (entry : Json)
  | value (value : Json)

def flagPlaces (json : Json) : List (String → Option FlagSource) :=
  [fun key => (finalEntry (sectionEntries json "flags") key).map .flag,
    fun key => (finalEntry (sectionEntries json "flagValues") key).map .value]

def segmentPlaces (json : Json) : List (String → Option Json) :=
  [finalEntry (sectionEntries json "segments")]

structure WellSectioned (json : Json) : Prop where
  sections : ∀ name ∈ ["flags", "flagValues", "segments"], ∀ found,
    json.objectLookup name = some found → found.getType = .object
  flags : ∀ flag ∈ (sectionEntries json "flags").map Prod.snd, flag.getType = .object

def secondValue (json : Json) (name : String) : Option Json :=
  ((json.iterFields.filter fun field => field.1 = name).map Prod.snd)[1]?

def otherFields (json : Json) : List (String × Json) :=
  json.iterFields.filter fun field => field.1 ≠ "version" ∧ field.1 ≠ "salt"

-- Only the first of several fields of one name is replaced, so the second one is found afterwards.
structure Versioned (flag marked : Json) : Prop where
  version : marked.objectLookup "version" = (secondValue flag "version").or (some (.number 1))
  salt : marked.objectLookup "salt" = (secondValue flag "salt").or (some (.text "salt"))
  others : otherFields marked = otherFields flag

inductive StemsFrom (key : String) : FlagSource → Json → Prop
  | flag {entry marked : Json} : Versioned entry marked → StemsFrom key (.flag entry) marked
  | value (value : Json) : StemsFrom key (.value value) (.object
      [("variations", .array [value]), ("fallthrough", .object [("variation", .number 0)]),
        ("key", .text key), ("on", .bool true), ("version", .number 1), ("salt", .text "salt")])

structure FlagUnion (flags : Json) (places : List (String → Option FlagSource)) : Prop where
  unique : flags.Unique
  first : ∀ key source, FirstDefines places key source →
    ∃ flag, flags.objectLookup key = some flag ∧ StemsFrom key source flag
  absent : ∀ key, (∀ place ∈ places, place key = none) → flags.objectLookup key = none

structure UnionOf (object : Json) (places : List (String → Option Json)) : Prop where
  unique : object.Unique
  first : ∀ key value, object.objectLookup key = some value ↔ FirstDefines places key value

theorem lookup_eq_head (fields : List (String × Json)) (name : String) :
    fields.lookup name = ((fields.filter fun field => field.1 = name).map Prod.snd)[0]? := by
  induction fields with
  | nil => rfl
  | cons field fields ih =>
      obtain ⟨key, value⟩ := field
      by_cases hname : key = name
      · simp [hname]
      · simp [List.lookup_cons, hname, beq_false_of_ne (Ne.symm hname), ih]

theorem lookup_eraseField (fields : List (String × Json)) (name : String) :
    (Json.eraseField name fields).lookup name = secondValue (.object fields) name := by
  rw [secondValue, Json.iterFields]
  induction fields with
  | nil => rfl
  | cons field fields ih =>
      obtain ⟨key, value⟩ := field
      by_cases hname : key = name
      · simp [Json.eraseField, hname, lookup_eq_head]
      · simp [Json.eraseField, hname, List.lookup_cons, beq_false_of_ne (Ne.symm hname), ih]

theorem lookup_setKey_self {json : Json} (h : json.getType = .object) (name : String) (value : Json) :
    (json.objectSetKey name value).objectLookup name = (secondValue json name).or (some value) := by
  obtain ⟨fields, rfl⟩ := Json.getType_eq_object.mp h
  change (Json.eraseField name fields ++ [(name, value)]).lookup name = _
  rw [Json.lookup_append_singleton, lookup_eraseField, if_pos rfl]

theorem filter_eraseField {name : String} {keep : String × Json → Bool}
    (h : ∀ value, keep (name, value) = false) (fields : List (String × Json)) :
    (Json.eraseField name fields).filter keep = fields.filter keep := by
  induction fields with
  | nil => rfl
  | cons field fields ih =>
      obtain ⟨key, value⟩ := field
      by_cases hname : key = name
      · subst hname
        rw [Json.eraseField, if_pos rfl, List.filter_cons_of_neg (by simp [h])]
      · rw [Json.eraseField, if_neg hname, List.filter_cons, List.filter_cons, ih]

theorem filter_setKey {name : String} {keep : String × Json → Bool}
    (h : ∀ value, keep (name, value) = false) (json value : Json) :
    (json.objectSetKey name value).iterFields.filter keep = json.iterFields.filter keep := by
  cases json with
  | object fields =>
      change (Json.eraseField name fields ++ [(name, value)]).filter keep = fields.filter keep
      rw [List.filter_append, filter_eraseField h, List.filter_singleton, h]
      exact List.append_nil _
  | _ => rfl

theorem getType_setKey (json : Json) (name : String) (value : Json) :
    (json.objectSetKey name value).getType = json.getType := by
  cases json <;> rfl

theorem versioned_setVersionAndSalt {flag : Json} (h : flag.getType = .object) :
    Versioned flag (setVersionAndSalt flag) := by
  have hversioned : (flag.objectSetKey "version" (.number 1)).getType = .object := by
    rw [getType_setKey, h]
  have hsecond : secondValue (flag.objectSetKey "version" (.number 1)) "salt" =
      secondValue flag "salt" := by
    rw [secondValue, secondValue, filter_setKey (by simp)]
  constructor
  · rw [setVersionAndSalt, Json.objectLookup_setKey_of_ne (by decide), lookup_setKey_self h]
  · rw [setVersionAndSalt, lookup_setKey_self hversioned, hsecond]
  · rw [setVersionAndSalt, otherFields, filter_setKey (by simp), filter_setKey (by simp), otherFields]

def built (key : String) : FlagSource → Json
  | .flag entry => setVersionAndSalt entry
  | .value value => expandSimpleFlag key value

def builtPlaces (places : List (String → Option FlagSource)) : List (String → Option Json) :=
  places.map fun place key => (place key).map (built key)

theorem builtPlaces_append (places places' : List (String → Option FlagSource)) :
    builtPlaces (places ++ places') = builtPlaces places ++ builtPlaces places' := List.map_append

theorem stemsFrom_built (key : String) {source : FlagSource}
    (h : ∀ entry, source = .flag entry → entry.getType = .object) :
    StemsFrom key source (built key source) := by
  cases source with
  | flag entry => exact .flag (versioned_setVersionAndSalt (h entry rfl))
  | value value => exact .value value

theorem WellSectioned.entry_object {json : Json} (h : WellSectioned json)
    {place : String → Option FlagSource} (hplace : place ∈ flagPlaces json) {key : String}
    {entry : Json} (hentry : place key = some (.flag entry)) : entry.getType = .object := by
  rcases List.mem_pair.mp hplace with rfl | rfl
  · obtain ⟨found, hfound, hsame⟩ := Option.map_eq_some_iff.mp hentry
    cases hsame
    exact h.flags entry (List.mem_map_of_mem (f := Prod.snd) (mem_of_finalEntry hfound))
  · obtain ⟨found, _, hsame⟩ := Option.map_eq_some_iff.mp hentry
    cases hsame

structure Unites (object : Json) (places : List (String → Option Json)) : Prop where
  unique : object.Unique
  lookup : ∀ key, object.objectLookup key = leftUnion places key

theorem Unites.unionOf {object : Json} {places : List (String → Option Json)} (h : Unites object places) :
    UnionOf object places :=
  ⟨h.unique, fun key value => by rw [h.lookup, leftUnion_eq_some_iff]⟩

theorem Unites.flagUnion {flags : Json} {places : List (String → Option FlagSource)}
    (h : Unites flags (builtPlaces places))
    (hentries : ∀ place ∈ places, ∀ key entry, place key = some (.flag entry) →
      entry.getType = .object) : FlagUnion flags places := by
  have hlookup : ∀ key, flags.objectLookup key = (leftUnion places key).map (built key) := by
    intro key
    rw [h.lookup, builtPlaces, leftUnion_map]
  refine ⟨h.unique, fun key source hfirst => ?_, fun key habsent => ?_⟩
  · refine ⟨built key source, by rw [hlookup, leftUnion_eq_some_iff.mpr hfirst]; rfl, ?_⟩
    obtain ⟨before, place, after, rfl, hplace, _⟩ := hfirst
    exact stemsFrom_built key fun entry hentry =>
      hentries place (by simp) key entry (hplace.trans (congrArg some hentry))
  · rw [hlookup, leftUnion_eq_none_iff.mpr habsent]
    rfl

theorem unites_nothing : Unites (.object []) [] := ⟨Json.unique_empty, fun _ => rfl⟩

theorem Unites.mergeUnder {current : Json} {places : List (String → Option Json)}
    (h : Unites current places) {added : Json} {place : String → Option Json}
    (hadded : ∀ key, finalEntry added.iterFields key = place key) :
    Unites (mergeUnder added current) (places ++ [place]) := by
  obtain ⟨hcopied, hcopy⟩ := Json.unique_empty.objectMerge added
  obtain ⟨hunique, hlookup⟩ := hcopied.objectMerge current
  refine ⟨hunique, fun key => ?_⟩
  rw [ServerSdk.mergeUnder, hlookup, hcopy, h.unique.finalEntry, h.lookup, hadded, leftUnion_append,
    leftUnion_cons, leftUnion_nil]
  rfl

theorem Unites.absent {object : Json} {places : List (String → Option Json)} (h : Unites object places)
    {place : String → Option Json} (hplace : ∀ key, place key = none) :
    Unites object (places ++ [place]) := by
  refine ⟨h.unique, fun key => ?_⟩
  rw [leftUnion_append, leftUnion_cons, hplace, h.lookup]
  simp

theorem sectionEntries_of_lookup {json found : Json} {name : String}
    (h : json.objectLookup name = some found) : sectionEntries json name = found.iterFields := by
  rw [sectionEntries, h]
  rfl

theorem sectionEntries_of_none {json : Json} {name : String} (h : json.objectLookup name = none) :
    sectionEntries json name = [] := by
  rw [sectionEntries, h]
  rfl

theorem expandSimpleFlags_entries {json : Json} (h : json.getType = .object) :
    ∃ flags, expandSimpleFlags json = .ok flags ∧ ∀ key, finalEntry flags.iterFields key =
      ((finalEntry json.iterFields key).map .value).map (built key) := by
  obtain ⟨hunique, hlookup⟩ := Json.unique_empty.setFields_lookup
    (json.iterFields.map fun field => (field.1, expandSimpleFlag field.1 field.2))
  rw [List.foldl_map] at hunique hlookup
  refine ⟨_, by rw [expandSimpleFlags, h]; rfl, fun key => ?_⟩
  rw [hunique.finalEntry, hlookup, finalEntry_map expandSimpleFlag, Option.map_map]
  exact Option.or_none

theorem setVersionsAndSalts_entries (flags : Json) (key : String) :
    finalEntry (setVersionsAndSalts flags).iterFields key =
      ((finalEntry flags.iterFields key).map .flag).map (built key) := by
  have hfields : (setVersionsAndSalts flags).iterFields =
      flags.iterFields.map fun field => (field.1, setVersionAndSalt field.2) := by
    cases flags <;> rfl
  rw [hfields, finalEntry_map fun _ => setVersionAndSalt, Option.map_map]
  rfl

namespace FileDataSet

variable {data : FileDataSet} {json : Json} {flagsSoFar : List (String → Option FlagSource)}
  {segmentsSoFar : List (String → Option Json)}

structure Merged (data : FileDataSet) (flagsSoFar : List (String → Option FlagSource))
    (segmentsSoFar : List (String → Option Json)) : Prop where
  flags : Unites data.flags (builtPlaces flagsSoFar)
  segments : Unites data.segments segmentsSoFar

theorem Merged.absent {place : String → Option FlagSource} (h : data.Merged flagsSoFar segmentsSoFar)
    (hplace : ∀ key, place key = none) : data.Merged (flagsSoFar ++ [place]) segmentsSoFar := by
  refine ⟨?_, h.segments⟩
  rw [builtPlaces_append]
  refine h.flags.absent fun key => ?_
  change (place key).map (built key) = none
  rw [hplace, Option.map_none]

theorem Merged.added {place : String → Option FlagSource} {flags : Json}
    (h : data.Merged flagsSoFar segmentsSoFar)
    (hflags : ∀ key, finalEntry flags.iterFields key = (place key).map (built key)) :
    Merged { data with flags := mergeUnder flags data.flags } (flagsSoFar ++ [place])
      segmentsSoFar := by
  refine ⟨?_, h.segments⟩
  rw [builtPlaces_append]
  exact h.flags.mergeUnder hflags

theorem Merged.addFlags (h : data.Merged flagsSoFar segmentsSoFar) (json : Json) :
    (data.addFlags json).2.Merged
        (flagsSoFar ++ [fun key => (finalEntry (sectionEntries json "flags") key).map .flag])
        segmentsSoFar ∧
      ∀ name ≠ "flags", (data.addFlags json).1.objectLookup name = json.objectLookup name := by
  rw [FileDataSet.addFlags]
  cases hflags : json.objectLookup "flags" with
  | none =>
      rw [sectionEntries_of_none hflags]
      exact ⟨h.absent fun key => rfl, fun _ _ => rfl⟩
  | some tempFlags =>
      rw [sectionEntries_of_lookup hflags]
      exact ⟨h.added (setVersionsAndSalts_entries tempFlags),
        fun name hname => Json.objectLookup_deleteKey_of_ne hname json⟩

theorem Merged.addFlagValues (h : data.Merged flagsSoFar segmentsSoFar)
    (hobject : ∀ found, json.objectLookup "flagValues" = some found → found.getType = .object) :
    ∃ next, data.addFlagValues json = .ok next ∧ next.Merged
      (flagsSoFar ++ [fun key => (finalEntry (sectionEntries json "flagValues") key).map .value])
      segmentsSoFar := by
  rw [FileDataSet.addFlagValues]
  cases hvalues : json.objectLookup "flagValues" with
  | none =>
      rw [sectionEntries_of_none hvalues]
      exact ⟨data, rfl, h.absent fun key => rfl⟩
  | some tempFlagValues =>
      obtain ⟨flags, hflags, hentries⟩ := expandSimpleFlags_entries (hobject _ hvalues)
      rw [sectionEntries_of_lookup hvalues]
      simp only [hflags, Checked.ok_bind]
      exact ⟨_, rfl, h.added hentries⟩

theorem Merged.addSegments (h : data.Merged flagsSoFar segmentsSoFar) (json : Json) :
    (data.addSegments json).Merged flagsSoFar (segmentsSoFar ++ segmentPlaces json) := by
  rw [FileDataSet.addSegments, segmentPlaces]
  cases hsegments : json.objectLookup "segments" with
  | none =>
      rw [sectionEntries_of_none hsegments]
      exact ⟨h.flags, h.segments.absent fun key => rfl⟩
  | some tempSegments =>
      rw [sectionEntries_of_lookup hsegments]
      exact ⟨h.flags, h.segments.mergeUnder fun key => rfl⟩

theorem Merged.addFile (h : data.Merged flagsSoFar segmentsSoFar) (hjson : WellSectioned json) :
    ∃ next, data.addFile json = .ok next ∧
      next.Merged (flagsSoFar ++ flagPlaces json) (segmentsSoFar ++ segmentPlaces json) := by
  rw [FileDataSet.addFile]
  by_cases hobject : json.getType = .object
  · obtain ⟨hadded, hsame⟩ := h.addFlags json
    have hvalues : sectionEntries (data.addFlags json).1 "flagValues" =
        sectionEntries json "flagValues" := by
      rw [sectionEntries, hsame "flagValues" (by decide), sectionEntries]
    have hsegments : segmentPlaces (data.addFlags json).1 = segmentPlaces json := by
      rw [segmentPlaces, sectionEntries, hsame "segments" (by decide), segmentPlaces, sectionEntries]
    obtain ⟨valued, hvalued, hmerged⟩ := hadded.addFlagValues fun found hfound =>
      hjson.sections "flagValues" (by decide) found (hsame "flagValues" (by decide) ▸ hfound)
    rw [if_neg (not_not.mpr hobject)]
    refine ⟨_, by simp only [hvalued, Checked.ok_bind]; rfl, ?_⟩
    rw [hvalues, List.append_assoc] at hmerged
    rw [← hsegments]
    exact hmerged.addSegments _
  · have hnone : ∀ name, sectionEntries json name = [] := by
      intro name
      refine sectionEntries_of_none ?_
      cases json <;> first | rfl | exact absurd rfl hobject
    rw [if_pos hobject]
    refine ⟨data, rfl, ?_⟩
    rw [flagPlaces, segmentPlaces, hnone, hnone, hnone, ← List.singleton_append, ← List.append_assoc]
    have habsent := (h.absent fun _ => rfl).absent fun _ => rfl
    exact ⟨habsent.flags, habsent.segments.absent fun key => rfl⟩

theorem Merged.addFiles {loadJSONFile : String → Option Json} {filenames : List (Option String)}
    (h : data.Merged flagsSoFar segmentsSoFar)
    (hfiles : ∀ json ∈ filenames.filterMap (·.bind loadJSONFile), WellSectioned json) :
    ∃ next, addFiles loadJSONFile filenames data = .ok next ∧
      next.Merged (flagsSoFar ++ (filenames.filterMap (·.bind loadJSONFile)).flatMap flagPlaces)
        (segmentsSoFar ++ (filenames.filterMap (·.bind loadJSONFile)).flatMap segmentPlaces) := by
  induction filenames generalizing data flagsSoFar segmentsSoFar with
  | nil => exact ⟨data, rfl, by simpa using h.flags, by simpa using h.segments⟩
  | cons filename filenames ih =>
      rw [FileDataSet.addFiles]
      cases hload : filename.bind loadJSONFile with
      | none =>
          have hskip : (filename :: filenames).filterMap (·.bind loadJSONFile) =
              filenames.filterMap (·.bind loadJSONFile) := List.filterMap_cons_none hload
          rw [hskip] at hfiles ⊢
          exact ih h hfiles
      | some json =>
          have hread : (filename :: filenames).filterMap (·.bind loadJSONFile) =
              json :: filenames.filterMap (·.bind loadJSONFile) := List.filterMap_cons_some hload
          rw [hread] at hfiles ⊢
          obtain ⟨hjson, hrest⟩ := List.forall_mem_cons.mp hfiles
          obtain ⟨added, hadded, hmerged⟩ := h.addFile hjson
          simp only [hadded, Checked.ok_bind, List.flatMap_cons, ← List.append_assoc]
          exact ih hmerged hrest

end FileDataSet

theorem file_data_left_biased_union (loadJSONFile : String → Option Json)
    (filenames : List (Option String))
    (hfiles : ∀ json ∈ filenames.filterMap (·.bind loadJSONFile), WellSectioned json) :
    ∃ flags segments, fileDataInit loadJSONFile filenames =
        .ok (.object [("features", flags), ("segments", segments)]) ∧
      FlagUnion flags ((filenames.filterMap (·.bind loadJSONFile)).flatMap flagPlaces) ∧
      UnionOf segments ((filenames.filterMap (·.bind loadJSONFile)).flatMap segmentPlaces) := by
  have hstart : FileDataSet.Merged ⟨.object [], .object []⟩ [] [] := ⟨unites_nothing, unites_nothing⟩
  obtain ⟨data, hdata, hmerged⟩ := hstart.addFiles hfiles
  refine ⟨data.flags, data.segments, ?_, hmerged.flags.flagUnion ?_, hmerged.segments.unionOf⟩
  · rw [fileDataInit, hdata]
    rfl
  · intro place hplace key entry hentry
    obtain ⟨json, hjson, hplace⟩ := List.mem_flatMap.mp hplace
    exact (hfiles json hjson).entry_object hplace hentry

def overlappingFiles : String → Option Json
  | "first" => some (.object [("flags", .object [("shared", .object [("on", .bool false)])]),
      ("flagValues", .object [("shared", .number 3), ("simple", .number 4)])])
  | "second" => some (.object [("segments", .object [("beta", .object [])]),
      ("flagValues", .object [("simple", .number 5), ("late", .bool true)])])
  | "list" => some (.array [])
  | _ => none

theorem overlapping_files_merged : ∃ flags segments, fileDataInit overlappingFiles
      [some "first", none, some "second", some "list", some "missing"] =
        .ok (.object [("features", flags), ("segments", segments)]) ∧
      FlagUnion flags (([some "first", none, some "second", some "list", some "missing"].filterMap
        (·.bind overlappingFiles)).flatMap flagPlaces) ∧
      UnionOf segments (([some "first", none, some "second", some "list", some "missing"].filterMap
        (·.bind overlappingFiles)).flatMap segmentPlaces) := by
  refine file_data_left_biased_union overlappingFiles _ fun json hjson => ?_
  simp [overlappingFiles] at hjson
  obtain rfl | rfl | rfl := hjson
  all_goals
    constructor
    · simp [Json.objectLookup, List.lookup_cons, Json.getType]
    · simp [sectionEntries, Json.objectLookup, List.lookup_cons, Json.iterFields, Json.getType]

def repeatedVersion : Json := .object [("version", .number 5), ("version", .number 7)]

def repeatingFile : String → Option Json
  | "repeating" => some (.object [("flags", .object [("a", repeatedVersion)])])
  | _ => none

theorem repeated_version_kept : ¬ ∀ (loadJSONFile : String → Option Json)
    (filenames : List (Option String)),
    (∀ json ∈ filenames.filterMap (·.bind loadJSONFile), WellSectioned json) →
      ∃ flags segments, fileDataInit loadJSONFile filenames =
          .ok (.object [("features", flags), ("segments", segments)]) ∧
        ∀ key entry, FirstDefines ((filenames.filterMap (·.bind loadJSONFile)).flatMap flagPlaces)
            key (.flag entry) →
          ∃ flag, flags.objectLookup key = some flag ∧ flag.objectLookup "version" = some (.number 1) := by
  intro hclaim
  obtain ⟨flags, segments, hdata, hfirst⟩ := hclaim repeatingFile [some "repeating"] (by
    intro json hjson
    simp [repeatingFile] at hjson
    obtain rfl := hjson
    constructor
    · simp [Json.objectLookup, List.lookup_cons, Json.getType]
    · simp [repeatedVersion, sectionEntries, Json.objectLookup, Json.iterFields, Json.getType])
  have hrun : fileDataInit repeatingFile [some "repeating"] =
      .ok (.object [("features", .object [("a", setVersionAndSalt repeatedVersion)]),
        ("segments", .object [])]) := by
    rfl
  cases hdata.symm.trans hrun
  have hflag : FirstDefines (flagPlaces (.object [("flags", .object [("a", repeatedVersion)])])) "a"
      (.flag repeatedVersion) :=
    ⟨[], _, _, rfl, rfl, fun place hplace => by cases hplace⟩
  obtain ⟨flag, hlookup, hversion⟩ := hfirst "a" repeatedVersion hflag
  cases hlookup
  have hkept : (setVersionAndSalt repeatedVersion).objectLookup "version" = some (.number 7) := rfl
  cases hversion.symm.trans hkept

end ServerSdk
