import ServerSdk.Evaluate.Safety
import ServerSdk.Program.FirstHit

namespace ServerSdk

open Program

def weightOf (entry : Json) : Rat := (requiredField entry "weight" .number).elim 0 Json.getNumber

def variationOf (entry : Json) : Option Json := requiredField entry "variation" .number

def isUntracked (entry : Json) : Bool := (optionalField entry "untracked" .bool).isTrue

structure WeightedVariation (entry : Json) : Prop where
  isObject : entry.getType = .object
  weight : (requiredField entry "weight" .number).isSome
  variation : (requiredField entry "variation" .number).isSome
  untracked : optionalField entry "untracked" .bool ≠ .mistyped

structure Rollout where
  varOrRoll : Json
  rollout : Json
  variations : List Json
  attr : String
  isObject : varOrRoll.getType = .object
  unfixed : optionalField varOrRoll "variation" .number = .absent
  hasRollout : requiredField varOrRoll "rollout" .object = some rollout
  kind : optionalField rollout "kind" .text ≠ .mistyped
  hasVariations : requiredField rollout "variations" .array = some (.array variations)
  nonempty : variations ≠ []
  weighted : ∀ entry ∈ variations, WeightedVariation entry
  bucketBy : bucketAttribute rollout = some attr
  seed : optionalField rollout "seed" .number ≠ .mistyped

namespace Rollout

def weights (r : Rollout) : List Rat := r.variations.map weightOf

def isExperiment (r : Rollout) : Bool :=
  ServerSdk.isExperiment (optionalField r.rollout "kind" .text)

def seedValue (r : Rollout) : Option Int := seedOf (optionalField r.rollout "seed" .number)

def Picks (r : Rollout) (bucket : Rat) (pos : ℕ) : Prop :=
  FirstHit (fun i => bucket < cumulative r.weights i / 100000) r.variations.length pos

theorem isObject_rollout (r : Rollout) : r.rollout.getType = .object :=
  (requiredField_eq_some.mp r.hasRollout).2

end Rollout

theorem Rollout.Picks.mono_bucket {r r' : Rollout} {bucket bucket' : Rat} {pos pos' : ℕ}
    (h : r.Picks bucket pos) (h' : r'.Picks bucket' pos') (hweights : r'.weights = r.weights)
    (hle : bucket ≤ bucket') : pos ≤ pos' := by
  have hlength : r'.variations.length = r.variations.length := by
    simpa [weights] using congrArg List.length hweights
  rw [Picks, hweights, hlength] at h'
  exact h.le_of_imp h' fun i _ hcross => lt_of_le_of_lt hle hcross

theorem Rollout.Picks.anti_weights {r r' : Rollout} {bucket : Rat} {pos pos' : ℕ}
    (h : r.Picks bucket pos) (h' : r'.Picks bucket pos')
    (hlength : r'.weights.length = r.weights.length)
    (hle : ∀ i, cumulative r.weights i ≤ cumulative r'.weights i) : pos' ≤ pos := by
  have hlength : r'.variations.length = r.variations.length := by
    simpa [weights] using hlength
  rw [Picks, ← hlength] at h
  exact h'.le_of_imp h fun i _ hcross =>
    lt_of_lt_of_le hcross (div_le_div_of_nonneg_right (hle i) (by norm_num))

section Select

variable [Externals]

structure ExactArithmetic : Prop where
  roundFloat : ∀ q, Externals.roundFloat q = q
  roundDouble : ∀ q, Externals.roundDouble q = q

theorem ExactArithmetic.weightSum (h : ExactArithmetic) (sum : Rat) (weight : Json) :
    weightSum sum weight = sum + weight.getNumber / 100000 := by
  rw [ServerSdk.weightSum, h.roundDouble, h.roundDouble, h.roundFloat]

theorem WeightedVariation.selectVariation_cons {entry : Json} (h : WeightedVariation entry)
    (hexact : ExactArithmetic) (bucket sum : Rat) (inExperiment : Bool) (last : Option Json × Bool)
    (variations : List Json) :
    selectVariation bucket inExperiment sum last (entry :: variations) =
      if bucket < sum + weightOf entry / 100000 then
        .ok (some (inExperiment && !isUntracked entry, variationOf entry))
      else selectVariation bucket inExperiment (sum + weightOf entry / 100000)
        (variationOf entry, isUntracked entry) variations := by
  obtain ⟨weight, hweight⟩ := Option.isSome_iff_exists.mp h.weight
  obtain ⟨sub, hsub⟩ := Option.isSome_iff_exists.mp h.variation
  have huntracked := h.untracked
  have hsum : Externals.roundFloat (Externals.roundDouble
      (sum + Externals.roundDouble (weight.getNumber / 100000))) =
        sum + weight.getNumber / 100000 := hexact.weightSum sum weight
  simp only [selectVariation, lookupRequired_of_object h.isObject, lookupOptional_of_object h.isObject,
    Checked.ok_bind, hweight, hsub, hsum, weightOf, variationOf, isUntracked, Option.elim_some]
  cases hfield : optionalField entry "untracked" .bool with
  | mistyped => exact absurd hfield huntracked
  | absent => rfl
  | present untracked => rfl

theorem selectVariation_picks (hexact : ExactArithmetic) (bucket : Rat) (inExperiment : Bool)
    {variations : List Json} (hne : variations ≠ [])
    (hweighted : ∀ entry ∈ variations, WeightedVariation entry) (sum : Rat)
    (last : Option Json × Bool) :
    ∃ pos, FirstHit (fun i => bucket < sum + cumulative (variations.map weightOf) i / 100000)
        variations.length pos ∧ ∃ entry, variations[pos]? = some entry ∧
      selectVariation bucket inExperiment sum last variations =
        .ok (some (inExperiment && !isUntracked entry, variationOf entry)) := by
  induction variations generalizing sum last with
  | nil => exact absurd rfl hne
  | cons entry variations ih =>
      rw [List.forall_mem_cons] at hweighted
      rw [hweighted.1.selectVariation_cons hexact]
      by_cases hhit : bucket < sum + weightOf entry / 100000
      · refine ⟨0, .zero ?_, entry, rfl, if_pos hhit⟩
        rwa [List.map_cons, cumulative_cons_zero]
      · rw [if_neg hhit]
        cases variations with
        | nil => exact ⟨0, .single, entry, rfl, rfl⟩
        | cons next rest =>
            obtain ⟨pos, hpos, chosen, hchosen, hselect⟩ := ih (List.cons_ne_nil _ _) hweighted.2
              (sum + weightOf entry / 100000) (variationOf entry, isUntracked entry)
            refine ⟨pos + 1, .succ ?_ (hpos.congr fun i => ?_), chosen, hchosen, hselect⟩
            · rwa [List.map_cons, cumulative_cons_zero]
            · simp only [List.map_cons, cumulative_cons_succ, add_div, add_assoc]

namespace Rollout

def Buckets (r : Rollout) (user : User) (key salt : String) (bucket : Rat) : Prop :=
  ∃ found, bucketUser user key r.attr salt r.seedValue = .ok (found, bucket)

structure Selects (r : Rollout) (user : User) (key salt : String) (bucket : Rat) (pos : ℕ) :
    Prop where
  picks : r.Picks bucket pos
  selected : ∃ entry index, r.variations[pos]? = some entry ∧ variationOf entry = some index ∧
    variationIndexForUser r.varOrRoll user key salt =
      .ok (some (r.isExperiment && !isUntracked entry, some index))

theorem variationIndexForUser_eq (r : Rollout) (user : User) (key salt : String) :
    variationIndexForUser r.varOrRoll user key salt =
      bucketVariations user key r.attr salt r.seedValue r.isExperiment r.variations := by
  have hsize : (Json.array r.variations).collectionGetSize ≠ 0 := by
    simpa [Json.collectionGetSize, Json.getIter] using r.nonempty
  have hkind := r.kind
  have hseed := r.seed
  rw [variationIndexForUser, lookupOptional_of_object r.isObject, Checked.ok_bind, r.unfixed,
    lookupRequired_of_object r.isObject, Checked.ok_bind, r.hasRollout]
  simp only [rolloutVariation, lookupOptional_of_object r.isObject_rollout,
    lookupRequired_of_object r.isObject_rollout, getBucketAttribute_of_object r.isObject_rollout,
    Checked.ok_bind, r.hasVariations, r.bucketBy, if_neg hsize, isExperiment, seedValue]
  cases hfield : optionalField r.rollout "kind" .text with
  | mistyped => exact absurd hfield hkind
  | absent =>
      cases hfield' : optionalField r.rollout "seed" .number with
      | mistyped => exact absurd hfield' hseed
      | absent => rfl
      | present seed => rfl
  | present kind =>
      cases hfield' : optionalField r.rollout "seed" .number with
      | mistyped => exact absurd hfield' hseed
      | absent => rfl
      | present seed => rfl

theorem exists_selects (r : Rollout) (hexact : ExactArithmetic) {user : User} {key salt : String}
    {bucket : Rat} (h : r.Buckets user key salt bucket) :
    ∃ pos, r.Selects user key salt bucket pos := by
  obtain ⟨found, hbucket⟩ := h
  obtain ⟨pos, hpos, entry, hentry, hselect⟩ :=
    selectVariation_picks hexact bucket r.isExperiment r.nonempty r.weighted 0 (none, false)
  obtain ⟨index, hindex⟩ := Option.isSome_iff_exists.mp
    (r.weighted entry (List.mem_of_getElem? hentry)).variation
  have hindex : variationOf entry = some index := hindex
  refine ⟨pos, hpos.congr fun i => ?_, entry, index, hentry, hindex, ?_⟩
  · rw [zero_add, weights]
  · rw [r.variationIndexForUser_eq, bucketVariations, hbucket, Checked.ok_bind, ← hindex]
    exact hselect

end Rollout

theorem rollout_selects_by_cumulative_weight (hexact : ExactArithmetic) (r : Rollout) (user : User)
    (key salt : String) (bucket : Rat) (hbucket : r.Buckets user key salt bucket) :
    (∃ pos, r.Selects user key salt bucket pos) ∧
      ∀ pos, r.Selects user key salt bucket pos →
        ∀ (r' : Rollout) (user' : User) (key' salt' : String) (bucket' : Rat) (pos' : ℕ),
          r'.Selects user' key' salt' bucket' pos' →
          (r'.weights = r.weights → bucket ≤ bucket' → pos ≤ pos') ∧
          (bucket' = bucket → r'.weights.length = r.weights.length →
            (∀ i, cumulative r.weights i ≤ cumulative r'.weights i) → pos' ≤ pos) := by
  refine ⟨r.exists_selects hexact hbucket, ?_⟩
  intro pos h r' user' key' salt' bucket' pos' h'
  refine ⟨fun hweights hle => h.picks.mono_bucket h'.picks hweights hle, ?_⟩
  rintro rfl hlength hle
  exact h.picks.anti_weights h'.picks hlength hle

end Select

def weightedEntry (variation weight : Rat) (untracked : Bool) : Json :=
  .object [("variation", .number variation), ("weight", .number weight),
    ("untracked", .bool untracked)]

def splitVariations : List Json := [weightedEntry 0 30000 false, weightedEntry 1 70000 true]

def splitExperiment : Json :=
  .object [("kind", .text "experiment"), ("variations", .array splitVariations)]

def splitRollout : Rollout where
  varOrRoll := .object [("rollout", splitExperiment)]
  rollout := splitExperiment
  variations := splitVariations
  attr := "key"
  isObject := rfl
  unfixed := rfl
  hasRollout := rfl
  kind := nofun
  hasVariations := rfl
  nonempty := nofun
  weighted := by
    rw [splitVariations, List.forall_mem_cons, List.forall_mem_singleton]
    exact ⟨⟨rfl, rfl, rfl, nofun⟩, ⟨rfl, rfl, rfl, nofun⟩⟩
  bucketBy := rfl
  seed := nofun

theorem literal_exactArithmetic : @ExactArithmetic literalExternals :=
  @ExactArithmetic.mk literalExternals (fun _ => rfl) fun _ => rfl

theorem split_rollout_selects : ∃ bucket pos,
    @Rollout.Selects literalExternals splitRollout (userNew "u") "flag" "salt" bucket pos := by
  obtain ⟨⟨found, bucket⟩, hbucket⟩ := (@bucketUser_returns literalExternals (userNew "u")
    literal_hexifyFits "flag" "key" "salt" none).mpr nofun
  exact ⟨bucket, (@rollout_selects_by_cumulative_weight literalExternals literal_exactArithmetic
    splitRollout (userNew "u") "flag" "salt" bucket ⟨found, hbucket⟩).1⟩

end ServerSdk
