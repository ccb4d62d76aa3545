import ServerSdk.Evaluate.Exits
import ServerSdk.Evaluate.Termination

namespace ServerSdk

open Program

def Blank (out : Outputs) : Prop := out.value = none ∧ out.details.hasVariation = false

def ServesVariation (flag : Json) (out : Outputs) : Prop :=
  ∃ variations v, flag.objectLookup "variations" = some (.array variations) ∧
    out.details.variationIndex < variations.length ∧
    variations[out.details.variationIndex]? = some v ∧ out.value = some v

section Settled

variable {flag : Json} {out : Outputs} {status : EvalStatus} {index : Option Json}

theorem settled_error (hstatus : isEvalError status = false)
    (herr : isEvalError (settled status out (valueAt flag index)).1 = true) :
    Blank (settled status out (valueAt flag index)).2 := by
  cases hfound : valueAt flag index with
  | none => exact ⟨rfl, rfl⟩
  | some p =>
      rw [hfound] at herr
      have hfalse : isEvalError status = true := herr
      rw [hstatus] at hfalse
      cases hfalse

theorem settled_serves (herr : isEvalError (settled status out (valueAt flag index)).1 = false) :
    (settled status out (valueAt flag index)).2.details.hasVariation = true ∧
      ServesVariation flag (settled status out (valueAt flag index)).2 := by
  cases hfound : valueAt flag index with
  | none =>
      rw [hfound] at herr
      cases herr
  | some p =>
      obtain ⟨v, i⟩ := p
      obtain ⟨variations, hvars, hlookup⟩ := valueAt_eq_some hfound
      obtain ⟨hfield, htype⟩ := requiredField_eq_some.mp hvars
      obtain ⟨items, rfl⟩ := Json.getType_eq_array.mp htype
      have hi : i < 2 ^ 31 ∧ items[i]? = some v := by
        simp only [Json.arrayLookup] at hlookup
        split_ifs at hlookup with hlt
        exact ⟨hlt, hlookup⟩
      have hlen : i < items.length := (List.getElem?_eq_some_iff.mp hi.2).1
      exact ⟨rfl, items, v, hfield, hlen, hi.2, rfl⟩

end Settled

def PrerequisiteMissed {σ : Type} [Externals] (client : Client σ) (user : User) (fuel : Nat)
    (flag : Json) (s : σ) : Prop :=
  ∃ pre t, checkPrerequisites client user fuel flag none s = .ok (pre, t) ∧ pre.status = .miss

structure Coherent {σ : Type} [Externals] (client : Client σ) (user : User) (fuel : Nat)
    (flag : Json) (s : σ) (r : Evaluation) : Prop where
  error : isEvalError r.1 = true → Blank r.2
  served : isEvalError r.1 = false → r.2.details.hasVariation = true → ServesVariation flag r.2
  unserved : isEvalError r.1 = false → r.2.details.hasVariation = false → r.2.value = none ∧
    ((optionalField flag "on" .bool).isTrue = false ∨ PrerequisiteMissed client user fuel flag s)

structure MislabelledRule {σ : Type} [Externals] (client : Client σ) (user : User) (fuel : Nat)
    (flag : Json) (s : σ) (v : Json) : Prop where
  object : flag.getType = .object
  on : (optionalField flag "on" .bool).isTrue = true
  targets : optionalField flag "targets" .array ≠ .mistyped
  untargeted : Untargeted user (optionalField flag "targets" .array).items
  rules : optionalField flag "rules" .array ≠ .mistyped
  served : ∃ pre t n rule u inExperiment variation i,
    checkPrerequisites client user fuel flag none s = .ok (pre, t) ∧ pre.status = .matched ∧
    FirstMatch client.world user (optionalField flag "rules" .array).items t n rule u ∧
    getIndexForVariationOrRollout flag (some rule) user = .ok (some (inExperiment, variation)) ∧
    valueAt flag variation = some (v, i) ∧ optionalField rule "id" .text = .mistyped

section Rule

variable [Externals] {flag rule : Json} {n : Nat} {user : User} {out : Outputs}

theorem serveRule_mistyped_id (hobj : flag.getType = .object) (hrule : rule.getType = .object)
    {inExperiment : Bool} {variation : Option Json} {v : Json} {i : Nat}
    (hindex : getIndexForVariationOrRollout flag (some rule) user =
      .ok (some (inExperiment, variation)))
    (hvalue : valueAt flag variation = some (v, i))
    (hid : optionalField rule "id" .text = .mistyped) :
    serveRule flag rule n user out =
      .ok (.schema, ((out.setReason .ruleMatch).setExtra (.rule ⟨n, none, inExperiment⟩)).serve v i) := by
  simp only [serveRule, hindex, Checked.ok_bind, addValue_of_object hobj, hvalue,
    Option.isSome_some, if_true, lookupOptional_of_object hrule, hid]
  rfl

theorem serveRule_eq_ok (hobj : flag.getType = .object) (hrule : rule.getType = .object)
    {r : Evaluation} (h : serveRule flag rule n user out = .ok r) (hblank : Blank out) :
    (isEvalError r.1 = true ∧ Blank r.2) ∨
    (isEvalError r.1 = false ∧ r.2.details.hasVariation = true ∧ ServesVariation flag r.2) ∨
    (∃ inExperiment variation v i, getIndexForVariationOrRollout flag (some rule) user =
        .ok (some (inExperiment, variation)) ∧ valueAt flag variation = some (v, i) ∧
      optionalField rule "id" .text = .mistyped) := by
  cases ruleServed hobj hrule h with
  | index hindex => exact .inl ⟨rfl, hblank⟩
  | value hindex hvalue => exact .inl ⟨rfl, rfl, rfl⟩
  | @id inExperiment variation v i hindex hvalue hid =>
      exact .inr (.inr ⟨inExperiment, variation, v, i, hindex, hvalue, hid⟩)
  | @served inExperiment variation v i id hindex hvalue =>
      have herr : isEvalError (settled .matched
          ((out.setReason .ruleMatch).setExtra (.rule ⟨n, id, inExperiment⟩))
          (valueAt flag variation)).1 = false := by
        rw [hvalue]
        rfl
      have hserves := settled_serves herr
      rw [hvalue] at hserves
      exact .inr (.inl ⟨rfl, hserves⟩)

end Rule

section Flag

variable [Externals] {σ : Type} {client : Client σ} {user : User} {fuel : Nat} {flag : Json}
  {s t : σ} {r : Evaluation}

theorem coherent_of_blank (herr : isEvalError r.1 = true) (h : Blank r.2) :
    Coherent client user fuel flag s r := by
  refine ⟨fun _ => h, ?_, ?_⟩
  · intro hok
    rw [herr] at hok
    cases hok
  · intro hok
    rw [herr] at hok
    cases hok

theorem coherent_of_served (hok : isEvalError r.1 = false) (hvar : r.2.details.hasVariation = true)
    (h : ServesVariation flag r.2) : Coherent client user fuel flag s r := by
  refine ⟨?_, fun _ _ => h, ?_⟩
  · intro herr
    rw [hok] at herr
    cases herr
  · intro _ hnone
    rw [hvar] at hnone
    cases hnone

theorem coherent_of_unserved (h : Blank r.2)
    (hoff : (optionalField flag "on" .bool).isTrue = false) :
    Coherent client user fuel flag s r := by
  refine ⟨fun _ => h, ?_, fun _ _ => ⟨h.1, .inl hoff⟩⟩
  intro _ hvar
  rw [h.2] at hvar
  cases hvar

theorem coherent_of_addValueAs (hobj : flag.getType = .object) {status : EvalStatus}
    (hstatus : isEvalError status = false) {index : Option Json} {out : Outputs}
    (h : addValueAs status flag index out = .ok r) : Coherent client user fuel flag s r := by
  rw [addValueAs_of_object hobj] at h
  cases h
  cases herr : isEvalError (settled status out (valueAt flag index)).1 with
  | true => exact coherent_of_blank herr (settled_error hstatus herr)
  | false =>
      obtain ⟨hvar, hserves⟩ := settled_serves herr
      exact coherent_of_served herr hvar hserves

theorem coherent_of_off (hobj : flag.getType = .object)
    (hoff : (optionalField flag "on" .bool).isTrue = false)
    (h : evaluateOff flag freshOutputs = .ok r) : Coherent client user fuel flag s r := by
  simp only [evaluateOff] at h
  split at h
  · cases h
    exact coherent_of_unserved ⟨rfl, rfl⟩ hoff
  · cases h
    exact coherent_of_unserved ⟨rfl, rfl⟩ hoff
  · exact coherent_of_addValueAs hobj rfl h

theorem coherent_of_fallthrough (hobj : flag.getType = .object) {out : Outputs}
    (hblank : Blank out) (h : evaluateFallthrough flag user out = .ok r) :
    Coherent client user fuel flag s r := by
  obtain ⟨index, -, hrest⟩ := Checked.bind_eq_ok.mp h
  cases index with
  | none =>
      cases hrest
      exact coherent_of_blank rfl hblank
  | some p => exact coherent_of_addValueAs hobj rfl hrest

theorem MislabelledRule.evaluate {v : Json} (h : MislabelledRule client user fuel flag s v) :
    ∃ out t, evaluate client user fuel flag freshOutputs s = .ok ((.schema, out), t) ∧
      out.value = some v := by
  obtain ⟨pre, u, n, rule, t, inExperiment, variation, i, hpre, hmatched, hfirst, hindex, hvalue,
    hid⟩ := h.served
  have hserve : ∀ out : Outputs, ∃ r : Outputs,
      serveRule flag rule n user out = .ok (.schema, r) ∧ r.value = some v :=
    fun out => ⟨_, serveRule_mistyped_id h.object hfirst.object hindex hvalue hid, rfl⟩
  obtain ⟨out, hout, hv⟩ := hserve { freshOutputs with events := pre.events }
  refine ⟨out, t, ?_, hv⟩
  rw [ServerSdk.evaluate, evaluateWith_of_on h.object h.on]
  refine (Run.bind_of_ok hpre).trans ?_
  simp only [evaluateAfterPrerequisites, hmatched]
  exact evaluateTargeting_of_rule h.object _ h.targets h.untargeted h.rules hfirst hout

theorem coherent_of_wellLabelled (h : evaluate client user fuel flag freshOutputs s = .ok (r, t))
    (hrule : ¬ ∃ v, MislabelledRule client user fuel flag s v) :
    Coherent client user fuel flag s r := by
  have hexit := evaluateWith_exit h
  cases hexit with
  | malformed _ => exact coherent_of_blank rfl ⟨rfl, rfl⟩
  | off hobj hoff hr => exact coherent_of_off hobj hoff hr
  | prerequisiteError _ _ _ herr => exact coherent_of_blank herr ⟨rfl, rfl⟩
  | prerequisiteFailed hobj _ _ _ hr => exact coherent_of_addValueAs hobj rfl hr
  | @targeting pre u _ _ hobj hon hpre hmatched hexit =>
      cases hexit with
      | failed hfailure => exact coherent_of_blank hfailure.error ⟨rfl, rfl⟩
      | target hr => exact coherent_of_addValueAs hobj rfl hr
      | fallthrough _ _ _ _ hr => exact coherent_of_fallthrough hobj ⟨rfl, rfl⟩ hr
      | @rule n rule _ _ htargets huntargeted hrules hfirst hr =>
          rcases serveRule_eq_ok hobj hfirst.object hr ⟨rfl, rfl⟩ with
            ⟨herr, hblank⟩ | ⟨hok, hvar, hserves⟩ | ⟨inExperiment, variation, v, i, hindex, hvalue, hid⟩
          · exact coherent_of_blank herr hblank
          · exact coherent_of_served hok hvar hserves
          · refine absurd ⟨v, ⟨hobj, hon, htargets, huntargeted, hrules, ?_⟩⟩ hrule
            exact ⟨pre, u, n, rule, t, inExperiment, variation, i, hpre, hmatched, hfirst, hindex,
              hvalue, hid⟩

theorem mislabelledRule_of_value {out : Outputs} {v : Json} {status : EvalStatus}
    (h : evaluate client user fuel flag freshOutputs s = .ok ((status, out), t))
    (herr : isEvalError status = true) (hv : out.value = some v) :
    MislabelledRule client user fuel flag s v := by
  by_cases hrule : ∃ v, MislabelledRule client user fuel flag s v
  · obtain ⟨v', hrule⟩ := hrule
    obtain ⟨out', u, heval, hvalue⟩ := hrule.evaluate
    rw [heval] at h
    cases h
    rw [hvalue, Option.some.injEq] at hv
    exact hv ▸ hrule
  · have hnone : out.value = none := ((coherent_of_wellLabelled h hrule).error herr).1
    rw [hv] at hnone
    cases hnone

theorem evaluate_coherent_iff (h : evaluate client user fuel flag freshOutputs s = .ok (r, t)) :
    Coherent client user fuel flag s r ↔ ¬ ∃ v, MislabelledRule client user fuel flag s v := by
  constructor
  · rintro hcoherent ⟨v, hrule⟩
    obtain ⟨out, u, heval, hvalue⟩ := hrule.evaluate
    rw [heval] at h
    cases h
    have hnone : out.value = none := (hcoherent.error rfl).1
    rw [hvalue] at hnone
    cases hnone
  · exact coherent_of_wellLabelled h

end Flag

structure SwitchedOff (flag flag' : Json) : Prop where
  type : flag'.getType = flag.getType
  off : flag'.objectLookup "on" = some (.bool false)
  others : ∀ key, key ≠ "on" → flag'.objectLookup key = flag.objectLookup key

structure OffPathsAgree (r r' : Evaluation) (failedKey : String) : Prop where
  status : r.1 = r'.1
  value : r.2.value = r'.2.value
  hasVariation : r.2.details.hasVariation = r'.2.details.hasVariation
  variationIndex : r.2.details.variationIndex = r'.2.details.variationIndex
  reasons : isEvalError r.1 = false → r.2.details.reason = .prerequisiteFailed ∧
    r.2.details.extra = .prerequisiteKey failedKey ∧ r'.2.details.reason = .off
  errors : isEvalError r.1 = true → r.2.details.reason = r'.2.details.reason ∧
    r.2.details.extra = r'.2.details.extra

theorem valueAt_congr {flag flag' : Json}
    (h : flag'.objectLookup "variations" = flag.objectLookup "variations") (index : Option Json) :
    valueAt flag' index = valueAt flag index := by
  simp only [valueAt, requiredField, h]

theorem settled_offPathsAgree (found : Option (Json × Nat)) (events : Option (List Json))
    (key : String) :
    OffPathsAgree
      (settled .miss (({ freshOutputs with events := events }.setReason
        .prerequisiteFailed).setExtra (.prerequisiteKey key)) found)
      (settled .miss (freshOutputs.setReason .off) found) key := by
  cases found with
  | none =>
      refine ⟨rfl, rfl, rfl, rfl, ?_, fun _ => ⟨rfl, rfl⟩⟩
      intro hok
      cases hok
  | some p =>
      refine ⟨rfl, rfl, rfl, rfl, fun _ => ⟨rfl, rfl, rfl⟩, ?_⟩
      intro herr
      cases herr

section OffPaths

variable [Externals] {σ : Type} {client : Client σ} {user : User} {fuel : Nat}
  {flag flag' : Json} {s t : σ} {pre : Prerequisites}

theorem evaluate_prerequisiteFailed (hobj : flag.getType = .object)
    (hon : (optionalField flag "on" .bool).isTrue = true)
    (hpre : checkPrerequisites client user fuel flag none s = .ok (pre, t))
    (hmiss : pre.status = .miss) {key : String} (hkey : pre.failedKey = some key) :
    evaluate client user fuel flag freshOutputs s =
      .ok (settled .miss (({ freshOutputs with events := pre.events }.setReason
        .prerequisiteFailed).setExtra (.prerequisiteKey key))
        (valueAt flag (flag.objectLookup "offVariation")), t) := by
  rw [evaluate, evaluateWith_of_on hobj hon]
  refine (Run.bind_of_ok hpre).trans ?_
  simp only [evaluateAfterPrerequisites, hmiss, hkey, evaluatePrerequisiteFailed,
    addValueAs_of_object hobj, Option.getD_some]
  rfl

theorem evaluate_switchedOff (hobj : flag.getType = .object) (h : SwitchedOff flag flag') (u : σ) :
    evaluate client user fuel flag' freshOutputs u =
      .ok (if Json.notNull (flag.objectLookup "offVariation") then
          settled .miss (freshOutputs.setReason .off)
            (valueAt flag (flag.objectLookup "offVariation"))
        else (.miss, freshOutputs.setReason .off), u) := by
  have hobj' : flag'.getType = .object := h.type.trans hobj
  have hfield : optionalField flag' "on" .bool = .present (.bool false) :=
    optionalField_eq_present.mpr ⟨h.off, by simp [Json.getType], rfl⟩
  have hoff : (optionalField flag' "on" .bool).isTrue = false := by
    rw [hfield]
    rfl
  rw [evaluate, evaluateWith_of_off hobj' (by rw [hfield]; simp) hoff]
  have hlookup := h.others "offVariation" (by decide)
  have hvalue : ∀ index, valueAt flag' index = valueAt flag index :=
    valueAt_congr (h.others "variations" (by decide))
  simp only [evaluateOff, hlookup, addValueAs_of_object hobj', hvalue]
  cases flag.objectLookup "offVariation" with
  | none => rfl
  | some off => cases off <;> rfl

theorem off_paths_agree_iff (hobj : flag.getType = .object)
    (hon : (optionalField flag "on" .bool).isTrue = true)
    (hpre : checkPrerequisites client user fuel flag none s = .ok (pre, t))
    (hmiss : pre.status = .miss) (hoff : SwitchedOff flag flag') (u : σ) :
    ∃ key r r', pre.failedKey = some key ∧
      evaluate client user fuel flag freshOutputs s = .ok (r, t) ∧
      evaluate client user fuel flag' freshOutputs u = .ok (r', u) ∧
      (OffPathsAgree r r' key ↔
        ∃ off, flag.objectLookup "offVariation" = some off ∧ off ≠ .null) := by
  obtain ⟨key, hkey⟩ := checkPrerequisitesWith_failedKey hobj hpre hmiss
  refine ⟨key, _, _, hkey, evaluate_prerequisiteFailed hobj hon hpre hmiss hkey,
    evaluate_switchedOff hobj hoff u, ?_⟩
  rw [← Json.notNull_iff]
  cases hnull : Json.notNull (flag.objectLookup "offVariation") with
  | true =>
      simp only [if_true, iff_true]
      exact settled_offPathsAgree _ _ _
  | false =>
      have hnone : valueAt flag (flag.objectLookup "offVariation") = none := by
        cases hlookup : flag.objectLookup "offVariation" with
        | none => rfl
        | some off =>
            rw [hlookup] at hnull
            cases off <;> first | rfl | cases hnull
      rw [hnone]
      constructor
      · intro hagree
        cases hagree.status
      · intro hfalse
        cases hfalse

end OffPaths

def orphanFlag (on : Bool) (off : List (String × Json)) : Json :=
  .object ([("on", .bool on), ("key", .text "a"),
    ("prerequisites", .array [.object [("key", .text "b"), ("variation", .number 0)]]),
    ("variations", .array [.bool true])] ++ off)

theorem orphanFlag_switchedOff (off : List (String × Json)) :
    SwitchedOff (orphanFlag true off) (orphanFlag false off) := by
  refine ⟨rfl, rfl, ?_⟩
  intro key hkey
  simp only [orphanFlag, Json.objectLookup, List.cons_append, List.lookup_cons,
    beq_false_of_ne hkey]

def mislabelledFlag : Json :=
  .object [("key", .text "a"), ("on", .bool true), ("salt", .text ""),
    ("rules", .array [.object [("id", .number 5), ("variation", .number 0)]]),
    ("variations", .array [.bool true])]

def mislabelledContent : Content := ⟨[("a", mislabelledFlag)], []⟩

section Fixed

attribute [local instance] literalExternals

theorem orphan_off_paths_differ :
    ∃ r r', evaluate (Content.client ⟨[], []⟩) (userNew "u") 0 (orphanFlag true []) freshOutputs () =
        .ok (r, ()) ∧
      evaluate (Content.client ⟨[], []⟩) (userNew "u") 0 (orphanFlag false []) freshOutputs () =
        .ok (r', ()) ∧ ¬ OffPathsAgree r r' "b" := by
  refine ⟨_, _, rfl, rfl, ?_⟩
  intro h
  cases h.status

theorem orphan_off_paths_agree :
    ∃ key r r',
      evaluate (Content.client ⟨[], []⟩) (userNew "u") 0
        (orphanFlag true [("offVariation", .number 0)]) freshOutputs () = .ok (r, ()) ∧
      evaluate (Content.client ⟨[], []⟩) (userNew "u") 0
        (orphanFlag false [("offVariation", .number 0)]) freshOutputs () = .ok (r', ()) ∧
      OffPathsAgree r r' key := by
  have hpre : checkPrerequisites (Content.client ⟨[], []⟩) (userNew "u") 0
      (orphanFlag true [("offVariation", .number 0)]) none () =
        .ok (⟨.miss, some "b", none⟩, ()) := rfl
  obtain ⟨key, r, r', -, hr, hr', hiff⟩ := off_paths_agree_iff rfl rfl hpre rfl
    (orphanFlag_switchedOff [("offVariation", .number 0)]) ()
  exact ⟨key, r, r', hr, hr', hiff.mpr ⟨.number 0, by decide, by decide⟩⟩

theorem mislabelled_evaluate :
    evaluate mislabelledContent.client (userNew "u") 0 mislabelledFlag freshOutputs () =
      .ok ((.schema, ⟨⟨0, true, .ruleMatch, .rule ⟨0, none, false⟩⟩, none, some (.bool true)⟩), ()) := by
  rfl

theorem mislabelled_not_coherent :
    ∃ r t, evaluate mislabelledContent.client (userNew "u") 0 mislabelledFlag freshOutputs () =
      .ok (r, t) ∧ ¬ Coherent mislabelledContent.client (userNew "u") 0 mislabelledFlag () r := by
  refine ⟨_, _, mislabelled_evaluate, ?_⟩
  intro h
  have hnone := (h.error rfl).1
  cases hnone

theorem family_coherent_iff :
    ∃ r t, evaluate familyContent.client (userNew "u") 2 parentFlag freshOutputs () = .ok (r, t) ∧
      (Coherent familyContent.client (userNew "u") 2 parentFlag () r ↔
        ¬ ∃ v, MislabelledRule familyContent.client (userNew "u") 2 parentFlag () v) := by
  have heval : ∃ out, evaluate familyContent.client (userNew "u") 2 parentFlag freshOutputs () =
      .ok ((.matched, out), ()) := ⟨_, rfl⟩
  obtain ⟨out, hout⟩ := heval
  exact ⟨_, _, hout, evaluate_coherent_iff hout⟩

end Fixed

end ServerSdk
