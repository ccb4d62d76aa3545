import ServerSdk.Evaluate.Coherence
import ServerSdk.Evaluate.Locality
import ServerSdk.Evaluate.Lookups

namespace ServerSdk

open Program

section Answered

variable {σ : Type} {client : Client σ} {c : Content}

def Unlatched (_ : σ) (p : σ × Bool) : Prop := p.2 = false

theorem serves_latched (hw : Serves client.world c) : Serves client.latched.world c :=
  fun kind key p => hw kind key p.1

theorem unlatched_tracks (hw : Serves client.world c) :
    Tracks Unlatched client.world client.latched.world := by
  refine ⟨fun _ _ hp => hp, ?_⟩
  intro kind key s p hp
  have hlatch : p.2 = false := hp
  have hget := hw kind key p.1
  change (p.2 || (client.world.storeGet kind key p.1).1.isNone) = false
  rw [hlatch, hget]
  rfl

theorem evaluate_answered [Externals] (hw : Serves client.world c) {user : User} {fuel : ℕ}
    {flag : Json} {s t : σ} {r : Evaluation}
    (h : evaluate client user fuel flag freshOutputs s = .ok (r, t)) : r.1 ≠ .store := by
  have hagree : Agree c c flag := ⟨fun _ _ => rfl, fun _ _ _ _ => rfl⟩
  have hsim := evaluate_local (unlatched_tracks hw) rfl hw (serves_latched hw) hagree user fuel
    freshOutputs s (s, false) rfl
  rw [h] at hsim
  cases hl : evaluate client.latched user fuel flag freshOutputs (s, false) with
  | error e =>
      rw [hl] at hsim
      exact hsim.elim
  | ok q =>
      rw [hl] at hsim
      obtain ⟨hsame, hunlatched⟩ := hsim
      have hlatched : q.2.2 = true ↔ q.1.1 = .store :=
        evaluateWith_latched (evaluateNested_latched fuel) flag freshOutputs rfl q.1 q.2 hl
      have hstatus : r.1 = q.1.1 := hsame.1
      intro hstore
      have htrue : q.2.2 = true := hlatched.mpr (hstatus.symm.trans hstore)
      rw [show q.2.2 = false from hunlatched] at htrue
      cases htrue

end Answered

section Explained

variable {flag : Json} {out : Outputs} {r : Evaluation}

structure Explained (r : Evaluation) : Prop where
  status : r.1 = .schema
  value : r.2.value = none
  details : r.2.details = r.2.details.setError .malformedFlag

theorem explained_of_addValueAs (hobj : flag.getType = .object) {status : EvalStatus}
    (hstatus : isEvalError status = false) {index : Option Json}
    (h : addValueAs status flag index out = .ok r) (herr : isEvalError r.1 = true) :
    Explained r := by
  rw [addValueAs_of_object hobj] at h
  cases h
  cases hfound : valueAt flag index with
  | none => exact ⟨rfl, rfl, rfl⟩
  | some p =>
      rw [hfound] at herr
      have htrue : isEvalError status = true := herr
      rw [hstatus] at htrue
      cases htrue

theorem explained_of_off (hobj : flag.getType = .object)
    (h : evaluateOff flag out = .ok r) (herr : isEvalError r.1 = true) : Explained r := by
  simp only [evaluateOff] at h
  split at h
  · cases h
    cases herr
  · cases h
    cases herr
  · exact explained_of_addValueAs hobj rfl h herr

end Explained

section Unexplained

variable [Externals] {σ : Type}

structure ReachesTargeting (client : Client σ) (user : User) (fuel : ℕ) (flag : Json) (s t : σ) :
    Prop where
  object : flag.getType = .object
  on : (optionalField flag "on" .bool).isTrue = true
  met : ∃ pre, checkPrerequisites client user fuel flag none s = .ok (pre, t) ∧
    pre.status = .matched

structure ReachesRules (user : User) (flag : Json) : Prop where
  targets : optionalField flag "targets" .array ≠ .mistyped
  untargeted : Untargeted user (optionalField flag "targets" .array).items
  rules : optionalField flag "rules" .array ≠ .mistyped

inductive Unlabelled (flag rule : Json) (user : User) : Prop
  | index (h : getIndexForVariationOrRollout flag (some rule) user = .ok none)
  | id {inExperiment : Bool} {variation : Option Json} {v : Json} {i : Nat}
      (hindex : getIndexForVariationOrRollout flag (some rule) user =
        .ok (some (inExperiment, variation)))
      (hvalue : valueAt flag variation = some (v, i)) (h : optionalField rule "id" .text = .mistyped)

inductive Unexplained (client : Client σ) (user : User) (fuel : ℕ) (flag : Json) (s : σ) : Prop
  | malformed (h : flag.getType ≠ .object ∨ optionalField flag "on" .bool = .mistyped)
  | prerequisites {pre : Prerequisites} {t : σ} (hobj : flag.getType = .object)
      (hon : (optionalField flag "on" .bool).isTrue = true)
      (hpre : checkPrerequisites client user fuel flag none s = .ok (pre, t))
      (herr : isEvalError pre.status = true)
  | targeting {t u : σ} {status : EvalStatus} (hreach : ReachesTargeting client user fuel flag s t)
      (h : TargetingFailure client user flag t status u)
  | rule {t u : σ} {n : Nat} {rule : Json} (hreach : ReachesTargeting client user fuel flag s t)
      (hrules : ReachesRules user flag)
      (hfirst : FirstMatch client.world user (optionalField flag "rules" .array).items t n rule u)
      (h : Unlabelled flag rule user)
  | fallthrough {t u : σ} (hreach : ReachesTargeting client user fuel flag s t)
      (hrules : ReachesRules user flag)
      (hno : NoMatch client.world user (optionalField flag "rules" .array).items t u)
      (h : getIndexForVariationOrRollout flag (flag.objectLookup "fallthrough") user = .ok none)

variable {client : Client σ} {user : User} {fuel : ℕ} {flag : Json} {s t : σ} {r : Evaluation}

theorem ReachesTargeting.evaluate (h : ReachesTargeting client user fuel flag s t) :
    ∃ events, evaluate client user fuel flag freshOutputs s =
      evaluateTargeting client user flag { freshOutputs with events := events } t := by
  obtain ⟨pre, hpre, hmatched⟩ := h.met
  refine ⟨pre.events, ?_⟩
  rw [ServerSdk.evaluate, evaluateWith_of_on h.object h.on]
  refine (Run.bind_of_ok hpre).trans ?_
  rw [evaluateAfterPrerequisites, hmatched]

def FailsSilently (r : Evaluation) : Prop :=
  isEvalError r.1 = true ∧ r.2.details.reason ≠ .error

theorem Unlabelled.serveRule {rule : Json} (h : Unlabelled flag rule user)
    (hobj : flag.getType = .object) (hrule : rule.getType = .object) (n : Nat) (out : Outputs) :
    ∃ r, serveRule flag rule n user out = .ok r ∧ FailsSilently r := by
  cases h with
  | index hindex =>
      refine ⟨(.schema, (out.setReason .ruleMatch).setExtra (.rule ⟨n, none, false⟩)), ?_, rfl, ?_⟩
      · rw [ServerSdk.serveRule, hindex, Checked.ok_bind]
        rfl
      · intro hreason
        cases hreason
  | id hindex hvalue hid =>
      refine ⟨_, serveRule_mistyped_id hobj hrule hindex hvalue hid, rfl, ?_⟩
      intro hreason
      cases hreason

theorem Unexplained.evaluate (h : Unexplained client user fuel flag s) :
    ∃ r t, evaluate client user fuel flag freshOutputs s = .ok (r, t) ∧ FailsSilently r := by
  have hblank : ∀ {status : EvalStatus} (events : Option (List Json)),
      isEvalError status = true → FailsSilently (status, { freshOutputs with events := events }) := by
    intro status events herr
    refine ⟨herr, ?_⟩
    intro hreason
    cases hreason
  cases h with
  | malformed hmalformed =>
      refine ⟨_, s, ?_, hblank none (rfl : isEvalError .schema = true)⟩
      by_cases hobj : flag.getType = .object
      · have hon := hmalformed.resolve_left (fun hne => hne hobj)
        rw [ServerSdk.evaluate, evaluateWith_of_mistyped hobj hon]
        rfl
      · rw [ServerSdk.evaluate, evaluateWith_of_not_object hobj]
        rfl
  | @prerequisites pre t hobj hon hpre herr =>
      refine ⟨(pre.status, _), t, ?_, hblank pre.events herr⟩
      rw [ServerSdk.evaluate, evaluateWith_of_on hobj hon]
      refine (Run.bind_of_ok hpre).trans ?_
      rw [evaluateAfterPrerequisites]
      cases hstatus : pre.status with
      | miss =>
          rw [hstatus] at herr
          cases herr
      | matched =>
          rw [hstatus] at herr
          cases herr
      | mem => rfl
      | schema => rfl
      | store => rfl
  | targeting hreach hfailure =>
      obtain ⟨events, heval⟩ := hreach.evaluate
      exact ⟨_, _, heval.trans (evaluateTargeting_of_failure hreach.object _ hfailure),
        hblank events hfailure.error⟩
  | rule hreach hrules hfirst hunlabelled =>
      obtain ⟨events, heval⟩ := hreach.evaluate
      obtain ⟨r, hserve, hsilent⟩ := hunlabelled.serveRule hreach.object hfirst.object _
        { freshOutputs with events := events }
      exact ⟨r, _, heval.trans (evaluateTargeting_of_rule hreach.object _ hrules.targets
        hrules.untargeted hrules.rules hfirst hserve), hsilent⟩
  | fallthrough hreach hrules hno hindex =>
      obtain ⟨events, heval⟩ := hreach.evaluate
      have hfall : evaluateFallthrough flag user { freshOutputs with events := events } =
          .ok (.schema, { freshOutputs with events := events }.setReason .fallthrough) := by
        rw [evaluateFallthrough, hindex, Checked.ok_bind]
        rfl
      refine ⟨_, _, heval.trans (evaluateTargeting_of_fallthrough hreach.object _ hrules.targets
        hrules.untargeted hrules.rules hno hfall), rfl, ?_⟩
      intro hreason
      cases hreason

theorem explained_of_serveRule {rule : Json} {n : Nat} {out : Outputs}
    (hobj : flag.getType = .object) (hrule : rule.getType = .object)
    (h : serveRule flag rule n user out = .ok r) (herr : isEvalError r.1 = true)
    (hlabelled : ¬ Unlabelled flag rule user) : Explained r := by
  cases ruleServed hobj hrule h with
  | index hindex => exact absurd (.index hindex) hlabelled
  | value hindex hvalue => exact ⟨rfl, rfl, rfl⟩
  | id hindex hvalue hid => exact absurd (.id hindex hvalue hid) hlabelled
  | served => cases herr

theorem explained_of_fallthrough {out : Outputs} (hobj : flag.getType = .object)
    (h : evaluateFallthrough flag user out = .ok r) (herr : isEvalError r.1 = true)
    (hindex : getIndexForVariationOrRollout flag (flag.objectLookup "fallthrough") user ≠
      .ok none) : Explained r := by
  obtain ⟨index, hfound, hrest⟩ := Checked.bind_eq_ok.mp h
  cases index with
  | none => exact absurd hfound hindex
  | some p => exact explained_of_addValueAs hobj rfl hrest herr

theorem explained_of_evaluate (h : evaluate client user fuel flag freshOutputs s = .ok (r, t))
    (herr : isEvalError r.1 = true) (hexplained : ¬ Unexplained client user fuel flag s) :
    Explained r := by
  have hexit := evaluateWith_exit h
  cases hexit with
  | malformed hmalformed => exact absurd (.malformed hmalformed) hexplained
  | off hobj _ hr => exact explained_of_off hobj hr herr
  | prerequisiteError hobj hon hpre hfailed =>
      exact absurd (.prerequisites hobj hon hpre hfailed) hexplained
  | prerequisiteFailed hobj _ _ _ hr => exact explained_of_addValueAs hobj rfl hr herr
  | targeting hobj hon hpre hmatched hexit =>
      have hreach : ReachesTargeting client user fuel flag s _ := ⟨hobj, hon, _, hpre, hmatched⟩
      cases hexit with
      | failed hfailure => exact absurd (.targeting hreach hfailure) hexplained
      | target hr => exact explained_of_addValueAs hobj rfl hr herr
      | rule htargets huntargeted hrules hfirst hr =>
          refine explained_of_serveRule hobj hfirst.object hr herr ?_
          intro hunlabelled
          exact hexplained (.rule hreach ⟨htargets, huntargeted, hrules⟩ hfirst hunlabelled)
      | fallthrough htargets huntargeted hrules hno hr =>
          refine explained_of_fallthrough hobj hr herr ?_
          intro hindex
          exact hexplained (.fallthrough hreach ⟨htargets, huntargeted, hrules⟩ hno hindex)

theorem unexplained_iff (h : evaluate client user fuel flag freshOutputs s = .ok (r, t)) :
    Unexplained client user fuel flag s ↔ FailsSilently r := by
  constructor
  · intro hunexplained
    obtain ⟨r', t', heval, hsilent⟩ := hunexplained.evaluate
    rw [h] at heval
    cases heval
    exact hsilent
  · rintro ⟨herr, hreason⟩
    by_contra hexplained
    have hdetails := (explained_of_evaluate h herr hexplained).details
    rw [hdetails] at hreason
    exact hreason rfl

end Unexplained

end ServerSdk
