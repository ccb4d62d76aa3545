import ServerSdk.Evaluate.Locality

namespace ServerSdk

open Program

structure AlikeContent (c c' : Content) : Prop where
  flags : ∀ key, Option.Rel SameFlag (c.get .flag key) (c'.get .flag key)
  segments : ∀ key, c.get .segment key = c'.get .segment key

theorem AlikeContent.refl (c : Content) : AlikeContent c c := by
  refine ⟨?_, fun _ => rfl⟩
  intro key
  cases c.get .flag key with
  | none => exact .none
  | some g => exact .some (.refl g)

section Attempts

variable [Externals] {σ τ : Type}

inductive Reached (client : Client σ) (user : User) (c : Content) (flag : Json) : Json → Prop
  | start : Reached client user c flag flag
  | next {f g : Json} {key : String} {n : ℕ} (hf : Reached client user c flag f)
      (hlooks : LooksUp client user (evaluateNested client user n) f key)
      (hget : c.get .flag key = some g) : Reached client user c flag g

structure Attempted (client : Client σ) (user : User) (c : Content) (flag g : Json) : Prop where
  reached : ∃ f key n, Reached client user c flag f ∧
    LooksUp client user (evaluateNested client user n) f key ∧ c.get .flag key = some g
  evaluated : ∃ n e, Run.Yields (evaluateNested client user n g) e ∧ isEvalError e.1 = false

def EventsMatch (Ev : Json → Json → Prop) (client : Client σ) (client' : Client τ) (user : User)
    (c c' : Content) (flag flag' : Json) : Prop :=
  ∀ f f' key g g' t t' sub sub', c.get .flag key = some g → c'.get .flag key = some g' →
    Attempted client user c flag g → Attempted client' user c' flag' g' → SameFlag g g' →
    SameOutputs Ev sub sub' →
    Checked.Alike (Option.Rel Ev) (prerequisiteEvent client user f key g t sub)
      (prerequisiteEvent client' user f' key g' t' sub')

variable {Ev : Json → Json → Prop} {client : Client σ} {client' : Client τ} {user : User}
  {c c' : Content} {flag flag' : Json} (hw : Serves client.world c) (hw' : Serves client'.world c')
  (hsame : AlikeContent c c') (hevents : EventsMatch Ev client client' user c c' flag flag')
include hw hw' hsame hevents

theorem evaluateWith_attempts {n : ℕ} {f f' : Json} (hf : Reached client user c flag f)
    (hf' : Reached client' user c' flag' f') (hff : SameFlag f f') {out out' : Outputs}
    (ho : SameOutputs Ev out out')
    (hev : ∀ g g', Reached client user c flag g → Reached client' user c' flag' g' →
      SameFlag g g' → Run.Sim Policy.exact AnyState (SameEvaluation Ev)
        (evaluateNested client user n g) (evaluateNested client' user n g')) :
    Run.Sim Policy.exact AnyState (SameEvaluation Ev)
      (evaluateWith client user (evaluateNested client user n) f out)
      (evaluateWith client' user (evaluateNested client' user n) f' out') := by
  refine evaluateWith_sim (T := fun _ _ => True) Policy.exact_fair
    (Run.sim_ask fun _ _ _ => ⟨trivial, trivial⟩) hff ho ?_ ?_
  · intro key hlooks hlooks'
    refine Run.sim_ask (fun s t _ => ⟨?_, trivial⟩)
    rw [hw, hw']
    refine .some ?_
    have hrel := hsame.flags key
    generalize hget : c.get .flag key = found at hrel
    generalize hget' : c'.get .flag key = found' at hrel
    cases hrel with
    | none => exact .none
    | @some g g' hgg =>
        refine .some ⟨hgg, hev g g' (hf.next hlooks hget) (hf'.next hlooks' hget') hgg, ?_⟩
        intro t t' e e' _ hy hy' herr he
        have herr' : isEvalError e'.1 = false := by
          rw [← he.1]
          exact herr
        exact hevents f f' key g g' t t' e.2 e'.2 hget hget' ⟨⟨f, key, n, hf, hlooks, hget⟩, n, e, hy, herr⟩
          ⟨⟨f', key, n, hf', hlooks', hget'⟩, n, e', hy', herr'⟩ hgg he.2
  · intro key _
    refine Run.sim_ask (fun s t _ => ⟨?_, trivial⟩)
    rw [hw, hw', hsame.segments key]

theorem evaluateNested_attempts (n : ℕ) :
    ∀ g g', Reached client user c flag g → Reached client' user c' flag' g' → SameFlag g g' →
      Run.Sim Policy.exact AnyState (SameEvaluation Ev) (evaluateNested client user n g)
        (evaluateNested client' user n g') := by
  induction n with
  | zero =>
      intro g g' _ _ _ s t _
      exact .inr rfl
  | succ n ih =>
      intro g g' hg hg' hgg
      have hfresh : SameOutputs Ev freshOutputs freshOutputs := ⟨rfl, rfl, .none⟩
      exact evaluateWith_attempts hw hw' hsame hevents hg hg' hgg hfresh ih

theorem evaluate_attempts (hflag : SameFlag flag flag') (fuel : ℕ) :
    Run.Sim Policy.exact AnyState (SameEvaluation Ev) (evaluate client user fuel flag freshOutputs)
      (evaluate client' user fuel flag' freshOutputs) := by
  have hfresh : SameOutputs Ev freshOutputs freshOutputs := ⟨rfl, rfl, .none⟩
  exact evaluateWith_attempts hw hw' hsame hevents .start .start hflag hfresh
    (evaluateNested_attempts hw hw' hsame hevents fuel)

end Attempts

end ServerSdk
