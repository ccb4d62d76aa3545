import ServerSdk.Evaluate.Simulation

namespace ServerSdk

open Program

structure Content where
  flags : List (String × Json)
  segments : List (String × Json)
  deriving Repr

def Content.get (c : Content) : FeatureKind → String → Option Json
  | .flag, key => c.flags.lookup key
  | .segment, key => c.segments.lookup key

def Serves {σ : Type} (w : World σ) (c : Content) : Prop :=
  ∀ kind key s, (w.storeGet kind key s).1 = some (c.get kind key)

def afterLookup {σ : Type} (w : World σ) (key : String) (s : σ) : σ :=
  (w.storeGet .flag key (w.unixMilliseconds s).2).2

theorem checkPrerequisite_served {σ : Type} {client : Client σ} {c : Content}
    (hw : Serves client.world c) {user : User} {ev : Json → Run σ Evaluation} {flag iter : Json}
    {key : String} {variation : Rat} (h : Listed iter key variation) (acc : Prerequisites) (s : σ) :
    checkPrerequisite client user ev flag iter acc s =
      match c.get .flag key with
      | none => .ok ({ acc with failedKey := some key, status := .miss },
          afterLookup client.world key s)
      | some preflag => (ev preflag >>= fun result =>
          Run.lift (prerequisiteOutcome client user flag preflag (.number variation) key
            (client.world.unixMilliseconds s).1 { acc with failedKey := some key } result))
              (afterLookup client.world key s) := by
  have hget : client.world.storeGet .flag key (client.world.unixMilliseconds s).2 =
      (some (c.get .flag key), afterLookup client.world key s) := Prod.ext (hw _ _ _) rfl
  rw [checkPrerequisite_of_listed h, Run.bind_run, Run.ask_run]
  change (storeGet client.world .flag key >>= _) (client.world.unixMilliseconds s).2 = _
  rw [Run.bind_run, storeGet, Run.ask_run, hget]
  cases c.get .flag key with
  | none => rfl
  | some preflag => rfl

def Requires (c : Content) (a b : String) : Prop :=
  ∃ flag, c.get .flag a = some flag ∧ b ∈ prerequisiteKeys flag

def Reachable (c : Content) (flag : Json) (key : String) : Prop :=
  ∃ k ∈ prerequisiteKeys flag, Relation.ReflTransGen (Requires c) k key

def Acyclic (c : Content) (flag : Json) : Prop :=
  ∀ key, Reachable c flag key → ¬ Relation.TransGen (Requires c) key key

theorem acyclic_of_rank {c : Content} {flag : Json} (rank : String → ℕ)
    (h : ∀ a b, Requires c a b → rank b < rank a) : Acyclic c flag := by
  have hpath : ∀ {a b}, Relation.TransGen (Requires c) a b → rank b < rank a := by
    intro a b hab
    induction hab with
    | single hab => exact h _ _ hab
    | tail _ hbc ih =>
        have hlt := h _ _ hbc
        omega
  intro key _ hcycle
  have hlt := hpath hcycle
  omega

def Calls (c : Content) (f g : Json) : Prop := ∃ key ∈ prerequisiteKeys f, c.get .flag key = some g

def Evaluated (c : Content) (flag f : Json) : Prop :=
  f = flag ∨ ∃ key, Reachable c flag key ∧ c.get .flag key = some f

theorem Evaluated.calls {c : Content} {flag f g : Json} (hf : Evaluated c flag f)
    (h : Calls c f g) : Evaluated c flag g := by
  obtain ⟨key, hk, hg⟩ := h
  refine .inr ⟨key, ?_, hg⟩
  rcases hf with rfl | ⟨key', ⟨k, hk', hpath⟩, hf⟩
  · exact ⟨key, hk, .refl⟩
  · exact ⟨k, hk', hpath.tail ⟨f, hf, hk⟩⟩

theorem Evaluated.reachable_key {c : Content} {flag f : Json} (hf : Evaluated c flag f)
    {key : String} (hk : key ∈ prerequisiteKeys f) : Reachable c flag key := by
  rcases hf with rfl | ⟨key', ⟨k, hk', hpath⟩, hf⟩
  · exact ⟨key, hk, .refl⟩
  · exact ⟨k, hk', hpath.tail ⟨f, hf, hk⟩⟩

theorem key_path_of_calls {c : Content} {f g : Json} (h : Relation.TransGen (Calls c) f g) :
    ∃ k ∈ prerequisiteKeys f, ∃ k', Relation.ReflTransGen (Requires c) k k' ∧
      c.get .flag k' = some g := by
  induction h with
  | single h =>
      obtain ⟨key, hk, hg⟩ := h
      exact ⟨key, hk, key, .refl, hg⟩
  | tail _ h ih =>
      obtain ⟨k, hk, k', hpath, hk'⟩ := ih
      obtain ⟨key, hkey, hg⟩ := h
      exact ⟨k, hk, key, hpath.tail ⟨_, hk', hkey⟩, hg⟩

def EvaluatedCalls (c : Content) (flag f g : Json) : Prop := Evaluated c flag f ∧ Calls c f g

theorem Acyclic.no_call_cycle {c : Content} {flag : Json} (h : Acyclic c flag) (f : Json) :
    ¬ Relation.TransGen (EvaluatedCalls c flag) f f := by
  intro hcycle
  have hf : Evaluated c flag f := by
    obtain ⟨g, hg, -⟩ := Relation.TransGen.head'_iff.mp hcycle
    exact hg.1
  have hcalls : Relation.TransGen (Calls c) f f :=
    hcycle.lift id (fun _ _ h => h.2)
  obtain ⟨k, hk, k', hpath, hk'⟩ := key_path_of_calls hcalls
  exact h k (hf.reachable_key hk) (Relation.TransGen.tail' hpath ⟨f, hk', hk⟩)

theorem mem_flags_of_get {c : Content} {key : String} {g : Json} (h : c.get .flag key = some g) :
    (key, g) ∈ c.flags := by
  obtain ⟨before, after, heq, -⟩ := List.lookup_eq_some_iff.mp h
  rw [heq]
  simp

theorem Acyclic.exists_rank {c : Content} {flag : Json} (h : Acyclic c flag) :
    ∃ rank : Json → ℕ, (∀ f g, EvaluatedCalls c flag f g → rank g < rank f) ∧
      ∀ f, rank f ≤ c.flags.length := by
  obtain ⟨rank, hlt, hle⟩ := exists_rank_of_acyclic (r := EvaluatedCalls c flag)
    (c.flags.map Prod.snd).toFinset
    (fun f g hfg => by
      obtain ⟨-, key, -, hg⟩ := hfg
      exact List.mem_toFinset.mpr (List.mem_map_of_mem (mem_flags_of_get hg)))
    h.no_call_cycle
  refine ⟨rank, hlt, fun f => (hle f).trans ?_⟩
  exact (List.toFinset_card_le _).trans (by simp)

theorem sameEvents_eq {x y : Option (List Json)} (h : Option.Rel (List.Forall₂ Eq) x y) :
    x = y := by
  cases h with
  | none => rfl
  | some h => rw [List.forall₂_eq_eq_eq] at h; rw [h]

theorem sameOutputs_refl {Ev : Json → Json → Prop} (hEv : ∀ e, Ev e e) (o : Outputs) :
    SameOutputs Ev o o := by
  refine ⟨rfl, rfl, ?_⟩
  cases o.events with
  | none => exact .none
  | some events => exact .some (List.forall₂_same.mpr fun e _ => hEv e)

theorem sameOutputs_eq {o o' : Outputs} (h : SameOutputs Eq o o') : o = o' := by
  obtain ⟨details, events, value⟩ := o
  obtain ⟨details', events', value'⟩ := o'
  obtain ⟨hd, hv, he⟩ := h
  cases hd
  cases hv
  cases sameEvents_eq he
  rfl

theorem sameEvaluation_iff {e e' : Evaluation} : SameEvaluation Eq e e' ↔ e = e' := by
  obtain ⟨status, out⟩ := e
  obtain ⟨status', out'⟩ := e'
  constructor
  · rintro ⟨hs, ho⟩
    cases hs
    cases sameOutputs_eq ho
    rfl
  · intro h
    cases h
    exact ⟨rfl, sameOutputs_refl (fun _ => rfl) _⟩

theorem sameEvaluation_eq : SameEvaluation Eq = Eq := by
  funext e e'
  exact propext sameEvaluation_iff

section Self

variable [Externals] {σ : Type} {P : Policy} {client : Client σ} {user : User}
  {ev ev' : Json → Run σ Evaluation}

theorem evaluateWith_self (hP : P.Fair) {flag : Json} (out : Outputs)
    (h : ∀ key ∈ prerequisiteKeys flag, ∀ s g, (client.world.storeGet .flag key s).1 = some (some g) →
      Run.Sim P Eq Eq (ev g) (ev' g)) :
    Run.Sim P Eq Eq (evaluateWith client user ev flag out) (evaluateWith client user ev' flag out) := by
  rw [← sameEvaluation_eq]
  refine evaluateWith_sim (T := Eq) hP (Run.sim_ask_self _) (.refl flag) (sameOutputs_refl (fun _ => rfl) out) ?_ ?_
  · intro key hk _
    refine Run.sim_ask ?_
    rintro s t rfl
    refine ⟨?_, rfl⟩
    cases hget : (client.world.storeGet .flag key s).1 with
    | none => exact .none
    | some found =>
        cases found with
        | none => exact .some .none
        | some g =>
            refine .some (.some ⟨.refl g, ?_, ?_⟩)
            · rw [sameEvaluation_eq]
              exact h key hk.mem s g hget
            · rintro t t' e e' rfl _ _ _ hsame
              rw [sameOutputs_eq hsame.2]
              exact Checked.alike_option_self (fun _ _ => rfl)
  · intro key _
    exact Run.sim_ask_self _

theorem evaluateBody_monotone : Run.MonotoneBody (evaluateBody client user) := by
  intro f g hfg flag
  rw [Run.below_iff_sim]
  exact evaluateWith_self Policy.approximating_fair _
    (fun _ _ _ g _ => Run.below_iff_sim.mp (hfg g))

theorem evaluateWith_halts {c : Content} (hw : Serves client.world c) {flag : Json} (out : Outputs)
    (h : ∀ g, Calls c flag g → Run.Halts (ev g)) :
    Run.Halts (evaluateWith client user ev flag out) := by
  rw [Run.halts_iff_sim]
  refine evaluateWith_self Policy.halting_fair out (fun key hk s g hg => ?_)
  rw [hw .flag key s, Option.some.injEq] at hg
  exact Run.halts_iff_sim.mp (h g ⟨key, hk, hg⟩)

theorem evaluateNested_halts {c : Content} (hw : Serves client.world c) {flag : Json}
    (hac : Acyclic c flag) {g : Json} (hg : Calls c flag g) {fuel : ℕ}
    (hfuel : c.flags.length ≤ fuel) : Run.Halts (evaluateNested client user fuel g) := by
  obtain ⟨rank, hlt, hle⟩ := hac.exists_rank
  have hroot : Evaluated c flag flag := .inl rfl
  have hcall := hlt flag g ⟨hroot, hg⟩
  have hroot_le := hle flag
  have hstep : ∀ i j, Evaluated c flag i → Calls c i j → Evaluated c flag j ∧ rank j < rank i :=
    fun i j hi hij => ⟨hi.calls hij, hlt i j ⟨hi, hij⟩⟩
  have hbody : ∀ f i, (∀ j, Calls c i j → Run.Halts (f j)) →
      Run.Halts (evaluateBody client user f i) :=
    fun f i hf => evaluateWith_halts hw freshOutputs hf
  refine Run.unroll_halts_of_rank hbody hstep fuel g (hroot.calls hg) ?_
  omega

theorem evaluate_halts {c : Content} (hw : Serves client.world c) {flag : Json}
    (hac : Acyclic c flag) (out : Outputs) {fuel : ℕ} (hfuel : c.flags.length ≤ fuel) :
    Run.Halts (evaluate client user fuel flag out) :=
  evaluateWith_halts hw out (fun _ hg => evaluateNested_halts hw hac hg hfuel)

theorem evaluate_below {n m : ℕ} (h : n ≤ m) (flag : Json) (out : Outputs) :
    Run.Below (evaluate client user n flag out) (evaluate client user m flag out) := by
  rw [Run.below_iff_sim]
  exact evaluateWith_self Policy.approximating_fair out
    (fun _ _ _ g _ => Run.below_iff_sim.mp (Run.unroll_below evaluateBody_monotone h g))

theorem evaluate_stable {c : Content} (hw : Serves client.world c) {flag : Json}
    (hac : Acyclic c flag) (out : Outputs) {fuel : ℕ} (hfuel : c.flags.length ≤ fuel) :
    evaluate client user fuel flag out = evaluate client user c.flags.length flag out :=
  (evaluate_below hfuel flag out).eq_of_halts (evaluate_halts hw hac out le_rfl)

theorem evaluate_terminates_of_acyclic {c : Content} (hw : Serves client.world c) {flag : Json}
    (hac : Acyclic c flag) (out : Outputs) {fuel : ℕ} (hfuel : c.flags.length ≤ fuel) :
    Run.Halts (evaluate client user fuel flag out) ∧
      evaluate client user fuel flag out = evaluate client user c.flags.length flag out :=
  ⟨evaluate_halts hw hac out hfuel, evaluate_stable hw hac out hfuel⟩

end Self

def Content.world (c : Content) : World Unit where
  storeInitialized _ := (true, ())
  storeGet kind key _ := (some (c.get kind key), ())
  storeAll kind _ :=
    match kind with
    | .flag => (some (some (.object c.flags)), ())
    | .segment => (some (some (.object c.segments)), ())
  unixMilliseconds _ := (0, ())
  monotonicMilliseconds _ := (0, ())

theorem Content.world_serves (c : Content) : Serves c.world c := fun _ _ _ => rfl

def Content.client (c : Content) : Client Unit := ⟨configNew, c.world⟩

def Content.quietClient (c : Content) : Client Unit := ⟨{ configNew with sendEvents := false }, c.world⟩

def childFlag : Json :=
  .object [("key", .text "child"), ("on", .bool true), ("salt", .text ""),
    ("fallthrough", .object [("variation", .number 1)]),
    ("variations", .array [.bool false, .bool true])]

def parentFlag : Json :=
  .object [("key", .text "parent"), ("on", .bool true), ("salt", .text ""),
    ("prerequisites", .array [.object [("key", .text "child"), ("variation", .number 1)]]),
    ("fallthrough", .object [("variation", .number 0)]), ("offVariation", .number 1),
    ("variations", .array [.text "served", .text "off"])]

def familyContent : Content := ⟨[("parent", parentFlag), ("child", childFlag)], []⟩

theorem familyContent_acyclic (flag : Json) : Acyclic familyContent flag := by
  refine acyclic_of_rank (fun key => if key = "parent" then 1 else 0) ?_
  rintro a b ⟨flag, hget, hb⟩
  have hmem : (a, flag) ∈ familyContent.flags := mem_flags_of_get hget
  rcases List.mem_cons.mp hmem with hparent | hrest
  · cases hparent
    have hkeys : prerequisiteKeys parentFlag = ["child"] := by decide
    rw [hkeys, List.mem_singleton] at hb
    subst hb
    decide
  · rcases List.mem_cons.mp hrest with hchild | hnil
    · cases hchild
      have hkeys : prerequisiteKeys childFlag = [] := by decide
      rw [hkeys] at hb
      cases hb
    · cases hnil

def selfRequiringFlag : Json :=
  .object [("key", .text "a"), ("on", .bool true),
    ("prerequisites", .array [.object [("key", .text "a"), ("variation", .number 0)]])]

def selfRequiringContent : Content := ⟨[("a", selfRequiringFlag)], []⟩

section Fixed

attribute [local instance] literalExternals

theorem evaluate_terminates_on_family :
    Run.Halts (evaluate familyContent.client (userNew "u") 2 parentFlag freshOutputs) :=
  (evaluate_terminates_of_acyclic familyContent.world_serves (familyContent_acyclic _)
    freshOutputs le_rfl).1

theorem selfRequiring_step {ev : Json → Run Unit Evaluation} (out : Outputs)
    (h : ev selfRequiringFlag () = .error .fuel) :
    evaluateWith selfRequiringContent.client (userNew "u") ev selfRequiringFlag out () =
      .error .fuel := by
  have hlisted : Listed (.object [("key", .text "a"), ("variation", .number 0)]) "a" 0 :=
    ⟨rfl, by decide, by decide⟩
  rw [evaluateWith_of_on rfl (by decide)]
  refine Run.bind_of_error ?_
  rw [checkPrerequisitesWith_of_object rfl]
  change checkPrerequisiteList _ _ _ _ [_] _ () = _
  refine Run.bind_of_error ?_
  rw [checkPrerequisite_served selfRequiringContent.world_serves hlisted]
  exact Run.bind_of_error h

theorem selfRequiring_nested (fuel : ℕ) :
    evaluateNested selfRequiringContent.client (userNew "u") fuel selfRequiringFlag () =
      .error .fuel := by
  induction fuel with
  | zero => rfl
  | succ fuel ih => exact selfRequiring_step freshOutputs ih

theorem evaluate_self_requiring_never_halts :
    ¬ ∃ fuel, Run.Halts (evaluate selfRequiringContent.client (userNew "u") fuel selfRequiringFlag
      freshOutputs) := by
  rintro ⟨fuel, h⟩
  exact h () (selfRequiring_step freshOutputs (selfRequiring_nested fuel))

end Fixed

end ServerSdk
