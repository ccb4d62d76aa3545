import ServerSdk.Evaluate.Exits
import ServerSdk.Evaluate.Locality

namespace ServerSdk

open Program

section Spec

variable [Externals] (c : Content) (config : Config) (user : User)

def Evaluates (g : Json) (e : Evaluation) : Prop :=
  evaluate ⟨config, c.world⟩ user c.flags.length g freshOutputs () = .ok (e, ())

def Met (iter : Json) : Prop :=
  ∃ key variation g sub, Listed iter key variation ∧ c.get .flag key = some g ∧
    Evaluates c config user g (.matched, sub) ∧ sub.details.hasVariation = true ∧
    (sub.details.variationIndex : Rat) = variation

def Completes (flag : Json) (key : String) (g : Json) : Prop :=
  ∃ status sub event, Evaluates c config user g (status, sub) ∧ isEvalError status = false ∧
    prerequisiteEvent ⟨config, c.world⟩ user flag key g 0 sub = .ok (some event)

def Visitable (flag : Json) : List Json → Prop
  | [] => True
  | iter :: rest =>
      (∃ key variation, Listed iter key variation ∧
        ∀ g, c.get .flag key = some g → Completes c config user flag key g) ∧
      (Met c config user iter → Visitable flag rest)

structure EventOf (flag : Json) (key : String) (sub : Outputs) (event : Json) : Prop where
  kind : event.objectLookup "kind" = some (.text "feature")
  key : event.objectLookup "key" = some (.text key)
  value : event.objectLookup "value" = sub.value
  variation : event.objectLookup "variation" =
    if sub.details.hasVariation then some (.number sub.details.variationIndex) else none
  prereqOf : event.objectLookup "prereqOf" =
    ((flag.objectLookup "key").bind Json.getText).map Json.text

inductive PostOrder (flag : Json) : List Json → List Json → Prop
  | done : PostOrder flag [] []
  | absent {iter : Json} {rest : List Json} {key : String} {variation : Rat}
      (hlisted : Listed iter key variation) (habsent : c.get .flag key = none) :
      PostOrder flag (iter :: rest) []
  | failing {iter g event : Json} {rest own : List Json} {key : String} {variation : Rat}
      {status : EvalStatus} {sub : Outputs} (hlisted : Listed iter key variation)
      (hfound : c.get .flag key = some g) (heval : Evaluates c config user g (status, sub))
      (hunmet : ¬ Met c config user iter)
      (hown : List.Forall₂ SameEvent own (sub.events.getD []))
      (hevent : EventOf flag key sub event) : PostOrder flag (iter :: rest) (own ++ [event])
  | met {iter g event : Json} {rest own events : List Json} {key : String} {variation : Rat}
      {status : EvalStatus} {sub : Outputs} (hlisted : Listed iter key variation)
      (hfound : c.get .flag key = some g) (heval : Evaluates c config user g (status, sub))
      (hmet : Met c config user iter)
      (hown : List.Forall₂ SameEvent own (sub.events.getD []))
      (hevent : EventOf flag key sub event) (hrest : PostOrder flag rest events) :
      PostOrder flag (iter :: rest) (own ++ [event] ++ events)

end Spec

theorem Listed.unique {iter : Json} {key key' : String} {v v' : Rat} (h : Listed iter key v)
    (h' : Listed iter key' v') : key = key' ∧ v = v' := by
  obtain ⟨-, hk, hv⟩ := h
  obtain ⟨-, hk', hv'⟩ := h'
  rw [hk] at hk'
  rw [hv] at hv'
  cases hk'
  cases hv'
  exact ⟨rfl, rfl⟩

theorem prerequisiteEvent_eventOf {σ : Type} {client : Client σ} {user : User} {flag g : Json}
    {key : String} {t : Rat} {sub : Outputs} {event : Json}
    (h : prerequisiteEvent client user flag key g t sub = .ok (some event)) :
    EventOf flag key sub event := by
  have hevent := newFeatureEvent_isFeatureEvent h
  refine ⟨hevent.kind, hevent.key, hevent.value, ?_, hevent.prereqOf⟩
  rw [hevent.variation]
  cases sub.details.hasVariation <;> rfl

theorem settled_ne_matched {out : Outputs} {found : Option (Json × Nat)} :
    (settled .miss out found).1 ≠ .matched := by
  cases found <;> simp [settled]

theorem prerequisiteServes_of_on {g : Json} (hobj : g.getType = .object)
    (hon : (optionalField g "on" .bool).isTrue = true) (details : Details) (variation : Rat) :
    prerequisiteServes g details (.number variation) =
      .ok (if details.hasVariation ∧ (details.variationIndex : Rat) = variation then .matched
        else .miss) := by
  simp only [prerequisiteServes, lookupOptional_of_object hobj, Checked.ok_bind, Json.getNumber]
  cases hf : optionalField g "on" .bool with
  | mistyped =>
      rw [hf] at hon
      cases hon
  | absent =>
      rw [hf] at hon
      cases hon
  | present on =>
      rw [hf] at hon
      simp only [hon, true_and]
      split <;> rfl

section Run

variable [Externals] {σ : Type} {client : Client σ} {user : User} {c : Content} {flag : Json}

theorem evaluateNested_eq_evaluate (hw : Serves client.world c) (hac : Acyclic c flag) {g : Json}
    (hg : Calls c flag g) {fuel : ℕ} (hfuel : c.flags.length ≤ fuel) :
    evaluateNested client user fuel g = evaluate client user c.flags.length g freshOutputs := by
  have hhalts : Run.Halts (evaluateNested client user c.flags.length g) :=
    evaluateNested_halts hw hac hg le_rfl
  have hstable : evaluateNested client user fuel g = evaluateNested client user c.flags.length g :=
    Run.unroll_stable evaluateBody_monotone hfuel hhalts
  have hnext : evaluateNested client user (c.flags.length + 1) g =
      evaluateNested client user c.flags.length g :=
    Run.unroll_stable evaluateBody_monotone (Nat.le_succ _) hhalts
  rw [hstable, ← hnext]
  rfl

theorem on_of_matched {fuel : ℕ} {g : Json} {sub : Outputs} {s t : σ}
    (h : evaluate client user fuel g freshOutputs s = .ok ((.matched, sub), t)) :
    g.getType = .object ∧ (optionalField g "on" .bool).isTrue = true := by
  have hexit := evaluateWith_exit h
  generalize he : ((EvalStatus.matched, sub) : Evaluation) = e at hexit
  cases hexit with
  | malformed _ => cases he
  | @prerequisiteError pre _ _ _ _ herr =>
      have hfst : EvalStatus.matched = pre.status := congrArg Prod.fst he
      rw [← hfst] at herr
      cases herr
  | targeting hobj hon _ _ _ => exact ⟨hobj, hon⟩
  | prerequisiteFailed hobj _ _ _ hr =>
      rw [evaluatePrerequisiteFailed, addValueAs_of_object hobj] at hr
      cases hr
      exact absurd (congrArg Prod.fst he).symm settled_ne_matched
  | off hobj _ hr =>
      simp only [evaluateOff] at hr
      split at hr
      · cases hr
        cases he
      · cases hr
        cases he
      · rw [addValueAs_of_object hobj] at hr
        cases hr
        exact absurd (congrArg Prod.fst he).symm settled_ne_matched

theorem met_iff {iter g : Json} {key : String} {variation : Rat} {config : Config}
    {status : EvalStatus} {sub : Outputs} (hlisted : Listed iter key variation)
    (hfound : c.get .flag key = some g) (heval : Evaluates c config user g (status, sub)) :
    Met c config user iter ↔ status = .matched ∧ sub.details.hasVariation = true ∧
      (sub.details.variationIndex : Rat) = variation := by
  constructor
  · rintro ⟨key', variation', g', sub', hlisted', hfound', heval', hvar, hindex⟩
    obtain ⟨rfl, rfl⟩ := hlisted.unique hlisted'
    rw [hfound] at hfound'
    cases hfound'
    rw [Evaluates, heval] at heval'
    cases heval'
    exact ⟨rfl, hvar, hindex⟩
  · rintro ⟨rfl, hvar, hindex⟩
    exact ⟨key, variation, g, sub, hlisted, hfound, heval, hvar, hindex⟩

structure Visited (c : Content) (config : Config) (user : User) (flag iter : Json) (key : String)
    (g : Json) (acc p : Prerequisites) : Prop where
  failedKey : p.failedKey = some key
  events : ∃ status sub event own, Evaluates c config user g (status, sub) ∧
    List.Forall₂ SameEvent own (sub.events.getD []) ∧ EventOf flag key sub event ∧
    p.events = some (acc.events.getD [] ++ own ++ [event])
  status : (p.status = .matched ∧ Met c config user iter) ∨
    (p.status = .miss ∧ ¬ Met c config user iter)

theorem prerequisiteOutcome_visited {iter g : Json} {key : String}
    {variation : Rat} (hlisted : Listed iter key variation) (hfound : c.get .flag key = some g)
    {status : EvalStatus} {sub : Outputs} {event : Json}
    (heval : Evaluates c client.config user g (status, sub)) (hok : isEvalError status = false)
    (hevent : prerequisiteEvent ⟨client.config, c.world⟩ user flag key g 0 sub = .ok (some event))
    {e : Evaluation} (he : SameEvaluation SameEvent e (status, sub)) (acc : Prerequisites)
    (t : Rat) :
    ∃ p, prerequisiteOutcome client user flag g (.number variation) key t
        { acc with failedKey := some key } e = .ok p ∧
      Visited c client.config user flag iter key g acc p := by
  obtain ⟨status', sub'⟩ := e
  obtain ⟨hs, hsub⟩ := he
  cases hs
  have halike : Checked.Alike (Option.Rel SameEvent)
      (prerequisiteEvent client user flag key g t sub')
      (prerequisiteEvent (⟨client.config, c.world⟩ : Client Unit) user flag key g 0 sub) :=
    prerequisiteEvent_alike rfl user flag key g t 0 hsub
  rw [hevent] at halike
  generalize hmade : prerequisiteEvent client user flag key g t sub' = made at halike
  cases halike with
  | ok hrel =>
      cases hrel with
      | @some event' _ hsame =>
          have heventOf : EventOf flag key sub event' := by
            have h' := prerequisiteEvent_eventOf hmade
            refine ⟨h'.kind, h'.key, ?_, ?_, h'.prereqOf⟩
            · rw [h'.value]
              exact hsub.value
            · rw [h'.variation, show sub'.details = sub.details from hsub.details]
          have hevents : ∃ status sub event own, Evaluates c client.config user g (status, sub) ∧
              List.Forall₂ SameEvent own (sub.events.getD []) ∧ EventOf flag key sub event ∧
              some (acc.events.getD [] ++ sub'.events.getD [] ++ [event']) =
                some (acc.events.getD [] ++ own ++ [event]) :=
            ⟨status, sub, event', sub'.events.getD [], heval, forall₂_getD hsub.events, heventOf, rfl⟩
          simp only [prerequisiteOutcome, hok, hmade, Checked.ok_bind]
          by_cases hmiss : status = .miss
          · subst hmiss
            refine ⟨_, rfl, rfl, hevents, .inr ⟨rfl, ?_⟩⟩
            rw [met_iff hlisted hfound heval]
            rintro ⟨hfalse, -⟩
            cases hfalse
          · have hmatched : status = .matched := by
              cases status with
              | matched => rfl
              | miss => exact absurd rfl hmiss
              | mem => cases hok
              | schema => cases hok
              | store => cases hok
            subst hmatched
            obtain ⟨hobj, hon⟩ := on_of_matched heval
            have hdetails : sub'.details = sub.details := hsub.details
            simp only [prerequisiteServes_of_on hobj hon, hdetails, Checked.ok_bind]
            have hmet := met_iff hlisted hfound heval
            by_cases hserves : sub.details.hasVariation = true ∧
                (sub.details.variationIndex : Rat) = variation
            · refine ⟨_, rfl, rfl, hevents, .inl ⟨?_, hmet.mpr ⟨rfl, hserves⟩⟩⟩
              simp [hserves]
            · refine ⟨_, rfl, rfl, hevents, .inr ⟨?_, fun h => hserves (hmet.mp h).2⟩⟩
              simp [hserves]

theorem checkPrerequisite_visited (hw : Serves client.world c) (hac : Acyclic c flag) {fuel : ℕ}
    (hfuel : c.flags.length ≤ fuel) {iter g : Json} {key : String} {variation : Rat}
    (hlisted : Listed iter key variation) (hfound : c.get .flag key = some g)
    (hkey : key ∈ prerequisiteKeys flag) (hcompletes : Completes c client.config user flag key g)
    (acc : Prerequisites) (s : σ) :
    ∃ p t, checkPrerequisite client user (evaluateNested client user fuel) flag iter acc s =
        .ok (p, t) ∧ Visited c client.config user flag iter key g acc p := by
  obtain ⟨status, sub, event, heval, hok, hevent⟩ := hcompletes
  have hcalls : Calls c flag g := ⟨key, hkey, hfound⟩
  obtain ⟨e, t, he, hsame⟩ := evaluate_of_canonical hw heval (afterLookup client.world key s)
  obtain ⟨p, hp, hvisited⟩ := prerequisiteOutcome_visited hlisted hfound heval hok hevent hsame acc
    (client.world.unixMilliseconds s).1
  refine ⟨p, t, ?_, hvisited⟩
  rw [checkPrerequisite_served hw hlisted, hfound]
  simp only [evaluateNested_eq_evaluate hw hac hcalls hfuel]
  rw [Run.bind_of_ok he, hp]
  rfl

structure PrerequisitesChecked (c : Content) (config : Config) (user : User) (flag : Json)
    (items : List Json) (acc p : Prerequisites) : Prop where
  matched : p.status = .matched ↔ ∀ iter ∈ items, Met c config user iter
  missed : p.status = .matched ∨ (p.status = .miss ∧ ∃ before iter after key variation,
    items = before ++ iter :: after ∧ (∀ i ∈ before, Met c config user i) ∧
    ¬ Met c config user iter ∧ Listed iter key variation ∧ p.failedKey = some key)
  events : ∃ events, p.events.getD [] = acc.events.getD [] ++ events ∧
    PostOrder c config user flag items events

theorem PrerequisitesChecked.stop {items : List Json} {iter : Json} {acc p : Prerequisites}
    {key : String} {variation : Rat} {config : Config} (hmiss : p.status = .miss)
    (hunmet : ¬ Met c config user iter) (hlisted : Listed iter key variation)
    (hkey : p.failedKey = some key)
    (hevents : ∃ events, p.events.getD [] = acc.events.getD [] ++ events ∧
      PostOrder c config user flag (iter :: items) events) :
    PrerequisitesChecked c config user flag (iter :: items) acc p := by
  refine ⟨⟨?_, ?_⟩, .inr ⟨hmiss, ?_⟩, hevents⟩
  · intro hmatched
    rw [hmiss] at hmatched
    cases hmatched
  · intro hall
    exact absurd (hall iter (List.mem_cons_self ..)) hunmet
  · exact ⟨[], iter, items, key, variation, rfl, by simp, hunmet, hlisted, hkey⟩

theorem PrerequisitesChecked.next {items : List Json} {iter : Json} {acc q p : Prerequisites}
    {config : Config} (hmet : Met c config user iter)
    (hrest : PrerequisitesChecked c config user flag items q p)
    (hevents : ∃ events, p.events.getD [] = acc.events.getD [] ++ events ∧
      PostOrder c config user flag (iter :: items) events) :
    PrerequisitesChecked c config user flag (iter :: items) acc p := by
  refine ⟨?_, ?_, hevents⟩
  · rw [hrest.matched, List.forall_mem_cons]
    exact ⟨fun h => ⟨hmet, h⟩, fun h => h.2⟩
  · rcases hrest.missed with hmatched | ⟨hmiss, before, i, after, key, v, heq, hbefore, hunmet, hl, hk⟩
    · exact .inl hmatched
    · refine .inr ⟨hmiss, iter :: before, i, after, key, v, by rw [heq]; rfl, ?_, hunmet, hl, hk⟩
      rw [List.forall_mem_cons]
      exact ⟨hmet, hbefore⟩

theorem checkPrerequisiteList_checked (hw : Serves client.world c) (hac : Acyclic c flag)
    {fuel : ℕ} (hfuel : c.flags.length ≤ fuel) (items : List Json)
    (hkeys : ∀ iter ∈ items, ∀ key variation, Listed iter key variation →
      key ∈ prerequisiteKeys flag)
    (hvisitable : Visitable c client.config user flag items) (acc : Prerequisites) (s : σ) :
    ∃ p t, checkPrerequisiteList client user (evaluateNested client user fuel) flag items acc s =
        .ok (p, t) ∧ PrerequisitesChecked c client.config user flag items acc p := by
  induction items generalizing acc s with
  | nil =>
      refine ⟨_, s, rfl, ⟨by simp, .inl rfl, [], by simp, .done⟩⟩
  | cons iter items ih =>
      obtain ⟨⟨key, variation, hlisted, hcompletes⟩, hrest⟩ := hvisitable
      have hkey := hkeys iter (by simp) key variation hlisted
      cases hfound : c.get .flag key with
      | none =>
          refine ⟨{ acc with failedKey := some key, status := .miss }, afterLookup client.world key s,
            ?_, ?_⟩
          · have hcheck : checkPrerequisite client user (evaluateNested client user fuel) flag iter acc
                s = .ok ({ acc with failedKey := some key, status := .miss },
                  afterLookup client.world key s) := by
              rw [checkPrerequisite_served hw hlisted, hfound]
            exact Run.bind_of_ok hcheck
          · have hunmet : ¬ Met c client.config user iter := by
              rintro ⟨key', variation', g, sub, hlisted', hfound', -⟩
              obtain ⟨rfl, -⟩ := hlisted.unique hlisted'
              rw [hfound] at hfound'
              cases hfound'
            exact .stop rfl hunmet hlisted rfl ⟨[], by simp, .absent hlisted hfound⟩
      | some g =>
          obtain ⟨q, u, hq, hvisited⟩ := checkPrerequisite_visited hw hac hfuel hlisted hfound hkey
            (hcompletes g hfound) acc s
          obtain ⟨status, sub, event, own, heval, hown, hevent, hevents⟩ := hvisited.events
          have hbind : checkPrerequisiteList client user (evaluateNested client user fuel) flag
              (iter :: items) acc s = (if q.status = .matched then
                checkPrerequisiteList client user (evaluateNested client user fuel) flag items q
                else pure q) u := Run.bind_of_ok hq
          rcases hvisited.status with ⟨hmatched, hmet⟩ | ⟨hmiss, hunmet⟩
          · obtain ⟨p, t, hp, hchecked⟩ := ih (fun i hi => hkeys i (List.mem_cons_of_mem _ hi))
              (hrest hmet) q u
            refine ⟨p, t, ?_, hchecked.next hmet ?_⟩
            · rw [hbind, if_pos hmatched]
              exact hp
            · obtain ⟨events, hpe, hpost⟩ := hchecked.events
              refine ⟨own ++ [event] ++ events, ?_, .met hlisted hfound heval hmet hown hevent hpost⟩
              rw [hpe, hevents]
              simp
          · refine ⟨q, u, ?_, ?_⟩
            · rw [hbind, if_neg (by rw [hmiss]; simp)]
              rfl
            · refine .stop hmiss hunmet hlisted hvisited.failedKey ⟨own ++ [event], ?_, ?_⟩
              · rw [hevents]
                simp
              · exact .failing hlisted hfound heval hunmet hown hevent

theorem checkPrerequisites_correct (hw : Serves client.world c) (hac : Acyclic c flag)
    (hobj : flag.getType = .object) (hon : (optionalField flag "on" .bool).isTrue = true)
    (htyped : optionalField flag "prerequisites" .array ≠ .mistyped)
    (hvisitable : Visitable c client.config user flag
      (optionalField flag "prerequisites" .array).items)
    {fuel : ℕ} (hfuel : c.flags.length ≤ fuel) (s : σ) :
    ∃ p t, checkPrerequisites client user fuel flag none s = .ok (p, t) ∧
      (p.status = .matched ↔ ∀ iter ∈ (optionalField flag "prerequisites" .array).items,
        Met c client.config user iter) ∧
      (p.status = .matched ∨ (p.status = .miss ∧ ∃ before iter after key variation,
        (optionalField flag "prerequisites" .array).items = before ++ iter :: after ∧
        (∀ i ∈ before, Met c client.config user i) ∧ ¬ Met c client.config user iter ∧
        Listed iter key variation ∧ p.failedKey = some key)) ∧
      PostOrder c client.config user flag (optionalField flag "prerequisites" .array).items
        (p.events.getD []) := by
  have hlist : ∃ p t, checkPrerequisites client user fuel flag none s = .ok (p, t) ∧
      PrerequisitesChecked c client.config user flag
        (optionalField flag "prerequisites" .array).items ⟨.matched, none, none⟩ p := by
    rw [checkPrerequisites, checkPrerequisitesWith_of_object hobj]
    cases hf : optionalField flag "prerequisites" .array with
    | mistyped => exact absurd hf htyped
    | absent => exact ⟨_, s, rfl, ⟨by simp [Field.items], .inl rfl, [], rfl, .done⟩⟩
    | present prerequisites =>
        rw [hf] at hvisitable
        refine checkPrerequisiteList_checked hw hac hfuel _ ?_ hvisitable _ s
        intro iter hi key variation hlisted
        simp only [prerequisiteKeys, hon, if_true, hf, Field.items, List.mem_filterMap]
        exact ⟨iter, hi, by rw [hlisted.2.1]; rfl⟩
  obtain ⟨p, t, hp, hchecked⟩ := hlist
  refine ⟨p, t, hp, hchecked.matched, hchecked.missed, ?_⟩
  obtain ⟨events, hevents, hpost⟩ := hchecked.events
  rw [hevents]
  exact hpost

end Run

section Fixed

attribute [local instance] literalExternals

theorem family_visitable :
    Visitable familyContent configNew (userNew "u") parentFlag
      (optionalField parentFlag "prerequisites" .array).items := by
  refine ⟨⟨"child", 1, ⟨rfl, rfl, rfl⟩, ?_⟩, fun _ => trivial⟩
  intro g hg
  have hchild : familyContent.get .flag "child" = some childFlag := by decide
  rw [hchild] at hg
  cases hg
  exact ⟨.matched, _, _, rfl, rfl, rfl⟩

theorem family_prerequisites_correct :
    ∃ p t, checkPrerequisites familyContent.client (userNew "u") 2 parentFlag none () = .ok (p, t) ∧
      (p.status = .matched ↔ ∀ iter ∈ (optionalField parentFlag "prerequisites" .array).items,
        Met familyContent configNew (userNew "u") iter) := by
  have hserves : Serves familyContent.client.world familyContent := familyContent.world_serves
  have htyped : optionalField parentFlag "prerequisites" .array ≠ .mistyped := by
    intro h
    cases h
  obtain ⟨p, t, hp, hmatched, -, -⟩ := checkPrerequisites_correct hserves
    (familyContent_acyclic parentFlag) rfl rfl htyped family_visitable (le_refl 2) ()
  exact ⟨p, t, hp, hmatched⟩

end Fixed

end ServerSdk
