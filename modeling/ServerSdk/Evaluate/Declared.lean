import ServerSdk.Evaluate.Deciding

namespace ServerSdk

open Program

structure WellFormedFlag (flag : Json) : Prop where
  targeting : WellFormedTargeting flag
  on : optionalField flag "on" .bool ≠ .mistyped
  prerequisitesTyped : optionalField flag "prerequisites" .array ≠ .mistyped
  prerequisites : ∀ iter ∈ prerequisitesOf flag, ∃ key variation, Listed iter key variation
  offVariation : ValidIndex flag (flag.objectLookup "offVariation") ∨
    prerequisitesOf flag = [] ∧
      (flag.objectLookup "offVariation" = none ∨ flag.objectLookup "offVariation" = some .null)
  recordable : Recordable flag

structure WellFormedContent [Externals] (c : Content) (flag : Json) : Prop where
  flags : ∀ g, Evaluated c flag g → WellFormedFlag g
  segments : ∀ key segment, c.get .segment key = some segment → WellFormedSegment segment

section Off

variable {flag : Json}

theorem valueAt_of_null (h : flag.objectLookup "offVariation" = none ∨
    flag.objectLookup "offVariation" = some .null) :
    valueAt flag (flag.objectLookup "offVariation") = none := by
  rcases h with h | h <;> rw [h] <;> rfl

theorem evaluateOff_means (h : WellFormedFlag flag) (events : Option (List Json)) :
    evaluateOff flag { freshOutputs with events } =
      .ok (.miss, Serving.outputs ⟨.off, valueAt flag (flag.objectLookup "offVariation")⟩ events) := by
  rcases h.offVariation with hvalid | ⟨-, hnull⟩
  · obtain ⟨⟨value, index⟩, hvalue⟩ := Option.isSome_iff_exists.mp hvalid
    cases hlookup : flag.objectLookup "offVariation" with
    | none =>
        rw [hlookup] at hvalue
        cases hvalue
    | some offVariation =>
        rw [hlookup] at hvalue
        cases offVariation with
        | null => cases hvalue
        | _ =>
            simp only [evaluateOff, hlookup, addValueAs_of_object h.targeting.isObject, hvalue]
            rfl
  · rw [valueAt_of_null hnull]
    rcases hnull with hlookup | hlookup <;> simp only [evaluateOff, hlookup] <;> rfl

theorem evaluatePrerequisiteFailed_means (h : WellFormedFlag flag) (hne : prerequisitesOf flag ≠ [])
    (key : String) (events : Option (List Json)) :
    evaluatePrerequisiteFailed flag key { freshOutputs with events } =
      .ok (.miss, Serving.outputs
        ⟨.prerequisiteFailed key, valueAt flag (flag.objectLookup "offVariation")⟩ events) := by
  have hvalid := h.offVariation.resolve_right fun hempty => hne hempty.1
  obtain ⟨⟨value, index⟩, hvalue⟩ := Option.isSome_iff_exists.mp hvalid
  rw [evaluatePrerequisiteFailed, addValueAs_of_object h.targeting.isObject, hvalue]
  rfl

end Off

theorem Verdict.status_ok (verdict : Verdict) : isEvalError verdict.status = false := by
  cases verdict <;> rfl

theorem Serving.reasoned (serving : Serving) : (reasonToJSON serving.details).isSome = true := by
  rw [Serving.details]
  cases serving.verdict <;> rfl

section Prerequisites

theorem Evaluated.acyclic {c : Content} {flag f : Json} (hf : Evaluated c flag f) (hac : Acyclic c flag) :
    Acyclic c f := by
  rintro key ⟨k, hk, hpath⟩
  obtain ⟨k', hk', hpath'⟩ := hf.reachable_key hk
  exact hac key ⟨k', hk', hpath'.trans hpath⟩

theorem mem_prerequisiteKeys {flag iter : Json} {key : String} {variation : Rat} (hon : IsOn flag)
    (hiter : iter ∈ prerequisitesOf flag) (hlisted : Listed iter key variation) :
    key ∈ prerequisiteKeys flag := by
  have hon : (optionalField flag "on" .bool).isTrue = true := hon
  rw [prerequisiteKeys, if_pos hon]
  exact List.mem_filterMap.mpr ⟨iter, hiter, by rw [hlisted.2.1]; rfl⟩

variable [Externals] {c : Content} {config : Config} {user : User} {flag g : Json}

def Understood (c : Content) (config : Config) (user : User) (g : Json) : Prop :=
  ∃ serving events, Means c user g serving ∧
    Evaluates c config user g (serving.verdict.status, serving.outputs events)

theorem Understood.completes (h : Understood c config user g) (hg : Recordable g) (key : String) :
    Completes c config user flag key g := by
  obtain ⟨serving, events, -, heval⟩ := h
  obtain ⟨event, hevent⟩ : Checked.Returns (prerequisiteEvent ⟨config, c.world⟩ user flag key g 0
      (serving.outputs events)) := newFeatureEvent_returns _ _ _
  have hsome := (newFeatureEvent_isSome_iff hevent).mpr ⟨fun f hf => ?_, serving.reasoned⟩
  · obtain ⟨event, rfl⟩ := Option.isSome_iff_exists.mp hsome
    exact ⟨_, _, event, heval, serving.verdict.status_ok, hevent⟩
  · cases hf
    exact hg

theorem met_iff_satisfies {iter : Json} {key : String} {variation : Rat}
    (hlisted : Listed iter key variation) (hfound : c.get .flag key = some g) {serving : Serving}
    {events : Option (List Json)}
    (heval : Evaluates c config user g (serving.verdict.status, serving.outputs events)) :
    Met c config user iter ↔ serving.Satisfies variation := by
  rw [met_iff hlisted hfound heval, Serving.Satisfies]
  refine and_congr_right fun _ => ?_
  cases hvariation : serving.variation with
  | none => simp [Serving.outputs, Serving.details, hvariation]
  | some found =>
      obtain ⟨value, index⟩ := found
      simp [Serving.outputs, Serving.details, hvariation]

def AllUnderstood (c : Content) (config : Config) (user : User) (items : List Json) : Prop :=
  ∀ iter ∈ items, ∃ key variation, Listed iter key variation ∧
    ∀ g, c.get .flag key = some g → Recordable g ∧ Understood c config user g

theorem AllUnderstood.visitable {items : List Json} (h : AllUnderstood c config user items) :
    Visitable c config user flag items := by
  induction items with
  | nil => trivial
  | cons iter items ih =>
      rw [AllUnderstood, List.forall_mem_cons] at h
      obtain ⟨⟨key, variation, hlisted, hunderstood⟩, hrest⟩ := h
      refine ⟨⟨key, variation, hlisted, fun g hfound => ?_⟩, fun _ => ih hrest⟩
      exact (hunderstood g hfound).2.completes (hunderstood g hfound).1 key

theorem FirstUnmet.of_met {iter : Json} {items : List Json} {failed : Option String}
    (h : AllUnderstood c config user [iter]) (hmet : Met c config user iter)
    (hrest : FirstUnmet c user items failed) : FirstUnmet c user (iter :: items) failed := by
  obtain ⟨key, variation, hlisted, hunderstood⟩ := h iter (List.mem_singleton_self iter)
  obtain ⟨key', variation', g, sub, hlisted', hfound, hsub⟩ := hmet
  obtain ⟨rfl, rfl⟩ := hlisted.unique hlisted'
  obtain ⟨-, serving, events, hmeans, heval⟩ := hunderstood g hfound
  have hsatisfies := (met_iff_satisfies hlisted hfound heval).mp
    ⟨key, variation, g, sub, hlisted', hfound, hsub⟩
  exact .met hlisted hfound hmeans hsatisfies hrest

theorem firstUnmet_none {items : List Json} (h : AllUnderstood c config user items)
    (hmet : ∀ iter ∈ items, Met c config user iter) : FirstUnmet c user items none := by
  induction items with
  | nil => exact .nil
  | cons iter items ih =>
      rw [List.forall_mem_cons] at hmet
      rw [AllUnderstood, List.forall_mem_cons] at h
      exact .of_met (List.forall_mem_singleton.mpr h.1) hmet.1 (ih h.2 hmet.2)

theorem firstUnmet_some {before after : List Json} {iter : Json} {key : String} {variation : Rat}
    (h : AllUnderstood c config user (before ++ iter :: after))
    (hmet : ∀ i ∈ before, Met c config user i) (hunmet : ¬ Met c config user iter)
    (hlisted : Listed iter key variation) :
    FirstUnmet c user (before ++ iter :: after) (some key) := by
  induction before with
  | nil =>
      obtain ⟨key', variation', hlisted', hunderstood⟩ := h iter (List.mem_cons_self ..)
      obtain ⟨rfl, rfl⟩ := hlisted.unique hlisted'
      cases hfound : c.get .flag key with
      | none => exact .absent hlisted hfound
      | some g =>
          obtain ⟨-, serving, events, hmeans, heval⟩ := hunderstood g hfound
          exact .unmet hlisted hfound hmeans ((met_iff_satisfies hlisted hfound heval).not.mp hunmet)
  | cons other before ih =>
      rw [List.forall_mem_cons] at hmet
      rw [List.cons_append, AllUnderstood, List.forall_mem_cons] at h
      exact .of_met (List.forall_mem_singleton.mpr h.1) hmet.1 (ih h.2 hmet.2)

inductive PrerequisitesMean (c : Content) (user : User) (flag : Json) (p : Prerequisites) : Prop
  | met (hstatus : p.status = .matched) (hmet : FirstUnmet c user (prerequisitesOf flag) none)
  | failed {key : String} (hstatus : p.status = .miss) (hkey : p.failedKey = some key)
      (hfailed : FirstUnmet c user (prerequisitesOf flag) (some key))

theorem checkPrerequisites_means (h : WellFormedFlag flag) (hac : Acyclic c flag) (hon : IsOn flag)
    (hunderstood : AllUnderstood c config user (prerequisitesOf flag)) :
    ∃ p, checkPrerequisitesWith ⟨config, c.world⟩ user
        (evaluateNested ⟨config, c.world⟩ user c.flags.length) flag none () = .ok (p, ()) ∧
      PrerequisitesMean c user flag p := by
  have htyped := h.prerequisitesTyped
  rw [checkPrerequisitesWith_of_object h.targeting.isObject]
  cases hfield : optionalField flag "prerequisites" .array with
  | mistyped => exact absurd hfield htyped
  | absent =>
      refine ⟨_, rfl, .met rfl ?_⟩
      rw [prerequisitesOf, hfield]
      exact .nil
  | present prerequisites =>
      have hitems : prerequisitesOf flag = prerequisites.getIter := by rw [prerequisitesOf, hfield]; rfl
      rw [hitems] at hunderstood
      obtain ⟨p, t, hp, hchecked⟩ := @checkPrerequisiteList_checked _ _ ⟨config, c.world⟩ user c flag
        c.world_serves hac _ le_rfl prerequisites.getIter
        (fun iter hiter key variation hlisted => mem_prerequisiteKeys hon (hitems ▸ hiter) hlisted)
        hunderstood.visitable ⟨.matched, none, none⟩ ()
      refine ⟨p, hp, ?_⟩
      rcases hchecked.missed with hmatched | ⟨hmiss, before, iter, after, key, variation, hsplit, hrest⟩
      · refine .met hmatched ?_
        rw [hitems]
        exact firstUnmet_none hunderstood (hchecked.matched.mp hmatched)
      · obtain ⟨hmet, hunmet, hlisted, hkey⟩ := hrest
        refine .failed hmiss hkey ?_
        rw [hitems, hsplit]
        rw [hsplit] at hunderstood
        exact firstUnmet_some hunderstood hmet hunmet hlisted

theorem understood_of_prerequisites (h : WellFormedContent c flag) (hg : Evaluated c flag g)
    (hac : Acyclic c g) (hhex : HexifyFits) (huser : WellFormedUser user)
    (hunderstood : IsOn g → AllUnderstood c config user (prerequisitesOf g)) :
    Understood c config user g := by
  have hwf := h.flags g hg
  by_cases hon : IsOn g
  · obtain ⟨p, hp, hmeans⟩ := checkPrerequisites_means hwf hac hon (hunderstood hon)
    have heval : evaluate ⟨config, c.world⟩ user c.flags.length g freshOutputs () =
        evaluateAfterPrerequisites ⟨config, c.world⟩ user g freshOutputs p () := by
      rw [evaluate, evaluateWith_of_on hwf.targeting.isObject hon]
      exact Run.bind_of_ok hp
    cases hmeans with
    | met hstatus hmet =>
        have hserves : ServesSegments c.world (c.get .segment) := ⟨fun _ _ => rfl, h.segments⟩
        obtain ⟨serving, t, hdecides, hmatched, -, hrun⟩ :=
          @evaluateTargeting_decides _ _ c user g ⟨config, c.world⟩ hwf.targeting hhex hserves huser
            p.events ()
        refine ⟨serving, p.events, .on hon hmet hdecides, ?_⟩
        rw [Evaluates, heval, evaluateAfterPrerequisites, hstatus, hmatched]
        exact hrun
    | @failed key hstatus hkey hfailed =>
        have hne : prerequisitesOf g ≠ [] := by
          intro hnil
          rw [hnil] at hfailed
          cases hfailed
        refine ⟨_, p.events, .prerequisite hon hfailed, ?_⟩
        rw [Evaluates, heval, evaluateAfterPrerequisites, hstatus]
        simp only [hkey, Option.getD_some, evaluatePrerequisiteFailed_means hwf hne]
        rfl
  · refine ⟨_, none, .off hon, ?_⟩
    have hoff : (optionalField g "on" .bool).isTrue = false := by simpa [IsOn] using hon
    rw [Evaluates, evaluate, evaluateWith_of_off hwf.targeting.isObject hwf.on hoff]
    have hmeans := evaluateOff_means hwf none
    rw [show freshOutputs = { freshOutputs with events := none } from rfl, hmeans]
    rfl

-- By induction on the rank of the flag among those that are evaluated.
theorem understood (h : WellFormedContent c flag) (hac : Acyclic c flag) (hhex : HexifyFits)
    (huser : WellFormedUser user) : Understood c config user flag := by
  obtain ⟨rank, hlt, -⟩ := hac.exists_rank
  have hall : ∀ n g, rank g = n → Evaluated c flag g → Understood c config user g := by
    intro n
    induction n using Nat.strong_induction_on with
    | _ n ih =>
        rintro g rfl hg
        refine understood_of_prerequisites h hg (hg.acyclic hac) hhex huser fun hon iter hiter => ?_
        obtain ⟨key, variation, hlisted⟩ := (h.flags g hg).prerequisites iter hiter
        refine ⟨key, variation, hlisted, fun g' hfound => ?_⟩
        have hcalls : Calls c g g' := ⟨key, mem_prerequisiteKeys hon hiter hlisted, hfound⟩
        have hg' := hg.calls hcalls
        exact ⟨(h.flags g' hg').recordable, ih _ (hlt g g' ⟨hg, hcalls⟩) g' rfl hg'⟩
  exact hall _ flag rfl (.inl rfl)

end Prerequisites

section Family

attribute [local instance] literalExternals

theorem family_evaluated {g : Json} (h : Evaluated familyContent parentFlag g) :
    g = parentFlag ∨ g = childFlag := by
  rcases h with rfl | ⟨key, -, hfound⟩
  · exact .inl rfl
  · have hmem : (key, g) ∈ familyContent.flags := mem_flags_of_get hfound
    rcases List.mem_cons.mp hmem with hparent | hrest
    · cases hparent
      exact .inl rfl
    · cases List.mem_singleton.mp hrest
      exact .inr rfl

theorem parentFlag_wellFormed : WellFormedFlag parentFlag := by
  have hchoice : WellFormedChoice parentFlag (.object [("variation", .number 0)]) :=
    .fixed rfl rfl rfl
  refine ⟨⟨rfl, ⟨_, rfl⟩, ⟨_, rfl⟩, nofun, nofun, nofun, nofun, _, rfl, hchoice⟩, nofun, nofun, ?_,
    .inl rfl, ⟨rfl, rfl, rfl, rfl⟩⟩
  rintro iter (_ | ⟨_, ⟨⟩⟩)
  exact ⟨"child", 1, rfl, rfl, rfl⟩

theorem childFlag_wellFormed : WellFormedFlag childFlag := by
  have hchoice : WellFormedChoice childFlag (.object [("variation", .number 1)]) :=
    .fixed rfl rfl rfl
  exact ⟨⟨rfl, ⟨_, rfl⟩, ⟨_, rfl⟩, nofun, nofun, nofun, nofun, _, rfl, hchoice⟩, nofun, nofun, nofun,
    .inr ⟨rfl, .inl rfl⟩, ⟨rfl, rfl, rfl, rfl⟩⟩

end Family

end ServerSdk
