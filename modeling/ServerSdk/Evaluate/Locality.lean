import ServerSdk.Evaluate.Termination

namespace ServerSdk

open Program

def SameEvent (e e' : Json) : Prop :=
  e.objectDeleteKey "creationDate" = e'.objectDeleteKey "creationDate"

theorem SameEvent.refl (e : Json) : SameEvent e e := rfl

theorem SameEvent.setKey {e e' : Json} (h : SameEvent e e') {key : String}
    (hkey : key ≠ "creationDate") (v : Json) :
    SameEvent (e.objectSetKey key v) (e'.objectSetKey key v) := by
  have hdel : e.objectDeleteKey "creationDate" = e'.objectDeleteKey "creationDate" := h
  rw [SameEvent, Json.objectDeleteKey_setKey_of_ne hkey, Json.objectDeleteKey_setKey_of_ne hkey,
    hdel]

theorem keptBySetting_sameEvent : KeptBySetting SameEvent := fun value hkey h => h.setKey hkey value

theorem newBaseEvent_sameEvent (kind : String) (t t' : Rat) :
    SameEvent (newBaseEvent kind t) (newBaseEvent kind t') := by
  have hbase : ∀ now : Rat, (newBaseEvent kind now).objectDeleteKey "creationDate" =
      .object [("kind", .text kind)] := by
    intro now
    rw [newBaseEvent, Json.objectDeleteKey_setKey_of_ne (by decide)]
    rfl
  rw [SameEvent, hbase, hbase]

theorem addUserInfoToEvent_alike {e e' : Json} (h : SameEvent e e') (user : User)
    (config : Config) :
    Checked.Alike SameEvent (addUserInfoToEvent e user config)
      (addUserInfoToEvent e' user config) := by
  simp only [addUserInfoToEvent]
  split
  · exact Checked.Alike.bind_eq (fun json => Checked.alike_pure (h.setKey (by decide) json))
  · exact Checked.alike_pure (h.setKey (by decide) _)

theorem newFeatureEvent_alike (args : FeatureEventArgs) (t : Rat) (user : User) (config : Config) :
    Checked.Alike (Option.Rel SameEvent) (newFeatureEvent args user config)
      (newFeatureEvent { args with timestamp := t } user config) := by
  have hinfo := addUserInfoToEvent_alike (newBaseEvent_sameEvent "feature" args.timestamp t) user
    config
  obtain ⟨event, hevent⟩ := addUserInfoToEvent_returns (newBaseEvent "feature" args.timestamp) user
    config
  obtain ⟨event', hevent'⟩ := addUserInfoToEvent_returns (newBaseEvent "feature" t) user config
  rw [hevent, hevent'] at hinfo
  cases hinfo with
  | ok h =>
      obtain ⟨built, built', hbuilt, hbuilt', hrel⟩ :=
        keptBySetting_sameEvent.newFeatureEvent rfl hevent hevent' h
      rw [hbuilt, hbuilt']
      exact .ok hrel

theorem prerequisiteEvent_alike {σ τ : Type} {client : Client σ} {client' : Client τ}
    (hconfig : client.config = client'.config) (user : User) (flag : Json) (key : String)
    (preflag : Json) (t t' : Rat) {sub sub' : Outputs} (hsub : SameOutputs SameEvent sub sub') :
    Checked.Alike (Option.Rel SameEvent)
      (prerequisiteEvent client user flag key preflag t sub)
      (prerequisiteEvent client' user flag key preflag t' sub') := by
  simp only [prerequisiteEvent, hsub.details, hsub.value, hconfig]
  exact newFeatureEvent_alike _ t' user client'.config

structure Agree (c c' : Content) (flag : Json) : Prop where
  flags : ∀ key, Reachable c flag key → c.get .flag key = c'.get .flag key
  segments : ∀ f, Evaluated c flag f →
    ∀ key ∈ segmentKeys f, c.get .segment key = c'.get .segment key

section States

variable {σ τ : Type}

structure Tracks (R : σ → τ → Prop) (w : World σ) (w' : World τ) : Prop where
  clock : ∀ s t, R s t → R (w.unixMilliseconds s).2 (w'.unixMilliseconds t).2
  get : ∀ kind key s t, R s t → R (w.storeGet kind key s).2 (w'.storeGet kind key t).2

def AnyState (_ : σ) (_ : τ) : Prop := True

theorem anyState_tracks (w : World σ) (w' : World τ) : Tracks AnyState w w' :=
  ⟨fun _ _ _ => trivial, fun _ _ _ _ _ => trivial⟩

end States

section Local

variable [Externals] {σ τ : Type} {client : Client σ} {client' : Client τ} {c c' : Content}
  {flag : Json} {user : User} {R : σ → τ → Prop}

theorem evaluateWith_local (hR : Tracks R client.world client'.world)
    (hconfig : client.config = client'.config)
    (hw : Serves client.world c) (hw' : Serves client'.world c') (hagree : Agree c c' flag)
    {ev : Json → Run σ Evaluation} {ev' : Json → Run τ Evaluation} {f : Json}
    (hf : Evaluated c flag f) (out : Outputs)
    (hev : ∀ g, Evaluated c flag g →
      Run.Sim Policy.exact R (SameEvaluation SameEvent) (ev g) (ev' g)) :
    Run.Sim Policy.exact R (SameEvaluation SameEvent) (evaluateWith client user ev f out)
      (evaluateWith client' user ev' f out) := by
  refine evaluateWith_sim (T := fun _ _ => True) Policy.exact_fair
    (Run.sim_ask fun s t hst => ⟨trivial, hR.clock s t hst⟩) (.refl f)
    (sameOutputs_refl .refl out) ?_ ?_
  · intro key hlooks _
    have hk := hlooks.mem
    have hget := hagree.flags key (hf.reachable_key hk)
    refine Run.sim_ask (fun s t hst => ⟨?_, hR.get .flag key s t hst⟩)
    rw [hw, hw', ← hget]
    refine .some ?_
    cases hg : c.get .flag key with
    | none => exact .none
    | some g =>
        refine .some ⟨.refl g, hev g (hf.calls ⟨key, hk, hg⟩), ?_⟩
        intro t t' e e' _ _ _ _ hsame
        exact prerequisiteEvent_alike hconfig user f key g t t' hsame.2
  · intro key hk
    refine Run.sim_ask (fun s t hst => ⟨?_, hR.get .segment key s t hst⟩)
    rw [hw, hw', hagree.segments f hf key hk]

theorem evaluateNested_local (hR : Tracks R client.world client'.world)
    (hconfig : client.config = client'.config)
    (hw : Serves client.world c) (hw' : Serves client'.world c') (hagree : Agree c c' flag)
    (fuel : ℕ) :
    ∀ f, Evaluated c flag f → Run.Sim Policy.exact R (SameEvaluation SameEvent)
      (evaluateNested client user fuel f) (evaluateNested client' user fuel f) := by
  intro f hf
  refine Run.unroll_sim (I := fun f f' => f = f' ∧ Evaluated c flag f) ?_ (.inr rfl) fuel f f ⟨rfl, hf⟩
  rintro ev ev' hev g _ ⟨rfl, hg⟩
  exact evaluateWith_local hR hconfig hw hw' hagree hg freshOutputs
    (fun k hk => hev k k ⟨rfl, hk⟩)

theorem evaluate_local (hR : Tracks R client.world client'.world)
    (hconfig : client.config = client'.config)
    (hw : Serves client.world c) (hw' : Serves client'.world c') (hagree : Agree c c' flag)
    (user : User) (fuel : ℕ) (out : Outputs) :
    Run.Sim Policy.exact R (SameEvaluation SameEvent)
      (evaluate client user fuel flag out) (evaluate client' user fuel flag out) :=
  evaluateWith_local hR hconfig hw hw' hagree (.inl rfl) out
    (fun g hg => evaluateNested_local hR hconfig hw hw' hagree fuel g hg)

theorem evaluate_canonical (hw : Serves client.world c) (user : User) (fuel : ℕ) (flag : Json)
    (out : Outputs) (s : σ) :
    Related Policy.exact AnyState (SameEvaluation SameEvent) (evaluate client user fuel flag out s)
      (evaluate ⟨client.config, c.world⟩ user fuel flag out ()) := by
  have hagree : Agree c c flag := ⟨fun _ _ => rfl, fun _ _ _ _ => rfl⟩
  have hconfig : client.config = (⟨client.config, c.world⟩ : Client Unit).config := rfl
  exact evaluate_local (anyState_tracks _ _) hconfig hw c.world_serves hagree user fuel out s ()
    trivial

theorem evaluate_of_canonical (hw : Serves client.world c) {fuel : ℕ} {out : Outputs}
    {e : Evaluation} (h : evaluate ⟨client.config, c.world⟩ user fuel flag out () = .ok (e, ()))
    (s : σ) :
    ∃ e' t, evaluate client user fuel flag out s = .ok (e', t) ∧ SameEvaluation SameEvent e' e := by
  have hsim := evaluate_canonical hw user fuel flag out s
  rw [h] at hsim
  cases hs : evaluate client user fuel flag out s with
  | error err =>
      rw [hs] at hsim
      exact hsim.elim
  | ok p =>
      rw [hs] at hsim
      exact ⟨p.1, p.2, rfl, hsim.1⟩

theorem canonical_of_evaluate (hw : Serves client.world c) {fuel : ℕ} {out : Outputs}
    {e' : Evaluation} {s t : σ} (h : evaluate client user fuel flag out s = .ok (e', t)) :
    ∃ e, evaluate ⟨client.config, c.world⟩ user fuel flag out () = .ok (e, ()) ∧
      SameEvaluation SameEvent e' e := by
  have hsim := evaluate_canonical hw user fuel flag out s
  rw [h] at hsim
  cases hs : evaluate ⟨client.config, c.world⟩ user fuel flag out () with
  | error err =>
      rw [hs] at hsim
      exact hsim.elim
  | ok p =>
      rw [hs] at hsim
      exact ⟨p.1, rfl, hsim.1⟩

theorem evaluate_reads_only_reachable (hconfig : client.config = client'.config)
    (hw : Serves client.world c) (hw' : Serves client'.world c') (hac : Acyclic c flag)
    (hagree : Agree c c' flag) (out : Outputs) {fuel : ℕ} (hfuel : c.flags.length ≤ fuel)
    (s : σ) (t : τ) :
    (∃ fault, evaluate client user fuel flag out s = .error (.fault fault) ∧
      evaluate client' user fuel flag out t = .error (.fault fault)) ∨
    ∃ e e' s' t', evaluate client user fuel flag out s = .ok (e, s') ∧
      evaluate client' user fuel flag out t = .ok (e', t') ∧ SameEvaluation SameEvent e e' := by
  have hhalts : evaluate client user fuel flag out s ≠ .error .fuel :=
    evaluate_halts hw hac out hfuel s
  have hsim := evaluate_local (anyState_tracks _ _) hconfig hw hw' hagree user fuel out s t trivial
  cases hs : evaluate client user fuel flag out s with
  | error e =>
      rw [hs] at hsim hhalts
      cases ht : evaluate client' user fuel flag out t with
      | error e' =>
          rw [ht] at hsim
          rcases hsim with hfalse | heq
          · exact hfalse.elim
          · cases e with
            | fuel => exact absurd rfl hhalts
            | fault fault => exact .inl ⟨fault, rfl, by rw [← heq]⟩
      | ok q =>
          rw [ht] at hsim
          exact hsim.elim
  | ok p =>
      rw [hs] at hsim
      cases ht : evaluate client' user fuel flag out t with
      | error e' =>
          rw [ht] at hsim
          exact hsim.elim
      | ok q =>
          rw [ht] at hsim
          exact .inr ⟨p.1, q.1, p.2, q.2, rfl, rfl, hsim.1⟩

end Local

theorem familyContent_reachable {key : String} (h : Reachable familyContent parentFlag key) :
    key = "child" := by
  obtain ⟨k, hk, hpath⟩ := h
  have hkeys : prerequisiteKeys parentFlag = ["child"] := by decide
  rw [hkeys, List.mem_singleton] at hk
  subst hk
  rcases Relation.ReflTransGen.cases_head hpath with heq | ⟨b, ⟨g, hg, hb⟩, -⟩
  · exact heq.symm
  · have hchild : familyContent.get .flag "child" = some childFlag := by decide
    have hnone : prerequisiteKeys childFlag = [] := by decide
    rw [hchild] at hg
    cases hg
    rw [hnone] at hb
    cases hb

def largerContent : Content :=
  ⟨familyContent.flags ++ [("other", .null)], [("beta", .object [])]⟩

theorem familyContent_agrees : Agree familyContent largerContent parentFlag := by
  refine ⟨fun key hkey => ?_, fun f hf key hk => ?_⟩
  · rw [familyContent_reachable hkey]
    decide
  · have hsegments : segmentKeys f = [] := by
      rcases hf with rfl | ⟨key', hkey', hget⟩
      · decide
      · rw [familyContent_reachable hkey'] at hget
        have hchild : familyContent.get .flag "child" = some childFlag := by decide
        rw [hchild] at hget
        cases hget
        decide
    rw [hsegments] at hk
    cases hk

section Fixed

attribute [local instance] literalExternals

theorem family_reads_only_reachable :
    (∃ fault, evaluate familyContent.client (userNew "u") 2 parentFlag freshOutputs () =
        .error (.fault fault) ∧
      evaluate largerContent.client (userNew "u") 2 parentFlag freshOutputs () =
        .error (.fault fault)) ∨
    ∃ e e' s' t',
      evaluate familyContent.client (userNew "u") 2 parentFlag freshOutputs () = .ok (e, s') ∧
      evaluate largerContent.client (userNew "u") 2 parentFlag freshOutputs () = .ok (e', t') ∧
      SameEvaluation SameEvent e e' :=
  have hconfig : familyContent.client.config = largerContent.client.config := rfl
  evaluate_reads_only_reachable hconfig familyContent.world_serves largerContent.world_serves
    (familyContent_acyclic _) familyContent_agrees freshOutputs le_rfl () ()

end Fixed

end ServerSdk
