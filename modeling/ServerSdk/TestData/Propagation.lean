import ServerSdk.TestData.Threads

namespace ServerSdk

open Program

namespace UpdatePhase

def newFlag : UpdatePhase → Option NewFlag
  | .changed newFlag | .notifying newFlag _ | .upserting newFlag _ _ => some newFlag
  | .requested _ | .updated => none

def pending (client : ℕ) : UpdatePhase → Option NewFlag
  | .changed newFlag => some newFlag
  | .notifying newFlag remaining => if client ∈ remaining then some newFlag else none
  | .upserting newFlag next remaining => if client ∈ next :: remaining then some newFlag else none
  | .requested _ | .updated => none

theorem newFlag_of_pending {phase : UpdatePhase} {client : ℕ} {newFlag : NewFlag}
    (h : phase.pending client = some newFlag) : phase.newFlag = some newFlag := by
  cases phase with
  | changed _ => exact h
  | notifying _ remaining =>
      simp only [pending] at h
      split_ifs at h
      exact h
  | upserting _ _ remaining =>
      simp only [pending] at h
      split_ifs at h
      exact h
  | requested _ | updated => cases h

end UpdatePhase

abbrev FlagMap := String → Option Json

structure ClientKept (current : FlagMap) (client : TestClient) : Prop where
  memory : MemoryBacked client.store
  keeps : ∃ content, Keeps client.store.context content
  copied : ∀ flags, client.phase = .copied flags → FlagsHeld flags
  trails : ∀ view, client.view = some view → VersionedMap.Trails getDataVersion view current

structure PhaseKept (testData : TestData) (phase : UpdatePhase) : Prop where
  allocated : ∀ newFlag, phase.newFlag = some newFlag → newFlag.allocation < testData.allocated
  owned : ∀ newFlag, phase.newFlag = some newFlag →
    testData.owner newFlag.key = some newFlag.allocation →
      testData.currentFlags.objectLookup newFlag.key = some newFlag.flag
  published : ∀ newFlag client remaining, phase = .upserting newFlag client remaining →
    testData.hasStore client = true

def Underway (updates : List UpdatePhase) (client : ℕ) (key : String) (flag : Json) : Prop :=
  ∃ phase ∈ updates, ∃ newFlag, phase.pending client = some newFlag ∧ newFlag.key = key ∧
    newFlag.flag = flag

def Supplied (testData : TestData) (client : ℕ) (view : FlagMap) : Prop :=
  ∀ key flag, testData.currentFlags.objectLookup key = some flag →
    view key = some flag ∨ Underway testData.updates client key flag

structure Delivering (testData : TestData) : Prop where
  held : FlagsHeld testData.currentFlags
  instances : ∀ client, client < testData.clients.length → client ∈ testData.instances
  clients : ∀ client ∈ testData.clients, ClientKept testData.currentFlags.objectLookup client
  phases : ∀ phase ∈ testData.updates, PhaseKept testData phase
  supplied : ∀ client found view, testData.clients[client]? = some found →
    found.view = some view → Supplied testData client view

theorem mem_set_or_eq {α : Type} {l : List α} {index : ℕ} {old new item : α}
    (hold : l[index]? = some old) (hmem : item ∈ l) : item ∈ l.set index new ∨ item = old := by
  obtain ⟨other, hother⟩ := List.mem_iff_getElem?.mp hmem
  by_cases hne : index = other
  · subst hne
    rw [hold] at hother
    cases hother
    exact .inr rfl
  · left
    rw [List.mem_iff_getElem?]
    exact ⟨other, by rw [List.getElem?_set_ne hne]; exact hother⟩

theorem Underway.set {updates : List UpdatePhase} {id client : ℕ} {old new : UpdatePhase}
    {key : String} {flag : Json} (hold : updates[id]? = some old)
    (hnew : ∀ newFlag, old.pending client = some newFlag → newFlag.key = key → newFlag.flag = flag →
      new.pending client = some newFlag)
    (h : Underway updates client key flag) : Underway (updates.set id new) client key flag := by
  obtain ⟨phase, hphase, newFlag, hpending, hkey, hflag⟩ := h
  rcases @mem_set_or_eq _ _ _ _ new _ hold hphase with hmem | rfl
  · exact ⟨phase, hmem, newFlag, hpending, hkey, hflag⟩
  · have hid : id < updates.length := (List.getElem?_eq_some_iff.mp hold).1
    exact ⟨new, List.mem_set hid new, newFlag, hnew newFlag hpending hkey hflag, hkey, hflag⟩

theorem Underway.append {updates : List UpdatePhase} {client : ℕ} {key : String} {flag : Json}
    (h : Underway updates client key flag) (phase : UpdatePhase) :
    Underway (updates ++ [phase]) client key flag := by
  obtain ⟨found, hfound, hpending⟩ := h
  exact ⟨found, List.mem_append_left _ hfound, hpending⟩

theorem delivering_testDataInit : Delivering testDataInit :=
  ⟨FlagsHeld.empty, nofun, nofun, nofun, nofun⟩

theorem startStep_kept {currentFlags : Json} {client : TestClient} (hflags : FlagsHeld currentFlags)
    (h : ClientKept currentFlags.objectLookup client) :
    ∃ next, startStep currentFlags client = .ok next ∧
      ClientKept currentFlags.objectLookup next ∧
      (client.phase = .started → next = client) ∧
      (next.view = client.view ∨ next.view = some currentFlags.objectLookup) := by
  obtain ⟨phase, store⟩ := client
  cases phase with
  | created =>
      refine ⟨⟨.copied currentFlags, store⟩, rfl, ⟨h.memory, h.keeps, ?_, ?_⟩, nofun, .inr rfl⟩
      · intro flags hphase
        cases hphase
        exact hflags
      · intro view hview
        cases hview
        exact VersionedMap.Trails.refl _
  | copied flags =>
      obtain ⟨content, hcontent⟩ := h.keeps
      have hvalid : ValidSets (dataSet flags) := (h.copied flags rfl).valid
      obtain ⟨next, hperform, hmemory, _, hkeeps⟩ :=
        @perform_keeps _ _ h.memory hcontent (.init (dataSet flags)) hvalid
      have hinit : store.init (dataSet flags) = .ok (true, next) := hperform
      have hview : TestClient.view ⟨.initialised, next⟩ = some flags.objectLookup := by
        refine congrArg some (funext fun key => ?_)
        exact (hkeeps.content .flag key).trans (heldBy_dataSet flags key)
      refine ⟨⟨.initialised, next⟩, ?_, ⟨hmemory, ⟨_, hkeeps⟩, nofun, ?_⟩, nofun, .inl hview⟩
      · simp only [startStep, hinit, Checked.ok_bind]
        rfl
      · rw [hview]
        exact h.trails
  | initialised => exact ⟨⟨.started, store⟩, rfl, ⟨h.memory, h.keeps, nofun, h.trails⟩, nofun, .inl rfl⟩
  | started | failed => exact ⟨_, rfl, h, fun _ => rfl, .inl rfl⟩

theorem hasStore_iff {testData : TestData} {client : ℕ} : testData.hasStore client = true ↔
    ∃ found, testData.clients[client]? = some found ∧ found.phase = .started := by
  simp only [TestData.hasStore, Option.any_eq_true, decide_eq_true_eq]

theorem PhaseKept.withClients {testData : TestData} {phase : UpdatePhase}
    (h : PhaseKept testData phase) {clients : List TestClient}
    (hstore : ∀ client, testData.hasStore client = true →
      { testData with clients }.hasStore client = true) :
    PhaseKept { testData with clients } phase :=
  ⟨h.allocated, h.owned, fun newFlag client remaining hphase =>
    hstore client (h.published newFlag client remaining hphase)⟩

theorem hasStore_set {testData : TestData} {index client : ℕ} {found next : TestClient}
    (hfound : testData.clients[index]? = some found)
    (hnext : found.phase = .started → next.phase = .started)
    (h : testData.hasStore client = true) :
    { testData with clients := testData.clients.set index next }.hasStore client = true := by
  obtain ⟨held, hheld, hphase⟩ := hasStore_iff.mp h
  rw [hasStore_iff]
  by_cases hclient : index = client
  · subst hclient
    rw [hfound] at hheld
    cases hheld
    have hlt : index < testData.clients.length := (List.getElem?_eq_some_iff.mp hfound).1
    exact ⟨next, List.getElem?_set_self hlt, hnext hphase⟩
  · exact ⟨held, (List.getElem?_set_ne hclient).trans hheld, hphase⟩

theorem Delivering.setClient {testData : TestData} (h : Delivering testData) {index : ℕ}
    {found next : TestClient} (hfound : testData.clients[index]? = some found)
    (hkept : ClientKept testData.currentFlags.objectLookup next)
    (hphase : found.phase = .started → next.phase = .started)
    (hview : ∀ view, next.view = some view → Supplied testData index view) :
    Delivering { testData with clients := testData.clients.set index next } := by
  refine ⟨h.held, ?_, ?_, ?_, ?_⟩
  · intro client hlt
    rw [List.length_set] at hlt
    exact h.instances client hlt
  · intro client hmem
    rcases List.mem_or_eq_of_mem_set hmem with hmem | rfl
    · exact h.clients client hmem
    · exact hkept
  · intro phase hmem
    exact (h.phases phase hmem).withClients fun client => hasStore_set hfound hphase
  · intro client held view hheld hviewed
    by_cases hclient : index = client
    · subst hclient
      have hlt : index < testData.clients.length := (List.getElem?_eq_some_iff.mp hfound).1
      rw [List.getElem?_set_self hlt] at hheld
      cases hheld
      exact hview view hviewed
    · rw [List.getElem?_set_ne hclient] at hheld
      exact h.supplied client held view hheld hviewed

theorem Delivering.setPhase {testData : TestData} (h : Delivering testData) {id : ℕ}
    {old new : UpdatePhase} (hold : testData.updates[id]? = some old)
    (hkept : PhaseKept testData new)
    (hpending : ∀ client found view newFlag, testData.clients[client]? = some found →
      found.view = some view → old.pending client = some newFlag →
      testData.currentFlags.objectLookup newFlag.key = some newFlag.flag →
        view newFlag.key = some newFlag.flag ∨ new.pending client = some newFlag) :
    Delivering { testData with updates := testData.updates.set id new } := by
  refine ⟨h.held, h.instances, h.clients, ?_, ?_⟩
  · intro phase hmem
    rcases List.mem_or_eq_of_mem_set hmem with hmem | rfl
    · obtain ⟨hallocated, howned, hpublished⟩ := h.phases phase hmem
      exact ⟨hallocated, howned, hpublished⟩
    · obtain ⟨hallocated, howned, hpublished⟩ := hkept
      exact ⟨hallocated, howned, hpublished⟩
  · intro client found view hfound hview key flag hflag
    by_cases hheld : view key = some flag
    · exact .inl hheld
    · right
      refine ((h.supplied client found view hfound hview key flag hflag).resolve_left hheld).set hold ?_
      rintro newFlag hnew rfl rfl
      exact (hpending client found view newFlag hfound hview hnew hflag).resolve_left hheld

theorem Delivering.createDataSource {testData : TestData} (h : Delivering testData) :
    Delivering { testData with
      instances := testData.clients.length :: testData.instances
      clients := testData.clients ++ [⟨.created, Store.newMemory⟩] } := by
  refine ⟨h.held, ?_, ?_, ?_, ?_⟩
  · intro client hlt
    rw [List.length_append, List.length_singleton] at hlt
    rw [List.mem_cons]
    have hcases : client = testData.clients.length ∨ client < testData.clients.length := by omega
    exact hcases.imp_right (h.instances client)
  · intro client hmem
    rcases List.mem_append.mp hmem with hmem | hmem
    · exact h.clients client hmem
    · cases List.mem_singleton.mp hmem
      exact ⟨rfl, ⟨_, newMemory_keeps⟩, nofun, nofun⟩
  · intro phase hmem
    obtain ⟨hallocated, howned, hpublished⟩ := h.phases phase hmem
    refine ⟨hallocated, howned, ?_⟩
    intro newFlag client remaining hphase
    obtain ⟨found, hfound, hstarted⟩ := hasStore_iff.mp (hpublished newFlag client remaining hphase)
    have hlt : client < testData.clients.length := (List.getElem?_eq_some_iff.mp hfound).1
    exact hasStore_iff.mpr ⟨found, (List.getElem?_append_left hlt).trans hfound, hstarted⟩
  · intro client found view hfound hview
    rcases Nat.lt_or_ge client testData.clients.length with hlt | hge
    · rw [List.getElem?_append_left hlt] at hfound
      exact h.supplied client found view hfound hview
    · rw [List.getElem?_append_right hge] at hfound
      have hmem := List.mem_of_getElem? hfound
      cases List.mem_singleton.mp hmem
      cases hview

theorem Delivering.start {testData : TestData} (h : Delivering testData) {client : ℕ}
    {found : TestClient} (hfound : testData.clients[client]? = some found) :
    ∃ next, startStep testData.currentFlags found = .ok next ∧
      Delivering { testData with clients := testData.clients.set client next } := by
  obtain ⟨next, hstart, hkept, hphase, hview⟩ :=
    startStep_kept h.held (h.clients found (List.mem_of_getElem? hfound))
  refine ⟨next, hstart, h.setClient hfound hkept ?_ ?_⟩
  · intro hstarted
    rw [hphase hstarted, hstarted]
  · intro view hnext
    rcases hview with hsame | hcurrent
    · exact h.supplied client found view hfound (hsame ▸ hnext)
    · rw [hcurrent] at hnext
      cases hnext
      exact fun key flag hflag => .inl hflag

theorem Delivering.request {testData : TestData} (h : Delivering testData)
    (flagBuilder : FlagBuilder) :
    Delivering { testData with updates := testData.updates ++ [.requested flagBuilder] } := by
  refine ⟨h.held, h.instances, h.clients, ?_, ?_⟩
  · intro phase hmem
    rcases List.mem_append.mp hmem with hmem | hmem
    · obtain ⟨hallocated, howned, hpublished⟩ := h.phases phase hmem
      exact ⟨hallocated, howned, hpublished⟩
    · cases List.mem_singleton.mp hmem
      exact ⟨nofun, nofun, nofun⟩
  · intro client found view hfound hview key flag hflag
    exact (h.supplied client found view hfound hview key flag hflag).imp_right (·.append _)

theorem lookup_change {flags flag : Json} (h : FlagsHeld flags) (key : String) :
    (flags.objectSetKey key flag).objectLookup =
      Function.update flags.objectLookup key (some flag) := by
  funext other
  by_cases hother : other = key
  · subst hother
    rw [h.unique.lookup_setKey, Function.update_self]
  · rw [Json.objectLookup_setKey_of_ne hother, Function.update_of_ne hother]

theorem PhaseKept.changeFlags {testData : TestData} {phase : UpdatePhase}
    (hphase : PhaseKept testData phase) (flagBuilder : FlagBuilder) :
    PhaseKept (testData.changeFlags flagBuilder).2 phase := by
  refine ⟨?_, ?_, hphase.published⟩
  · intro newFlag hnew
    exact Nat.lt_succ_of_lt (hphase.allocated newFlag hnew)
  · intro newFlag hnew howner
    change Function.update testData.owner flagBuilder.key (some testData.allocated) newFlag.key =
      some newFlag.allocation at howner
    have hlt := hphase.allocated newFlag hnew
    have hkey : newFlag.key ≠ flagBuilder.key := by
      intro hkey
      rw [hkey, Function.update_self, Option.some.injEq] at howner
      omega
    rw [Function.update_of_ne hkey] at howner
    exact (Json.objectLookup_setKey_of_ne hkey _ _).trans (hphase.owned newFlag hnew howner)

theorem Delivering.changeFlags {testData : TestData} (h : Delivering testData) {id : ℕ}
    {flagBuilder : FlagBuilder} (hold : testData.updates[id]? = some (.requested flagBuilder))
    (hlt : getPreviousFlagVersion testData.currentFlags flagBuilder < 2 ^ 31 - 1) :
    Delivering { (testData.changeFlags flagBuilder).2 with
      updates := (testData.changeFlags flagBuilder).2.updates.set id
        (.changed (testData.changeFlags flagBuilder).1) } := by
  obtain ⟨hnumbered, hnewer⟩ := createNewFlag_numbered h.held hlt
  have hlookup := @lookup_change _ (createNewFlag testData.currentFlags flagBuilder) h.held
    flagBuilder.key
  refine ⟨h.held.setKey hnumbered, h.instances, ?_, ?_, ?_⟩
  · intro client hmem
    obtain ⟨hmemory, hkeeps, hcopied, htrails⟩ := h.clients client hmem
    refine ⟨hmemory, hkeeps, hcopied, ?_⟩
    intro view hview
    change VersionedMap.Trails getDataVersion view (testData.currentFlags.objectSetKey _ _).objectLookup
    rw [hlookup]
    exact (htrails view hview).change hnewer
  · intro phase hmem
    rcases List.mem_or_eq_of_mem_set hmem with hmem | rfl
    · obtain ⟨hallocated, howned, hpublished⟩ :=
        (h.phases phase hmem).changeFlags flagBuilder
      exact ⟨hallocated, howned, hpublished⟩
    · refine ⟨?_, ?_, nofun⟩
      · intro newFlag hnew
        cases hnew
        exact Nat.lt_succ_self _
      · intro newFlag hnew _
        cases hnew
        exact (congrFun hlookup _).trans (Function.update_self _ _ _)
  · intro client found view hfound hview key flag hflag
    change (testData.currentFlags.objectSetKey _ _).objectLookup key = some flag at hflag
    rw [hlookup] at hflag
    by_cases hkey : key = flagBuilder.key
    · subst hkey
      rw [Function.update_self] at hflag
      cases hflag
      have hid : id < testData.updates.length := (List.getElem?_eq_some_iff.mp hold).1
      exact .inr ⟨_, List.mem_set hid _, _, rfl, rfl, rfl⟩
    · rw [Function.update_of_ne hkey] at hflag
      exact (h.supplied client found view hfound hview key flag hflag).imp_right (·.set hold nofun)

theorem upsert_kept {current : FlagMap} {client : TestClient} (h : ClientKept current client)
    (hstarted : client.phase = .started) {key : String} {flag : Json} (hflag : Carries key flag)
    (hcurrent : current key = some flag) :
    ∃ status store, client.store.upsert .flag flag = .ok (status, store) ∧
      ClientKept current { client with store } ∧
      ∃ view, client.view = some view ∧ TestClient.view { client with store } =
        some (VersionedMap.apply getDataVersion view (.offer key flag)) := by
  obtain ⟨content, hcontent⟩ := h.keeps
  obtain ⟨next, hperform, hmemory, _, hkeeps⟩ :=
    @perform_keeps _ _ h.memory hcontent (.upsert .flag flag) trivial
  have hsteps : (StoreCall.upsert .flag flag).steps = [.offer (.flag, key) flag] := by
    simp [StoreCall.steps, hflag.valid, hflag.key]
  rw [hsteps] at hkeeps
  have hview : client.view = some (client.store.context.getFromStore .flag) := by
    rw [TestClient.view, hstarted]
  have hnext : TestClient.view { client with store := next } =
      some (VersionedMap.apply getDataVersion (client.store.context.getFromStore .flag)
        (.offer key flag)) := by
    simp only [TestClient.view, hstarted, Option.some.injEq]
    funext other
    rw [hkeeps.content, List.foldl_cons, List.foldl_nil]
    by_cases hother : other = key
    · subst hother
      rw [VersionedMap.apply_offer_self, VersionedMap.apply_offer_self, hcontent.content]
    · rw [VersionedMap.apply_offer_of_ne (by simpa using hother),
        VersionedMap.apply_offer_of_ne hother, hcontent.content]
  refine ⟨_, next, hperform, ⟨hmemory, ⟨_, hkeeps⟩, ?_, ?_⟩, _, hview, hnext⟩
  · intro flags hphase
    rw [hstarted] at hphase
    cases hphase
  · intro view hviewed
    rw [hnext] at hviewed
    cases hviewed
    exact (h.trails _ hview).offer hcurrent

theorem Delivering.upsertInto {testData : TestData} (h : Delivering testData) {client : ℕ}
    (hstore : testData.hasStore client = true) {key : String} {flag : Json}
    (hcurrent : testData.currentFlags.objectLookup key = some flag) :
    ∃ clients, testData.upsertInto client flag = .ok { testData with clients } ∧
      Delivering { testData with clients } ∧
      (∀ other, testData.hasStore other = true → { testData with clients }.hasStore other = true) ∧
      ∀ found view, clients[client]? = some found → found.view = some view → view key = some flag := by
  obtain ⟨found, hfound, hstarted⟩ := hasStore_iff.mp hstore
  have hkept := h.clients found (List.mem_of_getElem? hfound)
  obtain ⟨status, store, hupsert, hkept', view, hview, hnext⟩ :=
    upsert_kept hkept hstarted (h.held.numbered key flag hcurrent).carries hcurrent
  have hnow : VersionedMap.apply getDataVersion view (.offer key flag) key = some flag := by
    rw [VersionedMap.apply_offer_self, (hkept.trails view hview).newer_eq hcurrent]
  refine ⟨testData.clients.set client { found with store }, ?_, ?_, ?_, ?_⟩
  · simp only [TestData.upsertInto, hfound, hupsert, Checked.ok_bind]
    rfl
  · refine h.setClient hfound hkept' id ?_
    intro view' hview' other item hitem
    rw [hnext] at hview'
    cases hview'
    by_cases hother : other = key
    · subst hother
      rw [hcurrent] at hitem
      cases hitem
      exact .inl hnow
    · rw [VersionedMap.apply_offer_of_ne hother]
      exact h.supplied client found view hfound hview other item hitem
  · intro other hother
    exact hasStore_set hfound id hother
  · intro next view' hnextFound hview'
    have hlt : client < testData.clients.length := (List.getElem?_eq_some_iff.mp hfound).1
    rw [List.getElem?_set_self hlt] at hnextFound
    cases hnextFound
    rw [hnext] at hview'
    cases hview'
    exact hnow

theorem pending_self {phase : UpdatePhase} {newFlag : NewFlag} (h : phase.newFlag = some newFlag)
    {client : ℕ} {pending : NewFlag} (hpending : phase.pending client = some pending) :
    pending = newFlag := by
  have hnew := UpdatePhase.newFlag_of_pending hpending
  rw [h] at hnew
  exact (Option.some.inj hnew).symm

theorem PhaseKept.next {testData : TestData} {old new : UpdatePhase} (h : PhaseKept testData old)
    (hnew : new.newFlag = none ∨ new.newFlag = old.newFlag)
    (hpublished : ∀ newFlag client remaining, new = .upserting newFlag client remaining →
      testData.hasStore client = true) : PhaseKept testData new := by
  refine ⟨?_, ?_, hpublished⟩
  · intro newFlag hflag
    rcases hnew with hnone | hsame
    · rw [hnone] at hflag
      cases hflag
    · exact h.allocated newFlag (hsame ▸ hflag)
  · intro newFlag hflag
    rcases hnew with hnone | hsame
    · rw [hnone] at hflag
      cases hflag
    · exact h.owned newFlag (hsame ▸ hflag)

theorem Delivering.visit {testData : TestData} (h : Delivering testData) {id : ℕ}
    {newFlag : NewFlag} {next : ℕ} {remaining : List ℕ}
    (hold : testData.updates[id]? = some (.notifying newFlag (next :: remaining)))
    (htimely : testData.InTime (.notifying newFlag (next :: remaining))) :
    Delivering { testData with
      updates := testData.updates.set id
        (if testData.hasStore next then .upserting newFlag next remaining
          else .notifying newFlag remaining) } := by
  have hkept := h.phases _ (List.mem_of_getElem? hold)
  cases hstore : testData.hasStore next with
  | true =>
      refine h.setPhase hold (hkept.next (.inr rfl) ?_) fun _ _ _ _ _ _ hpending _ => .inr hpending
      intro other client rest hphase
      cases hphase
      exact hstore
  | false =>
      refine h.setPhase hold (hkept.next (.inr rfl) nofun) ?_
      intro client found view pending hfound hview hpending hcurrent
      cases pending_self rfl hpending
      by_cases hclient : client = next
      · subst hclient
        have hmisses := htimely hstore found hfound view hview
        simp only [Misses, not_forall] at hmisses
        obtain ⟨held, hheld, hlt⟩ := hmisses
        have htrails := (h.clients found (List.mem_of_getElem? hfound)).trails view hview
        rw [htrails.eq_of_not_lt hcurrent hheld hlt] at hheld
        exact .inl hheld
      · simpa [UpdatePhase.pending, hclient] using Or.inr hpending

theorem Delivering.upserting {testData : TestData} (h : Delivering testData) {id : ℕ}
    {freedMemory : Json} {newFlag : NewFlag} {client : ℕ} {remaining : List ℕ}
    (hold : testData.updates[id]? = some (.upserting newFlag client remaining))
    (howner : testData.owner newFlag.key = some newFlag.allocation) :
    ∃ next moved,
      testData.advance freedMemory (.upserting newFlag client remaining) = .ok (next, moved) ∧
      Delivering { moved with updates := moved.updates.set id next } := by
  have hkept := h.phases _ (List.mem_of_getElem? hold)
  have hcurrent := hkept.owned newFlag rfl howner
  obtain ⟨clients, hupsert, hnext, hstores, hview⟩ :=
    h.upsertInto (hkept.published newFlag client remaining rfl) hcurrent
  refine ⟨.notifying newFlag remaining, { testData with clients }, ?_, ?_⟩
  · simp only [TestData.advance, if_pos howner, hupsert, Checked.ok_bind]
    rfl
  · refine hnext.setPhase hold ((hkept.withClients hstores).next (.inr rfl) nofun) ?_
    intro other found view pending hfound hviewed hpending _
    cases pending_self rfl hpending
    by_cases hother : other = client
    · subst hother
      exact .inl (hview found view hfound hviewed)
    · simpa [UpdatePhase.pending, hother] using Or.inr hpending

theorem Delivering.advance {testData : TestData} (h : Delivering testData) {id : ℕ}
    {freedMemory : Json} {phase : UpdatePhase} (hold : testData.updates[id]? = some phase)
    (htimely : testData.Timely (.update id freedMemory)) :
    ∃ next moved, testData.advance freedMemory phase = .ok (next, moved) ∧
      Delivering { moved with updates := moved.updates.set id next } := by
  have hkept := h.phases phase (List.mem_of_getElem? hold)
  replace htimely : testData.InTime phase := htimely phase hold
  cases phase with
  | requested flagBuilder => exact ⟨_, _, rfl, h.changeFlags hold htimely⟩
  | changed newFlag =>
      refine ⟨_, _, rfl, h.setPhase hold (hkept.next (.inr rfl) nofun) ?_⟩
      intro client found view pending hfound _ hpending _
      have hlt : client < testData.clients.length := (List.getElem?_eq_some_iff.mp hfound).1
      exact .inr ((if_pos (h.instances client hlt)).trans hpending)
  | notifying newFlag remaining =>
      cases remaining with
      | nil =>
          refine ⟨_, _, rfl, h.setPhase hold (hkept.next (.inl rfl) nofun) ?_⟩
          intro client found view pending _ _ hpending _
          simp [UpdatePhase.pending] at hpending
      | cons next remaining => exact ⟨_, _, rfl, h.visit hold htimely⟩
  | upserting newFlag client remaining => exact h.upserting hold htimely
  | updated =>
      exact ⟨_, _, rfl, h.setPhase hold hkept fun _ _ _ _ _ _ hpending _ => .inr hpending⟩

theorem Delivering.perform {testData next : TestData} {event : TestDataEvent}
    (h : Delivering testData) (htimely : testData.Timely event)
    (hnext : testData.perform event = .ok next) : Delivering next := by
  cases event with
  | createDataSource =>
      cases hnext
      exact h.createDataSource
  | start client =>
      cases hfound : testData.clients[client]? with
      | none =>
          simp only [TestData.perform, hfound, Except.ok.injEq] at hnext
          exact hnext ▸ h
      | some found =>
          obtain ⟨started, hstart, hdelivering⟩ := h.start hfound
          simp only [TestData.perform, hfound, hstart, Checked.ok_bind] at hnext
          cases hnext
          exact hdelivering
  | request flagBuilder =>
      cases hnext
      exact h.request flagBuilder
  | update id freedMemory =>
      cases hold : testData.updates[id]? with
      | none =>
          simp only [TestData.perform, hold, Except.ok.injEq] at hnext
          exact hnext ▸ h
      | some phase =>
          obtain ⟨phase', moved, hadvance, hdelivering⟩ := h.advance hold htimely
          simp only [TestData.perform, hold, hadvance, Checked.ok_bind] at hnext
          cases hnext
          exact hdelivering

theorem Delivering.delivered {testData : TestData} (h : Delivering testData)
    (hcompleted : testData.AllCompleted) : testData.Delivered := by
  intro client hmem hstarted key
  obtain ⟨index, hindex⟩ := List.mem_iff_getElem?.mp hmem
  have hview : client.view = some (client.store.context.getFromStore .flag) := by
    rw [TestClient.view, hstarted]
  cases hflag : testData.currentFlags.objectLookup key with
  | none => exact ((h.clients client hmem).trails _ hview).eq_none hflag
  | some flag =>
      refine (h.supplied index client _ hindex hview key flag hflag).resolve_right ?_
      rintro ⟨phase, hphase, newFlag, hpending, _⟩
      have hupdated := hcompleted.updates phase hphase
      cases phase with
      | updated => cases hpending
      | requested _ | changed _ | notifying _ _ | upserting _ _ _ => cases hupdated

theorem test_data_reaches_every_client {testData : TestData}
    (h : Steps TestData.perform TestData.Timely testDataInit testData)
    (hcompleted : testData.AllCompleted) : testData.Delivered :=
  Delivering.delivered (h.invariant delivering_testDataInit Delivering.perform) hcompleted

def booleanFlag (key : String) : FlagBuilder where
  key := key
  on := true
  fallthroughVariation := 0
  offVariation := 1
  variations := .array [.bool true, .bool false]
  targets := []
  rules := []

theorem started_client_reached : ∃ testData : TestData, testData.AllCompleted ∧
    testData.clients.length = 1 ∧ testData.currentFlags.objectLookup "a" ≠ none ∧
    testData.Delivered := by
  have hrun : Along TestData.perform TestData.Timely
      (fun testData => testData.AllCompleted ∧ testData.clients.length = 1 ∧
        testData.currentFlags.objectLookup "a" ≠ none)
      [.createDataSource, .start 0, .start 0, .start 0, .request (booleanFlag "a"), .update 0 .null,
        .update 0 .null, .update 0 .null, .update 0 .null, .update 0 .null] testDataInit := by
    decide +kernel
  obtain ⟨testData, hsteps, hcompleted, hlength, hflag⟩ := Steps.of_along hrun
  exact ⟨testData, hcompleted, hlength, hflag, test_data_reaches_every_client hsteps hcompleted⟩

theorem starting_client_misses_update : ∃ testData : TestData,
    Steps TestData.perform (fun _ _ => True) testDataInit testData ∧ testData.AllCompleted ∧
      ¬ testData.Delivered := by
  have hrun : Along TestData.perform (fun _ _ => True)
      (fun testData => testData.AllCompleted ∧ ∃ client ∈ testData.clients, client.phase = .started ∧
        client.store.context.getFromStore .flag "a" ≠ testData.currentFlags.objectLookup "a")
      [.createDataSource, .start 0, .request (booleanFlag "a"), .update 0 .null, .update 0 .null,
        .update 0 .null, .update 0 .null, .start 0, .start 0] testDataInit := by
    decide +kernel
  obtain ⟨testData, hsteps, hcompleted, client, hclient, hstarted, hmissing⟩ := Steps.of_along hrun
  exact ⟨testData, hsteps, hcompleted, fun hdelivered =>
    hmissing (hdelivered client hclient hstarted "a")⟩

end ServerSdk
