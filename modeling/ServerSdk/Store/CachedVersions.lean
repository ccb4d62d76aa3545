import ServerSdk.Store.Interleaving
import ServerSdk.Store.Synced

namespace ServerSdk

open Program PersistentStoreContext

variable {β : Type} {store next : PersistentStoreContext β} {kind : FeatureKind} {key : String}

def cachedAt (store : PersistentStoreContext β) (kind : FeatureKind) (key : String) : Option Json :=
  (store.findCurrent (cacheKeyOf kind key)).bind CacheItem.feature

def VersionAtLeast (version : Nat) (store : PersistentStoreContext β) (kind : FeatureKind)
    (key : String) : Prop :=
  ∀ item, store.findCurrent (cacheKeyOf kind key) = some item →
    ∃ feature, item.feature = some feature ∧ version ≤ getDataVersion feature

theorem VersionAtLeast.of_fewer {version : Nat} (h : VersionAtLeast version store kind key)
    (hfewer : ∀ item, next.findCurrent (cacheKeyOf kind key) = some item →
      store.findCurrent (cacheKeyOf kind key) = some item) :
    VersionAtLeast version next kind key := by
  intro item hitem
  exact h item (hfewer item hitem)

theorem VersionAtLeast.of_same {version : Nat} (h : VersionAtLeast version store kind key)
    (hsame : next.findCurrent (cacheKeyOf kind key) = store.findCurrent (cacheKeyOf kind key)) :
    VersionAtLeast version next kind key := by
  apply h.of_fewer
  intro item hitem
  exact hsame ▸ hitem

theorem version_lt_of_not_kept {replacement : Json} (h : ¬store.Kept kind key replacement)
    {item : CacheItem} {feature : Json}
    (hitem : store.findCurrent (cacheKeyOf kind key) = some item)
    (hfeature : item.feature = some feature) :
    getDataVersion feature < getDataVersion replacement := by
  by_contra hle
  exact h ⟨item, feature, hitem, hfeature, by omega⟩

theorem VersionAtLeast.upsertMemory {version : Nat} (h : VersionAtLeast version store kind key)
    (hunexpired : (store.findCurrent (cacheKeyOf kind key)).isSome) {kind' : FeatureKind} {replacement : Json}
    (hupdated : store.upsertMemory kind' replacement = .ok next) :
    VersionAtLeast version next kind key := by
  obtain ⟨key', _, hcases⟩ := upsertMemory_cases hupdated
  rcases hcases with ⟨_, rfl⟩ | ⟨hkept, rfl⟩
  · exact h
  · by_cases hsame : kind = kind' ∧ key = key'
    · obtain ⟨rfl, rfl⟩ := hsame
      obtain ⟨found, hfound⟩ := Option.isSome_iff_exists.mp hunexpired
      obtain ⟨feature, hfeature, hversion⟩ := h found hfound
      have hlt := version_lt_of_not_kept hkept hfound hfeature
      intro item hitem
      exact ⟨replacement, findCurrent_replaceItem hitem, by omega⟩
    · exact h.of_same (findCurrent_replaceItem_of_ne hsame)

section Run

variable [Parsing]

theorem VersionAtLeast.advances {version : Nat} (h : VersionAtLeast version store kind key)
    (hunexpired : (store.findCurrent (cacheKeyOf kind key)).isSome) {task task' : Task}
    (hinit : ∀ sets, task ≠ .initAccepted sets) (hstep : Advances store task task' next) :
    VersionAtLeast version next kind key := by
  cases hstep with
  | hit | missed | listHit | listMissed | listUnusable | rejected | finished => exact h
  | unfetched | fetched | listUnfetched | listFetched | refused | offered => exact h
  | installed hupdated => exact h.upsertMemory hunexpired hupdated
  | cached hupdated => exact h.upsertMemory hunexpired hupdated
  | listInstalled =>
      apply h.of_same
      refine findCurrent_congr (sameSettings_addItem _ _ _) ?_
      rw [installAll, entries_addItem, if_neg (allKeyOf_ne_cacheKeyOf _ _ _)]
  | initRefused hoffered | initAccepted hoffered =>
      obtain ⟨_, _, _, rfl⟩ := offerSets_cases hoffered
      exact h
  | initCached => exact absurd rfl (hinit _)

def stepsInit (pool : WrapperPool β) : WrapperEvent → Bool
  | .step id =>
      match pool.tasks id with
      | some (.initAccepted _) => true
      | _ => false
  | _ => false

def StaysCached (kind : FeatureKind) (key : String) (pool : WrapperPool β) (event : WrapperEvent) :
    Prop :=
  stepsInit pool event = false ∧ (pool.shared.findCurrent (cacheKeyOf kind key)).isSome

instance (kind : FeatureKind) (key : String) (pool : WrapperPool β) (event : WrapperEvent) :
    Decidable (StaysCached kind key pool event) :=
  inferInstanceAs (Decidable (_ ∧ _))

theorem Reaches.versionAtLeast {version : Nat} {start last : WrapperPool β}
    (hrun : Pool.Reaches (wrapperMachine β) (StaysCached kind key) start last)
    (hstart : VersionAtLeast version start.shared kind key) :
    VersionAtLeast version last.shared kind key := by
  refine hrun.invariant (I := fun pool => VersionAtLeast version pool.shared kind key) hstart ?_
  rintro pool event next h ⟨hinit, hunexpired⟩ hperformed
  cases hperformed with
  | started hid => exact h
  | @stepped id task task' shared hid hstep =>
      refine h.advances hunexpired ?_ (advances_of_step hstep)
      rintro sets rfl
      rw [stepsInit, hid] at hinit
      cases hinit
  | moved time => exact h.of_fewer fun _ hitem => findCurrent_of_tick hitem
  | ignored event => exact h

theorem cached_versions_never_decrease {start last : WrapperPool β}
    (hrun : Pool.Reaches (wrapperMachine β) (StaysCached kind key) start last)
    {earlier later : Json} (hearlier : cachedAt start.shared kind key = some earlier)
    (hlater : cachedAt last.shared kind key = some later) :
    getDataVersion earlier ≤ getDataVersion later ∧
      ∀ id key' fetched next, last.tasks id = some (.getFetched kind key' fetched) →
        textKey fetched = some key → getDataVersion fetched ≤ getDataVersion later →
        last.perform (wrapperMachine β) (.step id) = .ok next →
        next.shared.findCurrent (cacheKeyOf kind key) =
          last.shared.findCurrent (cacheKeyOf kind key) := by
  constructor
  · obtain ⟨item, hitem, hfeature⟩ := Option.bind_eq_some_iff.mp hearlier
    have hstart : VersionAtLeast (getDataVersion earlier) start.shared kind key := by
      intro other hother
      cases hitem.symm.trans hother
      exact ⟨earlier, hfeature, le_rfl⟩
    obtain ⟨found, hfound, hfoundFeature⟩ := Option.bind_eq_some_iff.mp hlater
    obtain ⟨feature, hsome, hversion⟩ := Reaches.versionAtLeast hrun hstart found hfound
    cases hfoundFeature.symm.trans hsome
    exact hversion
  · intro id key' fetched next htask hkey hversion hperform
    obtain ⟨item, hitem, hfeature⟩ := Option.bind_eq_some_iff.mp hlater
    cases Pool.performed_of_perform hperform with
    | ignored => rfl
    | @stepped _ task task' shared hid hstep =>
        cases hid.symm.trans htask
        have hadvances : Advances last.shared (.getFetched kind key' fetched) task' shared :=
          advances_of_step hstep
        cases hadvances with
        | finished hfinished => cases hfinished
        | installed hupdated =>
            obtain ⟨other, hother, hcases⟩ := upsertMemory_cases hupdated
            cases hkey.symm.trans hother
            rcases hcases with ⟨_, rfl⟩ | ⟨hkept, _⟩
            · rfl
            · exact absurd ⟨item, later, hitem, hfeature, hversion⟩ hkept

end Run

def secondFlagCached [Parsing] : WrapperPool Table :=
  (newTablePool 30000).after (wrapperMachine Table)
    [.start 0 (.upsert .flag secondFlag), .step 0, .step 0]

def olderUpdateEvents : List WrapperEvent :=
  [.start 1 (.upsert .flag firstFlag), .step 1, .environment 10000, .step 1]

theorem older_update_not_cached :
    let _ := flagParsing
    let last := secondFlagCached.after (wrapperMachine Table) olderUpdateEvents
    Pool.Reaches (wrapperMachine Table) (StaysCached .flag "a") secondFlagCached last ∧
    cachedAt secondFlagCached.shared .flag "a" = some secondFlag ∧
    cachedAt last.shared .flag "a" = some secondFlag ∧
    getDataVersion secondFlag ≤ getDataVersion secondFlag := by
  intro _ last
  have hrun : Pool.Reaches (wrapperMachine Table) (StaysCached .flag "a") secondFlagCached last :=
    Pool.reaches_after (by decide +kernel) (by decide +kernel)
  have hearlier : cachedAt secondFlagCached.shared .flag "a" = some secondFlag := by
    decide +kernel
  have hlater : cachedAt last.shared .flag "a" = some secondFlag := by
    decide +kernel
  exact ⟨hrun, hearlier, hlater, (cached_versions_never_decrease hrun hearlier hlater).1⟩

end ServerSdk
