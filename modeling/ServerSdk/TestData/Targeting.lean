import ServerSdk.Evaluate.Exits
import ServerSdk.Program.LeftUnion
import ServerSdk.TestData.Flags

namespace ServerSdk

open Program

def findTarget (targets : List FlagBuilderTarget) (variationIndex : Int) : Option FlagBuilderTarget :=
  targets.find? fun target => target.variation = variationIndex

def addTarget (targets : List FlagBuilderTarget) (variationIndex : Int) : List FlagBuilderTarget :=
  match findTarget targets variationIndex with
  | some _ => targets
  | none => targets ++ [⟨variationIndex, []⟩]

def detachUserFromOtherTargets (userKey : String) (variationIndex : Int) :
    List FlagBuilderTarget → Option String × List FlagBuilderTarget
  | [] => (none, [])
  | target :: targets =>
      if target.variation ≠ variationIndex ∧ userKey ∈ target.users then
        (some userKey, { target with users := target.users.erase userKey } :: targets)
      else
        let (user, targets) := detachUserFromOtherTargets userKey variationIndex targets
        (user, target :: targets)

def prependUser (user : String) (variationIndex : Int) (targets : List FlagBuilderTarget) :
    List FlagBuilderTarget :=
  targets.map fun target =>
    if target.variation = variationIndex then { target with users := user :: target.users }
    else target

def flagBuilderVariationForUser (flagBuilder : FlagBuilder) (userKey : String) (variationIndex : Int) :
    FlagBuilder :=
  let targets := addTarget flagBuilder.targets variationIndex
  if ∃ target ∈ findTarget targets variationIndex, userKey ∈ target.users then
    { flagBuilder with targets }
  else
    let (user, targets) := detachUserFromOtherTargets userKey variationIndex targets
    { flagBuilder with targets := prependUser (user.getD userKey) variationIndex targets }

def flagBuilderVariationForUsers (flagBuilder : FlagBuilder) (calls : List (String × Int)) :
    FlagBuilder :=
  calls.foldl (fun flagBuilder call => flagBuilderVariationForUser flagBuilder call.1 call.2) flagBuilder

def retarget (userKey : String) (variationIndex : Int) (target : FlagBuilderTarget) :
    FlagBuilderTarget :=
  { target with users :=
      if target.variation = variationIndex then target.users.insert userKey
      else target.users.erase userKey }

def dropUser (userKey : String) (variationIndex : Int) (target : FlagBuilderTarget) :
    FlagBuilderTarget :=
  { target with users :=
      if target.variation = variationIndex then target.users else target.users.erase userKey }

structure Assigned (targets : List FlagBuilderTarget) (assigned : String → Option Int) : Prop where
  variations : (targets.map FlagBuilderTarget.variation).Nodup
  covered : ∀ key variation, assigned key = some variation →
    variation ∈ targets.map FlagBuilderTarget.variation
  users : ∀ target ∈ targets, ∀ key,
    target.users.count key = if assigned key = some target.variation then 1 else 0

section Targets

variable {targets : List FlagBuilderTarget} {assigned : String → Option Int} {userKey : String}
  {variationIndex : Int}

theorem Assigned.mem_users_iff (h : Assigned targets assigned) {target : FlagBuilderTarget}
    (htarget : target ∈ targets) {key : String} :
    key ∈ target.users ↔ assigned key = some target.variation := by
  rw [← List.count_pos_iff, h.users target htarget key]
  split_ifs with hassigned
  · exact ⟨fun _ => hassigned, fun _ => Nat.one_pos⟩
  · exact ⟨fun hpos => absurd hpos (lt_irrefl 0), fun hkey => absurd hkey hassigned⟩

theorem findTarget_eq_some {target : FlagBuilderTarget}
    (h : findTarget targets variationIndex = some target) :
    target ∈ targets ∧ target.variation = variationIndex := by
  rw [findTarget] at h
  exact ⟨List.mem_of_find?_eq_some h, by simpa using List.find?_some h⟩

theorem findTarget_eq_none_iff : findTarget targets variationIndex = none ↔
    variationIndex ∉ targets.map FlagBuilderTarget.variation := by
  simp [findTarget, List.find?_eq_none]

theorem mem_variations_addTarget (targets : List FlagBuilderTarget) (variationIndex : Int)
    {variation : Int} : variation ∈ (addTarget targets variationIndex).map FlagBuilderTarget.variation ↔
      variation ∈ targets.map FlagBuilderTarget.variation ∨ variation = variationIndex := by
  rw [addTarget]
  cases hfound : findTarget targets variationIndex with
  | none => simp
  | some target =>
      obtain ⟨hmem, rfl⟩ := findTarget_eq_some hfound
      constructor
      · exact .inl
      · rintro (hvariation | rfl)
        · exact hvariation
        · exact List.mem_map_of_mem hmem

theorem Assigned.added (h : Assigned targets assigned) (variationIndex : Int) :
    Assigned (addTarget targets variationIndex) assigned := by
  cases hfound : findTarget targets variationIndex with
  | some target =>
      rw [addTarget, hfound]
      exact h
  | none =>
      have hfresh := findTarget_eq_none_iff.mp hfound
      rw [addTarget, hfound]
      refine ⟨?_, ?_, ?_⟩
      · rw [List.map_append, List.nodup_append_comm]
        exact List.nodup_cons.mpr ⟨hfresh, h.variations⟩
      · intro key variation hkey
        rw [List.map_append, List.mem_append]
        exact .inl (h.covered key variation hkey)
      · intro target htarget key
        rcases List.mem_append.mp htarget with hold | hnew
        · exact h.users target hold key
        · cases List.mem_singleton.mp hnew
          rw [if_neg fun hkey => hfresh (h.covered key variationIndex hkey)]
          rfl

theorem Assigned.mem_iff_found (h : Assigned targets assigned)
    (hvariation : variationIndex ∈ targets.map FlagBuilderTarget.variation) :
    (∃ target ∈ findTarget targets variationIndex, userKey ∈ target.users) ↔
      assigned userKey = some variationIndex := by
  have hsome : findTarget targets variationIndex ≠ none :=
    fun hnone => findTarget_eq_none_iff.mp hnone hvariation
  obtain ⟨target, hfound⟩ := Option.ne_none_iff_exists'.mp hsome
  obtain ⟨hmem, rfl⟩ := findTarget_eq_some hfound
  rw [hfound, ← h.mem_users_iff hmem]
  simp

theorem Assigned.disjoint (h : Assigned targets assigned) (userKey : String) :
    targets.Pairwise fun target other => ¬ (userKey ∈ target.users ∧ userKey ∈ other.users) := by
  refine (List.pairwise_map.mp h.variations).imp_of_mem ?_
  rintro target other htarget hother hvariations ⟨hmem, hmem'⟩
  have hassigned := (h.mem_users_iff htarget).mp hmem
  rw [(h.mem_users_iff hother).mp hmem'] at hassigned
  exact hvariations (Option.some.inj hassigned).symm

theorem detach_fst (userKey : String) (variationIndex : Int) (targets : List FlagBuilderTarget) :
    (detachUserFromOtherTargets userKey variationIndex targets).1.getD userKey = userKey := by
  induction targets with
  | nil => rfl
  | cons target targets ih =>
      rw [detachUserFromOtherTargets]
      split_ifs
      · rfl
      · exact ih

theorem dropUser_eq_self {target : FlagBuilderTarget}
    (h : target.variation = variationIndex ∨ userKey ∉ target.users) :
    dropUser userKey variationIndex target = target := by
  rw [dropUser]
  split_ifs with hsame
  · rfl
  · rw [List.erase_of_not_mem (h.resolve_left hsame)]

theorem detach_snd (h : targets.Pairwise fun target other =>
      ¬ (userKey ∈ target.users ∧ userKey ∈ other.users)) :
    (detachUserFromOtherTargets userKey variationIndex targets).2 =
      targets.map (dropUser userKey variationIndex) := by
  induction targets with
  | nil => rfl
  | cons target targets ih =>
      obtain ⟨hfirst, hrest⟩ := List.pairwise_cons.mp h
      rw [detachUserFromOtherTargets, List.map_cons]
      split_ifs with hfound
      · have hother : ∀ other ∈ targets, dropUser userKey variationIndex other = other := by
          intro other hother
          exact dropUser_eq_self (.inr fun hmem => hfirst other hother ⟨hfound.2, hmem⟩)
        rw [List.map_congr_left hother, List.map_id', dropUser, if_neg hfound.1]
      · rw [not_and_or, not_not] at hfound
        rw [dropUser_eq_self hfound, ← ih hrest]

theorem Assigned.retargeted (h : Assigned targets assigned)
    (hvariation : variationIndex ∈ targets.map FlagBuilderTarget.variation) :
    Assigned (targets.map (retarget userKey variationIndex))
      (Function.update assigned userKey (some variationIndex)) := by
  have hvariations : (targets.map (retarget userKey variationIndex)).map
      FlagBuilderTarget.variation = targets.map FlagBuilderTarget.variation := by
    rw [List.map_map]
    rfl
  refine ⟨hvariations ▸ h.variations, ?_, ?_⟩
  · intro key variation hkey
    rw [hvariations]
    rw [Function.update_apply] at hkey
    split_ifs at hkey
    · cases hkey
      exact hvariation
    · exact h.covered key variation hkey
  · intro target' htarget' key
    obtain ⟨target, htarget, rfl⟩ := List.mem_map.mp htarget'
    have hcount := h.users target htarget key
    have hle : target.users.count key ≤ 1 := by
      rw [hcount]
      split_ifs <;> omega
    rw [Function.update_apply, retarget]
    by_cases hkey : key = userKey
    · subst hkey
      rw [if_pos rfl]
      by_cases hsame : target.variation = variationIndex
      · rw [if_pos hsame, if_pos (congrArg some hsame.symm), List.count_insert,
          if_pos (beq_self_eq_true key)]
        omega
      · rw [if_neg hsame, if_neg fun heq => hsame (Option.some.inj heq).symm, List.count_erase_self]
        omega
    · rw [if_neg hkey, ← hcount]
      split_ifs
      · simp [List.count_insert, Ne.symm hkey]
      · exact List.count_erase_of_ne hkey

theorem prependUser_dropUser (hnew : ∀ target ∈ targets, target.variation = variationIndex →
      userKey ∉ target.users) :
    prependUser userKey variationIndex (targets.map (dropUser userKey variationIndex)) =
      targets.map (retarget userKey variationIndex) := by
  rw [prependUser, List.map_map]
  refine List.map_congr_left fun target htarget => ?_
  rw [Function.comp_apply, dropUser, retarget]
  split_ifs with hsame
  · rw [List.insert_of_not_mem (hnew target htarget hsame)]
  · rfl

theorem retarget_eq_self {target : FlagBuilderTarget}
    (h : userKey ∈ target.users ↔ target.variation = variationIndex) :
    retarget userKey variationIndex target = target := by
  rw [retarget]
  split_ifs with hsame
  · rw [List.insert_of_mem (h.mpr hsame)]
  · rw [List.erase_of_not_mem fun hmem => hsame (h.mp hmem)]

theorem Assigned.targets_variationForUser {flagBuilder : FlagBuilder}
    (h : Assigned flagBuilder.targets assigned) (userKey : String) (variationIndex : Int) :
    (flagBuilderVariationForUser flagBuilder userKey variationIndex).targets =
      (addTarget flagBuilder.targets variationIndex).map (retarget userKey variationIndex) := by
  have hadded := h.added variationIndex
  have hvariation := (mem_variations_addTarget flagBuilder.targets variationIndex).mpr (.inr rfl)
  rw [flagBuilderVariationForUser]
  simp only [hadded.mem_iff_found hvariation]
  split_ifs with hassigned
  · have hsame : ∀ target ∈ addTarget flagBuilder.targets variationIndex,
        retarget userKey variationIndex target = target := by
      intro target htarget
      refine retarget_eq_self ?_
      rw [hadded.mem_users_iff htarget, hassigned, Option.some_inj, eq_comm]
    rw [List.map_congr_left hsame, List.map_id']
  · rw [detach_fst, detach_snd (hadded.disjoint userKey)]
    refine prependUser_dropUser fun target htarget hsame hmem => hassigned ?_
    rw [(hadded.mem_users_iff htarget).mp hmem, hsame]

theorem Assigned.variationForUser {flagBuilder : FlagBuilder}
    (h : Assigned flagBuilder.targets assigned) (userKey : String) (variationIndex : Int) :
    Assigned (flagBuilderVariationForUser flagBuilder userKey variationIndex).targets
      (Function.update assigned userKey (some variationIndex)) := by
  rw [h.targets_variationForUser]
  exact (h.added variationIndex).retargeted
    ((mem_variations_addTarget flagBuilder.targets variationIndex).mpr (.inr rfl))

theorem variationForUser_eq (flagBuilder : FlagBuilder) (userKey : String) (variationIndex : Int) :
    flagBuilderVariationForUser flagBuilder userKey variationIndex =
      { flagBuilder with
        targets := (flagBuilderVariationForUser flagBuilder userKey variationIndex).targets } := by
  rw [flagBuilderVariationForUser]
  split_ifs <;> rfl

theorem variationForUsers_concat (flagBuilder : FlagBuilder) (calls : List (String × Int))
    (call : String × Int) : flagBuilderVariationForUsers flagBuilder (calls ++ [call]) =
      flagBuilderVariationForUser (flagBuilderVariationForUsers flagBuilder calls) call.1 call.2 :=
  List.foldl_append

theorem variationForUsers_eq (flagBuilder : FlagBuilder) (calls : List (String × Int)) :
    flagBuilderVariationForUsers flagBuilder calls =
      { flagBuilder with targets := (flagBuilderVariationForUsers flagBuilder calls).targets } := by
  induction calls using List.reverseRecOn with
  | nil => rfl
  | append_singleton calls call ih =>
      rw [variationForUsers_concat, variationForUser_eq, ih]

theorem assigned_variationForUsers {flagBuilder : FlagBuilder} (h : flagBuilder.targets = [])
    (calls : List (String × Int)) :
    Assigned (flagBuilderVariationForUsers flagBuilder calls).targets (finalEntry calls) := by
  induction calls using List.reverseRecOn with
  | nil =>
      rw [flagBuilderVariationForUsers, List.foldl_nil, h]
      exact ⟨List.nodup_nil, nofun, nofun⟩
  | append_singleton calls call ih =>
      rw [variationForUsers_concat, finalEntry_append_singleton]
      exact ih.variationForUser call.1 call.2

theorem mem_variations_variationForUsers {flagBuilder : FlagBuilder} (h : flagBuilder.targets = [])
    (calls : List (String × Int)) {variation : Int} :
    variation ∈ (flagBuilderVariationForUsers flagBuilder calls).targets.map
        FlagBuilderTarget.variation ↔ variation ∈ calls.map Prod.snd := by
  induction calls using List.reverseRecOn with
  | nil => rw [flagBuilderVariationForUsers, List.foldl_nil, h, List.map_nil, List.map_nil]
  | append_singleton calls call ih =>
      rw [variationForUsers_concat,
        (assigned_variationForUsers h calls).targets_variationForUser, List.map_map,
        List.map_append, List.mem_append, ← ih, List.map_singleton, List.mem_singleton]
      exact mem_variations_addTarget _ call.2

end Targets

end ServerSdk
