import Mathlib.Data.List.MinMax
import Mathlib.Data.List.Nodup
import Mathlib.Logic.Function.Basic

namespace Program

namespace VersionedMap

variable {ι α β γ : Type}

inductive Step (ι α : Type) where
  | replace (content : ι → Option α)
  | offer (index : ι) (item : α)

def Step.IsOffer : Step ι α → Prop
  | .replace _ => False
  | .offer _ _ => True

def Newest [LinearOrder β] (version : α → β) (candidates : List α) (item : α) : Prop :=
  ∃ earlier later, candidates = earlier ++ item :: later ∧
    (∀ a ∈ earlier, version a < version item) ∧ ∀ a ∈ later, version a ≤ version item

section Candidates

variable [DecidableEq ι]

def offered (i : ι) : Step ι α → List α
  | .replace _ => []
  | .offer j item => if j = i then [item] else []

def considered (i : ι) (candidates : List α) : Step ι α → List α
  | .replace content => (content i).toList
  | step => candidates ++ offered i step

def candidates (i : ι) (steps : List (Step ι α)) : List α := steps.foldl (considered i) []

theorem considered_of_isOffer {i : ι} {step : Step ι α} (h : step.IsOffer) (l : List α) :
    considered i l step = l ++ offered i step := by
  cases step with
  | replace content => exact absurd h (by simp [Step.IsOffer])
  | offer j item => rfl

theorem foldl_considered_of_isOffer {i : ι} {steps : List (Step ι α)}
    (h : ∀ step ∈ steps, step.IsOffer) (l : List α) :
    steps.foldl (considered i) l = l ++ steps.flatMap (offered i) := by
  induction steps generalizing l with
  | nil => simp
  | cons step steps ih =>
      have hstep : step.IsOffer := h step (by simp)
      rw [List.foldl_cons, considered_of_isOffer hstep, ih (fun s hs => h s (by simp [hs])),
        List.flatMap_cons, List.append_assoc]

theorem candidates_append_of_isOffer {i : ι} {later : List (Step ι α)}
    (h : ∀ step ∈ later, step.IsOffer) (before : List (Step ι α)) :
    candidates i (before ++ later) = candidates i before ++ later.flatMap (offered i) := by
  rw [candidates, List.foldl_append, foldl_considered_of_isOffer h]
  rfl

theorem mem_candidates {i : ι} {steps : List (Step ι α)} {a : α} (h : a ∈ candidates i steps) :
    (∃ content, Step.replace content ∈ steps ∧ content i = some a) ∨ Step.offer i a ∈ steps := by
  induction steps using List.reverseRecOn with
  | nil => simp [candidates] at h
  | append_singleton steps step ih =>
      rw [candidates, List.foldl_append] at h
      cases step with
      | replace content =>
          have hcontent : a ∈ (content i).toList := h
          exact .inl ⟨content, by simp, Option.mem_toList.mp hcontent⟩
      | offer j item =>
          have hmem : a ∈ candidates i steps ++ if j = i then [item] else [] := h
          rcases List.mem_append.mp hmem with hmem | hmem
          · rcases ih hmem with ⟨content, hstep, hcontent⟩ | hstep
            · exact .inl ⟨content, by simp [hstep], hcontent⟩
            · exact .inr (by simp [hstep])
          · split_ifs at hmem with hj
            · rw [List.mem_singleton.mp hmem, ← hj]
              exact .inr (by simp)
            · simp at hmem

end Candidates

section Order

variable [LinearOrder β] {version : α → β}

theorem newest_concat_of_lt {l : List α} {a : α} (h : ∀ b ∈ l, version b < version a) :
    Newest version (l ++ [a]) a := ⟨l, [], rfl, h, by simp⟩

theorem Newest.concat_of_le {l : List α} {a item : α} (h : Newest version l item)
    (ha : version a ≤ version item) : Newest version (l ++ [a]) item := by
  obtain ⟨earlier, later, rfl, hlt, hle⟩ := h
  refine ⟨earlier, later ++ [a], by simp, hlt, ?_⟩
  intro b hb
  rcases List.mem_append.mp hb with hb | hb
  · exact hle b hb
  · rw [List.mem_singleton.mp hb]
    exact ha

theorem newest_of_argmax {l : List α} {item : α} (h : l.argmax version = some item) :
    Newest version l item := by
  induction l using List.reverseRecOn generalizing item with
  | nil => cases h
  | append_singleton l a ih =>
      rw [List.argmax_concat] at h
      cases hl : l.argmax version with
      | none =>
          rw [hl] at h
          rw [List.argmax_eq_none.mp hl]
          cases h
          exact newest_concat_of_lt (by simp)
      | some b =>
          rw [hl] at h
          by_cases hlt : version b < version a
          · simp only [hlt, if_true] at h
            cases h
            refine newest_concat_of_lt ?_
            intro c hc
            exact lt_of_le_of_lt (List.le_of_mem_argmax hc hl) hlt
          · simp only [hlt, if_false] at h
            cases h
            exact (ih hl).concat_of_le (not_lt.mp hlt)

theorem Newest.unique {l : List α} {a b : α} (ha : Newest version l a)
    (hb : Newest version l b) : a = b := by
  obtain ⟨before, after, rfl, hlt, hle⟩ := ha
  obtain ⟨before', after', heq, hlt', hle'⟩ := hb
  rcases List.append_eq_append_iff.mp heq with ⟨as, hbefore, hafter⟩ | ⟨bs, hbefore, hafter⟩
  · cases as with
    | nil =>
        simp only [List.nil_append, List.cons.injEq] at hafter
        exact hafter.1
    | cons c as =>
        simp only [List.cons_append, List.cons.injEq] at hafter
        have hab : version a < version b := hlt' a (by rw [hbefore, hafter.1]; simp)
        have hba : version b ≤ version a := hle b (by rw [hafter.2]; simp)
        exact absurd hab (not_lt.mpr hba)
  · cases bs with
    | nil =>
        simp only [List.nil_append, List.cons.injEq] at hafter
        exact hafter.1.symm
    | cons c bs =>
        simp only [List.cons_append, List.cons.injEq] at hafter
        have hba : version b < version a := hlt b (by rw [hbefore, hafter.1]; simp)
        have hab : version a ≤ version b := hle' a (by rw [hafter.2]; simp)
        exact absurd hba (not_lt.mpr hab)

theorem argmax_eq_some_iff_newest {l : List α} {item : α} :
    l.argmax version = some item ↔ Newest version l item := by
  constructor
  · exact newest_of_argmax
  · intro h
    cases hl : l.argmax version with
    | none =>
        obtain ⟨earlier, later, rfl, _⟩ := h
        rw [List.argmax_eq_none] at hl
        simp at hl
    | some other => rw [h.unique (newest_of_argmax hl)]

theorem Newest.congr [LinearOrder γ] {version' : α → γ} {l : List α} {item : α}
    (hlt : ∀ a ∈ l, ∀ b ∈ l, version a < version b → version' a < version' b)
    (hle : ∀ a ∈ l, ∀ b ∈ l, version a ≤ version b → version' a ≤ version' b)
    (h : Newest version l item) : Newest version' l item := by
  obtain ⟨earlier, later, rfl, hearlier, hlater⟩ := h
  refine ⟨earlier, later, rfl, ?_, ?_⟩
  · intro a ha
    exact hlt a (by simp [ha]) item (by simp) (hearlier a ha)
  · intro a ha
    exact hle a (by simp [ha]) item (by simp) (hlater a ha)

end Order

section Run

variable [LinearOrder β] [DecidableEq ι] (version : α → β)

def newer (kept : Option α) (item : α) : Option α :=
  match kept with
  | none => some item
  | some old => if version old < version item then some item else some old

def apply (content : ι → Option α) : Step ι α → ι → Option α
  | .replace content => content
  | .offer i item => Function.update content i (newer version (content i) item)

def run (steps : List (Step ι α)) : ι → Option α := steps.foldl (apply version) fun _ => none

variable {version}

theorem apply_offer_self {content : ι → Option α} {i : ι} {item : α} :
    apply version content (.offer i item) i = newer version (content i) item :=
  Function.update_self _ _ _

theorem apply_offer_of_ne {content : ι → Option α} {i j : ι} {item : α} (h : j ≠ i) :
    apply version content (.offer i item) j = content j :=
  Function.update_of_ne h _ _

theorem argmax_append_singleton (l : List α) (item : α) :
    (l ++ [item]).argmax version = newer version (l.argmax version) item := by
  rw [List.argmax_concat]
  cases l.argmax version <;> rfl

theorem argmax_append (l items : List α) :
    (l ++ items).argmax version = items.foldl (newer version) (l.argmax version) := by
  induction items using List.reverseRecOn with
  | nil => simp
  | append_singleton items item ih =>
      rw [← List.append_assoc, argmax_append_singleton, ih, List.foldl_append]
      rfl

theorem apply_eq_argmax {content : ι → Option α} {i : ι} {l : List α}
    (h : content i = l.argmax version) (step : Step ι α) :
    apply version content step i = (considered i l step).argmax version := by
  cases step with
  | replace new =>
      change new i = (new i).toList.argmax version
      cases new i <;> rfl
  | offer j item =>
      change Function.update content j (newer version (content j) item) i =
        (l ++ if j = i then [item] else []).argmax version
      by_cases hj : j = i
      · subst hj
        rw [Function.update_self, if_pos rfl, h, argmax_append_singleton]
      · rw [Function.update_of_ne (Ne.symm hj), if_neg hj, List.append_nil, h]

theorem run_eq_argmax (steps : List (Step ι α)) (i : ι) :
    run version steps i = (candidates i steps).argmax version := by
  induction steps using List.reverseRecOn with
  | nil => rfl
  | append_singleton steps step ih =>
      rw [run, List.foldl_append, candidates, List.foldl_append]
      exact apply_eq_argmax ih step

theorem newer_comm {a b : α} (h : version a ≠ version b) (kept : Option α) :
    newer version (newer version kept a) b = newer version (newer version kept b) a := by
  rcases lt_or_gt_of_ne h with hab | hba
  · cases kept with
    | none => simp [newer, hab, not_lt.mpr hab.le]
    | some old => grind [newer]
  · cases kept with
    | none => simp [newer, hba, not_lt.mpr hba.le]
    | some old => grind [newer]

theorem argmax_append_perm {l items items' : List α} (hperm : items.Perm items')
    (hdistinct : (items.map version).Nodup) :
    (l ++ items).argmax version = (l ++ items').argmax version := by
  rw [argmax_append, argmax_append]
  refine hperm.foldl_eq' ?_ _
  intro a ha b hb kept
  by_cases hab : a = b
  · rw [hab]
  · have hne : version a ≠ version b := fun h => hab (List.inj_on_of_nodup_map hdistinct ha hb h)
    exact newer_comm hne kept

theorem run_perm {before later later' : List (Step ι α)} (hoffer : ∀ s ∈ later, s.IsOffer)
    (hperm : later.Perm later')
    (hdistinct : ∀ i, ((later.flatMap (offered i)).map version).Nodup) :
    run version (before ++ later) = run version (before ++ later') := by
  funext i
  have hoffer' : ∀ s ∈ later', s.IsOffer := fun s hs => hoffer s (hperm.mem_iff.mpr hs)
  rw [run_eq_argmax, run_eq_argmax, candidates_append_of_isOffer hoffer,
    candidates_append_of_isOffer hoffer']
  exact argmax_append_perm (hperm.flatMap_right _) (hdistinct i)

end Run

section Trailing

variable [LinearOrder β] {version : α → β}

def Trails (version : α → β) (view current : ι → Option α) : Prop :=
  ∀ i held, view i = some held → ∃ item, current i = some item ∧
    (held = item ∨ version held < version item)

theorem Trails.refl (current : ι → Option α) : Trails version current current :=
  fun _ held hheld => ⟨held, hheld, .inl rfl⟩

theorem Trails.eq_none {view current : ι → Option α} (h : Trails version view current) {i : ι}
    (hnone : current i = none) : view i = none := by
  cases hview : view i with
  | none => rfl
  | some held =>
      obtain ⟨item, hitem, _⟩ := h i held hview
      rw [hnone] at hitem
      cases hitem

theorem Trails.eq_of_not_lt {view current : ι → Option α} (h : Trails version view current)
    {i : ι} {item held : α} (hitem : current i = some item) (hheld : view i = some held)
    (hlt : ¬ version held < version item) : held = item := by
  obtain ⟨other, hother, hle⟩ := h i held hheld
  rw [hitem] at hother
  cases hother
  exact hle.resolve_right hlt

theorem Trails.newer_eq {view current : ι → Option α} (h : Trails version view current)
    {i : ι} {item : α} (hitem : current i = some item) :
    newer version (view i) item = some item := by
  cases hview : view i with
  | none => rfl
  | some held =>
      rw [newer]
      split_ifs with hlt
      · rfl
      · rw [h.eq_of_not_lt hitem hview hlt]

theorem Trails.change [DecidableEq ι] {view current : ι → Option α}
    (h : Trails version view current) {i : ι} {item : α}
    (hnewer : ∀ old, current i = some old → version old < version item) :
    Trails version view (Function.update current i (some item)) := by
  intro j held hheld
  obtain ⟨old, hold, hle⟩ := h j held hheld
  by_cases hj : j = i
  · subst hj
    refine ⟨item, Function.update_self _ _ _, .inr ?_⟩
    have hlt := hnewer old hold
    rcases hle with rfl | hle
    · exact hlt
    · exact hle.trans hlt
  · exact ⟨old, (Function.update_of_ne hj _ _).trans hold, hle⟩

theorem Trails.offer [DecidableEq ι] {view current : ι → Option α}
    (h : Trails version view current) {i : ι} {item : α} (hitem : current i = some item) :
    Trails version (apply version view (.offer i item)) current := by
  intro j held hheld
  by_cases hj : j = i
  · subst hj
    rw [apply_offer_self, h.newer_eq hitem] at hheld
    cases hheld
    exact ⟨item, hitem, .inl rfl⟩
  · rw [apply_offer_of_ne hj] at hheld
    exact h j held hheld

end Trailing

end VersionedMap

end Program
