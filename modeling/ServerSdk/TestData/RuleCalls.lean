import ServerSdk.TestData.Pointers

namespace ServerSdk

open Program

variable {flagBuilder changed : PointedBuilder} {heap grown : Heap Json}

structure Defines (flagBuilder : PointedBuilder) (heap : Heap Json) (changed : PointedBuilder)
    (grown : Heap Json) (rules : List FlagRuleBuilder) : Prop where
  frame : changed = { flagBuilder with rules := changed.rules }
  length : heap.length ≤ grown.length
  read : ∀ pointer < heap.length, grown.read pointer = heap.read pointer
  rules : changed.rules.reverse.map (ruleOf grown) = rules
  kept : ∀ pointer ∈ flagBuilder.pointers, pointer ∈ changed.pointers
  fresh : ∀ pointer ∈ changed.pointers, pointer ∈ flagBuilder.pointers ∨
    heap.length ≤ pointer ∧ (grown.read pointer).isSome

theorem Defines.allocated {rules : List FlagRuleBuilder}
    (h : Defines flagBuilder heap changed grown rules)
    (hallocated : ∀ pointer ∈ flagBuilder.pointers, pointer < heap.length) :
    ∀ pointer ∈ changed.pointers, pointer < grown.length := by
  intro pointer hpointer
  rcases h.fresh pointer hpointer with hold | ⟨-, hlive⟩
  · exact (hallocated pointer hold).trans_le h.length
  · exact Heap.lt_of_isSome_read hlive

theorem Defines.live_iff {rules : List FlagRuleBuilder}
    (h : Defines flagBuilder heap changed grown rules)
    (hallocated : ∀ pointer ∈ flagBuilder.pointers, pointer < heap.length) :
    grown.Live changed.pointers ↔ heap.Live flagBuilder.pointers := by
  constructor
  · intro hlive pointer hpointer
    rw [← h.read pointer (hallocated pointer hpointer)]
    exact hlive pointer (h.kept pointer hpointer)
  · intro hlive pointer hpointer
    rcases h.fresh pointer hpointer with hold | ⟨-, hnew⟩
    · rw [h.read pointer (hallocated pointer hold)]
      exact hlive pointer hold
    · exact hnew

theorem Defines.trans {later : PointedBuilder} {last : Heap Json} {rules rules' : List FlagRuleBuilder}
    (h : Defines flagBuilder heap changed grown rules) (h' : Defines changed grown later last rules') :
    Defines flagBuilder heap later last rules' where
  frame := by rw [h'.frame, h.frame]
  length := h.length.trans h'.length
  read pointer hlt := by rw [h'.read pointer (hlt.trans_le h.length), h.read pointer hlt]
  rules := h'.rules
  kept pointer hpointer := h'.kept pointer (h.kept pointer hpointer)
  fresh pointer hpointer := by
    rcases h'.fresh pointer hpointer with hold | ⟨hle, hlive⟩
    · refine (h.fresh pointer hold).imp_right fun hnew => ⟨hnew.1, ?_⟩
      rw [h'.read pointer (Heap.lt_of_isSome_read hnew.2)]
      exact hnew.2
    · exact .inr ⟨h.length.trans hle, hlive⟩

theorem defines_refl (flagBuilder : PointedBuilder) (heap : Heap Json) :
    Defines flagBuilder heap flagBuilder heap (flagBuilder.rules.reverse.map (ruleOf heap)) :=
  ⟨rfl, le_rfl, fun _ _ => rfl, rfl, fun _ h => h, fun _ h => .inl h⟩

theorem ruleOf_alloc {rule : PointedRule} (h : ∀ pointer ∈ rule.pointers, pointer < heap.length)
    (values : Json) : ruleOf (heap.alloc values) rule = ruleOf heap rule := by
  rw [ruleOf, ruleOf, FlagRuleBuilder.mk.injEq]
  refine ⟨rfl, List.map_congr_left fun clause hclause => ?_⟩
  rw [clauseOf, clauseOf, Heap.original_alloc (h clause.values (List.mem_map_of_mem hclause))]

theorem rules_alloc (h : ∀ pointer ∈ flagBuilder.pointers, pointer < heap.length) (values : Json) :
    flagBuilder.rules.reverse.map (ruleOf (heap.alloc values)) =
      flagBuilder.rules.reverse.map (ruleOf heap) := by
  refine List.map_congr_left fun rule hrule => ruleOf_alloc (fun pointer hpointer => ?_) values
  exact h pointer (List.mem_flatMap.mpr ⟨rule, List.mem_reverse.mp hrule, hpointer⟩)

theorem read_alloc_isSome (heap : Heap Json) (values : Json) :
    ((heap.alloc values).read heap.length).isSome := by
  rw [Heap.read_alloc_new]
  rfl

theorem defines_if (h : ∀ pointer ∈ flagBuilder.pointers, pointer < heap.length) (attr : String)
    (values : Json) (negate : Bool) :
    Defines flagBuilder heap
      { flagBuilder with rules := ⟨0, [⟨attr, heap.length, negate⟩]⟩ :: flagBuilder.rules }
      (heap.alloc (asJSONArray values))
      (flagBuilder.rules.reverse.map (ruleOf heap) ++ [⟨0, [definedClause attr values negate]⟩]) where
  frame := rfl
  length := by rw [Heap.length_alloc]; omega
  read pointer hlt := Heap.read_alloc hlt _
  rules := by
    rw [List.reverse_cons, List.map_append, rules_alloc h, List.map_singleton]
    simp only [ruleOf, List.map_singleton, clauseOf, Heap.original_alloc_new]
    rfl
  kept pointer hpointer := List.mem_append_right _ hpointer
  fresh pointer hpointer := by
    rcases List.mem_append.mp hpointer with hnew | hold
    · obtain rfl := List.mem_singleton.mp hnew
      exact .inr ⟨le_rfl, read_alloc_isSome heap _⟩
    · exact .inl hold

theorem modify_eq_set {α : Type} {l : List α} {index : ℕ} {a : α} (h : l[index]? = some a)
    (change : α → α) : l.modify index change = l.set index (change a) := by
  apply List.ext_getElem?
  intro other
  rw [List.getElem?_modify, List.getElem?_set]
  obtain ⟨hlt, rfl⟩ := List.getElem?_eq_some_iff.mp h
  by_cases hother : index = other
  · subst hother
    simp [hlt]
  · simp [hother]

theorem defines_change {index : ℕ} {rule : PointedRule}
    (hrule : flagBuilder.rules.reverse[index]? = some rule) (rule' : PointedRule)
    (change : FlagRuleBuilder → FlagRuleBuilder) (hlength : heap.length ≤ grown.length)
    (hread : ∀ pointer < heap.length, grown.read pointer = heap.read pointer)
    (hsame : flagBuilder.rules.reverse.map (ruleOf grown) =
      flagBuilder.rules.reverse.map (ruleOf heap))
    (hkept : ∀ pointer ∈ rule.pointers, pointer ∈ rule'.pointers)
    (hfresh : ∀ pointer ∈ rule'.pointers, pointer ∈ rule.pointers ∨
      heap.length ≤ pointer ∧ (grown.read pointer).isSome)
    (hchange : ruleOf grown rule' = change (ruleOf heap rule)) :
    Defines flagBuilder heap
      { flagBuilder with rules := (flagBuilder.rules.reverse.set index rule').reverse } grown
      ((flagBuilder.rules.reverse.map (ruleOf heap)).modify index change) where
  frame := rfl
  length := hlength
  read := hread
  rules := by
    have hmapped : (flagBuilder.rules.reverse.map (ruleOf heap))[index]? = some (ruleOf heap rule) := by
      rw [List.getElem?_map, hrule]
      rfl
    rw [List.reverse_reverse, List.map_set, hsame, modify_eq_set hmapped, hchange]
  kept pointer hpointer := by
    obtain ⟨other, hother, hpointer⟩ := List.mem_flatMap.mp hpointer
    obtain ⟨position, hposition⟩ := List.getElem?_of_mem (List.mem_reverse.mpr hother)
    refine List.mem_flatMap.mpr ?_
    by_cases hindex : index = position
    · subst hindex
      cases hrule.symm.trans hposition
      exact ⟨rule', List.mem_reverse.mpr (List.mem_set (List.getElem?_eq_some_iff.mp hrule).1 rule'),
        hkept pointer hpointer⟩
    · refine ⟨other, List.mem_reverse.mpr (List.mem_of_getElem? (i := position) ?_), hpointer⟩
      rw [List.getElem?_set_ne hindex, hposition]
  fresh pointer hpointer := by
    obtain ⟨other, hother, hfound⟩ := List.mem_flatMap.mp hpointer
    rcases List.mem_or_eq_of_mem_set (List.mem_reverse.mp hother) with hmem | rfl
    · exact .inl (List.mem_flatMap.mpr ⟨other, List.mem_reverse.mp hmem, hfound⟩)
    · refine (hfresh pointer hfound).imp_left fun hold => List.mem_flatMap.mpr ?_
      exact ⟨rule, List.mem_reverse.mp (List.mem_of_getElem? hrule), hold⟩

theorem defines_and (h : ∀ pointer ∈ flagBuilder.pointers, pointer < heap.length) (index : ℕ)
    (attr : String) (values : Json) (negate : Bool) :
    Defines flagBuilder heap
      (changeRule flagBuilder heap index fun rule => flagRuleBuilderAnd rule attr values negate heap).1
      (changeRule flagBuilder heap index fun rule => flagRuleBuilderAnd rule attr values negate heap).2
      ((flagBuilder.rules.reverse.map (ruleOf heap)).modify index fun rule =>
        rule.and (definedClause attr values negate)) := by
  rw [changeRule]
  cases hrule : flagBuilder.rules.reverse[index]? with
  | none =>
      have hlate := List.getElem?_eq_none_iff.mp hrule
      rw [List.modify_eq_self (by rw [List.length_map]; exact hlate)]
      exact defines_refl flagBuilder heap
  | some rule =>
      have hmem := List.mem_reverse.mp (List.mem_of_getElem? hrule)
      have hpointers : ∀ pointer ∈ rule.pointers, pointer < heap.length :=
        fun pointer hpointer => h pointer (List.mem_flatMap.mpr ⟨rule, hmem, hpointer⟩)
      have hlength : heap.length ≤ (heap.alloc (asJSONArray values)).length := by
        rw [Heap.length_alloc]
        omega
      refine defines_change hrule ⟨rule.variation, ⟨attr, heap.length, negate⟩ :: rule.clauses⟩ _ hlength
        (fun pointer hlt => Heap.read_alloc hlt _) (rules_alloc h _)
        (fun pointer hpointer => List.mem_cons_of_mem _ hpointer) ?_ ?_
      · intro pointer hpointer
        rcases List.mem_cons.mp hpointer with rfl | hold
        · exact .inr ⟨le_rfl, read_alloc_isSome heap _⟩
        · exact .inl hold
      · change (ruleOf (heap.alloc (asJSONArray values)) rule).and
          (clauseOf (heap.alloc (asJSONArray values)) ⟨attr, heap.length, negate⟩) = _
        rw [ruleOf_alloc hpointers, clauseOf, Heap.original_alloc_new]
        rfl

theorem defines_thenReturn (flagBuilder : PointedBuilder) (heap : Heap Json) (index : ℕ)
    (variationIndex : Int) :
    Defines flagBuilder heap
      (changeRule flagBuilder heap index fun rule =>
        (flagRuleBuilderThenReturn rule variationIndex, heap)).1
      (changeRule flagBuilder heap index fun rule =>
        (flagRuleBuilderThenReturn rule variationIndex, heap)).2
      ((flagBuilder.rules.reverse.map (ruleOf heap)).modify index fun rule =>
        { rule with variation := variationIndex }) := by
  rw [changeRule]
  cases hrule : flagBuilder.rules.reverse[index]? with
  | none =>
      have hlate := List.getElem?_eq_none_iff.mp hrule
      rw [List.modify_eq_self (by rw [List.length_map]; exact hlate)]
      exact defines_refl flagBuilder heap
  | some rule =>
      exact defines_change hrule (flagRuleBuilderThenReturn rule variationIndex) _ le_rfl
        (fun _ _ => rfl) rfl (fun _ hpointer => hpointer) (fun _ hpointer => .inl hpointer) rfl

theorem defines_perform (h : ∀ pointer ∈ flagBuilder.pointers, pointer < heap.length) (call : RuleCall) :
    Defines flagBuilder heap (call.perform (flagBuilder, heap)).1 (call.perform (flagBuilder, heap)).2
      (call.define (flagBuilder.rules.reverse.map (ruleOf heap))) := by
  cases call with
  | ifMatch attr values => exact defines_if h attr values false
  | ifNotMatch attr values => exact defines_if h attr values true
  | andMatch index attr values => exact defines_and h index attr values false
  | andNotMatch index attr values => exact defines_and h index attr values true
  | thenReturn index variationIndex => exact defines_thenReturn flagBuilder heap index variationIndex

theorem defines_withRules (h : ∀ pointer ∈ flagBuilder.pointers, pointer < heap.length)
    (calls : List RuleCall) :
    Defines flagBuilder heap (withRules flagBuilder heap calls).1 (withRules flagBuilder heap calls).2
      (definedRules (flagBuilder.rules.reverse.map (ruleOf heap)) calls) := by
  induction calls generalizing flagBuilder heap with
  | nil => exact defines_refl flagBuilder heap
  | cons call calls ih =>
      have hfirst := defines_perform h call
      have hrest := ih (hfirst.allocated h)
      rw [hfirst.rules] at hrest
      exact hfirst.trans hrest

end ServerSdk
