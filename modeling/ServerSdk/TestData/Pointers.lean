import ServerSdk.Program.Heap
import ServerSdk.TestData.Rules

namespace ServerSdk

open Program

structure PointedClause where
  attr : String
  values : ℕ
  negate : Bool

structure PointedRule where
  variation : Int
  clauses : List PointedClause

structure PointedBuilder where
  key : String
  on : Bool
  fallthroughVariation : Int
  offVariation : Int
  variations : Json
  targets : List FlagBuilderTarget
  rules : List PointedRule

def newFlagRuleBuilderClause (heap : Heap Json) (attr : String) (values : Json) (negate : Bool) :
    PointedClause × Heap Json :=
  (⟨attr, heap.length, negate⟩, heap.alloc (asJSONArray values))

def flagRuleBuilderAnd (ruleBuilder : PointedRule) (attr : String) (values : Json) (negate : Bool)
    (heap : Heap Json) : PointedRule × Heap Json :=
  let (clause, heap) := newFlagRuleBuilderClause heap attr values negate
  ({ ruleBuilder with clauses := clause :: ruleBuilder.clauses }, heap)

def flagRuleBuilderAndMatch (ruleBuilder : PointedRule) (attr : String) (values : Json)
    (heap : Heap Json) : PointedRule × Heap Json :=
  flagRuleBuilderAnd ruleBuilder attr values false heap

def flagRuleBuilderAndNotMatch (ruleBuilder : PointedRule) (attr : String) (values : Json)
    (heap : Heap Json) : PointedRule × Heap Json :=
  flagRuleBuilderAnd ruleBuilder attr values true heap

def flagRuleBuilderThenReturn (ruleBuilder : PointedRule) (variationIndex : Int) : PointedRule :=
  { ruleBuilder with variation := variationIndex }

def flagBuilderIfMatch (flagBuilder : PointedBuilder) (attr : String) (values : Json)
    (heap : Heap Json) : PointedBuilder × Heap Json :=
  let (ruleBuilder, heap) := flagRuleBuilderAndMatch ⟨0, []⟩ attr values heap
  ({ flagBuilder with rules := ruleBuilder :: flagBuilder.rules }, heap)

def flagBuilderIfNotMatch (flagBuilder : PointedBuilder) (attr : String) (values : Json)
    (heap : Heap Json) : PointedBuilder × Heap Json :=
  let (ruleBuilder, heap) := flagRuleBuilderAndNotMatch ⟨0, []⟩ attr values heap
  ({ flagBuilder with rules := ruleBuilder :: flagBuilder.rules }, heap)

def changeRule (flagBuilder : PointedBuilder) (heap : Heap Json) (rule : ℕ)
    (change : PointedRule → PointedRule × Heap Json) : PointedBuilder × Heap Json :=
  match flagBuilder.rules.reverse[rule]? with
  | none => (flagBuilder, heap)
  | some ruleBuilder =>
      let (ruleBuilder, heap) := change ruleBuilder
      ({ flagBuilder with rules := (flagBuilder.rules.reverse.set rule ruleBuilder).reverse }, heap)

def RuleCall.perform : PointedBuilder × Heap Json → RuleCall → PointedBuilder × Heap Json
  | (flagBuilder, heap), .ifMatch attr values => flagBuilderIfMatch flagBuilder attr values heap
  | (flagBuilder, heap), .ifNotMatch attr values => flagBuilderIfNotMatch flagBuilder attr values heap
  | (flagBuilder, heap), .andMatch rule attr values =>
      changeRule flagBuilder heap rule fun ruleBuilder =>
        flagRuleBuilderAndMatch ruleBuilder attr values heap
  | (flagBuilder, heap), .andNotMatch rule attr values =>
      changeRule flagBuilder heap rule fun ruleBuilder =>
        flagRuleBuilderAndNotMatch ruleBuilder attr values heap
  | (flagBuilder, heap), .thenReturn rule variationIndex =>
      changeRule flagBuilder heap rule fun ruleBuilder =>
        (flagRuleBuilderThenReturn ruleBuilder variationIndex, heap)

def withRules (flagBuilder : PointedBuilder) (heap : Heap Json) (calls : List RuleCall) :
    PointedBuilder × Heap Json :=
  calls.foldl RuleCall.perform (flagBuilder, heap)

def PointedClause.contents (heap : Heap Json) (clause : PointedClause) :
    Option FlagRuleBuilderClause :=
  (heap.read clause.values).map fun values => ⟨clause.attr, values, clause.negate⟩

def PointedRule.contents (heap : Heap Json) (rule : PointedRule) : Option FlagRuleBuilder :=
  (rule.clauses.mapM (PointedClause.contents heap)).map fun clauses => ⟨rule.variation, clauses⟩

def PointedRule.pointers (rule : PointedRule) : List ℕ := rule.clauses.map PointedClause.values

namespace PointedBuilder

def holding (flagBuilder : PointedBuilder) (rules : List FlagRuleBuilder) : FlagBuilder :=
  ⟨flagBuilder.key, flagBuilder.on, flagBuilder.fallthroughVariation, flagBuilder.offVariation,
    flagBuilder.variations, flagBuilder.targets, rules⟩

def contents (heap : Heap Json) (flagBuilder : PointedBuilder) : Option FlagBuilder :=
  (flagBuilder.rules.mapM (PointedRule.contents heap)).map flagBuilder.holding

def build (heap : Heap Json) (flagBuilder : PointedBuilder) (version : Int) : Option Json :=
  (flagBuilder.contents heap).map fun contents => flagBuilderBuild contents version

def pointers (flagBuilder : PointedBuilder) : List ℕ := flagBuilder.rules.flatMap PointedRule.pointers

end PointedBuilder

-- The new clause is a copy of the memory of the old one, so it has the same pointer to the values.
def flagRuleBuilderDuplicate (rule : PointedRule) : PointedRule :=
  ⟨rule.variation, rule.clauses.foldl (fun clauses clause => clauses ++ [clause]) []⟩

def flagBuilderRulesDuplicate (src : List PointedRule) : List PointedRule :=
  src.foldl (fun res rule => res ++ [flagRuleBuilderDuplicate rule]) []

def flagBuilderTargetDuplicate (target : FlagBuilderTarget) : FlagBuilderTarget :=
  ⟨target.variation, target.users.foldl (fun users user => users ++ [user]) []⟩

def flagBuilderTargetsDuplicate (src : List FlagBuilderTarget) : List FlagBuilderTarget :=
  src.foldl (fun res target => res ++ [flagBuilderTargetDuplicate target]) []

def flagBuilderDuplicate (src : PointedBuilder) : PointedBuilder :=
  { src with
    targets := flagBuilderTargetsDuplicate src.targets
    rules := flagBuilderRulesDuplicate src.rules }

def flagBuilderFree (flagBuilder : PointedBuilder) (heap : Heap Json) : Option (Heap Json) :=
  heap.freeAll flagBuilder.pointers

def isBooleanFlag (flagBuilder : PointedBuilder) : Bool :=
  flagBuilder.variations.getType = .array ∧ flagBuilder.variations.collectionGetSize = 2 ∧
    flagBuilder.variations.arrayLookup 0 = some (.bool true) ∧
    flagBuilder.variations.arrayLookup 1 = some (.bool false)

def flagBuilderBooleanFlag (flagBuilder : PointedBuilder) : PointedBuilder :=
  if isBooleanFlag flagBuilder then flagBuilder
  else { flagBuilder with
    variations := .array [.bool true, .bool false]
    fallthroughVariation := 0
    offVariation := 1 }

structure TestDataMemory where
  heap : Heap Json
  flagBuilders : String → Option PointedBuilder
  currentFlags : Json

def updateFlagBuildersMap (testData : TestDataMemory) (flagBuilder : PointedBuilder) :
    Option TestDataMemory :=
  (match testData.flagBuilders flagBuilder.key with
    | none => some testData.heap
    | some replaced => flagBuilderFree replaced testData.heap).map fun heap =>
      { testData with
        heap := heap
        flagBuilders := Function.update testData.flagBuilders flagBuilder.key (some flagBuilder) }

def testDataUpdate (testData : TestDataMemory) (flagBuilder : PointedBuilder) :
    Option TestDataMemory :=
  (flagBuilder.contents testData.heap).bind fun contents =>
    updateFlagBuildersMap
      { testData with
        currentFlags := testData.currentFlags.objectSetKey flagBuilder.key
          (createNewFlag testData.currentFlags contents) }
      flagBuilder

def testDataFlag (testData : TestDataMemory) (key : String) : PointedBuilder :=
  match testData.flagBuilders key with
  | some flagBuilder => flagBuilderDuplicate flagBuilder
  | none => flagBuilderBooleanFlag ⟨key, true, 0, 0, .null, [], []⟩

def clauseOf (heap : Heap Json) (clause : PointedClause) : FlagRuleBuilderClause :=
  ⟨clause.attr, heap.original clause.values, clause.negate⟩

def ruleOf (heap : Heap Json) (rule : PointedRule) : FlagRuleBuilder :=
  ⟨rule.variation, rule.clauses.map (clauseOf heap)⟩

@[ext] structure Session where
  testData : TestDataMemory
  builder : PointedBuilder
  allocated : ∀ pointer ∈ builder.pointers, pointer < testData.heap.length
  stored : ∀ key flagBuilder, testData.flagBuilders key = some flagBuilder →
    ∀ pointer ∈ flagBuilder.pointers, pointer < testData.heap.length

theorem mapM_eq_some {α β : Type} {f : α → Option β} {g : α → β} {l : List α}
    (h : ∀ a ∈ l, f a = some (g a)) : l.mapM f = some (l.map g) := by
  induction l with
  | nil => rfl
  | cons a l ih =>
      obtain ⟨hfirst, hrest⟩ := List.forall_mem_cons.mp h
      rw [List.mapM_cons, hfirst, ih hrest]
      rfl

theorem isSome_of_mapM {α β : Type} {f : α → Option β} {l : List α} {l' : List β}
    (h : l.mapM f = some l') : ∀ a ∈ l, (f a).isSome := by
  induction l generalizing l' with
  | nil => nofun
  | cons a l ih =>
      rw [List.mapM_cons] at h
      obtain ⟨b, hb, hrest⟩ := Option.bind_eq_some_iff.mp h
      obtain ⟨bs, hbs, _⟩ := Option.bind_eq_some_iff.mp hrest
      exact List.forall_mem_cons.mpr ⟨Option.isSome_of_eq_some hb, ih hbs⟩

section Contents

variable {heap heap' : Heap Json} {rule : PointedRule} {flagBuilder : PointedBuilder}

theorem PointedRule.contents_of_reads
    (h : ∀ pointer ∈ rule.pointers, heap'.read pointer = some (heap.original pointer)) :
    rule.contents heap' = some (ruleOf heap rule) := by
  have hclauses : rule.clauses.mapM (PointedClause.contents heap') =
      some (rule.clauses.map (clauseOf heap)) := by
    refine mapM_eq_some fun clause hclause => ?_
    rw [PointedClause.contents, h clause.values (List.mem_map_of_mem hclause)]
    rfl
  rw [PointedRule.contents, hclauses]
  rfl

theorem PointedRule.live_of_contents (h : (rule.contents heap).isSome) : heap.Live rule.pointers := by
  obtain ⟨contents, hcontents⟩ := Option.isSome_iff_exists.mp h
  obtain ⟨clauses, hclauses, _⟩ := Option.map_eq_some_iff.mp hcontents
  intro pointer hpointer
  obtain ⟨clause, hclause, rfl⟩ := List.mem_map.mp hpointer
  have hread := isSome_of_mapM hclauses clause hclause
  rwa [PointedClause.contents, Option.isSome_map] at hread

theorem PointedBuilder.live_iff : heap.Live flagBuilder.pointers ↔
    ∀ rule ∈ flagBuilder.rules, heap.Live rule.pointers := List.forall_mem_flatMap

theorem PointedBuilder.contents_of_reads
    (h : ∀ pointer ∈ flagBuilder.pointers, heap'.read pointer = some (heap.original pointer)) :
    flagBuilder.contents heap' = some (flagBuilder.holding (flagBuilder.rules.map (ruleOf heap))) := by
  have hrules : flagBuilder.rules.mapM (PointedRule.contents heap') =
      some (flagBuilder.rules.map (ruleOf heap)) := by
    refine mapM_eq_some fun rule hrule => PointedRule.contents_of_reads fun pointer hpointer => ?_
    exact h pointer (List.mem_flatMap.mpr ⟨rule, hrule, hpointer⟩)
  rw [PointedBuilder.contents, hrules]
  rfl

theorem PointedBuilder.live_of_contents {contents : FlagBuilder}
    (h : flagBuilder.contents heap = some contents) : heap.Live flagBuilder.pointers := by
  obtain ⟨rules, hrules, _⟩ := Option.map_eq_some_iff.mp h
  exact PointedBuilder.live_iff.mpr fun rule hrule =>
    PointedRule.live_of_contents (isSome_of_mapM hrules rule hrule)

end Contents

theorem foldl_append_singleton {α β : Type} (f : α → β) (l : List α) :
    l.foldl (fun res a => res ++ [f a]) [] = l.map f := by
  rw [List.foldl_append_eq_append, List.nil_append, ← List.flatMap_def, List.map_eq_flatMap]

theorem flagBuilderDuplicate_eq (flagBuilder : PointedBuilder) :
    flagBuilderDuplicate flagBuilder = flagBuilder := by
  have hrule : flagRuleBuilderDuplicate = id := by
    funext rule
    have hclauses := foldl_append_singleton id rule.clauses
    rw [List.map_id] at hclauses
    exact congrArg (PointedRule.mk rule.variation) hclauses
  have htarget : flagBuilderTargetDuplicate = id := by
    funext target
    have husers := foldl_append_singleton id target.users
    rw [List.map_id] at husers
    exact congrArg (FlagBuilderTarget.mk target.variation) husers
  rw [flagBuilderDuplicate, flagBuilderTargetsDuplicate, flagBuilderRulesDuplicate,
    foldl_append_singleton, foldl_append_singleton, hrule, htarget, List.map_id, List.map_id]

end ServerSdk
