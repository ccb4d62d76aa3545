import ServerSdk.TestData.RuleCalls
import ServerSdk.TestData.RuleMatch

namespace ServerSdk

open Program

theorem testDataFlag_of_stored {testData : TestDataMemory} {key : String} {flagBuilder : PointedBuilder}
    (h : testData.flagBuilders key = some flagBuilder) : testDataFlag testData key = flagBuilder := by
  rw [testDataFlag, h]
  exact flagBuilderDuplicate_eq flagBuilder

structure Updated (testData : TestDataMemory) (flagBuilder : PointedBuilder) (next : TestDataMemory) :
    Prop where
  stored : next.flagBuilders = Function.update testData.flagBuilders flagBuilder.key (some flagBuilder)
  unchanged : testData.flagBuilders flagBuilder.key = none → next.heap = testData.heap
  freed : ∀ replaced, testData.flagBuilders flagBuilder.key = some replaced →
    testData.heap.freeAll replaced.pointers = some next.heap

theorem Updated.copy {testData next : TestDataMemory} {flagBuilder : PointedBuilder}
    (h : Updated testData flagBuilder next) : testDataFlag next flagBuilder.key = flagBuilder :=
  testDataFlag_of_stored (by rw [h.stored, Function.update_self])

theorem Updated.length {testData next : TestDataMemory} {flagBuilder : PointedBuilder}
    (h : Updated testData flagBuilder next) : next.heap.length = testData.heap.length := by
  cases hreplaced : testData.flagBuilders flagBuilder.key with
  | none => rw [h.unchanged hreplaced]
  | some replaced => exact Heap.length_freeAll (h.freed replaced hreplaced)

theorem testDataUpdate_eq_some {testData next : TestDataMemory} {flagBuilder : PointedBuilder}
    (h : testDataUpdate testData flagBuilder = some next) : Updated testData flagBuilder next := by
  obtain ⟨contents, -, hupdate⟩ := Option.bind_eq_some_iff.mp h
  obtain ⟨heap, hheap, rfl⟩ := Option.map_eq_some_iff.mp hupdate
  refine ⟨rfl, fun hnone => ?_, fun replaced hreplaced => ?_⟩
  · simp only [hnone] at hheap
    exact (Option.some.inj hheap).symm
  · simp only [hreplaced] at hheap
    exact hheap

theorem exists_testDataUpdate {testData : TestDataMemory} {flagBuilder : PointedBuilder}
    {contents : FlagBuilder} (hcontents : flagBuilder.contents testData.heap = some contents)
    (hfree : ∀ replaced, testData.flagBuilders flagBuilder.key = some replaced →
      ∃ heap, testData.heap.freeAll replaced.pointers = some heap) :
    ∃ next, testDataUpdate testData flagBuilder = some next := by
  rw [testDataUpdate, hcontents, Option.bind_some, updateFlagBuildersMap]
  cases hreplaced : testData.flagBuilders flagBuilder.key with
  | none => exact ⟨_, rfl⟩
  | some replaced =>
      obtain ⟨heap, hheap⟩ := hfree replaced hreplaced
      simp only [flagBuilderFree, hheap]
      exact ⟨_, rfl⟩

theorem Defines.contents_of_reads {flagBuilder changed : PointedBuilder} {heap grown last : Heap Json}
    {rules : List FlagRuleBuilder} (h : Defines flagBuilder heap changed grown rules)
    (hread : ∀ pointer ∈ changed.pointers, last.read pointer = some (grown.original pointer)) :
    changed.contents last = some (flagBuilder.holding rules.reverse) := by
  have hrules : changed.rules.map (ruleOf grown) = rules.reverse := by
    rw [← h.rules, List.map_reverse, List.reverse_reverse]
  rw [PointedBuilder.contents_of_reads hread, hrules, h.frame]
  rfl

namespace Session

variable {session : Session} {calls : List RuleCall} {version : Int} {flag : Json}

def rules (session : Session) (calls : List RuleCall) : List FlagRuleBuilder :=
  definedRules (session.builder.rules.reverse.map (ruleOf session.testData.heap)) calls

def flagBuilder (session : Session) (calls : List RuleCall) : FlagBuilder :=
  session.builder.holding (session.rules calls).reverse

def changed (session : Session) (calls : List RuleCall) : PointedBuilder :=
  (withRules session.builder session.testData.heap calls).1

def grown (session : Session) (calls : List RuleCall) : TestDataMemory :=
  { session.testData with heap := (withRules session.builder session.testData.heap calls).2 }

theorem defines (session : Session) (calls : List RuleCall) :
    Defines session.builder session.testData.heap (session.changed calls) (session.grown calls).heap
      (session.rules calls) :=
  defines_withRules session.allocated calls

theorem key_changed (session : Session) (calls : List RuleCall) :
    (session.changed calls).key = session.builder.key := by
  rw [(session.defines calls).frame]

theorem copy_allocated {next : TestDataMemory}
    (h : Updated (session.grown calls) (session.changed calls) next) :
    ∀ pointer ∈ (testDataFlag next (session.changed calls).key).pointers, pointer < next.heap.length := by
  rw [h.copy, h.length]
  exact (session.defines calls).allocated session.allocated

theorem copy_stored {next : TestDataMemory}
    (h : Updated (session.grown calls) (session.changed calls) next) (key : String)
    (flagBuilder : PointedBuilder) (hstored : next.flagBuilders key = some flagBuilder) :
    ∀ pointer ∈ flagBuilder.pointers, pointer < next.heap.length := by
  rw [h.length]
  rw [h.stored] at hstored
  by_cases hkey : key = (session.changed calls).key
  · rw [hkey, Function.update_self] at hstored
    cases hstored
    exact (session.defines calls).allocated session.allocated
  · rw [Function.update_of_ne hkey] at hstored
    intro pointer hpointer
    exact (session.stored key flagBuilder hstored pointer hpointer).trans_le (session.defines calls).length

def build (session : Session) (calls : List RuleCall) (version : Int) : Option Json :=
  (session.changed calls).build (session.grown calls).heap version

def copied (session : Session) (calls : List RuleCall) : Option Session :=
  match h : testDataUpdate (session.grown calls) (session.changed calls) with
  | none => none
  | some next => some
      { testData := next
        builder := testDataFlag next (session.changed calls).key
        allocated := copy_allocated (testDataUpdate_eq_some h)
        stored := copy_stored (testDataUpdate_eq_some h) }

structure Unshared (session : Session) : Prop where
  live : session.testData.heap.Live session.builder.pointers
  replaced : ∀ replaced, session.testData.flagBuilders session.builder.key = some replaced →
    replaced.pointers.Nodup ∧ session.testData.heap.Live replaced.pointers ∧
      ∀ pointer ∈ replaced.pointers, pointer ∉ session.builder.pointers

theorem copied_eq_some {next : Session} : session.copied calls = some next ↔
    testDataUpdate (session.grown calls) (session.changed calls) = some next.testData ∧
      next.builder = session.changed calls := by
  rw [copied]
  split
  · rename_i hnone
    simp [hnone]
  · rename_i testData hupdate
    have hcopy := (testDataUpdate_eq_some hupdate).copy
    constructor
    · rintro ⟨⟩
      exact ⟨hupdate, hcopy⟩
    · rintro ⟨hnext, hbuilder⟩
      refine congrArg some (Session.ext ?_ (hcopy.trans hbuilder.symm))
      exact Option.some.inj (hupdate.symm.trans hnext)

theorem build_of_live (h : session.testData.heap.Live session.builder.pointers) (version : Int) :
    session.build calls version = some (flagBuilderBuild (session.flagBuilder calls) version) := by
  have hdefines := session.defines calls
  have hlive := (hdefines.live_iff session.allocated).mpr h
  rw [build, PointedBuilder.build, hdefines.contents_of_reads fun pointer hpointer =>
    Heap.read_eq_original (hlive pointer hpointer)]
  rfl

theorem live_of_build (h : session.build calls version = some flag) :
    session.testData.heap.Live session.builder.pointers := by
  obtain ⟨contents, hcontents, _⟩ := Option.map_eq_some_iff.mp h
  exact ((session.defines calls).live_iff session.allocated).mp
    (PointedBuilder.live_of_contents hcontents)

theorem Unshared.freeAll (h : session.Unshared) (calls : List RuleCall) {replaced : PointedBuilder}
    (hreplaced : session.testData.flagBuilders session.builder.key = some replaced) :
    ∃ heap, (session.grown calls).heap.freeAll replaced.pointers = some heap := by
  obtain ⟨hnodup, hheld, -⟩ := h.replaced replaced hreplaced
  refine Heap.exists_freeAll hnodup fun pointer hpointer => ?_
  rw [(session.defines calls).read pointer (session.stored _ replaced hreplaced pointer hpointer)]
  exact hheld pointer hpointer

theorem Unshared.read (h : session.Unshared) {next : TestDataMemory}
    (hupdated : Updated (session.grown calls) (session.changed calls) next) {pointer : ℕ}
    (hpointer : pointer ∈ (session.changed calls).pointers) :
    next.heap.read pointer = (session.grown calls).heap.read pointer := by
  have hkey := session.key_changed calls
  cases hreplaced : session.testData.flagBuilders session.builder.key with
  | none => rw [hupdated.unchanged (hkey ▸ hreplaced)]
  | some replaced =>
      rw [(Heap.freeAll_eq_some (hupdated.freed replaced (hkey ▸ hreplaced))).2.2, if_neg]
      intro hshared
      rcases (session.defines calls).fresh pointer hpointer with hold | ⟨hnew, -⟩
      · exact (h.replaced replaced hreplaced).2.2 pointer hshared hold
      · exact absurd (session.stored _ replaced hreplaced pointer hshared) (not_lt.mpr hnew)

theorem Unshared.copied (h : session.Unshared) (calls : List RuleCall) (version : Int) :
    ∃ next, session.copied calls = some next ∧
      next.build [] version = some (flagBuilderBuild (session.flagBuilder calls) version) := by
  have hdefines := session.defines calls
  have hlive := (hdefines.live_iff session.allocated).mpr h.live
  have hcontents := hdefines.contents_of_reads fun pointer hpointer =>
    Heap.read_eq_original (hlive pointer hpointer)
  obtain ⟨testData, hupdate⟩ := exists_testDataUpdate hcontents fun replaced hreplaced =>
    h.freeAll calls (session.key_changed calls ▸ hreplaced)
  have hupdated := testDataUpdate_eq_some hupdate
  refine ⟨⟨testData, session.changed calls, hupdated.copy ▸ copy_allocated hupdated,
    copy_stored hupdated⟩, copied_eq_some.mpr ⟨hupdate, rfl⟩, ?_⟩
  change (session.changed calls).build testData.heap version = _
  rw [PointedBuilder.build, hdefines.contents_of_reads fun pointer hpointer => by
    rw [h.read hupdated hpointer, Heap.read_eq_original (hlive pointer hpointer)]]
  rfl

theorem unshared_of_copied {next : Session}
    (hlive : session.testData.heap.Live session.builder.pointers)
    (h : session.copied calls = some next) (hbuild : next.build [] version = some flag) :
    session.Unshared := by
  have hdefines := session.defines calls
  obtain ⟨hupdate, hbuilder⟩ := copied_eq_some.mp h
  have hupdated := testDataUpdate_eq_some hupdate
  have hheld := live_of_build hbuild
  rw [hbuilder] at hheld
  refine ⟨hlive, fun replaced hreplaced => ?_⟩
  obtain ⟨hnodup, hgrown, hread⟩ :=
    Heap.freeAll_eq_some (hupdated.freed replaced (session.key_changed calls ▸ hreplaced))
  refine ⟨hnodup, fun pointer hpointer => ?_, fun pointer hpointer hshared => ?_⟩
  · rw [← hdefines.read pointer (session.stored _ replaced hreplaced pointer hpointer)]
    exact hgrown pointer hpointer
  · have hsome := hheld pointer (hdefines.kept pointer hshared)
    rw [hread, if_pos hpointer] at hsome
    cases hsome

end Session

section Order

variable [Externals] {σ : Type}

theorem rules_in_definition_order_iff (session : Session) (htargets : session.builder.targets = [])
    (calls : List RuleCall) (hon : session.builder.on = true)
    (hrange : ∀ rule ∈ session.rules calls, InRange (session.flagBuilder calls) rule.variation)
    (hfallthrough : InRange (session.flagBuilder calls) session.builder.fallthroughVariation)
    (version : Int) (client : Client σ) (user : User) (fuel : ℕ) (out : Outputs) (s : σ) :
    ((∃ flag, session.build calls version = some flag ∧
        ServesInOrder (session.flagBuilder calls) (session.rules calls) user
          (evaluate client user fuel flag out s)) ∧
      ∃ next flag, session.copied calls = some next ∧ next.build [] version = some flag ∧
        ServesInOrder (session.flagBuilder calls) (session.rules calls) user
          (evaluate client user fuel flag out s)) ↔
      OrderUnseen user (session.rules calls) ∧ session.Unshared := by
  constructor
  · rintro ⟨⟨flag, hflag, hserves⟩, next, copy, hcopied, hcopy, -⟩
    have hlive := Session.live_of_build hflag
    rw [Session.build_of_live hlive] at hflag
    cases hflag
    exact ⟨hserves.orderUnseen hon htargets rfl hrange, Session.unshared_of_copied hlive hcopied hcopy⟩
  · rintro ⟨hunseen, hunshared⟩
    obtain ⟨next, hcopied, hcopy⟩ := hunshared.copied calls version
    exact ⟨⟨_, Session.build_of_live hunshared.live version,
        hunseen.serves hon htargets rfl hrange hfallthrough⟩,
      ⟨next, _, hcopied, hcopy, hunseen.serves hon htargets rfl hrange hfallthrough⟩⟩

end Order

def frenchBen : User := { userNew "ben" with country := some "fr", name := some "ben" }

def countryRule (country : String) (negate : Bool) (variation : Int) : FlagRuleBuilder :=
  ⟨variation, [definedClause "country" (.text country) negate]⟩

def nameRule (name : String) (variation : Int) : FlagRuleBuilder :=
  ⟨variation, [definedClause "name" (.text name) false]⟩

def apartCalls : List RuleCall :=
  [.ifMatch "country" (.text "gb"), .thenReturn 0 0, .ifMatch "name" (.text "ben"), .thenReturn 1 1,
    .ifNotMatch "country" (.text "fr"), .thenReturn 2 2]

def overlappingCalls : List RuleCall :=
  [.ifMatch "country" (.text "fr"), .thenReturn 0 1, .ifMatch "name" (.text "ben"), .thenReturn 1 2]

def paletteSession : Session where
  testData := ⟨[], fun _ => none, .object []⟩
  builder := ⟨"palette", true, 0, 1, paletteBuilder.variations, [], []⟩
  allocated := nofun
  stored := nofun

theorem paletteSession_live :
    paletteSession.testData.heap.Live paletteSession.builder.pointers := by
  intro pointer hpointer
  cases hpointer

theorem inRange_palette (calls : List RuleCall) {variation : Int} (hnonneg : 0 ≤ variation)
    (hbound : variation < 3) : InRange (paletteSession.flagBuilder calls) variation :=
  ⟨rfl, hnonneg, hbound, by omega⟩

theorem middle_rule_served :
    (∃ flag, paletteSession.build apartCalls 1 = some flag ∧
      @ServesInOrder literalExternals Unit (paletteSession.flagBuilder apartCalls)
        [countryRule "gb" false 0, nameRule "ben" 1, countryRule "fr" true 2] frenchBen
        (@evaluate literalExternals Unit (Content.client ⟨[], []⟩) frenchBen 1 flag freshOutputs ())) ∧
      ∃ next flag, paletteSession.copied apartCalls = some next ∧ next.build [] 1 = some flag ∧
        @ServesInOrder literalExternals Unit (paletteSession.flagBuilder apartCalls)
          [countryRule "gb" false 0, nameRule "ben" 1, countryRule "fr" true 2] frenchBen
          (@evaluate literalExternals Unit (Content.client ⟨[], []⟩) frenchBen 1 flag
            freshOutputs ()) := by
  let _ : Externals := literalExternals
  have hrange : ∀ rule ∈ paletteSession.rules apartCalls,
      InRange (paletteSession.flagBuilder apartCalls) rule.variation := by
    intro rule hrule
    have hvariation : 0 ≤ rule.variation ∧ rule.variation < 3 := by
      revert rule
      exact List.forall_mem_cons.mpr ⟨by decide, List.forall_mem_cons.mpr ⟨by decide,
        List.forall_mem_singleton.mpr (by decide)⟩⟩
    exact inRange_palette apartCalls hvariation.1 hvariation.2
  have hmatches : RuleMatches frenchBen (nameRule "ben" 1) :=
    List.forall_mem_singleton.mpr rfl
  have hunseen : OrderUnseen frenchBen (paletteSession.rules apartCalls) := by
    refine .inr ⟨1, nameRule "ben" 1, 1, nameRule "ben" 1, ⟨rfl, hmatches, ?_⟩,
      ⟨rfl, hmatches, ?_⟩, rfl, rfl⟩
    · intro earlier hlt other hother
      obtain rfl : earlier = 0 := by omega
      cases hother
      exact RuleMisses.not_matches rfl
    · intro later hlater other hother
      have hlt : later < 3 := (List.getElem?_eq_some_iff.mp hother).1
      obtain rfl : later = 2 := by omega
      cases hother
      rfl
  have hunshared : paletteSession.Unshared :=
    ⟨paletteSession_live, fun replaced hreplaced => by cases hreplaced⟩
  exact (rules_in_definition_order_iff paletteSession rfl apartCalls rfl hrange
    (inRange_palette apartCalls (by decide) (by decide)) 1 (Content.client ⟨[], []⟩) frenchBen 1
    freshOutputs ()).mpr ⟨hunseen, hunshared⟩

theorem newest_rule_served :
    (∃ flag, paletteSession.build overlappingCalls 1 = some flag ∧
      @FirstRule literalExternals frenchBen (paletteSession.rules overlappingCalls) 0
        (countryRule "fr" false 1) ∧
      @evaluate literalExternals Unit (Content.client ⟨[], []⟩) frenchBen 1 flag freshOutputs () =
        .ok ((.matched, ((freshOutputs.setReason .ruleMatch).serve (.text "blue") 2).setExtra
          (.rule ⟨0, some "rule0", false⟩)), ()) ∧
      ¬ @ServesInOrder literalExternals Unit (paletteSession.flagBuilder overlappingCalls)
        (paletteSession.rules overlappingCalls) frenchBen
        (@evaluate literalExternals Unit (Content.client ⟨[], []⟩) frenchBen 1 flag freshOutputs ())) ∧
    ((paletteSession.copied apartCalls).bind fun once => once.copied []).map
      (fun twice => twice.build [] 1) = some none := by
  let _ : Externals := literalExternals
  have hfirst : FirstRule frenchBen (paletteSession.rules overlappingCalls) 0
      (countryRule "fr" false 1) :=
    ⟨rfl, List.forall_mem_singleton.mpr rfl, nofun⟩
  have hserved : evaluate (Content.client ⟨[], []⟩) frenchBen 1
      (flagBuilderBuild (paletteSession.flagBuilder overlappingCalls) 1) freshOutputs () =
        .ok ((.matched, ((freshOutputs.setReason .ruleMatch).serve (.text "blue") 2).setExtra
          (.rule ⟨0, some "rule0", false⟩)), ()) := rfl
  refine ⟨⟨_, Session.build_of_live paletteSession_live 1, hfirst, hserved, fun hserves => ?_⟩, rfl⟩
  obtain ⟨e, t, hevaluate, hgives, -⟩ := hserves.rule 0 _ hfirst
  rw [hserved] at hevaluate
  cases hevaluate
  exact absurd hgives.variationIndex (by decide)

end ServerSdk
