import Mathlib
import QueryBounds.Limit.Options
import QueryBounds.Proofs.Measuring
import QueryBounds.Proofs.Settling

/-!
# What a depth limit rejects

A document violates a depth limit at its first operation that the limit looks at and that is deeper
than it allows. The violation tells the full depth of that operation and stands at the first of its
top-level selections that is so deep, never at the operation itself.
-/
namespace QueryBounds

open Fragment (Index)
open Depth (Measurer Learned ofOperation selectionDepth fragmentStep)

namespace DepthLimit

/-- Whether the limit looks at an operation and finds it deeper than the bound. -/
def tooDeep (l : DepthLimit) (index : Index) (k : Nat) (o : Operation) : Bool :=
  !l.skips index o && decide (k < ofOperation index l.flattenFragments.holds o)

theorem tooDeep_eq_false {l : DepthLimit} {index : Index} {k : Nat} {o : Operation} :
    l.tooDeep index k o = false ↔
      (l.skips index o = false → ofOperation index l.flattenFragments.holds o ≤ k) := by
  cases hs : l.skips index o <;> simp [tooDeep, hs]

/-- A depth that is not zero is that of a first deepest selection at the top of the operation. -/
theorem exists_culprit (index : Index) (flatten : Bool) (o : Operation)
    (h : 0 < ofOperation index flatten o) :
    ∃ before sel after, o.selections = before ++ sel :: after ∧
      selectionDepth index (fragmentStep flatten) sel = ofOperation index flatten o ∧
      (∀ b ∈ before, selectionDepth index (fragmentStep flatten) b < ofOperation index flatten o) ∧
      (Measurer.measure ⟨index, flatten⟩ o .start).1.2 = some sel := by
  have hdeepest := Measurer.isDeepest_measure ⟨index, flatten⟩ o
  cases hc : (Measurer.measure ⟨index, flatten⟩ o .start).1.2 with
  | none =>
    have hzero : ofOperation index flatten o = 0 := hdeepest.none_iff.1 hc
    omega
  | some sel =>
    obtain ⟨before, after, hsels, hdepth, hbefore⟩ := hdeepest.first sel hc
    exact ⟨before, sel, after, hsels, hdepth, hbefore, rfl⟩

/-- The violation of an operation that is too deep. -/
def tooDeepViolation (l : DepthLimit) (index : Index) (k : Nat) (o : Operation) : Violation :=
  l.violation k (ofOperation index l.flattenFragments.holds o)
    (Measurer.measure ⟨index, l.flattenFragments.holds⟩ o .start).1.2 o

/-- Whatever the measurer has learned before, the operations are measured up to the first that is
too deep. -/
theorem measureOperations_result (l : DepthLimit) (k : Nat) (index : Index)
    (os : List Operation) (s : Learned)
    (hs : Measurer.SoundMemo ⟨index, l.flattenFragments.holds⟩ s) :
    (l.measureOperations k ⟨index, l.flattenFragments.holds⟩ os s).result =
      .ok ((os.find? (l.tooDeep index k)).map (l.tooDeepViolation index k)).toList := by
  induction os generalizing s with
  | nil => rfl
  | cons o os ih =>
    unfold measureOperations
    by_cases hskip : l.skips index o = true
    · have hnot : l.tooDeep index k o = false := by simp [tooDeep, hskip]
      simp only [hskip, if_true]
      rw [Run.result_bind_of_ok (Run.result_log _), ih s hs, List.find?_cons_of_neg (by simp [hnot])]
    · have hfresh := Measurer.measure_fresh o hs
      have hnext := (Measurer.measure_spec o hs).2
      rcases hr : Measurer.measure ⟨index, l.flattenFragments.holds⟩ o s with ⟨⟨depth, culprit⟩, s'⟩
      rw [hr] at hfresh hnext
      have hdepth : depth = ofOperation index l.flattenFragments.holds o := congrArg Prod.fst hfresh
      have hculprit : culprit = (Measurer.measure ⟨index, l.flattenFragments.holds⟩ o .start).1.2 :=
        congrArg Prod.snd hfresh
      simp only [hskip, Bool.false_eq_true, if_false]
      rw [Run.result_bind_of_ok (Run.result_log _)]
      by_cases hdeep : k < depth
      · have hyes : l.tooDeep index k o = true := by simp [tooDeep, hskip, ← hdepth, hdeep]
        rw [List.find?_cons_of_pos hyes, if_pos hdeep, Option.map_some, tooDeepViolation,
          ← hculprit, ← hdepth]
        rfl
      · have hnot : l.tooDeep index k o = false := by simp [tooDeep, ← hdepth, hdeep]
        rw [List.find?_cons_of_neg (by simp [hnot]), if_neg hdeep, ih _ hnext]

/-- A check ends with the violation of the first operation that is too deep. -/
theorem validate_result {l : DepthLimit} {k : Nat} (d : Document) (hn : l.n = some k)
    (hp : l.propagate.holds = true)
    (hq : ∀ h ∈ l.hooksFor (d.operations.any (l.tooDeep (Index.ofDocument d) k)),
      h.failure = none) :
    (l.validate d).result =
      .ok ((d.operations.find? (l.tooDeep (Index.ofDocument d) k)).map
        (l.tooDeepViolation (Index.ofDocument d) k)).toList := by
  have hmeasure : (l.measure d).result =
      .ok ((d.operations.find? (l.tooDeep (Index.ofDocument d) k)).map
        (l.tooDeepViolation (Index.ofDocument d) k)).toList := by
    unfold measure
    simp only [hn]
    exact measureOperations_result l k _ d.operations .start Measurer.soundMemo_start
  have hnonempty : (!((d.operations.find? (l.tooDeep (Index.ofDocument d) k)).map
      (l.tooDeepViolation (Index.ofDocument d) k)).toList.isEmpty) =
      d.operations.any (l.tooDeep (Index.ofDocument d) k) := by
    rw [← List.isSome_find?]
    cases d.operations.find? (l.tooDeep (Index.ofDocument d) k) <;> rfl
  unfold validate
  rw [Run.result_bind_of_ok hmeasure,
    EitherLimit.result_settle (.depth l) d _ (by rwa [EitherLimit.shared_depth, hnonempty]),
    EitherLimit.shared_depth, if_pos hp]

section Found

variable {l : DepthLimit} {index : Index} {k : Nat} {o : Operation} {os : List Operation}

theorem find?_tooDeep_eq_none :
    os.find? (l.tooDeep index k) = none ↔
      ∀ o ∈ os, l.skips index o = false → ofOperation index l.flattenFragments.holds o ≤ k := by
  rw [List.find?_eq_none]
  constructor
  · intro h o ho
    exact tooDeep_eq_false.1 (by simpa using h o ho)
  · intro h o ho
    rw [tooDeep_eq_false.2 (h o ho)]
    decide

/-- The first operation that is too deep is found, whatever follows it. -/
theorem find?_tooDeep {before : List Operation} (after : List Operation)
    (hbefore : ∀ b ∈ before, l.tooDeep index k b = false) (ho : l.tooDeep index k o = true) :
    (before ++ o :: after).find? (l.tooDeep index k) = some o := by
  rw [List.find?_eq_some_iff_append]
  exact ⟨ho, before, after, rfl, fun b hb => by simp [hbefore b hb]⟩

theorem any_tooDeep (h : os.find? (l.tooDeep index k) = some o) :
    os.any (l.tooDeep index k) = true := by
  rw [← List.isSome_find?, h]
  rfl

end Found

/-- A limit that passes its violations on accepts a document exactly when no operation it looks at
is too deep. Otherwise there is one violation, for the first such operation, at its first top-level
selection of the operation's depth; the operations that follow make no difference. -/
theorem validate_first_too_deep (l : DepthLimit) (d : Document) (k : Nat) (hn : l.n = some k)
    (hp : l.propagate.holds = true)
    (hq : ∀ h ∈ l.hooksFor (d.operations.any (l.tooDeep (Index.ofDocument d) k)),
      h.failure = none) :
    ((l.validate d).result = .ok [] ↔
      ∀ o ∈ d.operations, l.skips (Index.ofDocument d) o = false →
        ofOperation (Index.ofDocument d) l.flattenFragments.holds o ≤ k) ∧
    ∀ before o after, d.operations = before ++ o :: after →
      (∀ b ∈ before, l.tooDeep (Index.ofDocument d) k b = false) →
      l.tooDeep (Index.ofDocument d) k o = true →
      (∃ shallower sel others, o.selections = shallower ++ sel :: others ∧
        selectionDepth (Index.ofDocument d) (fragmentStep l.flattenFragments.holds) sel =
          ofOperation (Index.ofDocument d) l.flattenFragments.holds o ∧
        (∀ b ∈ shallower,
          selectionDepth (Index.ofDocument d) (fragmentStep l.flattenFragments.holds) b <
            ofOperation (Index.ofDocument d) l.flattenFragments.holds o) ∧
        sel.node ≠ o.node ∧
        (l.validate d).result = .ok [Violation.ofLimit .depth (.int k)
          (.int (ofOperation (Index.ofDocument d) l.flattenFragments.holds o)) l.hiddenMessage
          [sel.node]]) ∧
      ∀ (d' : Document) (after' : List Operation), d'.fragments = d.fragments →
        d'.operations = before ++ o :: after' → (l.validate d').result = (l.validate d).result := by
  have hresult := validate_result d hn hp hq
  constructor
  · rw [hresult, ← find?_tooDeep_eq_none]
    cases d.operations.find? (l.tooDeep (Index.ofDocument d) k) <;> simp
  · intro before o after hops hbefore ho
    have hfind := find?_tooDeep after hbefore ho
    rw [← hops] at hfind
    constructor
    · obtain ⟨hskip, hdeep⟩ : l.skips (Index.ofDocument d) o = false ∧
          k < ofOperation (Index.ofDocument d) l.flattenFragments.holds o := by
        simpa [tooDeep] using ho
      obtain ⟨shallower, sel, others, hsels, hdepth, hshallower, hculprit⟩ :=
        exists_culprit (Index.ofDocument d) l.flattenFragments.holds o (by omega)
      refine ⟨shallower, sel, others, hsels, hdepth, hshallower, ?_, ?_⟩
      · cases sel <;> simp [Selection.node, Operation.node]
      · rw [hresult, hfind, Option.map_some, tooDeepViolation, hculprit]
        rfl
    · intro d' after' hfragments hops'
      have hindex : Index.ofDocument d' = Index.ofDocument d := by
        unfold Index.ofDocument
        rw [hfragments]
      have hfind' := find?_tooDeep after' hbefore ho
      rw [← hops'] at hfind'
      have hany : d'.operations.any (l.tooDeep (Index.ofDocument d') k) =
          d.operations.any (l.tooDeep (Index.ofDocument d) k) := by
        rw [hindex, any_tooDeep hfind', any_tooDeep hfind]
      have hresult' := validate_result d' hn hp (by rwa [hany])
      rw [hresult', hresult, hindex, hfind', hfind]

/-- A limit of three that leaves out operations of introspection. -/
def atMostThree : DepthLimit := { unlimited with n := some 3, ignoreIntrospection := .bool true }

/-- A field without an alias and without a place. -/
def plain (name : String) (body : Option (List Selection)) : Selection :=
  .field ⟨none, name, none⟩ body

def schemaQuery : Operation :=
  ⟨.query, none, [plain "__schema" (some [plain "types" (some [plain "fields"
    (some [plain "name" none])])])], none⟩

def loopQuery : Operation :=
  ⟨.query, none, [plain "a" none, .spread ⟨"F", none⟩, .spread ⟨"F", none⟩], none⟩

/-- An operation of introspection, and two operations that share fragments on a cycle. -/
def looped : Document := ⟨[
  .operation schemaQuery,
  .operation loopQuery,
  .operation ⟨.query, none, [plain "a" (some [.spread ⟨"F", none⟩])], none⟩,
  .fragment ⟨"F", "T", some [plain "b" none, .spread ⟨"G", none⟩], none⟩,
  .fragment ⟨"G", "T", some [plain "c" none, .spread ⟨"F", none⟩], none⟩]⟩

theorem loopQuery_rejected :
    (atMostThree.validate looped).result =
      .ok [Violation.ofLimit .depth (.int 3) (.int 5) .null [.spread ⟨"F", none⟩]] := by
  have hdepth : ofOperation (Index.ofDocument looped) atMostThree.flattenFragments.holds
      loopQuery = 5 := by cbv
  have hschema : atMostThree.tooDeep (Index.ofDocument looped) 3 schemaQuery = false := by cbv
  have hloop : atMostThree.tooDeep (Index.ofDocument looped) 3 loopQuery = true := by cbv
  have h := (validate_first_too_deep atMostThree looped 3 rfl rfl
    (Limit.quiet_of_no_hooks rfl rfl _)).2 [schemaQuery] loopQuery _ rfl (by simp [hschema]) hloop
  obtain ⟨⟨shallower, sel, others, hsels, hsel, -, -, hresult⟩, -⟩ := h
  have hmem : sel ∈ loopQuery.selections := by simp [hsels]
  have hcases : sel = plain "a" none ∨ sel = .spread ⟨"F", none⟩ := by
    simpa [loopQuery] using hmem
  have hspread : sel = .spread ⟨"F", none⟩ := by
    rcases hcases with rfl | rfl
    · have hone : selectionDepth (Index.ofDocument looped)
          (fragmentStep atMostThree.flattenFragments.holds) (plain "a" none) = 1 := by cbv
      omega
    · rfl
  rw [hresult, hdepth, hspread]
  rfl

end DepthLimit
end QueryBounds
