import QueryBounds.Proofs.CallOrder
import QueryBounds.Proofs.Edits

/-!
# Documents in another order

The order of selections and of definitions decides which fragment a walk comes to first, and so what
is remembered and which spreads are skipped; it decides no measure and no limit. Reordering is an edit
whose reverse is one as well, and neither of the two loses anything. All that depends on the order is
which field crosses a limit and which operation is blamed.
-/
namespace QueryBounds

open Fragment (Index)

/-- A document in another order: the selections of any selection sets are permuted, and so are the
definitions, fragments of one name apart, which keep their order among each other. -/
def Document.Reordered (d d' : Document) : Prop :=
  ∃ inner : Document,
    List.Forall₂ (Definition.Edited List.Perm) d.definitions inner.definitions ∧
      inner.definitions.Perm d'.definitions ∧
      ∀ name, inner.fragments.filter (·.name == name) = d'.fragments.filter (·.name == name)

namespace Depth

theorem isIntrospection_congr {i j : Index} {o o' : Operation}
    (h : ∀ name, name ∈ rootFieldNames i .empty o.selections ↔
      name ∈ rootFieldNames j .empty o'.selections) :
    isIntrospection i o = isIntrospection j o' := by
  rw [Bool.eq_iff_iff, isIntrospection_iff_names, isIntrospection_iff_names]
  simp only [h]

/-- Two operations, each over its index, with the same depths and the same answer on introspection. -/
structure MeasureAlike (i j : Index) (o o' : Operation) : Prop where
  depth : ∀ flatten, ofOperation i flatten o = ofOperation j flatten o'
  introspection : isIntrospection i o = isIntrospection j o'

/-- A depth limit makes no difference between operations that measure alike. -/
theorem MeasureAlike.exceeds_iff {i j : Index} {o o' : Operation} (h : MeasureAlike i j o o')
    (l : DepthLimit) :
    (l.skips i o = false ∧ l.exceededBy (ofOperation i l.flattenFragments.holds o) = true) ↔
      (l.skips j o' = false ∧ l.exceededBy (ofOperation j l.flattenFragments.holds o') = true) := by
  rw [DepthLimit.skips, DepthLimit.skips, h.depth, h.introspection]

end Depth

namespace Document.Reordered

variable {d d' : Document}

/-- Either of the two indexes is within the other, since the first fragment of a name stays so. -/
theorem index_within (h : d.Reordered d') :
    (Index.ofDocument d).Within (Index.ofDocument d') ∧
      (Index.ofDocument d').Within (Index.ofDocument d) := by
  obtain ⟨inner, hedited, -, hnames⟩ := h
  have hfirst (name : String) : d'.fragments.find? (·.name == name) =
      inner.fragments.find? (·.name == name) := by
    rw [← List.head?_filter, ← List.head?_filter, hnames name]
  -- permutations can be undone set by set, so the other direction is another edit
  have hback : List.Forall₂ (Definition.Edited List.Perm) inner.definitions d.definitions :=
    (hedited.imp fun _ _ hx => hx.symm fun _ _ => List.Perm.symm).flip
  constructor
  · intro name f hf
    rw [Index.find?_ofDocument] at hf
    obtain ⟨g, hg, hfg⟩ := find?_edited hedited hf
    exact ⟨g, by rw [Index.find?_ofDocument, hfirst, hg], hfg.selections.within_of_perm⟩
  · intro name f hf
    rw [Index.find?_ofDocument, hfirst] at hf
    obtain ⟨g, hg, hfg⟩ := find?_edited hback hf
    exact ⟨g, by rw [Index.find?_ofDocument, hg], hfg.selections.within_of_perm⟩

/-- An operation in another order keeps its depth and the answer on introspection. -/
theorem measureAlike (h : d.Reordered d') {o o' : Operation} (ho : o.Edited List.Perm o') :
    Depth.MeasureAlike (Index.ofDocument d) (Index.ofDocument d') o o' := by
  obtain ⟨hto, hback⟩ := h.index_within
  have hwithin := ho.selections.within_of_perm
  have hwithin' := (ho.selections.symm fun _ _ => List.Perm.symm).within_of_perm
  constructor
  · intro flatten
    exact Nat.le_antisymm (Depth.ofOperation_le hto flatten hwithin)
      (Depth.ofOperation_le hback flatten hwithin')
  · refine Depth.isIntrospection_congr fun name => ⟨fun hname => ?_, fun hname => ?_⟩
    · exact (Depth.subperm_rootFieldNames hto .empty hwithin).subset hname
    · exact (Depth.subperm_rootFieldNames hback .empty hwithin').subset hname

theorem operations (h : d.Reordered d') : ∃ os : List Operation, os.Perm d'.operations ∧
    List.Forall₂ (fun o o' => o.Edited List.Perm o' ∧
      Depth.MeasureAlike (Index.ofDocument d) (Index.ofDocument d') o o') d.operations os := by
  have hoperation {o o' : Operation} (ho : o.Edited List.Perm o') := h.measureAlike ho
  obtain ⟨inner, hedited, hperm, -⟩ := h
  refine ⟨inner.operations, hperm.filterMap _, ?_⟩
  exact (operations_edited hedited).imp fun o o' ho => ⟨ho, hoperation ho⟩

/-- The counted fields of the two documents are the same, each as often. -/
theorem perm_occurrences (h : d.Reordered d') (allowed : List String) :
    (Alias.documentOccurrences allowed d).Perm (Alias.documentOccurrences allowed d') := by
  obtain ⟨hto, hback⟩ := h.index_within
  obtain ⟨os, hperm, hos⟩ := h.operations
  have hforth := hos.imp fun o o' ho => ho.1.selections.within_of_perm
  have hreverse := (hos.imp fun o o' ho =>
    (ho.1.selections.symm fun _ _ => List.Perm.symm).within_of_perm).flip
  have hsame := (Alias.subperm_operations hto allowed hforth).antisymm
    (Alias.subperm_operations hback allowed hreverse)
  exact hsame.trans (hperm.flatMap_right _)

theorem count_eq (h : d.Reordered d') (allowed : List String) :
    (Alias.count d allowed none).count = (Alias.count d' allowed none).count := by
  rw [Alias.count_unlimited, Alias.count_unlimited, (h.perm_occurrences allowed).length_eq]

theorem exceeded_iff (h : d.Reordered d') (l : EitherLimit) : l.Exceeded d ↔ l.Exceeded d' := by
  cases l with
  | aliases l =>
    change l.exceededBy (Alias.count d l.allowed none).count = true ↔
      l.exceededBy (Alias.count d' l.allowed none).count = true
    rw [h.count_eq]
  | depth l =>
    obtain ⟨os, hperm, hos⟩ := h.operations
    have hback := (hos.imp fun _ _ => id).flip
    constructor
    · rintro ⟨o, ho, hdeep⟩
      obtain ⟨o', ho', -, halike⟩ := exists_of_forall₂ hos ho
      exact ⟨o', hperm.subset ho', (halike.exceeds_iff l).1 hdeep⟩
    · rintro ⟨o', ho', hdeep⟩
      obtain ⟨o, ho, -, halike⟩ := exists_of_forall₂ hback (hperm.symm.subset ho')
      exact ⟨o, ho, (halike.exceeds_iff l).2 hdeep⟩

/-- The violations of an alias limit, if there are any, tell the same number found. -/
theorem found_eq (h : d.Reordered d') (l : AliasLimit) :
    ((EitherLimit.aliases l).violation? d).map (·.found) =
      ((EitherLimit.aliases l).violation? d').map (·.found) := by
  rw [EitherLimit.violation?, EitherLimit.violation?]
  cases l.n with
  | none => rfl
  | some k =>
    have hlength := (h.perm_occurrences l.allowed).length_eq
    have hfound (f : Field) : (l.crossing k f).found = .int (k + 1 : Nat) := rfl
    simp only [Option.bind_some, Option.map_map, Function.comp_def, hfound]
    by_cases hk : k < (Alias.documentOccurrences l.allowed d).length
    · have hk' := hlength ▸ hk
      rw [List.getElem?_eq_getElem hk, List.getElem?_eq_getElem hk']
      rfl
    · have hk' := hlength ▸ hk
      rw [List.getElem?_eq_none (Nat.le_of_not_lt hk), List.getElem?_eq_none (Nat.le_of_not_lt hk')]

/-- A document in another order measures the same: the count of aliases without a limit, and the depth
of each operation and whether it is one of introspection. A limit is exceeded by both or by neither,
and a check of either ends alike, with the same number found where aliases are limited. -/
theorem measures_same (h : d.Reordered d') :
    (∀ allowed, (Alias.count d allowed none).count = (Alias.count d' allowed none).count) ∧
    (∃ os : List Operation, os.Perm d'.operations ∧
      List.Forall₂ (fun o o' => o.Edited List.Perm o' ∧
        Depth.MeasureAlike (Index.ofDocument d) (Index.ofDocument d') o o') d.operations os) ∧
    (∀ l : EitherLimit, l.Exceeded d ↔ l.Exceeded d') ∧
    (∀ l : AliasLimit, (l.validate d).result.map (List.map (·.found)) =
      (l.validate d').result.map (List.map (·.found))) ∧
    ∀ l : DepthLimit, (l.validate d).result.map List.isEmpty =
      (l.validate d').result.map List.isEmpty := by
  refine ⟨h.count_eq, h.operations, h.exceeded_iff, fun l => ?_, fun l => ?_⟩
  · rw [l.result_validate, l.result_validate]
    exact EitherLimit.ending_map _ _ (h.found_eq l)
  · rw [l.result_validate, l.result_validate]
    refine EitherLimit.ending_isEmpty _ ?_
    rw [Bool.eq_iff_iff, EitherLimit.isSome_violation?, EitherLimit.isSome_violation?]
    exact h.exceeded_iff _

open AliasLimit (aliased)

/-- Two fragments that lead to each other, and a query that comes to the first of them first. -/
def forth : Document := ⟨[
  .operation ⟨.query, none, [.spread ⟨"F", none⟩, .spread ⟨"G", none⟩], none⟩,
  .fragment ⟨"F", "T", some [.field (aliased "a") none, .spread ⟨"G", none⟩], none⟩,
  .fragment ⟨"G", "T", some [.spread ⟨"F", none⟩, .field (aliased "b") none], none⟩]⟩

/-- The same backwards. -/
def back : Document := ⟨[
  .fragment ⟨"G", "T", some [.field (aliased "b") none, .spread ⟨"F", none⟩], none⟩,
  .fragment ⟨"F", "T", some [.spread ⟨"G", none⟩, .field (aliased "a") none], none⟩,
  .operation ⟨.query, none, [.spread ⟨"G", none⟩, .spread ⟨"F", none⟩], none⟩]⟩

theorem forth_reordered : forth.Reordered back := by
  refine ⟨⟨back.definitions.reverse⟩, ?_, List.reverse_perm _, fun name => ?_⟩
  · refine .cons (.operation ⟨rfl, .set ?_⟩) (.cons (.fragment ⟨rfl, .set ?_⟩)
      (.cons (.fragment ⟨rfl, .set ?_⟩) .nil)) <;> exact List.Perm.swap _ _ _
  · by_cases hF : "F" = name
    · subst hF
      rfl
    · by_cases hG : "G" = name
      · subst hG
        rfl
      · simp [back, Document.fragments, hF, hG]

theorem back_rejected_as_forth :
    forth.Reordered back ∧
      ({ AliasLimit.unlimited with n := some 3 }.validate back).result.map
        (List.map Violation.found) = .ok [.int 4] := by
  have hoccurrences : Alias.documentOccurrences AliasLimit.unlimited.allowed forth =
      ["a", "b", "a", "b"].map aliased := by cbv
  have hforth := AliasLimit.validate_result (l := { AliasLimit.unlimited with n := some 3 }) forth
    rfl rfl (Limit.quiet_of_no_hooks rfl rfl _)
  simp only [hoccurrences] at hforth
  refine ⟨forth_reordered, ?_⟩
  rw [← forth_reordered.measures_same.2.2.2.1, hforth]
  rfl

end Document.Reordered
end QueryBounds
