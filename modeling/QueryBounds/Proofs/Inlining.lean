import QueryBounds.Proofs.AliasRejection
import QueryBounds.Proofs.Measuring
import QueryBounds.Proofs.RootFields

/-!
# Documents with their fragments written out

A document and the one that has every spread written out in its place are the same to all measures:
they have the same counted fields in the same order, so a count stops at the same one, and their
operations are equally deep and equally of introspection. The three walks thus agree on what a
spread stands for, shared, repeated, undefined and cyclic fragments included.
-/
namespace QueryBounds

open Fragment (Index)

/-! ## The written out document -/

def Operation.inlined (i : Index) (o : Operation) : Operation :=
  { o with selections := i.expand .empty o.selections }

/-- The document with the fragments written out in its operations and their definitions gone. -/
def Document.inlined (d : Document) : Document where
  definitions := d.definitions.filterMap fun
    | .operation o => some (.operation (o.inlined (Index.ofDocument d)))
    | .fragment _ => none
    | .other => some .other

namespace Document

theorem operations_inlined (d : Document) :
    d.inlined.operations = d.operations.map (·.inlined (Index.ofDocument d)) := by
  simp only [operations, inlined, List.filterMap_filterMap, List.map_filterMap]
  congr 1
  funext x
  cases x <;> rfl

theorem fragments_inlined (d : Document) : d.inlined.fragments = [] := by
  simp only [fragments, inlined, List.filterMap_filterMap, List.filterMap_eq_nil_iff]
  intro x _
  cases x <;> rfl

end Document

/-- An expansion spreads nothing. -/
theorem spreadNames_expand (i : Index) (p : Path) (sels : List Selection) :
    spreadNames (i.expand p sels) = [] := by
  induction p, sels using i.walk_induction with
  | nil p => simp only [Index.expand, spreadNames]
  | field p h body rest ihb ihr =>
    simp only [Index.expand, spreadNames, Index.getD_map_expand, ihb, ihr, List.append_nil]
  | inline p h body rest ihb ihr =>
    simp only [Index.expand, spreadNames, Index.getD_map_expand, ihb, ihr, List.append_nil]
  | refused p s rest he ih => simp only [Index.expand_spread, he, List.nil_append, ih]
  | undefined p inner s rest he hf ih => simp [Index.expand_spread, he, hf, spreadNames, ih]
  | defined p inner s f rest he hf ihf ihr =>
    simp [Index.expand_spread, he, hf, spreadNames, ihf, ihr]
  | unknown p rest ih => simp only [Index.expand, spreadNames, ih]

/-! ## The measures of the written out document -/

theorem Alias.documentOccurrences_inlined (allowed : List String) (d : Document) :
    documentOccurrences allowed d.inlined = documentOccurrences allowed d := by
  simp only [documentOccurrences, Document.operations_inlined, List.flatMap_map,
    Operation.inlined, occurrences_expand]

namespace Depth

theorem ofOperation_inlined (i j : Index) (flatten : Bool) (o : Operation) :
    ofOperation j flatten (o.inlined i) = ofOperation i flatten o := by
  simp only [ofOperation_eq_nesting, Operation.inlined, nesting_expand]

/-- The fields at the level of selections are those of the expansion. -/
theorem rootFieldNames_expand (i j : Index) (p q : Path) (sels : List Selection) :
    rootFieldNames j q (i.expand p sels) = rootFieldNames i p sels := by
  induction p, sels using i.walk_induction with
  | nil p => simp only [Index.expand, rootFieldNames]
  | field p h body rest _ ih => simp only [Index.expand, rootFieldNames, ih]
  | inline p h body rest ihb ihr =>
    simp only [Index.expand, rootFieldNames, Index.getD_map_expand, ihb, ihr]
  | refused p s rest he ih =>
    simp only [Index.expand_spread, rootFieldNames_spread, he, List.nil_append, ih]
  | undefined p inner s rest he hf ih =>
    simp [Index.expand_spread, rootFieldNames_spread, he, hf, rootFieldNames, ih]
  | defined p inner s f rest he hf ihf ihr =>
    simp [Index.expand_spread, rootFieldNames_spread, he, hf, rootFieldNames, ihf, ihr]
  | unknown p rest ih => simp only [Index.expand, rootFieldNames, ih]

theorem isIntrospection_inlined (i j : Index) (o : Operation) :
    isIntrospection j (o.inlined i) = isIntrospection i o := by
  simp only [isIntrospection, Operation.inlined, rootFieldNames_expand]

end Depth

/-- Writing the fragments of a document out, which leaves no definition and no spread of any, changes
no measure: a count comes to the same number and crosses its limit at the same field, and operation
by operation the depth, flattened or not, and the answer on introspection stay as they are. -/
theorem Document.inlined_measures_same (d : Document) :
    d.inlined.fragments = [] ∧
    (∀ o ∈ d.inlined.operations, spreadNames o.selections = []) ∧
    (∀ allowed limit,
      (Alias.count d.inlined allowed limit).count = (Alias.count d allowed limit).count ∧
      (Alias.count d.inlined allowed limit).exceededAt = (Alias.count d allowed limit).exceededAt) ∧
    (∀ flatten, d.inlined.operations.map (Depth.ofOperation (Index.ofDocument d.inlined) flatten) =
      d.operations.map (Depth.ofOperation (Index.ofDocument d) flatten)) ∧
    d.inlined.operations.map (Depth.isIntrospection (Index.ofDocument d.inlined)) =
      d.operations.map (Depth.isIntrospection (Index.ofDocument d)) := by
  refine ⟨d.fragments_inlined, ?_, fun allowed limit => ?_, fun flatten => ?_, ?_⟩
  · intro o ho
    rw [d.operations_inlined] at ho
    obtain ⟨plain, -, rfl⟩ := List.mem_map.1 ho
    exact spreadNames_expand _ _ _
  · have htally : (Alias.count d.inlined allowed limit).tally = (Alias.count d allowed limit).tally := by
      rw [Alias.count_tally, Alias.count_tally, Alias.documentOccurrences_inlined]
    exact ⟨congrArg Alias.Tally.count htally, congrArg Alias.Tally.exceededAt htally⟩
  · rw [d.operations_inlined, List.map_map]
    exact List.map_congr_left fun o _ => Depth.ofOperation_inlined _ _ flatten o
  · rw [d.operations_inlined, List.map_map]
    exact List.map_congr_left fun o _ => Depth.isIntrospection_inlined _ _ o

end QueryBounds
