import QueryBounds.Proofs.Edits
import QueryBounds.Proofs.Leniency

/-!
# Documents that grow

Selections put in anywhere and definitions put behind the others make a document measure no less:
what it counts stays counted, its operations stay as deep, and what a limit rejects it rejects still.
An added spread may close a cycle and an added definition may fill a name that was missing, but the
first definition of a name stays the first one.
-/
namespace QueryBounds

open Fragment (Index)

/-- A document that has grown into another: selections were put in anywhere in its operations and
fragments, and definitions of any kind behind its own. -/
def Document.Grows (d d' : Document) : Prop :=
  ∃ kept added : Document,
    List.Forall₂ (Definition.Edited List.Sublist) d.definitions kept.definitions ∧
      d'.definitions = kept.definitions ++ added.definitions

namespace Document

variable {d d' : Document}

theorem operations_of_append {kept added : Document}
    (h : d.definitions = kept.definitions ++ added.definitions) :
    d.operations = kept.operations ++ added.operations := by
  unfold operations
  rw [h, List.filterMap_append]

theorem fragments_of_append {kept added : Document}
    (h : d.definitions = kept.definitions ++ added.definitions) :
    d.fragments = kept.fragments ++ added.fragments := by
  unfold fragments
  rw [h, List.filterMap_append]

namespace Grows

/-- A definition that is added is never the first of a name that had one. -/
theorem index_within (h : d.Grows d') : (Index.ofDocument d).Within (Index.ofDocument d') := by
  obtain ⟨kept, added, hedited, hdefinitions⟩ := h
  intro name f hf
  rw [Index.find?_ofDocument] at hf
  obtain ⟨g, hg, hfg⟩ := find?_edited hedited hf
  refine ⟨g, ?_, hfg.selections.within_of_sublist⟩
  rw [Index.find?_ofDocument, fragments_of_append hdefinitions, List.find?_append, hg, Option.some_or]

/-- The operations of a document are the first ones of what it grows into, and as deep or deeper. -/
theorem operations (h : d.Grows d') : ∃ kept added,
    d'.operations = kept ++ added ∧
      List.Forall₂ (fun o o' => o.Edited List.Sublist o' ∧ ∀ flatten,
        Depth.ofOperation (Index.ofDocument d) flatten o ≤
          Depth.ofOperation (Index.ofDocument d') flatten o') d.operations kept := by
  have hindex := h.index_within
  obtain ⟨kept, added, hedited, hdefinitions⟩ := h
  refine ⟨kept.operations, added.operations, operations_of_append hdefinitions, ?_⟩
  refine (operations_edited hedited).imp fun o o' ho => ⟨ho, fun flatten => ?_⟩
  exact Depth.ofOperation_le hindex flatten ho.selections.within_of_sublist

theorem count_le (h : d.Grows d') (allowed : List String) :
    (Alias.count d allowed none).count ≤ (Alias.count d' allowed none).count := by
  have hindex := h.index_within
  obtain ⟨kept, added, hoperations, hkept⟩ := h.operations
  rw [Alias.count_unlimited, Alias.count_unlimited, Alias.documentOccurrences,
    Alias.documentOccurrences, hoperations, List.flatMap_append]
  have hfields := Alias.subperm_operations hindex allowed
    (hkept.imp fun o o' ho => ho.1.selections.within_of_sublist)
  exact Nat.le_trans hfields.length_le (by rw [List.length_append]; exact Nat.le_add_right _ _)

end Grows
end Document

/-! ## Rejections -/

/-- Whether a limit looks at every operation of a document. -/
def EitherLimit.LeavesNothingOut : EitherLimit → Prop
  | .aliases _ => True
  | .depth l => l.ignoreIntrospection.holds = false

namespace Document.Grows

variable {d d' : Document}

theorem exceeded (h : d.Grows d') {l : EitherLimit} (hl : l.LeavesNothingOut) (hd : l.Exceeded d) :
    l.Exceeded d' := by
  cases l with
  | aliases l => exact Limit.exceededBy_mono (Int.ofNat_le.2 (h.count_le l.allowed)) hd
  | depth l =>
    obtain ⟨o, ho, -, hdeep⟩ := hd
    obtain ⟨kept, added, hoperations, hkept⟩ := h.operations
    obtain ⟨o', ho', -, hdepth⟩ := exists_of_forall₂ hkept ho
    refine ⟨o', by rw [hoperations]; exact List.mem_append_left _ ho', ?_, ?_⟩
    · have hlooks : l.ignoreIntrospection.holds = false := hl
      simp [DepthLimit.skips, hlooks]
    · exact Limit.exceededBy_mono (Int.ofNat_le.2 (hdepth l.flattenFragments.holds)) hdeep

/-- What ends a check with a violation ends it with one on what the document grows into. -/
theorem ending (h : d.Grows d') {l : EitherLimit} (hl : l.LeavesNothingOut) {v : Violation}
    {vs : List Violation} (hd : l.ending (l.violation? d) = .ok (v :: vs)) :
    ∃ w, l.ending (l.violation? d') = .ok [w] := by
  have hsome := (EitherLimit.ending_of_some hd v).1
  have hexceeded := h.exceeded hl ((l.isSome_violation? d).1 hsome)
  obtain ⟨w, hw⟩ := Option.isSome_iff_exists.1 ((l.isSome_violation? d').2 hexceeded)
  exact ⟨w, by rw [hw]; exact (EitherLimit.ending_of_some hd w).2⟩

/-- A document that grows measures no less: no fewer aliases are counted, and each operation that was
there, still in its place, is as deep as it was or deeper. So what exceeds a limit that leaves no
operation out exceeds it still, and is rejected where it was. -/
theorem measures_no_less (h : d.Grows d') :
    (∀ allowed, (Alias.count d allowed none).count ≤ (Alias.count d' allowed none).count) ∧
    (∃ kept added, d'.operations = kept ++ added ∧
      List.Forall₂ (fun o o' => o.Edited List.Sublist o' ∧ ∀ flatten,
        Depth.ofOperation (Index.ofDocument d) flatten o ≤
          Depth.ofOperation (Index.ofDocument d') flatten o') d.operations kept) ∧
    (∀ l : EitherLimit, l.LeavesNothingOut → l.Exceeded d → l.Exceeded d') ∧
    (∀ (l : AliasLimit) v vs, (l.validate d).result = .ok (v :: vs) →
      ∃ w, (l.validate d').result = .ok [w]) ∧
    ∀ l : DepthLimit, l.ignoreIntrospection.holds = false →
      ∀ v vs, (l.validate d).result = .ok (v :: vs) → ∃ w, (l.validate d').result = .ok [w] := by
  refine ⟨h.count_le, h.operations, fun l => h.exceeded, fun l v vs hd => ?_, fun l hl v vs hd => ?_⟩
  · rw [l.result_validate] at hd ⊢
    exact h.ending trivial hd
  · rw [l.result_validate] at hd ⊢
    exact h.ending hl hd

open AliasLimit (aliased)

/-- A query that spreads two fragments, one of them missing. -/
def sparse : Document := ⟨[
  .operation ⟨.query, none, [.spread ⟨"F", none⟩, .spread ⟨"G", none⟩], none⟩,
  .fragment ⟨"F", "T", some [.field (aliased "a") none], none⟩]⟩

/-- The query with the missing fragment added and a cycle closed between the two. -/
def filled : Document := ⟨[
  .operation ⟨.query, none, [.spread ⟨"F", none⟩, .spread ⟨"G", none⟩], none⟩,
  .fragment ⟨"F", "T", some [.spread ⟨"G", none⟩, .field (aliased "a") none], none⟩,
  .fragment ⟨"G", "T", some [.spread ⟨"F", none⟩], none⟩]⟩

theorem sparse_grows : sparse.Grows filled := by
  refine ⟨⟨filled.definitions.take 2⟩, ⟨filled.definitions.drop 2⟩, ?_, rfl⟩
  refine .cons (.operation ⟨rfl, .refl _⟩) (.cons (.fragment ⟨rfl, .set ?_⟩) .nil)
  exact List.sublist_cons_self _ _

theorem filled_rejected_as_sparse :
    sparse.Grows filled ∧
      ∃ w, ({ AliasLimit.unlimited with n := some 0 }.validate filled).result = .ok [w] := by
  have hoccurrences : Alias.documentOccurrences AliasLimit.unlimited.allowed sparse =
      [aliased "a"] := by cbv
  have hsparse := AliasLimit.validate_result (l := { AliasLimit.unlimited with n := some 0 }) sparse
    rfl rfl (Limit.quiet_of_no_hooks rfl rfl _)
  simp only [hoccurrences] at hsparse
  exact ⟨sparse_grows, sparse_grows.measures_no_less.2.2.2.1 _ _ _ hsparse⟩

end Document.Grows
end QueryBounds
