import QueryBounds.Limit.Options
import QueryBounds.Proofs.Counting
import QueryBounds.Proofs.Settling

/-!
# What an alias limit rejects

A document violates an alias limit exactly when it has more counted fields than the limit allows,
every fragment expanded at each of its spreads. The violation names the field at which the limit is
crossed and one alias more than the limit, however many a fragment adds at once.
-/
namespace QueryBounds

open Fragment (Index)

namespace Alias

/-- A count adds the counted fields of the document one by one. -/
theorem count_tally (d : Document) (allowed : List String) (limit : Option Int) :
    (count d allowed limit).tally =
      (Tally.start.addAll limit (documentOccurrences allowed d)).2 := by
  have h := (Counter.countOperations_spec (c := ⟨Index.ofDocument d, allowed, limit⟩) d.operations
    (s := .start) Counter.soundMemo_start).2
  rw [Counter.plainOperations_eq_addAll] at h
  exact h

/-- Without a limit all counted fields are counted. -/
theorem count_unlimited (d : Document) (allowed : List String) :
    (count d allowed none).count = (documentOccurrences allowed d).length := by
  have h := count_tally d allowed none
  rw [Tally.addAll_within rfl] at h
  exact (congrArg Tally.count h).trans (Nat.zero_add _)

theorem count_within {d : Document} {allowed : List String} {k : Nat}
    (h : (documentOccurrences allowed d).length ≤ k) :
    (count d allowed (some (k : Int))).exceededAt = none := by
  have hx : exceeds (some (k : Int)) (Tally.start.count + (documentOccurrences allowed d).length)
      = false := by
    refine decide_eq_false ?_
    simp only [Tally.start]
    omega
  have ht := count_tally d allowed (some (k : Int))
  rw [Tally.addAll_within hx] at ht
  exact congrArg Tally.exceededAt ht

theorem count_beyond {d : Document} {allowed : List String} {k : Nat}
    (h : k < (documentOccurrences allowed d).length) :
    (count d allowed (some (k : Int))).count = k + 1 ∧
      (count d allowed (some (k : Int))).exceededAt = some (documentOccurrences allowed d)[k] := by
  have ht := count_tally d allowed (some (k : Int))
  rw [Tally.addAll_beyond (Nat.zero_le k) (by simpa [Tally.start] using h)] at ht
  refine ⟨congrArg Tally.count ht, ?_⟩
  have hat := congrArg Tally.exceededAt ht
  rw [show k - Tally.start.count = k from rfl, List.getElem?_eq_getElem h] at hat
  exact hat

end Alias

namespace AliasLimit

open Alias (documentOccurrences)

/-- The violation of a document with more counted fields than the limit allows. -/
def crossing (l : AliasLimit) (k : Nat) (f : Field) : Violation :=
  Violation.ofLimit .aliases (.int k) (.int (k + 1 : Nat)) l.hiddenMessage [.field f]

theorem measure_result {l : AliasLimit} {k : Nat} (d : Document) (hn : l.n = some k) :
    (l.measure d).result = .ok
      (if h : k < (documentOccurrences l.allowed d).length then
        [l.crossing k (documentOccurrences l.allowed d)[k]]
      else []) := by
  unfold measure
  simp only [hn]
  rw [Run.result_bind_of_ok (Run.result_log _), Run.result_pure]
  congr 1
  split
  · next h =>
    obtain ⟨hcount, hat⟩ := Alias.count_beyond h
    simp [violation?, crossing, hcount, hat]
  · next h =>
    simp [violation?, Alias.count_within (Nat.le_of_not_lt h)]

theorem validate_result {l : AliasLimit} {k : Nat} (d : Document) (hn : l.n = some k)
    (hp : l.propagate.holds = true)
    (hq : ∀ h ∈ l.hooksFor (decide (k < (documentOccurrences l.allowed d).length)),
      h.failure = none) :
    (l.validate d).result = .ok
      (if h : k < (documentOccurrences l.allowed d).length then
        [l.crossing k (documentOccurrences l.allowed d)[k]]
      else []) := by
  unfold validate
  rw [Run.result_bind_of_ok (measure_result d hn)]
  by_cases h : k < (documentOccurrences l.allowed d).length
  · simp only [dif_pos h]
    rw [EitherLimit.result_settle (.aliases l) d _ (by simpa [h] using hq),
      EitherLimit.shared_aliases, if_pos hp]
  · simp only [dif_neg h]
    rw [EitherLimit.result_settle (.aliases l) d _ (by simpa [h] using hq),
      EitherLimit.shared_aliases, if_pos hp]

/-- A limit that passes its violations on rejects a document exactly when more fields count than it
allows, with one violation at the field that crosses it. -/
theorem validate_at_crossing (l : AliasLimit) (d : Document) (k : Nat) (hn : l.n = some k)
    (hp : l.propagate.holds = true)
    (hq : ∀ h ∈ l.hooksFor (decide (k < (documentOccurrences l.allowed d).length)),
      h.failure = none) :
    (l.validate d).result = .ok
        (if h : k < (documentOccurrences l.allowed d).length then
          [Violation.ofLimit .aliases (.int k) (.int (k + 1 : Nat)) l.hiddenMessage
            [.field (documentOccurrences l.allowed d)[k]]]
        else []) ∧
      ((∃ v vs, (l.validate d).result = .ok (v :: vs)) ↔
        l.exceededBy (Alias.count d l.allowed none).count = true) := by
  have hresult := validate_result d hn hp hq
  refine ⟨hresult, ?_⟩
  rw [hresult, Alias.count_unlimited]
  simp only [Limit.exceededBy, hn, decide_eq_true_eq]
  by_cases h : k < (documentOccurrences l.allowed d).length
  · simp only [dif_pos h]
    constructor
    · intro _
      omega
    · intro _
      exact ⟨_, _, rfl⟩
  · simp only [dif_neg h]
    constructor
    · rintro ⟨v, vs, hv⟩
      cases hv
    · intro hlt
      omega

/-- A field under an alias, without a place. -/
def aliased (name : String) : Field := ⟨some name, "x", none⟩

/-- Two fragments that spread each other, the first of them spread twice beside an alias. -/
def looped : Document := ⟨[
  .operation ⟨.query, none,
    [.field (aliased "a") none, .spread ⟨"F", none⟩, .spread ⟨"F", none⟩], none⟩,
  .fragment ⟨"F", "T", some [.field (aliased "b") none, .spread ⟨"G", none⟩], none⟩,
  .fragment ⟨"G", "T", some [.field (aliased "c") none, .spread ⟨"F", none⟩], none⟩]⟩

theorem looped_rejected_at_c :
    ({ unlimited with n := some 2 }.validate looped).result =
      .ok [Violation.ofLimit .aliases (.int 2) (.int 3) .null [.field (aliased "c")]] := by
  have hoccurrences : documentOccurrences unlimited.allowed looped =
      ["a", "b", "c", "b", "c"].map aliased := by cbv
  have h := (validate_at_crossing { unlimited with n := some 2 } looped 2 rfl rfl
    (Limit.quiet_of_no_hooks rfl rfl _)).1
  simp only [hoccurrences] at h
  exact h

end AliasLimit
end QueryBounds
