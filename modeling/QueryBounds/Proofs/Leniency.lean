import QueryBounds.Proofs.CallOrder

/-!
# Limits that are no stricter

A limit is no stricter on a document than another when it differs from it in what it allows only,
and is exceeded by the document only if the other is. Whatever the other accepts it accepts then. The one
thing it can change for the worse is which hooks are called: a document that it accepts, and the other
would have rejected in silence, comes to the hooks for acceptance.
-/
namespace QueryBounds

theorem Limit.exceededBy_mono {l : Limit} {m n : Int} (h : m ≤ n) (hm : l.exceededBy m = true) :
    l.exceededBy n = true := by
  unfold exceededBy at hm ⊢
  cases hn : l.n with
  | none => simp [hn] at hm
  | some k =>
    simp only [hn, decide_eq_true_eq] at hm ⊢
    omega

/-- A limit that calls the same hooks as another and passes violations on as it does, and that the
document exceeds only if it exceeds the other. -/
structure EitherLimit.NoStricter (l' l : EitherLimit) (d : Document) : Prop where
  onAccept : l'.shared.onAccept = l.shared.onAccept
  onReject : l'.shared.onReject = l.shared.onReject
  propagate : l'.shared.propagate = l.shared.propagate
  exceeded : l'.Exceeded d → l.Exceeded d

namespace EitherLimit

variable {l l' : EitherLimit} {d : Document}

theorem violation?_eq_none (l : EitherLimit) (d : Document) :
    l.violation? d = none ↔ ¬ l.Exceeded d := by
  rw [← isSome_violation?]
  cases l.violation? d <;> simp

/-- A check that finds nothing returns nothing, unless a hook for acceptance raises a failure. -/
theorem ending_none_of_quiet (h : ∀ x ∈ l.shared.onAccept, x.failure = none) :
    l.ending none = .ok [] := by
  have hquiet : l.shared.onAccept.findSome? (·.failure) = none := by
    rw [List.findSome?_eq_none_iff]
    exact h
  unfold ending Limit.hooksFor
  simp [hquiet]

/-- A check that returns nothing has found nothing, or keeps what it has found to itself. -/
theorem ending_eq_nil {v : Option Violation} (h : l.ending v = .ok []) :
    v = none ∨ l.shared.propagate.holds = false := by
  cases v with
  | none => exact .inl rfl
  | some v =>
    unfold ending at h
    split at h
    · cases h
    · cases hp : l.shared.propagate.holds with
      | false => exact .inr rfl
      | true => simp [hp] at h

namespace NoStricter

theorem ending_eq (h : l'.NoStricter l d) (v : Option Violation) : l'.ending v = l.ending v := by
  unfold ending Limit.hooksFor
  rw [h.onAccept, h.onReject, h.propagate]

/-- What is accepted under the stricter limit is accepted, and the checks end alike. -/
theorem accepted (h : l'.NoStricter l d) (hd : ¬ l.Exceeded d) :
    ¬ l'.Exceeded d ∧ l'.ending (l'.violation? d) = l.ending (l.violation? d) := by
  have hd' : ¬ l'.Exceeded d := fun he => hd (h.exceeded he)
  refine ⟨hd', ?_⟩
  rw [(violation?_eq_none l d).2 hd, (violation?_eq_none l' d).2 hd', h.ending_eq]

/-- Where the stricter limit returns no violation there is none, as long as no hook for acceptance can
stop the check of a document that the stricter limit would have kept quiet about. -/
theorem returns_nothing (h : l'.NoStricter l d)
    (hq : l.shared.propagate.holds = true ∨ ∀ x ∈ l.shared.onAccept, x.failure = none)
    (hd : l.ending (l.violation? d) = .ok []) : l'.ending (l'.violation? d) = .ok [] := by
  by_cases he : l.Exceeded d
  · -- the stricter limit found a violation and kept it to itself
    obtain ⟨v, hv⟩ := Option.isSome_iff_exists.1 ((isSome_violation? l d).2 he)
    rw [hv] at hd
    have hsilent : l.shared.propagate.holds = false :=
      (ending_eq_nil hd).resolve_left (Option.some_ne_none v)
    have hquiet : ∀ x ∈ l.shared.onAccept, x.failure = none :=
      hq.resolve_left (by rw [hsilent]; decide)
    rw [h.ending_eq]
    cases hv' : l'.violation? d with
    | none => exact ending_none_of_quiet hquiet
    | some w =>
      unfold ending at hd ⊢
      simp only [Option.isSome_some, hsilent, Bool.false_eq_true, if_false] at hd ⊢
      exact hd
  · rw [(h.accepted he).2]
    exact hd

end NoStricter
end EitherLimit
end QueryBounds
