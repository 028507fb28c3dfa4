import QueryBounds.Limit.Validate

/-!
# How a check ends

A check fails only through a hook that it calls: those for acceptance when there is no violation,
those for rejection when there is one. When none of these raises a failure, the check ends with its
violations, or with nothing when the limit keeps them to itself.
-/
namespace QueryBounds

/-- What succeeds has succeeded in its first part. -/
theorem exists_of_bind_eq_ok {ε α β : Type} {x : Except ε α} {next : α → Except ε β} {b : β}
    (h : (x >>= next) = .ok b) : ∃ a, x = .ok a ∧ next a = .ok b := by
  cases x with
  | error f => cases h
  | ok a => exact ⟨a, rfl, h⟩

namespace Run

variable {α β : Type}

theorem result_bind (r : Run α) (k : α → Run β) :
    (r >>= k).result = r.result >>= fun a => (k a).result := by
  change (r.andThen k).result = _
  unfold andThen
  cases r.result <;> rfl

@[simp] theorem result_pure (a : α) : (pure a : Run α).result = .ok a := rfl

@[simp] theorem result_log (entry : LogEntry) : (log entry).result = .ok () := rfl

/-- What follows a run that did not fail ends as it does on its own. -/
theorem result_bind_of_ok {r : Run α} {a : α} (h : r.result = .ok a) (k : α → Run β) :
    (r >>= k).result = (k a).result := by
  rw [result_bind, h]
  rfl

/-- What only turns the value of a run into another shows nothing of its own. -/
theorem bind_pure_eq (r : Run α) (f : α → β) :
    (r >>= fun a => pure (f a)) = ⟨r.events, r.result.map f⟩ := by
  change r.andThen (fun a => done (f a)) = _
  unfold andThen
  cases r.result with
  | error e => rfl
  | ok a =>
    change (⟨r.events ++ [], .ok (f a)⟩ : Run β) = ⟨r.events, .ok (f a)⟩
    rw [List.append_nil]

theorem result_callAll {cs : List Call} (h : ∀ c ∈ cs, c.hook.failure = none) :
    (callAll cs).result = .ok () := by
  induction cs with
  | nil => rfl
  | cons c cs ih =>
    have hc : (call c).result = .ok () := by simp [call, Call.failure?, h c (by simp)]
    exact (result_bind_of_ok hc _).trans (ih fun x hx => h x (by simp [hx]))

end Run

namespace Limit

/-- The hooks that a check calls in the end. -/
def hooksFor (l : Limit) (exceeded : Bool) : List Hook := if exceeded then l.onReject else l.onAccept

/-- A limit without hooks calls none that could fail. -/
theorem quiet_of_no_hooks {l : Limit} (ha : l.onAccept = []) (hr : l.onReject = [])
    (exceeded : Bool) : ∀ h ∈ l.hooksFor exceeded, h.failure = none := by
  intro h hh
  have hnone : l.hooksFor exceeded = [] := by cases exceeded <;> assumption
  rw [hnone] at hh
  cases hh

end Limit

namespace EitherLimit

theorem result_callsOf (l : EitherLimit) (subject : Subject) {hs : List Hook}
    (h : ∀ x ∈ hs, x.failure = none) : (Run.callAll (l.callsOf hs subject)).result = .ok () := by
  refine Run.result_callAll fun c hc => ?_
  obtain ⟨x, hx, rfl⟩ := List.mem_map.1 hc
  exact h x hx

theorem result_reject (l : EitherLimit) (vs : List Violation)
    (h : ∀ x ∈ l.shared.onReject, x.failure = none) : (l.reject vs).result = .ok () := by
  induction vs with
  | nil => rfl
  | cons v vs ih =>
    rw [reject, Run.result_bind_of_ok (Run.result_log _),
      Run.result_bind_of_ok (result_callsOf l _ h), ih]

theorem result_settle (l : EitherLimit) (d : Document) (vs : List Violation)
    (h : ∀ x ∈ l.shared.hooksFor (!vs.isEmpty), x.failure = none) :
    (l.settle d vs).result = .ok (if l.shared.propagate.holds then vs else []) := by
  unfold settle
  cases vs with
  | nil =>
    have haccept : ∀ x ∈ l.shared.onAccept, x.failure = none := h
    simp only [List.isEmpty_nil, if_true]
    rw [Run.result_bind_of_ok (result_callsOf l _ haccept)]
    simp
  | cons v vs =>
    have hreject : ∀ x ∈ l.shared.onReject, x.failure = none := h
    simp only [List.isEmpty_cons, Bool.false_eq_true, if_false]
    rw [Run.result_bind_of_ok (result_reject l _ hreject)]
    by_cases hp : l.shared.propagate.holds = true
    · simp only [hp, if_true, Run.result_pure]
    · simp only [hp, Bool.false_eq_true, if_false]
      rw [Run.result_bind_of_ok (Run.result_log _), Run.result_pure]

end EitherLimit
end QueryBounds
