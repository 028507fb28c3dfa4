import QueryBounds.Proofs.AliasRejection
import QueryBounds.Proofs.DepthRejection

/-!
# The calls of a check

Which calls a limit has to make on a document is settled before the first of them is made: those for
acceptance, about the document, when the limit is not exceeded, and those for rejection, about the
one violation, when it is. They are made in order up to the first that raises a failure, and that
failure ends the check. How a limit words its violations has no part in this.
-/
namespace QueryBounds

open Fragment (Index)

/-! ## Calls that are due and calls that are made -/

namespace Call

/-- The failure of the first call that raises one. -/
def firstFailure? (cs : List Call) : Option Failure := cs.findSome? failure?

/-- The calls that are made of those that are due: all up to the first that raises a failure, which
is the last to be made. -/
def made : List Call → List Call
  | [] => []
  | c :: cs =>
    match c.failure? with
    | none => c :: made cs
    | some _ => [c]

variable {c : Call} {cs : List Call}

theorem made_cons_of_quiet (h : c.failure? = none) : made (c :: cs) = c :: made cs := by
  simp [made, h]

theorem made_cons_of_raised {f : Failure} (h : c.failure? = some f) : made (c :: cs) = [c] := by
  simp [made, h]

/-- Calls that raise nothing are all made. -/
theorem made_eq_self (h : firstFailure? cs = none) : made cs = cs := by
  induction cs with
  | nil => rfl
  | cons c cs ih =>
    obtain ⟨hc, hcs⟩ : c.failure? = none ∧ firstFailure? cs = none := by
      simpa [firstFailure?] using h
    rw [made_cons_of_quiet hc, ih hcs]

theorem firstFailure?_append (xs ys : List Call) :
    firstFailure? (xs ++ ys) = (firstFailure? xs).or (firstFailure? ys) := by
  simp [firstFailure?, List.findSome?_append]

theorem made_append_of_quiet {xs : List Call} (h : firstFailure? xs = none) (ys : List Call) :
    made (xs ++ ys) = xs ++ made ys := by
  induction xs with
  | nil => rfl
  | cons c xs ih =>
    obtain ⟨hc, hxs⟩ : c.failure? = none ∧ firstFailure? xs = none := by
      simpa [firstFailure?] using h
    rw [List.cons_append, made_cons_of_quiet hc, ih hxs, List.cons_append]

/-- No call is made after one that raises a failure. -/
theorem made_append_of_raised {xs : List Call} {f : Failure} (h : firstFailure? xs = some f)
    (ys : List Call) : made (xs ++ ys) = made xs := by
  induction xs with
  | nil => cases h
  | cons c xs ih =>
    cases hc : c.failure? with
    | some g => rw [List.cons_append, made_cons_of_raised hc, made_cons_of_raised hc]
    | none =>
      have hxs : firstFailure? xs = some f := by simpa [firstFailure?, hc] using h
      rw [List.cons_append, made_cons_of_quiet hc, made_cons_of_quiet hc, ih hxs]

end Call

namespace Run

variable {α β : Type} {r : Run α} {k : α → Run β} {a : α} {b : β} {cs ds : List Call}

/-- The calls among the events of a run. -/
def calls (r : Run α) : List Call :=
  r.events.filterMap fun
    | .call c => some c
    | .log _ => none

theorem calls_bind_of_ok (h : r.result = .ok a) : (r >>= k).calls = r.calls ++ (k a).calls := by
  change (r.andThen k).calls = _
  simp [andThen, h, calls, List.filterMap_append]

theorem calls_bind_of_error {f : Failure} (h : r.result = .error f) :
    (r >>= k).calls = r.calls := by
  change (r.andThen k).calls = _
  simp [andThen, h, calls]

/-- How a run ends that has calls to make: with a value, or with the failure of the first call that
raises one. -/
def endOf (due : List Call) (a : α) : Except Failure α :=
  match Call.firstFailure? due with
  | none => .ok a
  | some f => .error f

/-- A run that makes the calls that are due, up to the first that raises a failure, and ends with a
value unless one does. -/
structure Makes (r : Run α) (due : List Call) (a : α) : Prop where
  calls : r.calls = Call.made due
  result : r.result = endOf due a

theorem makes_nothing (hc : r.calls = []) (hr : r.result = .ok a) : Makes r [] a := ⟨hc, hr⟩

theorem makes_pure (a : α) : Makes (pure a : Run α) [] a := makes_nothing rfl rfl

theorem makes_log (entry : LogEntry) : Makes (log entry) [] () := makes_nothing rfl rfl

/-- What follows a run makes its calls only if the run did not fail. -/
theorem Makes.bind (h : Makes r cs a) (hk : Makes (k a) ds b) : Makes (r >>= k) (cs ++ ds) b := by
  cases hf : Call.firstFailure? cs with
  | none =>
    have hr : r.result = .ok a := by rw [h.result, endOf, hf]
    constructor
    · rw [calls_bind_of_ok hr, h.calls, hk.calls, Call.made_append_of_quiet hf, Call.made_eq_self hf]
    · rw [result_bind_of_ok hr, hk.result, endOf, endOf, Call.firstFailure?_append, hf,
        Option.none_or]
  | some f =>
    have hr : r.result = .error f := by rw [h.result, endOf, hf]
    constructor
    · rw [calls_bind_of_error hr, h.calls, Call.made_append_of_raised hf]
    · rw [result_bind, hr, endOf, Call.firstFailure?_append, hf, Option.some_or]
      rfl

/-- A run that calls nothing makes no difference to the calls before it. -/
theorem Makes.bind_quiet (h : Makes r cs a) (hk : Makes (k a) [] b) : Makes (r >>= k) cs b := by
  simpa using h.bind hk

theorem makes_call (c : Call) : Makes (call c) [c] () := by
  constructor
  · cases hc : c.failure? <;> simp [calls, call, Call.made, hc]
  · cases hc : c.failure? <;> simp [call, endOf, Call.firstFailure?, hc]

theorem makes_callAll (cs : List Call) : Makes (callAll cs) cs () := by
  induction cs with
  | nil => exact makes_pure ()
  | cons c cs ih => exact (makes_call c).bind ih

end Run

/-! ## What a limit has to do about a document -/

theorem AliasLimit.exceededBy_iff {l : AliasLimit} {k : Nat} (hn : l.n = some k) (d : Document) :
    l.exceededBy (Alias.count d l.allowed none).count = true ↔
      k < (Alias.documentOccurrences l.allowed d).length := by
  simp [Limit.exceededBy, hn, Alias.count_unlimited]

namespace EitherLimit

/-- Whether a document has more of what is limited than the limit allows: aliases in all, or depth
in one of the operations that it looks at. -/
def Exceeded (l : EitherLimit) (d : Document) : Prop :=
  match l with
  | aliases l => l.exceededBy (Alias.count d l.allowed none).count = true
  | depth l => ∃ o ∈ d.operations, l.skips (Index.ofDocument d) o = false ∧
      l.exceededBy (Depth.ofOperation (Index.ofDocument d) l.flattenFragments.holds o) = true

/-- The violation of a document that exceeds the limit. -/
def violation? (l : EitherLimit) (d : Document) : Option Violation :=
  match l with
  | aliases l => l.n.bind fun k =>
      (Alias.documentOccurrences l.allowed d)[k]?.map (l.crossing k)
  | depth l => l.n.bind fun k =>
      (d.operations.find? (l.tooDeep (Index.ofDocument d) k)).map
        (l.tooDeepViolation (Index.ofDocument d) k)

/-- The calls that a limit has to make on a document. -/
def due (l : EitherLimit) (d : Document) : List Call :=
  match l.violation? d with
  | none => l.callsOf l.shared.onAccept (.document d)
  | some v => l.callsOf l.shared.onReject (.violation v)

/-- The violations that a limit passes on. -/
def passedOn (l : EitherLimit) (d : Document) : List Violation :=
  if l.shared.propagate.holds then (l.violation? d).toList else []

theorem isSome_violation? (l : EitherLimit) (d : Document) :
    (l.violation? d).isSome = true ↔ l.Exceeded d := by
  cases l with
  | aliases l =>
    unfold violation? Exceeded
    cases hn : l.n with
    | none => simp [Limit.exceededBy, hn]
    | some k => simp [AliasLimit.exceededBy_iff hn, hn]
  | depth l =>
    unfold violation? Exceeded
    cases hn : l.n with
    | none => simp [Limit.exceededBy, hn]
    | some k => simp [Limit.exceededBy, hn, DepthLimit.tooDeep]

theorem passedOn_eq_nil (l : EitherLimit) (d : Document) :
    l.passedOn d = [] ↔ ¬ l.Exceeded d ∨ l.shared.propagate.holds = false := by
  rw [← isSome_violation?, passedOn]
  cases l.shared.propagate.holds <;> cases l.violation? d <;> simp

theorem makes_reject (l : EitherLimit) (v : Violation) :
    (l.reject [v]).Makes (l.callsOf l.shared.onReject (.violation v)) () :=
  (Run.makes_log _).bind ((Run.makes_callAll _).bind_quiet (Run.makes_pure ()))

/-- Settling makes the calls that are due and passes on what the limit does not keep to itself. -/
theorem makes_settle (l : EitherLimit) (d : Document) :
    (l.settle d (l.violation? d).toList).Makes (l.due d) (l.passedOn d) := by
  unfold settle due passedOn
  cases l.violation? d with
  | none =>
    simp only [Option.toList_none, List.isEmpty_nil, if_true, ite_self]
    exact (Run.makes_callAll _).bind_quiet (Run.makes_pure [])
  | some v =>
    simp only [Option.toList_some, List.isEmpty_cons, Bool.false_eq_true, if_false]
    refine (makes_reject l v).bind_quiet ?_
    by_cases hp : l.shared.propagate.holds = true
    · simp only [hp, if_true]
      exact Run.makes_pure [v]
    · simp only [hp, Bool.false_eq_true, if_false]
      exact (Run.makes_log _).bind (Run.makes_pure [])

end EitherLimit

namespace AliasLimit

theorem makes_measure (l : AliasLimit) (d : Document) :
    (l.measure d).Makes [] ((EitherLimit.aliases l).violation? d).toList := by
  cases hn : l.n with
  | none =>
    have hmeasure : l.measure d = pure [] := by simp [measure, hn]
    rw [hmeasure, EitherLimit.violation?, hn]
    exact Run.makes_pure []
  | some k =>
    refine Run.makes_nothing ?_ ?_
    · simp only [measure, hn]
      rfl
    · rw [measure_result d hn, EitherLimit.violation?, hn]
      congr 1
      split
      · next h => simp [List.getElem?_eq_getElem h]
      · next h => simp [List.getElem?_eq_none (Nat.le_of_not_lt h)]

theorem makes_validate (l : AliasLimit) (d : Document) :
    (l.validate d).Makes ((EitherLimit.aliases l).due d) ((EitherLimit.aliases l).passedOn d) :=
  (l.makes_measure d).bind ((EitherLimit.aliases l).makes_settle d)

end AliasLimit

namespace DepthLimit

theorem calls_measureOperations (l : DepthLimit) (k : Nat) (m : Depth.Measurer)
    (os : List Operation) (s : Depth.Learned) : (l.measureOperations k m os s).calls = [] := by
  induction os generalizing s with
  | nil => rfl
  | cons o os ih =>
    unfold measureOperations
    split
    · rw [Run.calls_bind_of_ok (Run.result_log _), ih]
      rfl
    · rw [Run.calls_bind_of_ok (Run.result_log _)]
      split
      · rfl
      · rw [ih]
        rfl

theorem makes_measure (l : DepthLimit) (d : Document) :
    (l.measure d).Makes [] ((EitherLimit.depth l).violation? d).toList := by
  cases hn : l.n with
  | none =>
    have hmeasure : l.measure d = pure [] := by simp [measure, hn]
    rw [hmeasure, EitherLimit.violation?, hn]
    exact Run.makes_pure []
  | some k =>
    rw [EitherLimit.violation?, hn]
    refine Run.makes_nothing ?_ ?_
    · simp only [measure, hn]
      exact calls_measureOperations ..
    · simp only [measure, hn]
      exact measureOperations_result l k _ d.operations .start Depth.Measurer.soundMemo_start

theorem makes_validate (l : DepthLimit) (d : Document) :
    (l.validate d).Makes ((EitherLimit.depth l).due d) ((EitherLimit.depth l).passedOn d) :=
  (l.makes_measure d).bind ((EitherLimit.depth l).makes_settle d)

end DepthLimit

/-! ## How a check ends by what it finds -/

/-- How a check ends that finds a violation, or finds none: with the failure of the first hook that
raises one, or with what is passed on. -/
def EitherLimit.ending (l : EitherLimit) (violation : Option Violation) :
    Except Failure (List Violation) :=
  match (l.shared.hooksFor violation.isSome).findSome? (·.failure) with
  | some message => .error (.hook message)
  | none => .ok (if l.shared.propagate.holds then violation.toList else [])

namespace EitherLimit

theorem firstFailure?_callsOf (l : EitherLimit) (hooks : List Hook) (subject : Subject) :
    Call.firstFailure? (l.callsOf hooks subject) =
      (hooks.findSome? (·.failure)).map Failure.hook := by
  induction hooks with
  | nil => rfl
  | cons h hooks ih =>
    unfold Call.firstFailure? callsOf at ih ⊢
    rw [List.map_cons, List.findSome?_cons, List.findSome?_cons, ih]
    cases hf : h.failure <;> simp [Call.failure?, hf]

/-- What is due and passed on has no other part in how a check ends. -/
theorem endOf_due (l : EitherLimit) (d : Document) :
    Run.endOf (l.due d) (l.passedOn d) = l.ending (l.violation? d) := by
  unfold Run.endOf ending due passedOn
  cases l.violation? d with
  | none =>
    simp only [firstFailure?_callsOf, Option.isSome_none, Limit.hooksFor, Bool.false_eq_true, if_false]
    cases l.shared.onAccept.findSome? (·.failure) <;> rfl
  | some v =>
    simp only [firstFailure?_callsOf, Option.isSome_some, Limit.hooksFor, if_true]
    cases l.shared.onReject.findSome? (·.failure) <;> rfl

/-- Violations that are alike in some respect end checks that are alike in it. -/
theorem ending_map {β : Type} (l : EitherLimit) (f : Violation → β) {v w : Option Violation}
    (h : v.map f = w.map f) :
    (l.ending v).map (List.map f) = (l.ending w).map (List.map f) := by
  have hsome : v.isSome = w.isSome := by simpa using congrArg Option.isSome h
  unfold ending
  rw [hsome]
  cases (l.shared.hooksFor w.isSome).findSome? (·.failure) with
  | some message => rfl
  | none =>
    have hlist : v.toList.map f = w.toList.map f := by
      rw [← Option.toList_map, ← Option.toList_map, h]
    change Except.ok (List.map f (if _ then _ else _)) = Except.ok (List.map f (if _ then _ else _))
    split
    · rw [hlist]
    · rfl

/-- Whether a check ends with a violation depends only on whether it finds one. -/
theorem ending_isEmpty (l : EitherLimit) {v w : Option Violation} (h : v.isSome = w.isSome) :
    (l.ending v).map List.isEmpty = (l.ending w).map List.isEmpty := by
  unfold ending
  rw [h]
  cases (l.shared.hooksFor w.isSome).findSome? (·.failure) with
  | some message => rfl
  | none =>
    have hlist : v.toList.isEmpty = w.toList.isEmpty := by
      cases v <;> cases w <;> simp_all
    change Except.ok (if _ then _ else _ : List Violation).isEmpty =
      Except.ok (if _ then _ else _ : List Violation).isEmpty
    split
    · rw [hlist]
    · rfl

/-- A check that returns a violation would return any other that it had found in its place. -/
theorem ending_of_some {l : EitherLimit} {v : Option Violation} {first : Violation}
    {rest : List Violation} (h : l.ending v = .ok (first :: rest)) (w : Violation) :
    v.isSome = true ∧ l.ending (some w) = .ok [w] := by
  cases v with
  | none =>
    unfold ending at h
    split at h
    · cases h
    · simp at h
  | some v =>
    refine ⟨rfl, ?_⟩
    unfold ending at h ⊢
    simp only [Option.isSome_some] at h ⊢
    split at h
    · cases h
    · split at h
      · next hpropagate => rw [if_pos hpropagate, Option.toList_some]
      · cases h

end EitherLimit

theorem AliasLimit.result_validate (l : AliasLimit) (d : Document) :
    (l.validate d).result = (EitherLimit.aliases l).ending ((EitherLimit.aliases l).violation? d) :=
  (l.makes_validate d).result.trans (EitherLimit.endOf_due _ d)

theorem DepthLimit.result_validate (l : DepthLimit) (d : Document) :
    (l.validate d).result = (EitherLimit.depth l).ending ((EitherLimit.depth l).violation? d) :=
  (l.makes_validate d).result.trans (EitherLimit.endOf_due _ d)

end QueryBounds
