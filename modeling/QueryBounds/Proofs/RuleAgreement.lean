import QueryBounds.Proofs.CheckOrder
import QueryBounds.Proofs.Rebuilding

/-!
# Validating and checking

A validation puts the limits of a guard to work as rules made of their own settings, beside the
standard rules. The limits come out of that as they were, so a validation calls the same hooks about
the same violations as a check, fails when the check does, and returns the same violations among its
verdicts. It counts them by their codes and comes to the same counts.
-/
namespace QueryBounds

namespace Guard

theorem checkRules_document {g : Guard} (h : g.IsMade) (d : Document) :
    g.checkRules (.document d) = bothLimits g.aliases g.depth d := by
  unfold checkRules
  rw [rules_eq_limits h]
  rfl

/-- A validation runs as a check does and then adds what the standard rules say. -/
theorem validationRun_of_load {g : Guard} (h : g.IsMade) {rules : StandardRules}
    (hr : rules.isUsable = true) {q : Query} {d : Document} (hq : q.load = .ok d) :
    g.validationRun rules q =
      ⟨(g.checkRun q).events, (g.checkRun q).result.map (rules.verdicts d)⟩ := by
  have hcheck : g.checkRun q = bothLimits g.aliases g.depth d := by
    rw [checkRun, hq]
    rfl
  have hvalidation : g.validationRun rules q =
      bothLimits g.aliases g.depth d >>= fun vs => pure (rules.verdicts d vs) := by
    rw [validationRun, hq, ← checkRules_document h]
    change (if (!rules.isUsable) = true then Run.fail .unusableSchema
      else g.checkRules (.document d) >>= fun vs => pure (rules.verdicts d vs)) = _
    rw [hr]
    rfl
  rw [hvalidation, hcheck, Run.bind_pure_eq]

/-- Whether or not a query can be read, a validation shows what a check shows and fails when the check
does; the violations among its verdicts are those of the check. -/
theorem validationRun_eq {g : Guard} (h : g.IsMade) {rules : StandardRules}
    (hr : rules.isUsable = true) (q : Query) :
    (g.validationRun rules q).events = (g.checkRun q).events ∧
      (g.validationRun rules q).result.map (·.filterMap Verdict.violation?) =
        (g.checkRun q).result := by
  cases hq : q.load with
  | error f =>
    rw [validationRun, checkRun, hq]
    exact ⟨rfl, rfl⟩
  | ok d =>
    rw [validationRun_of_load h hr hq]
    refine ⟨rfl, ?_⟩
    cases (g.checkRun q).result with
    | error f => rfl
    | ok vs => exact congrArg Except.ok (rules.violations_verdicts d vs)

/-- A guard that allows two aliases. -/
def atMostTwo : Guard := ofLimits { AliasLimit.unlimited with n := some 2 } .unlimited

/-- Standard rules that find nothing wrong. -/
def noFindings : StandardRules where
  isUsable := true
  verdicts _ vs := vs.map .violation
  violations_verdicts _ vs := by simp [List.filterMap_map, Function.comp_def, Verdict.violation?]

end Guard
end QueryBounds
