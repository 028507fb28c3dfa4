import QueryBounds.Proofs.CheckOrder
import QueryBounds.Proofs.Rebuilding

/-!
# The counts of a guard

Whatever is asked of a guard, in whatever order, and whether or not it can be answered: the counts
tell how many checks and validations have returned since the last reset, how many of them returned a
violation, and how many violations of either limit there were. One step of a guard changes the counts
by what it returns and by nothing else; the rest is induction over the steps.
-/
namespace QueryBounds

open Fragment (Index)

namespace Guard

/-- Something that is asked of a guard. A schema to validate under is given as its standard rules. -/
inductive Step where
  | check (q : Query)
  | validate (rules : StandardRules) (q : Query)
  | validateOther (v : Value) (q : Query)
  | getStats
  | resetStats

/-- What a step comes to; a check returns its violations as verdicts. -/
inductive Outcome where
  | returned (verdicts : List Verdict)
  | raised (f : Failure)
  | told (s : Stats)
  | reset

def Outcome.ofResult : Except Failure (List Verdict) → Outcome
  | .ok verdicts => .returned verdicts
  | .error f => .raised f

def step (g : Guard) : Step → Outcome × Guard
  | .check q =>
    let (r, g) := g.check q
    (.ofResult (r.result.map fun vs => vs.map .violation), g)
  | .validate rules q =>
    let (r, g) := g.validateUnder rules q
    (.ofResult r.result, g)
  | .validateOther v q =>
    let (r, g) := g.validate (.other v) q
    (.ofResult r.result, g)
  | .getStats => (.told g.stats, g)
  | .resetStats => (.reset, g.resetStats)

/-- The outcomes of steps in order, and the guard after them. -/
def steps (g : Guard) : List Step → List Outcome × Guard
  | [] => ([], g)
  | s :: ss =>
    let (o, g) := g.step s
    let (os, g) := g.steps ss
    (o :: os, g)

namespace Outcome

/-- How many violations of a limit were returned. -/
def violations (kind : LimitKind) : Outcome → Nat
  | returned verdicts => verdicts.countP (·.isOf kind)
  | _ => 0

def isReturned : Outcome → Bool
  | returned _ => true
  | _ => false

/-- Whether a violation of one of the limits was returned. -/
def isRejection (o : Outcome) : Bool := o.violations .aliases != 0 || o.violations .depth != 0

/-- The outcomes since the last reset. -/
def sinceReset (os : List Outcome) : List Outcome :=
  os.foldl (fun since o => match o with
    | reset => []
    | o => since ++ [o]) []

/-- The counts that outcomes come to. -/
def tally (os : List Outcome) : Stats where
  checked := os.countP isReturned
  rejected := os.countP isRejection
  aliasRejections := (os.map (violations .aliases)).sum
  depthRejections := (os.map (violations .depth)).sum

/-- The counts after an outcome. -/
def after (s : Stats) : Outcome → Stats
  | returned verdicts => recorded verdicts s
  | raised _ => s
  | told _ => s
  | reset => .zero

theorem tally_concat (os : List Outcome) {o : Outcome} (h : o ≠ reset) :
    tally (os ++ [o]) = after (tally os) o := by
  cases o with
  | reset => exact absurd rfl h
  | raised f => simp [tally, after, isReturned, isRejection, violations]
  | told s => simp [tally, after, isReturned, isRejection, violations]
  | returned verdicts =>
    simp only [tally, after, recorded, Stats.record, isReturned, isRejection, violations,
      List.countP_append, List.countP_singleton, List.map_append, List.map_singleton,
      List.sum_append, List.sum_singleton, if_true]
    congr 1
    by_cases ha : verdicts.countP (·.isOf .aliases) = 0
    · by_cases hd : verdicts.countP (·.isOf .depth) = 0
      · simp [ha, hd]
      · simp [ha, hd]
    · simp [ha]

/-- Going through outcomes one by one comes to the tally of those since the last reset. -/
theorem foldl_after (os : List Outcome) : os.foldl after .zero = tally (sinceReset os) := by
  suffices h : ∀ since : List Outcome, os.foldl after (tally since) =
      tally (os.foldl (fun since o => match o with
        | reset => []
        | o => since ++ [o]) since) from h []
  induction os with
  | nil => exact fun _ => rfl
  | cons o os ih =>
    intro since
    rw [List.foldl_cons, List.foldl_cons]
    by_cases ho : o = reset
    · subst ho
      exact ih []
    · rw [← tally_concat since ho, ih]
      cases o with
      | reset => exact absurd rfl ho
      | _ => rfl

end Outcome

/-! ## One step -/

/-- The counts after a step are those before it and what it comes to. -/
theorem stats_step (g : Guard) (s : Step) : (g.step s).2.stats = (g.step s).1.after g.stats := by
  cases s with
  | check q =>
    simp only [step, Guard.check, call_of_records (g.checking_records q)]
    cases (g.checkRun q).result <;> rfl
  | validate rules q =>
    simp only [step, validateUnder, call_of_records (g.validating_records rules q)]
    cases (g.validationRun rules q).result <;> rfl
  | validateOther v q => rfl
  | getStats => rfl
  | resetStats => rfl

/-- A step returns no more than one violation of a kind. -/
theorem violations_step (g : Guard) (s : Step) (kind : LimitKind) :
    (g.step s).1.violations kind ≤ 1 := by
  cases s with
  | check q =>
    simp only [step, Guard.check, call_of_records (g.checking_records q)]
    cases hr : (g.checkRun q).result with
    | error f => exact Nat.zero_le 1
    | ok vs =>
      obtain ⟨a, l, d, hvs⟩ := bothLimits_of_checkRun hr
      change (vs.map Verdict.violation).countP (·.isOf kind) ≤ 1
      rw [countP_violation]
      exact countP_bothLimits hvs kind
  | validate rules q =>
    simp only [step, validateUnder, call_of_records (g.validating_records rules q)]
    cases hr : (g.validationRun rules q).result with
    | error f => exact Nat.zero_le 1
    | ok verdicts =>
      obtain ⟨a, l, d, hvs⟩ := bothLimits_of_validationRun hr
      change verdicts.countP (·.isOf kind) ≤ 1
      rw [← countP_filterMap_violation?]
      exact countP_bothLimits hvs kind
  | validateOther v q => exact Nat.zero_le 1
  | getStats => exact Nat.zero_le 1
  | resetStats => exact Nat.zero_le 1

/-- What a check of a document comes to. -/
theorem outcome_check (g : Guard) (d : Document) :
    (g.step (.check (.document d))).1 = .ofResult ((Run.endOf
      ((EitherLimit.aliases g.aliases).due d ++ (EitherLimit.depth g.depth).due d)
      ((EitherLimit.aliases g.aliases).passedOn d ++ (EitherLimit.depth g.depth).passedOn d)).map
        (·.map .violation)) := by
  rw [← (g.makes_check d).result]
  rfl

/-! ## All steps -/

theorem stats_steps (g : Guard) (ss : List Step) :
    (g.steps ss).2.stats = (g.steps ss).1.foldl Outcome.after g.stats := by
  induction ss generalizing g with
  | nil => rfl
  | cons s ss ih =>
    change ((g.step s).2.steps ss).2.stats =
      ((g.step s).2.steps ss).1.foldl Outcome.after ((g.step s).1.after g.stats)
    rw [ih, stats_step]

end Guard

/-- Counts that fit together: every rejected query had at least one violation and at most one of each
limit, and has been checked. -/
structure Stats.Consistent (s : Stats) : Prop where
  aliases_le : s.aliasRejections ≤ s.rejected
  depth_le : s.depthRejections ≤ s.rejected
  rejected_le_sum : s.rejected ≤ s.aliasRejections + s.depthRejections
  rejected_le_checked : s.rejected ≤ s.checked

theorem Stats.consistent_zero : Stats.zero.Consistent :=
  ⟨Nat.le_refl 0, Nat.le_refl 0, Nat.le_refl 0, Nat.le_refl 0⟩

/-- An outcome with at most one violation of each limit keeps consistent counts consistent. -/
theorem Stats.Consistent.after {s : Stats} (h : s.Consistent) {o : Guard.Outcome}
    (ho : ∀ kind, o.violations kind ≤ 1) : (o.after s).Consistent := by
  cases o with
  | raised f => exact h
  | told t => exact h
  | reset => exact consistent_zero
  | returned verdicts =>
    have ha : verdicts.countP (·.isOf .aliases) ≤ 1 := ho .aliases
    have hd : verdicts.countP (·.isOf .depth) ≤ 1 := ho .depth
    obtain ⟨haliases, hdepth, hsum, hchecked⟩ := h
    unfold Guard.Outcome.after Guard.recorded Stats.record
    constructor <;> (simp only; split <;> omega)

namespace Guard

theorem consistent_steps (g : Guard) (h : g.stats.Consistent) (ss : List Step) :
    (g.steps ss).2.stats.Consistent := by
  induction ss generalizing g with
  | nil => exact h
  | cons s ss ih =>
    refine ih (g.step s).2 ?_
    rw [stats_step]
    exact h.after (violations_step g s)

/-- A guard that allows no alias and one level, with a hook that fails about what is deeper. -/
def alarmed : Guard := ofLimits { AliasLimit.unlimited with n := some 0 }
  { DepthLimit.unlimited with n := some 1, onReject := [⟨"alarm", some "too deep", 0⟩] }

def aliasedQuery : Operation := ⟨.query, none, [.field ⟨some "a", "x", none⟩ none], none⟩

def nestedQuery : Operation :=
  ⟨.query, none, [.field ⟨none, "x", none⟩ (some [.field ⟨none, "y", none⟩ none])], none⟩

/-- A document of one operation. -/
def single (o : Operation) : Document := ⟨[.operation o]⟩

end Guard
end QueryBounds
