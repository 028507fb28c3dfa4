import QueryBounds.Guard
import QueryBounds.Proofs.HiddenLimits

/-!
# What a call on a guard records

A check and a validation show what their runs show. Either records once, in the end: how many of the
violations that it returns are of the one limit and how many of the other. A call that fails, at
whatever point, has recorded nothing.
-/
namespace QueryBounds

namespace Counting

variable {α β : Type} {r : Run α} {k : α → Counting β} {q : α → Run β} {a : α}

/-- A call that shows what a run shows and changes the counts only when it returns, by what it
returns. -/
def Records (c : Counting α) (r : Run α) (after : α → Stats → Stats) : Prop :=
  ∀ s, c s = (r, match r.result with
    | .ok a => after a s
    | .error _ => s)

theorem Records.run_bind {after : β → Stats → Stats}
    (h : ∀ a, r.result = .ok a → Records (k a) (q a) after) :
    Records (run r >>= k) (r >>= q) after := by
  intro s
  rw [Run.result_bind]
  change andThen (run r) k s = (r.andThen q, _)
  cases hr : r.result with
  | error f =>
    simp only [andThen, run, Run.andThen, hr]
    rfl
  | ok a =>
    simp only [andThen, run, Run.andThen, hr, h a hr s]
    rfl

theorem records_fail (f : Failure) (after : α → Stats → Stats) :
    Records (run (.fail f)) (.fail f) after := fun _ => rfl

theorem records_return {aliases depth : Nat} {after : α → Stats → Stats}
    (h : ∀ s, after a s = s.record aliases depth) :
    Records (record aliases depth >>= fun _ => pure a) (pure a) after := by
  intro s
  change ((⟨[], .ok a⟩, s.record aliases depth) : Run α × Stats) = (Run.done a, after a s)
  rw [h]
  rfl

end Counting

/-! ## Violations by limit -/

/-- Whether a violation is one of the given limit. -/
def Violation.isOf (kind : LimitKind) (v : Violation) : Bool := v.kind == .limit kind

/-- Whether a verdict is a violation of the given limit. -/
def Verdict.isOf (kind : LimitKind) (v : Verdict) : Bool := v.violation?.any (·.isOf kind)

/-- The codes of violations tell the limits apart. -/
theorem Verdict.hasCode_eq_isOf (kind : LimitKind) (v : Verdict) :
    v.hasCode (ViolationKind.limit kind).code = v.isOf kind := by
  cases v with
  | finding f => rfl
  | violation v =>
    change (v.kind.code == (ViolationKind.limit kind).code) = (v.kind == .limit kind)
    rcases v.kind with _ | vkind
    · cases kind <;> decide
    · cases vkind <;> cases kind <;> decide

section Words

variable {l : Limit} {kind other : LimitKind} {vs : List Violation}

theorem Limit.Words.countP_isOf (h : l.Words kind vs) : vs.countP (·.isOf kind) = vs.length := by
  rcases h with rfl | ⟨limit, found, nodes, rfl⟩
  · rfl
  · simp [Violation.isOf, Violation.ofLimit]

theorem Limit.Words.countP_isOf_other (h : l.Words kind vs) (hne : kind ≠ other) :
    vs.countP (·.isOf other) = 0 := by
  rcases h with rfl | ⟨limit, found, nodes, rfl⟩
  · rfl
  · simp [Violation.isOf, Violation.ofLimit, hne]

theorem Limit.Words.length_le_one (h : l.Words kind vs) : vs.length ≤ 1 := by
  rcases h with rfl | ⟨limit, found, nodes, rfl⟩
  · exact Nat.zero_le 1
  · exact Nat.le_refl 1

/-- Of what the alias limit and the depth limit return each violation is of its own limit. -/
theorem countP_append_of_words {m : Limit} {as ds : List Violation} (ha : l.Words .aliases as)
    (hd : m.Words .depth ds) :
    (as ++ ds).countP (·.isOf .aliases) = as.length ∧
      (as ++ ds).countP (·.isOf .depth) = ds.length := by
  constructor
  · rw [List.countP_append, ha.countP_isOf, hd.countP_isOf_other (by decide), Nat.add_zero]
  · rw [List.countP_append, ha.countP_isOf_other (by decide), hd.countP_isOf, Nat.zero_add]

end Words

/-- The check of a document against one limit and then the other. -/
def bothLimits (a : AliasLimit) (l : DepthLimit) (d : Document) : Run (List Violation) := do
  let aliases ← a.validate d
  let depth ← l.validate d
  return aliases ++ depth

/-- What both limits return is what the one returns followed by what the other does. -/
theorem parts_of_bothLimits {a : AliasLimit} {l : DepthLimit} {d : Document} {vs : List Violation}
    (h : (bothLimits a l d).result = .ok vs) :
    ∃ as ds, (a.validate d).result = .ok as ∧ (l.validate d).result = .ok ds ∧ vs = as ++ ds := by
  rw [bothLimits, Run.result_bind] at h
  obtain ⟨as, has, hrest⟩ := exists_of_bind_eq_ok h
  rw [Run.result_bind] at hrest
  obtain ⟨ds, hds, hvs⟩ := exists_of_bind_eq_ok hrest
  cases hvs
  exact ⟨as, ds, has, hds, rfl⟩

/-- Both limits together return no more than one violation of either. -/
theorem countP_bothLimits {a : AliasLimit} {l : DepthLimit} {d : Document} {vs : List Violation}
    (h : (bothLimits a l d).result = .ok vs) (kind : LimitKind) : vs.countP (·.isOf kind) ≤ 1 := by
  obtain ⟨as, ds, has, hds, rfl⟩ := parts_of_bothLimits h
  have ha := AliasLimit.words_of_validate has
  have hd := DepthLimit.words_of_validate hds
  obtain ⟨haliases, hdepth⟩ := countP_append_of_words ha hd
  cases kind with
  | aliases => exact haliases.symm ▸ ha.length_le_one
  | depth => exact hdepth.symm ▸ hd.length_le_one

namespace Guard

/-- What a guard has counted after a call that returned verdicts. -/
def recorded (verdicts : List Verdict) (s : Stats) : Stats :=
  s.record (verdicts.countP (·.isOf .aliases)) (verdicts.countP (·.isOf .depth))

/-- The run of a check. -/
def checkRun (g : Guard) (q : Query) : Run (List Violation) := do
  bothLimits g.aliases g.depth (← Run.ofExcept q.load)

/-- The run of a validation. -/
def validationRun (g : Guard) (rules : StandardRules) (q : Query) : Run (List Verdict) := do
  let d ← Run.ofExcept q.load
  if !rules.isUsable then .fail .unusableSchema
  else return rules.verdicts d (← g.checkRules (.document d))

/-- What a check returns is what both limits return for some document. -/
theorem bothLimits_of_checkRun {g : Guard} {q : Query} {vs : List Violation}
    (h : (g.checkRun q).result = .ok vs) : ∃ a l d, (bothLimits a l d).result = .ok vs := by
  rw [checkRun, Run.result_bind] at h
  obtain ⟨d, -, hvs⟩ := exists_of_bind_eq_ok h
  exact ⟨g.aliases, g.depth, d, hvs⟩

/-- The violations that a validation returns are what both limits return for some document. -/
theorem bothLimits_of_validationRun {g : Guard} {rules : StandardRules} {q : Query}
    {verdicts : List Verdict} (h : (g.validationRun rules q).result = .ok verdicts) :
    ∃ a l d, (bothLimits a l d).result = .ok (verdicts.filterMap Verdict.violation?) := by
  rw [validationRun, Run.result_bind] at h
  obtain ⟨d, -, hverdicts⟩ := exists_of_bind_eq_ok h
  cases hu : rules.isUsable with
  | false =>
    rw [hu] at hverdicts
    cases hverdicts
  | true =>
    rw [hu] at hverdicts
    change (g.checkRules (.document d) >>= fun vs => pure (rules.verdicts d vs)).result = _
      at hverdicts
    rw [Run.result_bind] at hverdicts
    obtain ⟨vs, hvs, hreturned⟩ := exists_of_bind_eq_ok hverdicts
    cases hreturned
    rw [checkRules, Run.result_bind] at hvs
    obtain ⟨⟨a, l⟩, -, hboth⟩ := exists_of_bind_eq_ok hvs
    exact ⟨a, l, d, (rules.violations_verdicts d vs).symm ▸ hboth⟩

theorem countP_violation (kind : LimitKind) (vs : List Violation) :
    (vs.map Verdict.violation).countP (·.isOf kind) = vs.countP (·.isOf kind) := by
  rw [List.countP_map]
  rfl

theorem countP_filterMap_violation? (kind : LimitKind) (verdicts : List Verdict) :
    (verdicts.filterMap Verdict.violation?).countP (·.isOf kind) =
      verdicts.countP (·.isOf kind) := by
  rw [List.countP_filterMap]
  congr 1
  funext v
  cases v <;> rfl

/-- Only the violations among verdicts are recorded. -/
theorem recorded_violations (verdicts : List Verdict) (s : Stats) :
    recorded ((verdicts.filterMap Verdict.violation?).map .violation) s = recorded verdicts s := by
  simp only [recorded, countP_violation, countP_filterMap_violation?]

/-- A check records how many violations of either limit it returns. -/
theorem checking_records (g : Guard) (q : Query) :
    (g.checking q).Records (g.checkRun q) fun vs => recorded (vs.map .violation) := by
  refine Counting.Records.run_bind fun d _ => ?_
  refine Counting.Records.run_bind fun as has => ?_
  refine Counting.Records.run_bind fun ds hds => Counting.records_return fun s => ?_
  obtain ⟨haliases, hdepth⟩ :=
    countP_append_of_words (AliasLimit.words_of_validate has) (DepthLimit.words_of_validate hds)
  rw [recorded, countP_violation, countP_violation, haliases, hdepth]

/-- A validation records how many violations of either limit it returns, though it goes by codes. -/
theorem validating_records (g : Guard) (rules : StandardRules) (q : Query) :
    (g.validating rules q).Records (g.validationRun rules q) recorded := by
  refine Counting.Records.run_bind fun d _ => ?_
  cases rules.isUsable with
  | false => exact Counting.records_fail _ _
  | true =>
    refine Counting.Records.run_bind fun vs _ => Counting.records_return fun s => ?_
    simp only [recorded, ← Verdict.hasCode_eq_isOf]

theorem call_of_records {α : Type} {c : Counting α} {r : Run α} {after : α → Stats → Stats}
    (h : c.Records r after) (g : Guard) :
    g.call c = (r, match r.result with
      | .ok a => { g with stats := after a g.stats }
      | .error _ => g) := by
  unfold call
  rw [h g.stats]
  cases r.result <;> rfl

end Guard
end QueryBounds
