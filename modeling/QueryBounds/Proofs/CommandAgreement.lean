import QueryBounds.Command.Run
import QueryBounds.Proofs.AllowedAliases
import QueryBounds.Proofs.Arguments
import QueryBounds.Proofs.CheckOrder
import QueryBounds.Proofs.Rebuilding

/-!
# Checking and measuring a file

The two commands come to the same on a query file: what a measurement tells of its aliases and of
the depths of its operations is what decides which violations a check finds there. One goes through
a guard with both limits, whose count stops early and whose measurer serves all operations; the
other counts to the end and measures each operation on its own. A text that is no query ends both
with one report.
-/
namespace QueryBounds

open Fragment (Index)

/-- The order and the repetitions of allowed aliases make no difference to a count. -/
theorem Alias.count_distinctNames (d : Document) (allowed : List String) :
    (count d (distinctNames allowed) none).count = (count d allowed none).count := by
  have hsame (a : String) : a ∈ distinctNames allowed ↔ a ∈ allowed := mem_distinctNames
  rw [count_unlimited, count_unlimited, documentOccurrences_congr d hsame]

/-! ## Limits without hooks -/

theorem Limit.exceededBy_natCast (l : Limit) (count : Nat) :
    l.exceededBy count = l.n.any (· < count) := by
  unfold exceededBy
  cases l.n <;> simp

namespace EitherLimit

variable {l : EitherLimit} {d : Document}

theorem due_eq_nil (ha : l.shared.onAccept = []) (hr : l.shared.onReject = []) :
    l.due d = [] := by
  unfold due
  cases l.violation? d with
  | none => exact congrArg (l.callsOf · _) ha
  | some v => exact congrArg (l.callsOf · _) hr

theorem kind_of_violation? {v : Violation} (h : l.violation? d = some v) :
    v.kind = .limit l.kind := by
  cases l with
  | aliases l =>
    obtain ⟨k, -, hv⟩ := Option.bind_eq_some_iff.1 h
    obtain ⟨f, -, rfl⟩ := Option.map_eq_some_iff.1 hv
    rfl
  | depth l =>
    obtain ⟨k, -, hv⟩ := Option.bind_eq_some_iff.1 h
    obtain ⟨o, -, rfl⟩ := Option.map_eq_some_iff.1 hv
    rfl

/-- What a limit passes on if it passes anything on: one violation of its kind when it is exceeded,
which a test that decides that tells. -/
theorem kinds_passedOn (hp : l.shared.propagate.holds = true) {test : Bool}
    (ht : l.Exceeded d ↔ test = true) :
    (l.passedOn d).map Violation.kind = if test then [.limit l.kind] else [] := by
  rw [passedOn, if_pos hp]
  have hsome := (l.isSome_violation? d).trans ht
  cases hv : l.violation? d with
  | none =>
    rw [hv] at hsome
    rw [if_neg (hsome.not.1 Bool.false_ne_true)]
    rfl
  | some v =>
    rw [hv] at hsome
    rw [if_pos (hsome.1 rfl), ← kind_of_violation? hv]
    rfl

end EitherLimit

namespace Guard

/-- Without hooks a check of a document returns what both limits pass on. -/
theorem result_check_of_quiet {g : Guard} {d : Document}
    (ha : (EitherLimit.aliases g.aliases).due d = []) (hd : (EitherLimit.depth g.depth).due d = []) :
    (g.check (.document d)).1.result = .ok
      ((EitherLimit.aliases g.aliases).passedOn d ++ (EitherLimit.depth g.depth).passedOn d) := by
  rw [(g.makes_check d).result, ha, hd]
  rfl

end Guard

/-! ## The report of a text that is no query -/

namespace LoadCause

/-- The report of a fault in a query that has no path of its own. -/
def faultReport (f : SyntaxFault) (source : String) : Report where
  kind := .load
  code := .text ReportKind.load.code
  message := .text ("Query could not be parsed: " ++ f.message)
  context := .dict ([("line", .int f.position.line), ("column", .int f.position.column)]
    ++ if source.isEmpty then [] else [("source", .text (Report.shortened source))])
  suggestions := .list [.text "Check the query for unbalanced braces or missing field names"]
  correlationId := none

theorem report_ofFault (f : SyntaxFault) (source : String) :
    (ofFault f (.text source) .null).report = .ok (faultReport f source) := by
  let place : Settings := [("line", .int f.position.line), ("column", .int f.position.column)]
  have hreport : (ofFault f (.text source) .null).report =
      (if !source.isEmpty then
        Report.addEntry (.dict place) "source" (.text (Report.shortened source))
      else .ok (.dict place)) >>= fun context =>
        .ok { faultReport f source with
          context := if context.holds then context else .dict [] } := rfl
  rw [hreport, faultReport]
  cases source.isEmpty <;> rfl

end LoadCause

namespace Command

/-! ## The limits of a check -/

namespace CheckOptions

variable (o : CheckOptions)

/-- What both limits of a check have, apart from the bound. -/
def limit (n : Option Nat) : Limit where
  n := n
  exposeLimits := .bool !o.hideLimits
  errorMessage := .text SettingName.defaultMessage
  propagate := .bool true
  onAccept := []
  onReject := []

def aliasLimit : AliasLimit := { o.limit o.maxAliases with allowed := distinctNames o.allowed }

def depthLimit : DepthLimit := { o.limit o.maxDepth with
  flattenFragments := .bool o.flattenFragments
  ignoreIntrospection := .bool o.ignoreIntrospection }

theorem guard_eq : o.guard = .ok (.ofLimits o.aliasLimit o.depthLimit) := by
  let number (n : Option Nat) : Value := (n.map fun n : Nat => Value.int n).getD .null
  let shared : Assignment := [
    (.exposeLimits, .bool !o.hideLimits), (.errorMessage, .text SettingName.defaultMessage),
    (.propagateOnRejection, .bool true), (.onAccept, .list []), (.onReject, .list [])]
  let aliases (allowed : List Value) : Assignment :=
    (.n, number o.maxAliases) :: (.allowList, .list allowed) :: shared
  let depth : Assignment := (.n, number o.maxDepth)
    :: (.flattenFragments, .bool o.flattenFragments)
    :: (.ignoreIntrospection, .bool o.ignoreIntrospection) :: shared
  have hguard : o.guard = (membersOf (.list (o.allowed.map .text)) >>= fun allowed =>
      AliasLimit.ofAssignment (aliases allowed) >>= fun a =>
      DepthLimit.ofAssignment depth >>= fun l => pure (.ofLimits a l)) := by
    unfold guard Guard.ofArguments
    rfl
  have hkept : (o.limit o.maxDepth).KeptIn depth := ⟨rfl, rfl, rfl, rfl, rfl, rfl⟩
  have haliases : AliasLimit.ofAssignment (aliases (o.allowed.map .text)) = .ok o.aliasLimit :=
    AliasLimit.ofAssignment_kept (l := { o.limit o.maxAliases with allowed := o.allowed })
      ⟨rfl, rfl, rfl, rfl, rfl, rfl⟩ rfl
  have hdepth : DepthLimit.ofAssignment depth = .ok o.depthLimit := by
    rw [DepthLimit.ofAssignment, hkept.ofAssignment]
    rfl
  rw [hguard, membersOf_texts]
  change (AliasLimit.ofAssignment (aliases (o.allowed.map .text)) >>= _) = _
  rw [haliases]
  change (DepthLimit.ofAssignment depth >>= _) = _
  rw [hdepth]
  rfl

end CheckOptions

/-! ## What there is to measure -/

/-- The aliases of a document in all, and its operations with their depths. -/
structure Measured where
  aliases : Nat
  depths : List (Operation × Nat)

namespace Measured

/-- What a measurement prints. -/
def lines (m : Measured) : List String :=
  ("Aliases: " ++ toString m.aliases) :: m.depths.map fun (op, depth) =>
    "Depth of " ++ op.kind.keyword ++ " " ++ op.title ++ ": " ++ toString depth

/-- The limits that bounds make exceeded ones, that on aliases first. -/
def exceeded (m : Measured) (maxAliases maxDepth : Option Nat) : List LimitKind :=
  (if maxAliases.any (· < m.aliases) then [.aliases] else []) ++
    if m.depths.any fun (_, depth) => maxDepth.any (· < depth) then [.depth] else []

end Measured

namespace MeasureOptions

/-- What the options of a measurement measure of a document: all aliases, and each operation by a
measurer of its own. -/
def measured (o : MeasureOptions) (d : Document) : Measured where
  aliases := (Alias.count d o.allowed none).count
  depths := d.operations.map fun op =>
    (op, Depth.ofOperation (Index.ofDocument d) o.flattenFragments op)

theorem result_run (o : MeasureOptions) {files : Files} {source : String}
    (hread : files.read o.queryFile = .ok source) :
    (o.run files).result = (Query.text source).load.map fun d => ⟨true, (o.measured d).lines⟩ := by
  unfold run
  rw [hread, Run.result_bind_of_ok rfl, Run.result_bind]
  cases hload : (Query.text source).load with
  | error f => rfl
  | ok d =>
    change Except.ok _ = Except.ok _
    simp only [measured, Measured.lines, List.map_map]
    rfl

end MeasureOptions

namespace CheckOptions

/-- The options to measure with what a check checks. -/
def toMeasure (o : CheckOptions) : MeasureOptions := ⟨o.queryFile, o.allowed, o.flattenFragments⟩

theorem exceeded_aliasLimit (o : CheckOptions) (d : Document) :
    (EitherLimit.aliases o.aliasLimit).Exceeded d ↔
      o.maxAliases.any (· < (o.toMeasure.measured d).aliases) = true := by
  change Limit.exceededBy _ (Alias.count d (distinctNames o.allowed) none).count = true ↔ _
  rw [Alias.count_distinctNames, Limit.exceededBy_natCast]
  rfl

theorem exceeded_depthLimit (o : CheckOptions) (h : o.ignoreIntrospection = false) (d : Document) :
    (EitherLimit.depth o.depthLimit).Exceeded d ↔
      ((o.toMeasure.measured d).depths.any fun (_, depth) => o.maxDepth.any (· < depth)) =
        true := by
  have hskips (op : Operation) : o.depthLimit.skips (Index.ofDocument d) op = false := by
    simp [DepthLimit.skips, depthLimit, h, Value.holds]
  simp only [EitherLimit.Exceeded, hskips, true_and, Limit.exceededBy_natCast,
    MeasureOptions.measured, List.any_map, List.any_eq_true]
  rfl

/-- How a check ends that has found the given violations in a query file. -/
def checked (o : CheckOptions) (violations : List Violation) : Ending :=
  if violations.isEmpty then .exited 0 (unlines ["✅ " ++ o.queryFile ++ ": OK"]) ""
  else
    .exited 1 (unlines <|
      ("❌ " ++ o.queryFile ++ ": " ++ toString violations.length ++ " error(s)")
        :: violations.map ("   • " ++ ·.line.display)) ""

theorem result_verdicts (o : CheckOptions) (hschema : o.schemaFile = none) {files : Files}
    {source : String} (hread : files.read o.queryFile = .ok source) :
    (o.verdicts files).result =
      ((Guard.ofLimits o.aliasLimit o.depthLimit).check (.text source)).1.result.map
        (·.map (·.line.display)) := by
  unfold verdicts
  rw [o.guard_eq, hread, Run.result_bind_of_ok rfl, Run.result_bind_of_ok rfl, hschema]
  simp only
  rw [Run.bind_pure_eq]

/-- A check that finds violations, or finds that there are none, ends as they tell. -/
theorem ending_run (o : CheckOptions) {files : Files} (fresh : String) {violations : List Violation}
    (h : (o.verdicts files).result = .ok (violations.map (·.line.display))) :
    (Request.check o).ending fresh (o.run files).result = o.checked violations := by
  unfold run checked
  rw [Run.result_bind_of_ok h]
  cases violations with
  | nil => rfl
  | cons v vs =>
    simp only [List.map_cons, List.isEmpty_cons, Bool.false_eq_true, if_false, List.length_cons,
      List.length_map, List.map_map]
    rfl

/-- The violations that a check finds in a document, one for each limit that is exceeded. -/
theorem result_check_of_load (o : CheckOptions) (h : o.ignoreIntrospection = false) {q : Query}
    {d : Document} (hload : q.load = .ok d) :
    ∃ violations : List Violation,
      ((Guard.ofLimits o.aliasLimit o.depthLimit).check q).1.result = .ok violations ∧
      violations.map Violation.kind =
        ((o.toMeasure.measured d).exceeded o.maxAliases o.maxDepth).map .limit := by
  rw [Guard.check_of_load, hload]
  refine ⟨_, Guard.result_check_of_quiet (EitherLimit.due_eq_nil rfl rfl)
    (EitherLimit.due_eq_nil rfl rfl), ?_⟩
  rw [List.map_append, Measured.exceeded, List.map_append, Guard.ofLimits,
    EitherLimit.kinds_passedOn (l := .aliases o.aliasLimit) rfl (o.exceeded_aliasLimit d),
    EitherLimit.kinds_passedOn (l := .depth o.depthLimit) rfl (o.exceeded_depthLimit h d)]
  congr 1 <;> split <;> rfl

end CheckOptions

/-! ## Running the commands -/

/-- How a command ends that gives up with a report. -/
def aborted (report : List String) : Ending := .exited 1 "" (unlines (report ++ ["Aborted!"]))

theorem execute_of_file {files : Files} {args : List String} {q : Request} {file source : String}
    (hparse : Request.parse args = some q) (hfiles : q.files = [file])
    (hfile : isFile files file = true) (hread : files.read file = .ok source) (fresh : String) :
    (execute files fresh args).2 = q.ending fresh (q.run files).result := by
  have hpath : Files.isPath file = true := by
    cases hp : Files.isPath file with
    | true => rfl
    | false => simp [Files.read, hp] at hread
  simp [execute, hparse, hfiles, hfile, hpath]

/-- What is reported of a fault in a query text. -/
def faultLines (f : SyntaxFault) (source : String) : List String :=
  reportLines (LoadCause.faultReport f source) false ""

/-- The line that a request for more adds to a report. -/
def identified (verbose : Bool) (fresh : String) : List String :=
  if verbose then ["\n🔍 Correlation ID: " ++ fresh] else []

theorem reportLines_faultReport (f : SyntaxFault) (source fresh : String) (verbose : Bool) :
    reportLines (LoadCause.faultReport f source) verbose fresh =
      faultLines f source ++ identified verbose fresh := by
  unfold faultLines identified reportLines
  cases verbose with
  | false => simp
  | true =>
    simp only [Bool.false_eq_true, if_false, if_true, List.append_nil]
    rfl

/-- A request that fails with a fault of the query text ends with the report of it. -/
theorem ending_ofFault (q : Request) (fresh : String) (f : SyntaxFault) (source : String) :
    q.ending fresh (.error (.load (.ofFault f (.text source) .null))) =
      aborted (faultLines f source ++ identified q.verbose fresh) := by
  have hreport : (Failure.load (.ofFault f (.text source) .null)).report? =
      some (LoadCause.faultReport f source) := by
    rw [Failure.report?, LoadCause.report_ofFault]
    rfl
  simp only [Request.ending, hreport]
  rw [reportLines_faultReport]
  rfl

theorem CheckOptions.files_of_noSchema {o : CheckOptions} (h : o.schemaFile = none) :
    (Request.check o).files = [o.queryFile] := by
  rw [Request.files, h]
  rfl

/-- One file, whatever its name. -/
def booksFile : Files := fun _ => .ok "{ a: books { title } }".toUTF8

/-- A check that allows no alias and one level. -/
def strictCheck : CheckOptions where
  queryFile := "books.graphql"
  schemaFile := none
  maxAliases := some 0
  maxDepth := some 1
  allowed := ["b"]
  flattenFragments := true
  ignoreIntrospection := false
  hideLimits := true
  verbose := false

end Command
end QueryBounds
