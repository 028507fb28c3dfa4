import QueryBounds.Limit.Rule
import QueryBounds.Limit.Validate
import QueryBounds.Schema.Finding

/-!
# Guards

A guard applies both limits to documents, the one on aliases first, and counts what it has checked
and what it has rejected. The counts outlast a call that fails: whatever it has counted by then
stays.
-/
namespace QueryBounds

/-- The counts of a guard. -/
structure Stats where
  checked : Nat
  rejected : Nat
  aliasRejections : Nat
  depthRejections : Nat
  deriving DecidableEq, Repr

namespace Stats

def zero : Stats := ⟨0, 0, 0, 0⟩

/-- The counts after one more document with so many violations of either limit. -/
def record (s : Stats) (aliases depth : Nat) : Stats where
  checked := s.checked + 1
  rejected := if aliases + depth = 0 then s.rejected else s.rejected + 1
  aliasRejections := s.aliasRejections + aliases
  depthRejections := s.depthRejections + depth

end Stats

/-- What a call on a guard does to its counts on the way to its result. -/
def Counting (α : Type) : Type := Stats → Run α × Stats

namespace Counting

variable {α β : Type}

def done (a : α) : Counting α := fun s => (Run.done a, s)

/-- A run that has nothing to do with the counts. -/
def run (r : Run α) : Counting α := fun s => (r, s)

def record (aliases depth : Nat) : Counting Unit := fun s => (Run.done (), s.record aliases depth)

/-- Goes on after a call, unless it failed; the counts go on either way. -/
def andThen (c : Counting α) (next : α → Counting β) : Counting β := fun s =>
  let (r, s) := c s
  match r.result with
  | .ok a =>
    let (q, s) := next a s
    (⟨r.events ++ q.events, q.result⟩, s)
  | .error f => (⟨r.events, .error f⟩, s)

instance : Monad Counting where
  pure := done
  bind := andThen

end Counting

structure Guard where
  aliases : AliasLimit
  depth : DepthLimit
  stats : Stats

/-- A query is given as a text or as a document. -/
inductive Query where
  | text (source : String)
  | document (d : Document)

/-- The document of a query. -/
def Query.load : Query → Except Failure Document
  | .document d => .ok d
  | .text source =>
    match Document.parse source with
    | .ok d => .ok d
    | .error f => .error (.load (.ofFault f (.text source) .null))

/-- What is given in place of a schema. -/
inductive SchemaArgument where
  | schema (s : Schema)
  | other (v : Value)

/-- One result of a validation: a violated limit or a finding of the standard rules. -/
inductive Verdict where
  | violation (v : Violation)
  | finding (f : Finding)

namespace Verdict

def line : Verdict → String
  | .violation v => v.line.display
  | .finding f => f.line

def violation? : Verdict → Option Violation
  | .violation v => some v
  | .finding _ => none

/-- Whether a verdict is a violation with the given code. -/
def hasCode (code : String) : Verdict → Bool
  | .violation v => v.code == code
  | .finding _ => false

end Verdict

/-- The standard rules under a schema: whether the schema can be asked anything at all, and what a
validation returns for a document with the violations of the limits' rules, which it holds in their
order. -/
structure StandardRules where
  isUsable : Bool
  verdicts : Document → List Violation → List Verdict
  violations_verdicts : ∀ d vs, (verdicts d vs).filterMap Verdict.violation? = vs

/-- The standard rules as far as they are known here; the limits speak first. -/
def Schema.standardRules (s : Schema) : StandardRules where
  isUsable := s.isUsable
  verdicts d vs := vs.map .violation ++ (s.findings d).map .finding
  violations_verdicts d vs := by
    simp [List.filterMap_append, List.filterMap_map, Function.comp_def, Verdict.violation?]

namespace Guard

/-! ## Building -/

def ofLimits (aliases : AliasLimit) (depth : DepthLimit) : Guard := ⟨aliases, depth, .zero⟩

/-- The arguments of a guard with their defaults. -/
def parameters : Settings := [
  ("max_aliases", .null), ("allow_aliases", .list []), ("max_depth", .null),
  ("flatten_fragments", .bool false), ("ignore_introspection", .bool false),
  ("expose_limits", .bool true), ("error_message", .text SettingName.defaultMessage),
  ("propagate_on_rejection", .bool true), ("on_accept", .list []), ("on_reject", .list [])]

/-- The items of a collection. -/
def itemsOf (v : Value) : Except Failure (List Value) :=
  match v.items? with
  | some items => .ok items
  | none => .error (.misfit (.notIterable v))

/-- A guard from named arguments. The collections among them are taken apart first, so a text given
for the allowed aliases stands for its characters. -/
def ofArguments (args : Settings) : Except Failure Guard := do
  match args.find? fun e => !parameters.any (·.1 == e.1) with
  | some e => throw (.misfit (.unknownArgument e.1))
  | none => pure ()
  let given (name : String) : Value := args.value name (parameters.value name .null)
  let onAccept ← itemsOf (given "on_accept")
  let onReject ← itemsOf (given "on_reject")
  let allowed ← membersOf (given "allow_aliases")
  let shared : Assignment := [
    (.exposeLimits, given "expose_limits"), (.errorMessage, given "error_message"),
    (.propagateOnRejection, given "propagate_on_rejection"),
    (.onAccept, .list onAccept), (.onReject, .list onReject)]
  let aliases ← AliasLimit.ofAssignment <|
    (.n, given "max_aliases") :: (.allowList, .list allowed) :: shared
  let depth ← DepthLimit.ofAssignment <|
    (.n, given "max_depth") :: (.flattenFragments, given "flatten_fragments")
      :: (.ignoreIntrospection, given "ignore_introspection") :: shared
  return ofLimits aliases depth

/-! ## Checking -/

/-- The limits of the rules made from the settings of the guard. -/
def rules (g : Guard) : Except Failure (AliasLimit × DepthLimit) := do
  return (← AliasLimit.ofRule g.aliases.settings, ← DepthLimit.ofRule g.depth.settings)

/-- The limits of the extensions made from the settings of the guard. -/
def extensions (g : Guard) : Except Failure (AliasLimit × DepthLimit) := do
  return (← AliasLimit.ofExtension g.aliases.settings, ← DepthLimit.ofExtension g.depth.settings)

/-- Checks a query: its violations, those of the alias limit first. -/
def checking (g : Guard) (q : Query) : Counting (List Violation) := do
  let d ← .run (.ofExcept q.load)
  let aliases ← .run (g.aliases.validate d)
  let depth ← .run (g.depth.validate d)
  .record aliases.length depth.length
  return aliases ++ depth

/-- The violations of a query under the rules of the guard; the counts stay as they are. -/
def checkRules (g : Guard) (q : Query) : Run (List Violation) := do
  let (aliases, depth) ← Run.ofExcept g.rules
  let d ← Run.ofExcept q.load
  let aliases ← aliases.validate d
  let depth ← depth.validate d
  return aliases ++ depth

/-- Applies the rules of the guard and the standard rules together. -/
def validating (g : Guard) (rules : StandardRules) (q : Query) : Counting (List Verdict) := do
  let d ← .run (.ofExcept q.load)
  if !rules.isUsable then .run (.fail .unusableSchema)
  else
    let violations ← .run (g.checkRules (.document d))
    let verdicts := rules.verdicts d violations
    let count (kind : LimitKind) : Nat :=
      verdicts.countP (Verdict.hasCode (ViolationKind.limit kind).code)
    .record (count .aliases) (count .depth)
    return verdicts

/-- A call on a guard: what can be seen of it, and the guard after it. -/
def call {α : Type} (g : Guard) (c : Counting α) : Run α × Guard :=
  let (r, s) := c g.stats
  (r, { g with stats := s })

def check (g : Guard) (q : Query) : Run (List Violation) × Guard := g.call (g.checking q)

/-- Validates a query under standard rules. -/
def validateUnder (g : Guard) (rules : StandardRules) (q : Query) : Run (List Verdict) × Guard :=
  g.call (g.validating rules q)

/-- Validates a query; what is no schema is refused before the query is looked at. -/
def validate (g : Guard) (schema : SchemaArgument) (q : Query) : Run (List Verdict) × Guard :=
  match schema with
  | .other v => (.fail (.configuration (.notSchema v.kind)), g)
  | .schema s => g.validateUnder s.standardRules q

def resetStats (g : Guard) : Guard := { g with stats := .zero }

end Guard

/-! ## Serving requests -/

/-- The violations that the answer to a request tells of. A request needs a query with an operation
in it. One that cannot be read, or whose check fails, is answered with errors that are no
violations. -/
def serve (validate : Document → Run (List Violation)) (source : String) :
    Run (List Violation) :=
  if source.isEmpty then Run.fail .noQuery
  else
    match Document.parse source with
    | .error _ => Run.done []
    | .ok d =>
      if d.operations.isEmpty then Run.fail .noOperation
      else
        let r := validate d
        { events := r.events
          result := match r.result with
            | .ok violations => .ok violations
            | .error _ => .ok [] }

end QueryBounds
