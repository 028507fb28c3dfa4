import QueryBounds.Command.Arguments
import QueryBounds.Guard

/-!
# Running a command

A command checks a query file against limits, or measures it. It ends with an exit code and what it
wrote; a failure that has a report is written to the error stream, any other ends the command with
nothing written. Arguments that are wrong end it before it starts.
-/
namespace QueryBounds.Command

open Fragment (Index)

/-- How a command ends. -/
inductive Ending where
  | usage
  | exited (code : Nat) (output errors : String)
  | crashed (f : Failure)

/-- What a command that did not fail wrote, and whether it found nothing wrong. -/
structure Output where
  passed : Bool
  lines : List String

def unlines (lines : List String) : String := String.join (lines.map (· ++ "\n"))

/-- The guard that the options of a check ask for. -/
def CheckOptions.guard (o : CheckOptions) : Except Failure Guard :=
  let number (n : Option Nat) : Value := (n.map fun n : Nat => Value.int n).getD .null
  Guard.ofArguments [
    ("max_aliases", number o.maxAliases), ("allow_aliases", .list (o.allowed.map .text)),
    ("max_depth", number o.maxDepth), ("flatten_fragments", .bool o.flattenFragments),
    ("ignore_introspection", .bool o.ignoreIntrospection),
    ("expose_limits", .bool !o.hideLimits)]

/-- Reads the schema of a path. -/
def readSchema (files : Files) (path : String) : Except Failure Schema := do
  match Schema.ofText (← files.read path) with
  | .ok s => return s
  | .error f => throw (.load (.notSchema path f.message))

/-- The lines of all violations and findings of a query file. -/
def CheckOptions.verdicts (o : CheckOptions) (files : Files) : Run (List String) := do
  let guard ← Run.ofExcept o.guard
  let source ← Run.ofExcept (files.read o.queryFile)
  match o.schemaFile with
  | none =>
    let violations ← (guard.check (.text source)).1
    return violations.map (·.line.display)
  | some path =>
    let schema ← Run.ofExcept (readSchema files path)
    let verdicts ← (guard.validate (.schema schema) (.text source)).1
    return verdicts.map (·.line)

def CheckOptions.run (o : CheckOptions) (files : Files) : Run Output := do
  let found ← o.verdicts files
  if found.isEmpty then return ⟨true, ["✅ " ++ o.queryFile ++ ": OK"]⟩
  else
    return ⟨false, ("❌ " ++ o.queryFile ++ ": " ++ toString found.length ++ " error(s)")
      :: found.map ("   • " ++ ·)⟩

/-- The line of one operation of a measured document. -/
def depthLine (index : Index) (flatten : Bool) (op : Operation) : String :=
  "Depth of " ++ op.kind.keyword ++ " " ++ op.title ++ ": "
    ++ toString (Depth.ofOperation index flatten op)

def MeasureOptions.run (o : MeasureOptions) (files : Files) : Run Output := do
  let source ← Run.ofExcept (files.read o.queryFile)
  let d ← Run.ofExcept (Query.text source).load
  let count := (Alias.count d o.allowed none).count
  return ⟨true, ("Aliases: " ++ toString count)
    :: d.operations.map (depthLine (Index.ofDocument d) o.flattenFragments)⟩

def Request.verbose : Request → Bool
  | .check o => o.verbose
  | .measure _ => false

def Request.run : Request → Files → Run Output
  | .check o, files => o.run files
  | .measure o, files => o.run files

/-- The lines of a report, with a fresh identifier at hand. -/
def reportLines (r : Report) (verbose : Bool) (fresh : String) : List String :=
  let place := match r.origin with
    | .ok (some place) => ["📍 Where: " ++ place]
    | _ => []
  let advice :=
    match r.advice with
    | .ok (s :: more) => "\n💡 Suggestions:" :: (s :: more).map fun s => "   • " ++ s.display
    | _ => []
  let id := (r.correlationId.getD (.text fresh)).display
  ("\n❌ " ++ r.code.display ++ ": " ++ r.message.display) :: place ++ advice
    ++ if verbose then ["\n🔍 Correlation ID: " ++ id] else []

/-- How a request ends whose run had the given result. -/
def Request.ending (q : Request) (fresh : String) : Except Failure Output → Ending
  | .ok output => .exited (if output.passed then 0 else 1) (unlines output.lines) ""
  | .error f =>
    match f.report? with
    | some r => .exited 1 "" (unlines (reportLines r q.verbose fresh ++ ["Aborted!"]))
    | none => .crashed f

/-- Runs the command line: the events on the way and the end. -/
def execute (files : Files) (fresh : String) (args : List String) : List Event × Ending :=
  match Request.parse args with
  | none => ([], .usage)
  | some q =>
    if !q.files.all Files.isPath then ([], .crashed .unusablePath)
    else if q.files.all (isFile files) then
      let r := q.run files
      (r.events, q.ending fresh r.result)
    else ([], .usage)

end QueryBounds.Command
