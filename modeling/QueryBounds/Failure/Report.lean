import QueryBounds.Setting.Value

/-!
# Reports

A report describes a failure that is no violation of a limit: settings that make no sense, or a
query that cannot be loaded. It says where the trouble is as far as its context tells. The context
may come from the caller, so the entries that belong together need not be there together.
-/
namespace QueryBounds

/-- A value that is not of the kind that its place asks for. -/
inductive Misfit where
  | notIterable (v : Value)
  | notHashable (v : Value)
  | notMapping (v : Value)
  | notText (v : Value)
  | unknownArgument (name : String)
  | missingArgument (name : String)

inductive ReportKind where
  | general
  | configuration
  | load
  deriving DecidableEq, Repr

def ReportKind.code : ReportKind → String
  | .general => "QUERYGUARD_ERROR"
  | .configuration => "CONFIGURATION_ERROR"
  | .load => "QUERY_LOAD_ERROR"

/-- A report. Its parts are kept as they were given. Without an identifier of its own it gets a
fresh one where it is written. -/
structure Report where
  kind : ReportKind
  code : Value
  message : Value
  context : Value
  suggestions : Value
  correlationId : Option Value

/-- Why a report cannot be written. -/
inductive ReportGap where
  | missing (key : String)
  | noEntries (context : Value)
  | misfit (m : Misfit)

namespace Report

/-- An entry of a context, if it is there. A list or a text can hold a key too, but has no entry
under it. -/
def entry? (context : Value) (key : String) : Except ReportGap (Option Value) :=
  match context with
  | .dict entries => .ok (entries.lookup key)
  | .list items =>
    if items.any (·.same (.text key)) then .error (.misfit (.notMapping context)) else .ok none
  | .text s =>
    if (s.splitOn key).length > 1 then .error (.misfit (.notMapping context)) else .ok none
  | v => .error (.misfit (.notIterable v))

/-- An entry that has to be in a context. -/
def entry (context : Value) (key : String) : Except ReportGap Value := do
  match ← entry? context key with
  | some v => return v
  | none => throw (.missing key)

/-- The parts of an origin with commas between them; all parts have to be texts. -/
def joinParts (parts : List Value) : Except ReportGap String := do
  let texts ← parts.mapM fun
    | .text s => .ok s
    | v => .error (.misfit (.notText v))
  return ", ".intercalate texts

/-- The setting to blame, with its value if there is one. -/
def settingOrigin (context : Value) : Except ReportGap (Option String) :=
  match context with
  | .dict entries =>
    match Settings.value entries "option" .null with
    | .null => .ok none
    | option =>
      match entries.lookup "value" with
      | none => .ok (some ("option " ++ option.display))
      | some v => do
        let kind ← entry context "value_type"
        return some ("option " ++ option.display ++ " = " ++ v.display
          ++ " (" ++ kind.display ++ ")")
  | v => .error (.noEntries v)

/-- The path of a file and the place in it, as far as they are known. -/
def sourceOrigin (context : Value) : Except ReportGap (Option String) := do
  let path := (← entry? context "path").toList
  let place ← match ← entry? context "line" with
    | none => pure []
    | some line => do
      let column ← entry context "column"
      pure [.text ("line " ++ line.display ++ ", column " ++ column.display)]
  let text ← joinParts (path ++ place)
  return if text.isEmpty then none else some text

/-- Where the trouble is, if the context tells. -/
def origin (r : Report) : Except ReportGap (Option String) :=
  match r.kind with
  | .general => .ok none
  | .configuration => settingOrigin r.context
  | .load => sourceOrigin r.context

/-- Suggestions numbered from one. -/
def numbered (start : Nat) : List Value → List String
  | [] => []
  | s :: rest => ("  " ++ toString start ++ ". " ++ s.display) :: numbered (start + 1) rest

/-- The single suggestions of a report. -/
def advice (r : Report) : Except ReportGap (List Value) :=
  if r.suggestions.holds then
    match r.suggestions.items? with
    | some items => .ok items
    | none => .error (.misfit (.notIterable r.suggestions))
  else .ok []

/-- The whole report as a text, with a fresh identifier at hand. -/
def text (r : Report) (fresh : String) : Except ReportGap String := do
  let place := match ← r.origin with
    | some place => ["Where: " ++ place]
    | none => []
  let advice ← r.advice
  let advice := if advice.isEmpty then [] else "Suggestions:" :: numbered 1 advice
  let id := r.correlationId.getD (.text fresh)
  return "\n".intercalate <|
    ["[" ++ r.code.display ++ "] " ++ r.message.display] ++ place ++ advice
      ++ ["Correlation ID: " ++ id.display]

/-- The report as a mapping, with a fresh identifier at hand. -/
def entries (r : Report) (fresh : String) : Except ReportGap Settings := do
  let place ← r.origin
  return [("error", r.code), ("message", r.message), ("where", (place.map .text).getD .null),
    ("context", r.context), ("suggestions", r.suggestions),
    ("correlation_id", r.correlationId.getD (.text fresh))]

/-! ## Building -/

/-- A context with an entry added, if the context is a mapping. -/
def addEntry (context : Value) (key : String) (v : Value) : Except Misfit Value :=
  match context with
  | .dict entries => .ok (.dict (Settings.put entries key v))
  | other => .error (.notMapping other)

/-- The most characters of a source that a report quotes. -/
def maxSource : Nat := 200

/-- The start of a long text, marked as cut; a short text as it is. -/
def shortened (s : String) : String :=
  if s.length > maxSource then String.ofList (s.toList.take maxSource) ++ "..." else s

/-- What a report quotes of a source. A collection in its place is kept if it needs no cutting. -/
def quotedSource (source : Value) : Except Misfit Value :=
  match source, source.items? with
  | .text s, _ => .ok (.text (shortened s))
  | v, some items => if items.length > maxSource then .error (.notText v) else .ok v
  | v, none => .error (.notText v)

/-- The context of a configuration report: the setting, and its value in a readable spelling. -/
def configurationContext (context option v : Value) : Except Misfit Value := do
  let context ← if option.holds then addEntry context "option" option else pure context
  match v with
  | .null => return context
  | v =>
    let context ← addEntry context "value" (.text v.spelling)
    addEntry context "value_type" (.text v.kind)

/-- The context of a load report: the path, the place and the start of the source. -/
def loadContext (context path source line column : Value) : Except Misfit Value := do
  let context ← if path.holds then addEntry context "path" path else pure context
  let context ← match line with
    | .null => pure context
    | line => do addEntry (← addEntry context "line" line) "column" column
  if source.holds then addEntry context "source" (← quotedSource source) else return context

/-- The arguments that reports of a kind take beside those that all reports take. -/
def ownArguments : ReportKind → List String
  | .general => []
  | .configuration => ["option", "value"]
  | .load => ["path", "source", "line", "column"]

def sharedArguments : List String :=
  ["message", "error_code", "context", "suggestions", "correlation_id"]

/-- A report from named arguments. -/
def ofArguments (kind : ReportKind) (args : Settings) : Except Misfit Report := do
  match args.find? fun e => !(ownArguments kind ++ sharedArguments).contains e.1 with
  | some e => throw (.unknownArgument e.1)
  | none => pure ()
  let message ← match args.lookup "message" with
    | some v => pure v
    | none => throw (.missingArgument "message")
  let given := args.value "context" (.dict [])
  let context ← match kind with
    | .general => pure given
    | .configuration =>
      configurationContext given (args.value "option" .null) (args.value "value" .null)
    | .load =>
      loadContext given (args.value "path" .null) (args.value "source" .null)
        (args.value "line" .null) (args.value "column" .null)
  let code := args.value "error_code" .null
  let suggestions := args.value "suggestions" .null
  let id := args.value "correlation_id" .null
  return {
    kind, message
    context := if context.holds then context else .dict []
    code := if code.holds then code else .text kind.code
    suggestions := if suggestions.holds then suggestions else .list []
    correlationId := if id.holds then some id else none }

end Report
end QueryBounds
