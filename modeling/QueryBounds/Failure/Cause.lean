import QueryBounds.Failure.Report
import QueryBounds.Setting.Name
import QueryBounds.Source.Fault

/-!
# Causes of failure

Everything that can go wrong apart from a violated limit. The causes that have a report build it
here; the others end an operation without one.
-/
namespace QueryBounds

/-- Settings that a limit does not accept. -/
inductive ConfigurationCause where
  | unknownOption (key : String) (kind : LimitKind)
  | notWhole (v : Value)
  | negative (n : Int)
  | notCallable (setting : SettingName) (v : Value)
  | allowListIsText (s : String)
  | allowedNotText (v : Value)
  | notSchema (kind : String)

namespace ConfigurationCause

def message : ConfigurationCause → String
  | .unknownOption key kind => "Unknown option '" ++ key ++ "' for " ++ kind.title
  | .notWhole _ => "Limit must be an integer or None"
  | .negative _ => "Limit must not be negative"
  | .notCallable setting _ => setting.key ++ " entries must be callable"
  | .allowListIsText _ => "allow_list must be a collection of alias names, not a string"
  | .allowedNotText _ => "allow_list entries must be strings"
  | .notSchema kind => "Expected a GraphQLSchema or strawberry.Schema, got " ++ kind

/-- The setting to blame. -/
def option : ConfigurationCause → String
  | .unknownOption key _ => key
  | .notWhole _ => SettingName.n.key
  | .negative _ => SettingName.n.key
  | .notCallable setting _ => setting.key
  | .allowListIsText _ => SettingName.allowList.key
  | .allowedNotText _ => SettingName.allowList.key
  | .notSchema _ => "schema"

/-- The value to blame, if one is. -/
def value : ConfigurationCause → Value
  | .unknownOption _ _ => .null
  | .notWhole v => v
  | .negative n => .int n
  | .notCallable _ v => v
  | .allowListIsText s => .text s
  | .allowedNotText v => v
  | .notSchema _ => .null

def suggestions : ConfigurationCause → List String
  | .unknownOption _ kind => ["Valid options: " ++ ", ".intercalate kind.sortedKeys]
  | .notWhole _ => ["Pass n=None to disable the limit"]
  | .notSchema _ => ["Build the schema with graphql.build_schema() or strawberry.Schema()"]
  | _ => []

def report (c : ConfigurationCause) : Except Misfit Report :=
  Report.ofArguments .configuration [
    ("message", .text c.message), ("option", .text c.option), ("value", c.value),
    ("suggestions", .list (c.suggestions.map .text))]

end ConfigurationCause

/-- Why a path cannot be read as a file. -/
inductive PathTrouble where
  | missing
  | isDirectory
  | notDirectory
  deriving DecidableEq, Repr

def PathTrouble.message : PathTrouble → String
  | .missing => "No such file or directory"
  | .isDirectory => "Is a directory"
  | .notDirectory => "Not a directory"

/-- A query or a schema that cannot be loaded. What the source and the path of a query are is up to
the caller. -/
inductive LoadCause where
  | notParsed (message : String) (position : Option Position) (source path : Value)
  | notRead (path : String) (trouble : PathTrouble)
  | notSchema (path : String) (message : String)

namespace LoadCause

/-- A fault of a query text. -/
def ofFault (f : SyntaxFault) (source path : Value) : LoadCause :=
  .notParsed f.message (some f.position) source path

def message : LoadCause → String
  | .notParsed message _ _ _ => "Query could not be parsed: " ++ message
  | .notRead path trouble => "Could not read " ++ path ++ ": " ++ trouble.message
  | .notSchema _ message => "Invalid schema: " ++ message

/-- The arguments of the report beside its message. -/
def arguments : LoadCause → Settings
  | .notParsed _ position source path => [
    ("path", path), ("source", source),
    ("line", (position.map fun p => .int p.line).getD .null),
    ("column", (position.map fun p => .int p.column).getD .null),
    ("suggestions",
      .list [.text "Check the query for unbalanced braces or missing field names"])]
  | .notRead path _ => [("path", .text path)]
  | .notSchema path _ => [("path", .text path)]

def report (c : LoadCause) : Except Misfit Report :=
  Report.ofArguments .load (("message", .text c.message) :: c.arguments)

end LoadCause

/-- What ends an operation: a cause with a report, a value of the wrong kind, a hook that raised a
failure, bytes that are no text, a path that cannot be one, a schema that nothing can be asked of,
or a request without a query or without an operation in it. -/
inductive Failure where
  | configuration (c : ConfigurationCause)
  | load (c : LoadCause)
  | misfit (m : Misfit)
  | hook (message : String)
  | undecodable
  | unusablePath
  | unusableSchema
  | noQuery
  | noOperation

/-- The report of a failure, if its cause has one. -/
def Failure.report? : Failure → Option Report
  | .configuration c => c.report.toOption
  | .load c => c.report.toOption
  | _ => none

end QueryBounds
