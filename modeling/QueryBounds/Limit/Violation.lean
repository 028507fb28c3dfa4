import QueryBounds.Document
import QueryBounds.Setting.Name

/-!
# Violations

A violation says which limit was exceeded, by how much, and at which nodes. When a message of its
own hides the limit, neither the limit nor what was found is shown beside it.
-/
namespace QueryBounds

inductive ViolationKind where
  | general
  | limit (kind : LimitKind)
  deriving DecidableEq, Repr

def ViolationKind.code : ViolationKind → String
  | .general => "LIMIT_EXCEEDED"
  | .limit .aliases => "ALIAS_LIMIT_EXCEEDED"
  | .limit .depth => "DEPTH_LIMIT_EXCEEDED"

/-- A violation; `exposed` tells whether the limit and the found value are shown with it. -/
structure Violation where
  kind : ViolationKind
  message : Value
  limit : Value
  found : Value
  exposed : Bool
  nodes : List Node

/-- The message of a violation that hides nothing. -/
def LimitKind.exceededMessage (kind : LimitKind) (limit found : Value) : String :=
  (match kind with
    | .aliases => "Aliases limit of "
    | .depth => "Query depth limit of ")
    ++ limit.display ++ " exceeded, found " ++ found.display ++ "."

namespace Violation

/-- A violation of a limit; `hidden` is the message to show in place of the limit, or nothing. -/
def ofLimit (kind : LimitKind) (limit found : Value) (hidden : Value) (nodes : List Node) :
    Violation where
  kind := .limit kind
  message := if hidden.holds then hidden else .text (kind.exceededMessage limit found)
  limit := limit
  found := found
  exposed := match hidden with
    | .null => true
    | _ => false
  nodes := nodes

def code (v : Violation) : String := v.kind.code

/-- The places of the nodes that have one. -/
def places (v : Violation) : List Position := v.nodes.filterMap (·.position)

/-- What a client is told beside the message and the places. -/
def extensions (v : Violation) : Settings :=
  ("code", .text v.code)
    :: if v.exposed then [("limit", v.limit), ("found", v.found)] else []

/-- The message that a client is told. -/
def formattedMessage (v : Violation) : Value :=
  if v.message.holds then v.message else .text "An unknown error occurred."

/-- A message with the first of its places, if it has one. -/
def withPlace (message : String) (places : List Position) : String :=
  match places with
  | [] => message
  | p :: _ =>
    message ++ " (line " ++ toString p.line ++ ", column " ++ toString p.column ++ ")"

/-- The message with the first place of the violation; without a place the message as it is. -/
def line (v : Violation) : Value :=
  if v.places.isEmpty then v.message else .text (withPlace v.message.display v.places)

/-- A violation from named arguments: a limit's own takes a message to show in its place, the
general one its message and whether it shows the limit. -/
def ofArguments (kind : ViolationKind) (args : Settings) (nodes : List Node) :
    Option Violation := do
  let limit ← args.lookup "limit"
  let found ← args.lookup "found"
  match kind with
  | .limit kind =>
    if args.all fun e => ["limit", "found", "error_message"].contains e.1 then
      return ofLimit kind limit found (args.value "error_message" .null) nodes
    else none
  | .general =>
    if args.all fun e => ["message", "limit", "found", "expose_limits"].contains e.1 then
      let message ← args.lookup "message"
      return {
        kind := .general, message, limit, found, nodes
        exposed := (args.value "expose_limits" (.bool true)).holds }
    else none

end Violation
end QueryBounds
