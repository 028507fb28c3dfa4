import QueryBounds.Failure.Cause
import QueryBounds.Limit.Basic

/-!
# Runs

Checking a limit calls hooks and keeps a log on the way to its result. A run is what can be seen
of that: the events in order, and the result or the failure that ended it. Events that happened
before a failure stay in the run.
-/
namespace QueryBounds

/-- What a hook is told about: the document that passed, or a violation. -/
inductive Subject where
  | document (d : Document)
  | violation (v : Violation)

/-- A call of a hook, with the limit that it is called for. -/
structure Call where
  hook : Hook
  limit : EitherLimit
  subject : Subject

/-- The failure that a call raises, if it raises one. -/
def Call.failure? (c : Call) : Option Failure := c.hook.failure.map .hook

inductive LogEntry where
  | aliasesCounted (count limit : Nat)
  | introspectionSkipped (title : String)
  | depthMeasured (title : String) (depth limit : Nat)
  | rejected (message : Value)
  | suppressed (violations : Nat)

namespace LogEntry

def level : LogEntry → String
  | .rejected _ => "INFO"
  | _ => "DEBUG"

def text : LogEntry → String
  | .aliasesCounted count limit =>
    "Counted " ++ toString count ++ " aliases (limit " ++ toString limit ++ ")"
  | .introspectionSkipped title => "Skipping introspection operation " ++ title
  | .depthMeasured title depth limit =>
    "Operation " ++ title ++ " has depth " ++ toString depth ++ " (limit " ++ toString limit ++ ")"
  | .rejected message => "Rejected query: " ++ message.display
  | .suppressed n => "Suppressed " ++ toString n ++ " limit violation(s), propagation disabled"

end LogEntry

inductive Event where
  | call (c : Call)
  | log (entry : LogEntry)

/-- The events of a run in order, and how it ended. -/
structure Run (α : Type) where
  events : List Event
  result : Except Failure α

namespace Run

variable {α β : Type}

def done (a : α) : Run α := ⟨[], .ok a⟩

def fail (f : Failure) : Run α := ⟨[], .error f⟩

def ofExcept (r : Except Failure α) : Run α := ⟨[], r⟩

/-- Goes on after a run, unless it failed. -/
def andThen (r : Run α) (next : α → Run β) : Run β :=
  match r.result with
  | .ok a =>
    let s := next a
    ⟨r.events ++ s.events, s.result⟩
  | .error f => ⟨r.events, .error f⟩

instance : Monad Run where
  pure := done
  bind := andThen

def log (entry : LogEntry) : Run Unit := ⟨[.log entry], .ok ()⟩

/-- Makes a call. -/
def call (c : Call) : Run Unit where
  events := [.call c]
  result := match c.failure? with
    | none => .ok ()
    | some f => .error f

/-- Makes calls in order, up to the first that raises a failure. -/
def callAll : List Call → Run Unit
  | [] => done ()
  | c :: cs => (call c).andThen fun _ => callAll cs

end Run
end QueryBounds
