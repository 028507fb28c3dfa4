import QueryBounds.Alias.Counter
import QueryBounds.Depth.Introspection
import QueryBounds.Depth.Measurer
import QueryBounds.Limit.Run

/-!
# Checking documents

A document is checked against one limit: it is measured, and then the outcome is settled. Settling
calls the hooks for acceptance when there is no violation; otherwise it calls the hooks for
rejection with every violation, and passes the violations on only if the limit says so.
-/
namespace QueryBounds

open Fragment (Index)

namespace EitherLimit

/-- Calls of hooks, all about the same thing. -/
def callsOf (l : EitherLimit) (hooks : List Hook) (subject : Subject) : List Call :=
  hooks.map fun h => ⟨h, l, subject⟩

/-- Calls the hooks for rejection with every violation. -/
def reject (l : EitherLimit) : List Violation → Run Unit
  | [] => Run.done ()
  | v :: vs => do
    Run.log (.rejected v.message)
    Run.callAll (l.callsOf l.shared.onReject (.violation v))
    l.reject vs

/-- Calls the hooks and decides which violations of a document are passed on. -/
def settle (l : EitherLimit) (d : Document) (violations : List Violation) :
    Run (List Violation) := do
  if violations.isEmpty then
    Run.callAll (l.callsOf l.shared.onAccept (.document d))
    return []
  else
    l.reject violations
    if l.shared.propagate.holds then return violations
    else
      Run.log (.suppressed violations.length)
      return []

end EitherLimit

namespace AliasLimit

/-- The violation of a document against a bound, if it has one. -/
def violation? (l : AliasLimit) (n : Nat) (p : Alias.Progress) : Option Violation :=
  p.exceededAt.map fun f =>
    Violation.ofLimit .aliases (.int n) (.int p.count) l.hiddenMessage [.field f]

/-- Measures a document: the violations, at most one. -/
def measure (l : AliasLimit) (d : Document) : Run (List Violation) :=
  match l.n with
  | none => return []
  | some n => do
    let p := Alias.count d l.allowed (some n)
    Run.log (.aliasesCounted p.count n)
    return (l.violation? n p).toList

def validate (l : AliasLimit) (d : Document) : Run (List Violation) := do
  (EitherLimit.aliases l).settle d (← l.measure d)

end AliasLimit

namespace DepthLimit

/-- Whether the limit leaves an operation out. -/
def skips (l : DepthLimit) (index : Index) (o : Operation) : Bool :=
  l.ignoreIntrospection.holds && Depth.isIntrospection index o

/-- The violation of an operation that is too deep. -/
def violation (l : DepthLimit) (n depth : Nat) (culprit : Option Selection) (o : Operation) :
    Violation :=
  Violation.ofLimit .depth (.int n) (.int depth) l.hiddenMessage
    [(culprit.map (·.node)).getD o.node]

/-- Measures operations in order, up to the first that is too deep. -/
def measureOperations (l : DepthLimit) (n : Nat) (m : Depth.Measurer) :
    List Operation → Depth.Learned → Run (List Violation)
  | [], _ => return []
  | o :: os, s =>
    if l.skips m.index o then do
      Run.log (.introspectionSkipped o.title)
      l.measureOperations n m os s
    else do
      let ((depth, culprit), s) := m.measure o s
      Run.log (.depthMeasured o.title depth n)
      if n < depth then return [l.violation n depth culprit o]
      else l.measureOperations n m os s

/-- Measures a document: the violations, at most one. -/
def measure (l : DepthLimit) (d : Document) : Run (List Violation) :=
  match l.n with
  | none => return []
  | some n =>
    l.measureOperations n ⟨Index.ofDocument d, l.flattenFragments.holds⟩ d.operations .start

def validate (l : DepthLimit) (d : Document) : Run (List Violation) := do
  (EitherLimit.depth l).settle d (← l.measure d)

end DepthLimit
end QueryBounds
