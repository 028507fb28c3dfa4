import QueryBounds.Limit.Violation

/-!
# Limits

A limit has a bound, or none, and settings for what happens when a document has been checked. The
settings that are only asked whether they hold are kept with the value they were given.
-/
namespace QueryBounds

/-- What both limits have. -/
structure Limit where
  n : Option Nat
  exposeLimits : Value
  errorMessage : Value
  propagate : Value
  onAccept : List Hook
  onReject : List Hook

/-- The limit on aliases; `allowed` holds the aliases that are not counted, each once and in
ascending order. -/
structure AliasLimit extends Limit where
  allowed : List String

structure DepthLimit extends Limit where
  flattenFragments : Value
  ignoreIntrospection : Value

namespace Limit

/-- Whether there is a bound. -/
def enabled (l : Limit) : Bool := l.n.isSome

def exceededBy (l : Limit) (value : Int) : Bool :=
  match l.n with
  | none => false
  | some n => (n : Int) < value

/-- The message that stands in place of the limit, or nothing when the limit is shown. -/
def hiddenMessage (l : Limit) : Value := if l.exposeLimits.holds then .null else l.errorMessage

/-- Whether two limits agree in all shared settings. -/
def same (a b : Limit) : Bool :=
  a.n == b.n && a.exposeLimits.same b.exposeLimits && a.errorMessage.same b.errorMessage
    && a.propagate.same b.propagate && a.onAccept == b.onAccept && a.onReject == b.onReject

/-- Whether the settings that are kept as given can be members of a set. -/
def isHashable (l : Limit) : Bool :=
  l.exposeLimits.isHashable && l.errorMessage.isHashable && l.propagate.isHashable

end Limit

/-- A set of names as a list that holds each once, in ascending order. -/
def distinctNames (names : List String) : List String :=
  names.eraseDups.mergeSort fun a b => !decide (b < a)

namespace AliasLimit

def same (a b : AliasLimit) : Bool := a.toLimit.same b.toLimit && a.allowed == b.allowed

end AliasLimit

namespace DepthLimit

def same (a b : DepthLimit) : Bool :=
  a.toLimit.same b.toLimit && a.flattenFragments.same b.flattenFragments
    && a.ignoreIntrospection.same b.ignoreIntrospection

def isHashable (l : DepthLimit) : Bool :=
  l.toLimit.isHashable && l.flattenFragments.isHashable && l.ignoreIntrospection.isHashable

end DepthLimit

/-- One of the two limits, with all its settings. -/
inductive EitherLimit where
  | aliases (l : AliasLimit)
  | depth (l : DepthLimit)

namespace EitherLimit

def kind : EitherLimit → LimitKind
  | aliases _ => .aliases
  | depth _ => .depth

/-- The settings that a limit has whichever it is. -/
def shared : EitherLimit → Limit
  | aliases l => l.toLimit
  | depth l => l.toLimit

@[simp] theorem shared_aliases (l : AliasLimit) : (aliases l).shared = l.toLimit := rfl

@[simp] theorem shared_depth (l : DepthLimit) : (depth l).shared = l.toLimit := rfl

end EitherLimit
end QueryBounds
