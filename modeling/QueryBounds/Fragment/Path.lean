/-!
# Expansion paths

The names of the fragments being expanded on one branch of a walk, outermost first. A name is
never entered twice, so a walk that asks the path before it expands a spread cannot run in a
circle.
-/
namespace QueryBounds

structure Path where
  names : List String
  deriving DecidableEq, Repr

namespace Path

def empty : Path := ⟨[]⟩

def contains (p : Path) (name : String) : Bool := p.names.contains name

/-- The path with a name entered, unless the name is on it already. -/
def enter? (p : Path) (name : String) : Option Path :=
  if name ∈ p.names then none else some ⟨p.names ++ [name]⟩

/-- The path with a name left, unless the name is not on it. -/
def exit? (p : Path) (name : String) : Option Path :=
  if name ∈ p.names then some ⟨p.names.erase name⟩ else none

/-- The names in order, with arrows between them. -/
def describe (p : Path) : String := " -> ".intercalate p.names

theorem enter?_eq_some {p q : Path} {name : String} (h : p.enter? name = some q) :
    name ∉ p.names ∧ q.names = p.names ++ [name] := by
  unfold enter? at h
  split at h
  · simp at h
  · next hn => cases h; exact ⟨hn, rfl⟩

theorem enter?_eq_none {p : Path} {name : String} : p.enter? name = none ↔ name ∈ p.names := by
  unfold enter?; split <;> simp_all

/-- A path together with the scopes open on it, innermost first. A scope knows whether it
entered its name; only then does it leave the name when it is closed. -/
structure Scoped where
  path : Path
  scopes : List (String × Bool)
  deriving DecidableEq, Repr

inductive Action where
  | enter (name : String)
  | exit (name : String)
  | contains (name : String)
  | openScope (name : String)
  | closeScope
  | raise (message : String)
  deriving DecidableEq, Repr

/-- What an action comes to: an answer, nothing, a name that was not there to be left, or the
failure that was raised inside a scope. -/
inductive Outcome where
  | answer (b : Bool)
  | done
  | absent (name : String)
  | raised (message : String)
  deriving DecidableEq, Repr

namespace Scoped

def start : Scoped := ⟨.empty, []⟩

/-- Leaves a name; the path stays as it is when the name is not on it. -/
def leave (s : Scoped) (name : String) (otherwise : Outcome) : Outcome × Scoped :=
  match s.path.exit? name with
  | some p => (otherwise, { s with path := p })
  | none => (.absent name, s)

/-- Ends the innermost scope; a cleanup that fails hides what the scope itself came to. -/
def finish (s : Scoped) (otherwise : Outcome) : Outcome × Scoped :=
  match s.scopes with
  | [] => (otherwise, s)
  | (name, true) :: outer => leave { s with scopes := outer } name otherwise
  | (_, false) :: outer => (otherwise, { s with scopes := outer })

def step (s : Scoped) : Action → Outcome × Scoped
  | .enter name =>
    match s.path.enter? name with
    | some p => (.answer true, { s with path := p })
    | none => (.answer false, s)
  | .exit name => s.leave name .done
  | .contains name => (.answer (s.path.contains name), s)
  | .openScope name =>
    match s.path.enter? name with
    | some p => (.answer true, ⟨p, (name, true) :: s.scopes⟩)
    | none => (.answer false, { s with scopes := (name, false) :: s.scopes })
  | .closeScope => s.finish .done
  | .raise message => s.finish (.raised message)

end Scoped
end Path
end QueryBounds
