import QueryBounds.Fragment.Index
import QueryBounds.Limit.Violation
import QueryBounds.Schema.Basic

/-!
# Findings of the standard rules

Two standard rules are applied to a query together with the limits: a field must exist on the type
that it is selected on, and fragments must not spread each other in a circle.
-/
namespace QueryBounds

open Fragment (Index)

/-- What a standard rule found, and where. -/
structure Finding where
  message : String
  places : List Position

namespace Finding

def line (f : Finding) : String := Violation.withPlace f.message f.places

def unknownField (field : Field) (type : String) : Finding :=
  ⟨"Cannot query field '" ++ field.name ++ "' on type '" ++ type ++ "'.", field.position.toList⟩

/-- A circle of spreads that leads back to a fragment through the fragments of `via`. -/
def cycle (name : String) (via : List String) (spreads : List Spread) : Finding :=
  let route := if via.isEmpty then "" else
    " via " ++ ", ".intercalate (via.map fun n => "'" ++ n ++ "'")
  ⟨"Cannot spread fragment '" ++ name ++ "' within itself" ++ route ++ ".",
    spreads.filterMap (·.position)⟩

end Finding

namespace Schema

/-- Whether a type has a field without defining it: its own name, and at the root of queries the
ways into the schema. -/
def isMetaField (s : Schema) (type name : String) : Bool :=
  name == "__typename"
    || (s.roots.lookup .query == some type && (name == "__schema" || name == "__type"))

/-- The fields below a list of selections that their type does not have, in order; nothing is known
below such a field. -/
def unknownFields (s : Schema) (type : Option TypeDefinition) : List Selection → List Finding
  | [] => []
  | .field f body :: rest =>
    let found := type.bind (·.field? f.name)
    let complaint := match type with
      | some t =>
        if found.isSome || s.isMetaField t.name f.name then [] else [Finding.unknownField f t.name]
      | none => []
    complaint ++ s.unknownFields (found.bind s.find?) (body.getD []) ++ s.unknownFields type rest
  | .inline i body :: rest =>
    let inner := match i.condition with
      | none => type
      | some c => s.find? c
    s.unknownFields inner (body.getD []) ++ s.unknownFields type rest
  | .spread _ :: rest => s.unknownFields type rest
  | .unknown :: rest => s.unknownFields type rest
termination_by sels => sizeOf sels
decreasing_by
  · exact Selection.sizeOf_body_lt_field _ _ _
  · exact Selection.sizeOf_rest_lt _ _
  · exact Selection.sizeOf_body_lt_inline _ _ _
  · exact Selection.sizeOf_rest_lt _ _
  · exact Selection.sizeOf_rest_lt _ _
  · exact Selection.sizeOf_rest_lt _ _

end Schema

namespace Selection

/-- The spreads directly in a list of selections. -/
def spreads (sels : List Selection) : List Spread :=
  sels.filterMap fun
    | .spread s => some s
    | _ => none

/-- The spreads inside the selection sets of a list of selections: those of the last set first, and
of each set the spreads directly in it before those inside it. -/
def innerSpreads : List Selection → List Spread
  | [] => []
  | .field _ body :: rest =>
    innerSpreads rest ++ spreads (body.getD []) ++ innerSpreads (body.getD [])
  | .inline _ body :: rest =>
    innerSpreads rest ++ spreads (body.getD []) ++ innerSpreads (body.getD [])
  | .spread _ :: rest => innerSpreads rest
  | .unknown :: rest => innerSpreads rest
termination_by sels => sizeOf sels
decreasing_by
  · exact sizeOf_rest_lt _ _
  · exact sizeOf_body_lt_field _ _ _
  · exact sizeOf_rest_lt _ _
  · exact sizeOf_body_lt_inline _ _ _
  · exact sizeOf_rest_lt _ _
  · exact sizeOf_rest_lt _ _

/-- All spreads in a selection set, at any depth. -/
def allSpreads (sels : List Selection) : List Spread := spreads sels ++ innerSpreads sels

end Selection

/-- A search for circles: the fragments it has been to, and the circles it has found. -/
structure CycleSearch where
  visited : List String
  findings : List Finding

namespace CycleSearch

/-- The circle that a spread closes, if it does; `route` holds the fragments on the way to it, each
with the spread that led on from it. -/
def closed? (route : List (String × Spread)) (sp : Spread) : Option Finding :=
  match route.dropWhile (·.1 != sp.name) with
  | [] => none
  | loop => some (Finding.cycle sp.name (loop.dropLast.map (·.2.name)) (loop.map (·.2)))

/-- Searches from a fragment on. No branch enters a fragment twice, so it is at most as long as
there are fragments. -/
def visit (index : Index) : Nat → List (String × Spread) → Fragment → CycleSearch → CycleSearch
  | 0, _, _, search => search
  | n + 1, route, f, search =>
    if search.visited.contains f.name then search
    else
      (Selection.allSpreads f.selections).foldl
        (fun search sp =>
          let here := route ++ [(f.name, sp)]
          match closed? here sp with
          | some finding => { search with findings := search.findings ++ [finding] }
          | none =>
            match index.find? sp.name with
            | none => search
            | some g => visit index n here g search)
        { search with visited := f.name :: search.visited }

end CycleSearch

namespace Schema

/-- What the standard rules find in definitions, in order. -/
def findingsIn (s : Schema) (index : Index) (visited : List String) :
    List Definition → List Finding
  | [] => []
  | .operation o :: rest =>
    s.unknownFields (s.rootType? o.kind) o.selections ++ s.findingsIn index visited rest
  | .fragment f :: rest =>
    let search := CycleSearch.visit index (index.fragments.length + 1) [] f ⟨visited, []⟩
    search.findings ++ s.unknownFields (s.find? f.condition) f.selections
      ++ s.findingsIn index search.visited rest
  | .other :: rest => s.findingsIn index visited rest

/-- What the standard rules find in a document. -/
def findings (s : Schema) (d : Document) : List Finding :=
  s.findingsIn (Index.ofDocument d) [] d.definitions

end Schema
end QueryBounds
