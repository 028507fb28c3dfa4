import QueryBounds.Fragment.Index

/-!
# Nesting depth

A field is one level below the selection set that holds it. Fragments add levels of their own: an
inline fragment one step, a spread two, one for itself and one for the definition, and a spread of
a fragment that does not exist one. A step is one level, or none when fragments are flattened. A
spread of a fragment that is being expanded already has no depth.
-/
namespace QueryBounds.Depth

open Fragment (Index)

/-- The levels that one fragment boundary adds. -/
def fragmentStep (flatten : Bool) : Nat := if flatten then 0 else 1

/-- The greatest depth below a list of selections, reached along a path. -/
def nesting (index : Index) (step : Nat) (path : Path) : List Selection → Nat
  | [] => 0
  | .field _ body :: rest =>
    max (1 + nesting index step path (body.getD [])) (nesting index step path rest)
  | .inline _ body :: rest =>
    max (step + nesting index step path (body.getD [])) (nesting index step path rest)
  | .spread s :: rest =>
    max
      (match _ : path.enter? s.name with
        | none => 0
        | some inner =>
          match _ : index.find? s.name with
          | none => step
          | some f => 2 * step + nesting index step inner f.selections)
      (nesting index step path rest)
  | .unknown :: rest => nesting index step path rest
termination_by sels => (index.remaining path, sizeOf sels)
decreasing_by
  · exact Prod.Lex.right _ (Selection.sizeOf_body_lt_field _ _ _)
  · exact Prod.Lex.right _ (Selection.sizeOf_rest_lt _ _)
  · exact Prod.Lex.right _ (Selection.sizeOf_body_lt_inline _ _ _)
  · exact Prod.Lex.right _ (Selection.sizeOf_rest_lt _ _)
  · exact Prod.Lex.left _ _ (Index.remaining_lt ‹_› ‹_›)
  · exact Prod.Lex.right _ (Selection.sizeOf_rest_lt _ _)
  · exact Prod.Lex.right _ (Selection.sizeOf_rest_lt _ _)

/-- The depth of one selection in the selection set that holds it. -/
def selectionDepth (index : Index) (step : Nat) (s : Selection) : Nat :=
  nesting index step .empty [s]

end QueryBounds.Depth
