import QueryBounds.Fragment.Index

/-!
# Aliased fields, one by one

The fields that count against an alias limit, in the order in which a walk meets them: operations
as they are defined, selections as they are written, and a fragment at every one of its spreads.
A spread of a fragment that is being expanded already, or of one that does not exist, adds none.
-/
namespace QueryBounds.Alias

open Fragment (Index)

/-- Whether a field carries an alias of its own that is not on the list of allowed ones. -/
def isCounted (allowed : List String) (f : Field) : Bool :=
  match f.aliasName with
  | none => false
  | some a => a != f.name && !allowed.contains a

/-- The counted fields below a list of selections, reached along a path. -/
def occurrences (index : Index) (allowed : List String) (path : Path) :
    List Selection → List Field
  | [] => []
  | .field f body :: rest =>
    (if isCounted allowed f then [f] else []) ++ occurrences index allowed path (body.getD [])
      ++ occurrences index allowed path rest
  | .inline _ body :: rest =>
    occurrences index allowed path (body.getD []) ++ occurrences index allowed path rest
  | .spread s :: rest =>
    (match _ : path.enter? s.name with
      | none => []
      | some inner =>
        match _ : index.find? s.name with
        | none => []
        | some f => occurrences index allowed inner f.selections)
      ++ occurrences index allowed path rest
  | .unknown :: rest => occurrences index allowed path rest
termination_by sels => (index.remaining path, sizeOf sels)
decreasing_by
  · exact Prod.Lex.right _ (Selection.sizeOf_body_lt_field _ _ _)
  · exact Prod.Lex.right _ (Selection.sizeOf_rest_lt _ _)
  · exact Prod.Lex.right _ (Selection.sizeOf_body_lt_inline _ _ _)
  · exact Prod.Lex.right _ (Selection.sizeOf_rest_lt _ _)
  · exact Prod.Lex.left _ _ (Index.remaining_lt ‹_› ‹_›)
  · exact Prod.Lex.right _ (Selection.sizeOf_rest_lt _ _)
  · exact Prod.Lex.right _ (Selection.sizeOf_rest_lt _ _)

/-- The counted fields of a document. -/
def documentOccurrences (allowed : List String) (d : Document) : List Field :=
  d.operations.flatMap fun o => occurrences (Index.ofDocument d) allowed .empty o.selections

end QueryBounds.Alias
