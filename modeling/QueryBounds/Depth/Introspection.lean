import QueryBounds.Fragment.Index

/-!
# Introspection operations

An operation is one of introspection when all fields at its root, fragments looked through, are
meta-fields and at least one of them asks for the schema or a type.
-/
namespace QueryBounds.Depth

open Fragment (Index)

/-- The fields that make an operation one of introspection. -/
def introspectionFields : List String := ["__schema", "__type"]

/-- The fields that an operation of introspection may have. -/
def metaFields : List String := "__typename" :: introspectionFields

/-- The names of the fields at the level of a list of selections, in order, a fragment's at every
one of its spreads. -/
def rootFieldNames (index : Index) (path : Path) : List Selection → List String
  | [] => []
  | .field f _ :: rest => f.name :: rootFieldNames index path rest
  | .inline _ body :: rest =>
    rootFieldNames index path (body.getD []) ++ rootFieldNames index path rest
  | .spread s :: rest =>
    (match _ : path.enter? s.name with
      | none => []
      | some inner =>
        match _ : index.find? s.name with
        | none => []
        | some f => rootFieldNames index inner f.selections)
      ++ rootFieldNames index path rest
  | .unknown :: rest => rootFieldNames index path rest
termination_by sels => (index.remaining path, sizeOf sels)
decreasing_by
  · exact Prod.Lex.right _ (Selection.sizeOf_rest_lt _ _)
  · exact Prod.Lex.right _ (Selection.sizeOf_body_lt_inline _ _ _)
  · exact Prod.Lex.right _ (Selection.sizeOf_rest_lt _ _)
  · exact Prod.Lex.left _ _ (Index.remaining_lt ‹_› ‹_›)
  · exact Prod.Lex.right _ (Selection.sizeOf_rest_lt _ _)
  · exact Prod.Lex.right _ (Selection.sizeOf_rest_lt _ _)

def isIntrospection (index : Index) (o : Operation) : Bool :=
  let names := rootFieldNames index .empty o.selections
  !names.isEmpty && names.all metaFields.contains && names.any introspectionFields.contains

end QueryBounds.Depth
