/-!
# Query documents

A document is a list of definitions: operations, fragments, and anything else a file may hold.
Selections nest, and a fragment is selected by name, so the shape of a document is a finite tree
while the tree that a server walks is that of its fragments spread out.
-/
namespace QueryBounds

/-- A place in a text; lines and columns are counted from one, columns in characters. -/
structure Position where
  line : Nat
  column : Nat
  deriving DecidableEq, Repr

/-- The head of a field selection: what is selected and under which alias. -/
structure Field where
  aliasName : Option String
  name : String
  position : Option Position
  deriving DecidableEq, Repr

/-- A fragment spread by name. -/
structure Spread where
  name : String
  position : Option Position
  deriving DecidableEq, Repr

/-- The head of an inline fragment, with its type condition if it has one. -/
structure Inline where
  condition : Option String
  position : Option Position
  deriving DecidableEq, Repr

/-- One selection of a selection set; `none` as a body means that there is no selection set. -/
inductive Selection where
  | field (head : Field) (body : Option (List Selection))
  | spread (head : Spread)
  | inline (head : Inline) (body : Option (List Selection))
  | unknown

inductive OperationKind where
  | query
  | mutation
  | subscription
  deriving DecidableEq, Repr

/-- The keyword that opens an operation. -/
def OperationKind.keyword : OperationKind → String
  | .query => "query"
  | .mutation => "mutation"
  | .subscription => "subscription"

/-- The kind of operation that a keyword opens. -/
def OperationKind.ofKeyword? : String → Option OperationKind
  | "query" => some .query
  | "mutation" => some .mutation
  | "subscription" => some .subscription
  | _ => none

structure Operation where
  kind : OperationKind
  name : Option String
  selections : List Selection
  position : Option Position

/-- The name under which an operation is reported. -/
def Operation.title (o : Operation) : String := o.name.getD "<anonymous>"

structure Fragment where
  name : String
  condition : String
  body : Option (List Selection)
  position : Option Position

/-- What a fragment selects; a fragment without a selection set selects nothing. -/
def Fragment.selections (f : Fragment) : List Selection := f.body.getD []

/-- A definition of a document; `other` stands for one that is not executable. -/
inductive Definition where
  | operation (o : Operation)
  | fragment (f : Fragment)
  | other

structure Document where
  definitions : List Definition

namespace Document

/-- The operations in the order of their definitions. -/
def operations (d : Document) : List Operation :=
  d.definitions.filterMap fun
    | .operation o => some o
    | _ => none

/-- All fragment definitions, those with a repeated name included. -/
def fragments (d : Document) : List Fragment :=
  d.definitions.filterMap fun
    | .fragment f => some f
    | _ => none

end Document

/-- The head of any node: what a report says about it without its selections. -/
inductive Node where
  | field (f : Field)
  | spread (s : Spread)
  | inline (i : Inline)
  | operation (kind : OperationKind) (name : Option String) (position : Option Position)
  | fragment (name condition : String) (position : Option Position)
  | unknown
  deriving DecidableEq, Repr

namespace Node

def position : Node → Option Position
  | .field f => f.position
  | .spread s => s.position
  | .inline i => i.position
  | .operation _ _ p => p
  | .fragment _ _ p => p
  | .unknown => none

end Node

def Selection.node : Selection → Node
  | .field f _ => .field f
  | .spread s => .spread s
  | .inline i _ => .inline i
  | .unknown => .unknown

def Operation.node (o : Operation) : Node := .operation o.kind o.name o.position

def Fragment.node (f : Fragment) : Node := .fragment f.name f.condition f.position

/-! ## Sizes, for recursion on selections -/

theorem Selection.sizeOf_body_lt_field (f : Field) (body : Option (List Selection))
    (rest : List Selection) : sizeOf (body.getD []) < sizeOf (Selection.field f body :: rest) := by
  cases body <;> simp <;> omega

theorem Selection.sizeOf_body_lt_inline (i : Inline) (body : Option (List Selection))
    (rest : List Selection) : sizeOf (body.getD []) < sizeOf (Selection.inline i body :: rest) := by
  cases body <;> simp <;> omega

theorem Selection.sizeOf_rest_lt (s : Selection) (rest : List Selection) :
    sizeOf rest < sizeOf (s :: rest) := by
  simp only [List.cons.sizeOf_spec]; omega

end QueryBounds
