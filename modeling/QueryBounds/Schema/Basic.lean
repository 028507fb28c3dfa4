import QueryBounds.Schema.Definition
import QueryBounds.Text.Excerpt
import QueryBounds.Text.Misspelling

/-!
# Schemas

A schema holds types and says which of them stand at the roots of operations. Of the type of a field
only the innermost name is kept, which is what is needed to follow a query from type to type.
-/
namespace QueryBounds

structure Schema where
  types : List TypeDefinition
  roots : List (OperationKind × String)
  deriving Repr

/-- Why a text is no schema: it cannot be read, or it mentions types that are not among the known
ones. -/
inductive SchemaFault where
  | unreadable (f : SyntaxFault) (source : String)
  | unknownTypes (names known : List String)

/-- The type at the root of an operation where a schema does not name one. -/
def OperationKind.standardRoot : OperationKind → String
  | .query => "Query"
  | .mutation => "Mutation"
  | .subscription => "Subscription"

namespace TypeDefinition

/-- Whether something can be selected on a type. -/
def isComposite (t : TypeDefinition) : Bool := [.object, .interface, .union].contains t.kind

/-- The name of the type behind a field, if the type has the field. -/
def field? (t : TypeDefinition) (name : String) : Option String :=
  match t.kind with
  | .object | .interface => (t.parts.find? (·.name == name)).map (·.type)
  | _ => none

/-- Whether a type lacks the parts that its kind asks for. -/
def isEmpty (t : TypeDefinition) : Bool := t.kind != .scalar && t.parts.isEmpty

end TypeDefinition

namespace Schema

/-- The types that every schema has. -/
def standardTypes : List String := [
  "Int", "Float", "String", "Boolean", "ID", "__Schema", "__Directive", "__DirectiveLocation",
  "__Type", "__Field", "__InputValue", "__EnumValue", "__TypeKind"]

/-- The types of definitions, each with the parts that extensions add to it. -/
def typesOf (definitions : List SchemaDefinition) : List TypeDefinition :=
  definitions.filterMap fun d =>
    match d.contribution with
    | .type t => some { t with parts := t.parts ++ definitions.flatMap (added t.name) }
    | _ => none
where
  /-- The parts that a definition adds to the type of a name. -/
  added (name : String) (d : SchemaDefinition) : List TypePart :=
    match d.contribution with
    | .typeExtension t => if t.name == name then t.parts else []
    | _ => []

/-- The roots that definitions name. Where no definition is about the roots, the types with the
standard names come first. -/
def rootsOf (definitions : List SchemaDefinition) (types : List TypeDefinition) :
    List (OperationKind × String) :=
  let named := definitions.flatMap fun d =>
    match d.contribution with
    | .roots rs => rs
    | .rootsExtension rs => rs
    | _ => []
  let isDefined := definitions.any fun d =>
    match d.contribution with
    | .roots _ => true
    | _ => false
  if isDefined then named
  else
    let standard := [OperationKind.query, .mutation, .subscription].map fun k =>
      (k, k.standardRoot)
    standard.filter (fun r => types.any (·.name == r.2)) ++ named

/-- Reads the text of a schema. -/
def ofText (text : String) : Except SchemaFault Schema := do
  let definitions ←
    match Reader.run (Reader.someUntilEnd Reader.schemaDefinition) text with
    | .ok ds => pure ds
    | .error f => throw (.unreadable f text)
  let types := typesOf definitions
  let known := (standardTypes ++ types.map (·.name)).eraseDups
  match (definitions.flatMap (·.mentions)).filter (!known.contains ·) with
  | [] => return ⟨types, rootsOf definitions types⟩
  | unknown => throw (.unknownTypes unknown known)

/-- The type of a name on which something can be selected. -/
def find? (s : Schema) (name : String) : Option TypeDefinition :=
  s.types.find? fun t => t.name == name && t.isComposite

/-- The type at the root of an operation, if the schema has it. -/
def rootType? (s : Schema) (kind : OperationKind) : Option TypeDefinition :=
  (s.roots.lookup kind).bind s.find?

/-- Whether queries can be put to a schema: its roots are object types, one for queries among them,
and no type lacks its parts. -/
def isUsable (s : Schema) : Bool :=
  (s.rootType? .query).isSome
    && s.roots.all (fun r => s.types.any fun t => t.name == r.2 && t.kind == .object)
    && s.types.all (!·.isEmpty)

end Schema

/-- A fault with an excerpt of the text around it, or the unknown types one by one, each with the
known ones that may have been meant. -/
def SchemaFault.message : SchemaFault → String
  | .unreadable f source =>
    f.message ++ "\n\nGraphQL request:" ++ toString f.position.line ++ ":"
      ++ toString f.position.column ++ "\n" ++ Text.excerpt source f.position
  | .unknownTypes names known =>
    "\n\n".intercalate <| names.map fun n =>
      "Unknown type '" ++ n ++ "'." ++ Text.didYouMean n known

end QueryBounds
