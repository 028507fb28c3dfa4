import QueryBounds.Source.Query

/-!
# Schema definitions

A schema text defines types, extends types that are defined elsewhere in it, and may name the types
at the roots of operations. Every definition comes with the names of the types that it mentions, in
order, so that those which nobody defines can be told.
-/
namespace QueryBounds

inductive TypeKind where
  | scalar
  | object
  | interface
  | union
  | enum
  | input
  deriving DecidableEq, Repr

/-- The kind of type that a keyword defines. -/
def TypeKind.ofKeyword? : String → Option TypeKind
  | "scalar" => some .scalar
  | "type" => some .object
  | "interface" => some .interface
  | "union" => some .union
  | "enum" => some .enum
  | "input" => some .input
  | _ => none

/-- A part of a type: a field, a field of an input, a value or a member. The type behind a field is
the innermost one of its type, behind a value its own enum, and behind a member the member. -/
structure TypePart where
  name : String
  type : String
  deriving Repr

structure TypeDefinition where
  kind : TypeKind
  name : String
  parts : List TypePart
  deriving Repr

/-- What a definition contributes to a schema. -/
inductive Contribution where
  | type (t : TypeDefinition)
  | typeExtension (t : TypeDefinition)
  | roots (types : List (OperationKind × String))
  | rootsExtension (types : List (OperationKind × String))
  | nothing

structure SchemaDefinition where
  contribution : Contribution
  mentions : List String

namespace Reader

/-- An argument, or a field of an input, with the name of its type. -/
def inputPart : Reader TypePart := do
  description
  let n ← name
  expect .colon
  let type ← typeReference maxNesting
  if ← skip .equals then value true maxNesting
  directives true maxNesting
  return ⟨n, type⟩

/-- A field, and the names of the types that it mentions. -/
def fieldPart : Reader (TypePart × List String) := do
  description
  let n ← name
  let arguments ← optionalSome .parenOpen .parenClose inputPart
  expect .colon
  let type ← typeReference maxNesting
  directives true maxNesting
  return (⟨n, type⟩, arguments.map (·.type) ++ [type])

/-- A value of an enum; the words for constants cannot be one. -/
def valuePart (type : String) : Reader TypePart := do
  description
  let (found, position) ← current
  if ["true", "false", "null"].any (found.value? == some ·) then
    fail (.reservedValue found) position
  let n ← name
  directives true maxNesting
  return ⟨n, type⟩

/-- The parts of a type, and the names of the types that they mention. -/
def typeParts (kind : TypeKind) (type : String) : Reader (List TypePart × List String) := do
  match kind with
  | .scalar => return ([], [])
  | .object | .interface =>
    let fields ← optionalSome .braceOpen .braceClose fieldPart
    return (fields.map (·.1), fields.flatMap (·.2))
  | .union =>
    let members ← if ← skip .equals then separated .bar name else pure []
    return (members.map fun n => ⟨n, n⟩, members)
  | .enum =>
    return (← optionalSome .braceOpen .braceClose (valuePart type), [])
  | .input =>
    let fields ← optionalSome .braceOpen .braceClose inputPart
    return (fields, fields.map (·.type))

/-- The interfaces that a type of some kinds may implement. -/
def interfaces (kind : TypeKind) : Reader (List String) := do
  match kind with
  | .object | .interface =>
    if ← skipKeyword "implements" then separated .ampersand name else return []
  | _ => return []

/-- What follows the keyword of a type. An extension has to say something beside the name. -/
def typeDefinition (kind : TypeKind) (extending : Bool) : Reader SchemaDefinition := do
  let n ← name
  let implemented ← interfaces kind
  let directed ← atPunctuator .atSign
  directives true maxNesting
  let (parts, mentions) ← typeParts kind n
  if extending && implemented.isEmpty && !directed && parts.isEmpty then unexpected
  let type : TypeDefinition := ⟨kind, n, parts⟩
  return ⟨if extending then .typeExtension type else .type type, implemented ++ mentions⟩

/-- An operation and the type at its root. -/
def root : Reader (OperationKind × String) := do
  let kind ← nameWith OperationKind.ofKeyword?
  expect .colon
  return (kind, ← name)

/-- What follows the keyword of a schema. An extension has to say something. -/
def rootsDefinition (extending : Bool) : Reader SchemaDefinition := do
  let directed ← atPunctuator .atSign
  directives true maxNesting
  let roots ←
    if extending then optionalSome .braceOpen .braceClose root
    else do
      expect .braceOpen
      someUntil .braceClose root
  if extending && !directed && roots.isEmpty then unexpected
  return ⟨if extending then .rootsExtension roots else .roots roots, roots.map (·.2)⟩

/-- The places where a directive can be allowed. -/
def directivePlaces : List String := [
  "QUERY", "MUTATION", "SUBSCRIPTION", "FIELD", "FRAGMENT_DEFINITION", "FRAGMENT_SPREAD",
  "INLINE_FRAGMENT", "VARIABLE_DEFINITION", "FRAGMENT_VARIABLE_DEFINITION", "SCHEMA", "SCALAR",
  "OBJECT", "FIELD_DEFINITION", "ARGUMENT_DEFINITION", "INTERFACE", "UNION", "ENUM",
  "ENUM_VALUE", "INPUT_OBJECT", "INPUT_FIELD_DEFINITION"]

/-- What follows the keyword of a directive. -/
def directiveDefinition : Reader SchemaDefinition := do
  expect .atSign
  let _ ← name
  let arguments ← optionalSome .parenOpen .parenClose inputPart
  let _ ← skipKeyword "repeatable"
  expectKeyword "on"
  let _ ← separated .bar (nameWith fun n => directivePlaces.find? (· == n))
  return ⟨.nothing, arguments.map (·.type)⟩

/-- An extension; the word after its keyword tells what it extends. -/
def extensionDefinition : Reader SchemaDefinition := do
  let (word, position) ← following
  match word with
  | .lexeme (.name "schema") =>
    advance
    advance
    rootsDefinition true
  | .lexeme (.name n) =>
    match TypeKind.ofKeyword? n with
    | some kind =>
      advance
      advance
      typeDefinition kind true
    | none => fail (.unexpected word) position
  | _ => fail (.unexpected word) position

/-- A definition of a schema text; a definition of a query contributes nothing. -/
def schemaDefinition : Reader SchemaDefinition := do
  match (← keyword).1 with
  | .lexeme (.name "schema") =>
    takeKeyword
    rootsDefinition false
  | .lexeme (.name "directive") =>
    takeKeyword
    directiveDefinition
  | .lexeme (.name "extend") =>
    if ← atDescription then other else extensionDefinition
  | .lexeme (.name n) =>
    match TypeKind.ofKeyword? n with
    | some kind =>
      takeKeyword
      typeDefinition kind false
    | none => other
  | _ => other
where
  /-- A definition of a query. -/
  other : Reader SchemaDefinition := do
    let _ ← definition
    return ⟨.nothing, []⟩

end Reader
end QueryBounds
