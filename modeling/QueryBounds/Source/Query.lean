import QueryBounds.Source.Reader

/-!
# Reading query documents

Selection sets, list values, object values and list types may be nested two hundred deep; the
number of levels left is what the recursion runs on. Selection sets may be empty, argument lists
and documents may not.
-/
namespace QueryBounds
namespace Reader

/-- The number of levels that may be open at once. -/
def maxNesting : Nat := 200

def tooDeep {α : Type} : Reader α := do
  fail .nestedTooDeeply (← current).2

/-- A variable where only constants may stand. -/
def misplacedVariable : Reader Unit := do
  let (dollar, position) ← current
  advance
  match (← current).1 with
  | .lexeme (.name n) => fail (.variableInConstant n) position
  | _ => fail (.unexpected dollar) position

/-- A value; its content plays no part in any limit. -/
def value (constant : Bool) (nesting : Nat) : Reader Unit := do
  match (← current).1 with
  | .lexeme (.punctuator .bracketOpen) =>
    match nesting with
    | 0 => tooDeep
    | n + 1 =>
      advance
      let _ ← itemsUntil .bracketClose (value constant n)
  | .lexeme (.punctuator .braceOpen) =>
    match nesting with
    | 0 => tooDeep
    | n + 1 =>
      advance
      let _ ← itemsUntil .braceClose do
        let _ ← name
        expect .colon
        value constant n
  | .lexeme (.punctuator .dollar) =>
    if constant then misplacedVariable
    else
      advance
      let _ ← name
  | .lexeme (.punctuator _) => unexpected
  | .lexeme _ => advance
  | .endOfText => unexpected

def argument (constant : Bool) (nesting : Nat) : Reader Unit := do
  let _ ← name
  expect .colon
  value constant nesting

def arguments (constant : Bool) (nesting : Nat) : Reader Unit := do
  let _ ← optionalSome .parenOpen .parenClose (argument constant nesting)

def directives (constant : Bool) (nesting : Nat) : Reader Unit := do
  rounds (← get).length
where
  rounds : Nat → Reader Unit
    | 0 => return ()
    | n + 1 => do
      if ← skip .atSign then
        let _ ← name
        arguments constant nesting
        rounds n

/-- A type reference, of which only the innermost name is kept. -/
def typeReference (nesting : Nat) : Reader String := do
  let inner ←
    if ← skip .bracketOpen then
      match nesting with
      | 0 => tooDeep
      | n + 1 => do
        let inner ← typeReference n
        expect .bracketClose
        pure inner
    else name
  let _ ← skip .bang
  return inner

/-- Whether the current token is a description. -/
def atDescription : Reader Bool := do
  match (← current).1 with
  | .lexeme (.string _) | .lexeme (.blockString _) => return true
  | _ => return false

/-- Takes a description, if there is one. -/
def description : Reader Unit := do
  if ← atDescription then advance

def variableDefinition : Reader Unit := do
  description
  expect .dollar
  let _ ← name
  expect .colon
  let _ ← typeReference maxNesting
  if ← skip .equals then value true maxNesting
  directives true maxNesting

/-- The name of a fragment, which may not be `on`. -/
def fragmentName : Reader String := do
  if (← current).1.value? == some "on" then unexpected else name

/-- A selection; `set` reads the selection set under it. -/
def selection (nesting : Nat) (set : Reader (List Selection)) : Reader Selection := do
  let position := some (← current).2
  if ← skip .dots then
    let conditional ← skipKeyword "on"
    match conditional, (← current).1 with
    | false, .lexeme (.name _) =>
      let n ← fragmentName
      directives false nesting
      return .spread ⟨n, position⟩
    | _, _ =>
      let condition ← if conditional then some <$> name else pure none
      directives false nesting
      return .inline ⟨condition, position⟩ (some (← set))
  else
    let first ← name
    let (aliasName, fieldName) ←
      if ← skip .colon then do pure (some first, ← name) else pure (none, first)
    arguments false nesting
    directives false nesting
    let body ← if ← atPunctuator .braceOpen then some <$> set else pure none
    return .field ⟨aliasName, fieldName, position⟩ body

def selectionSet : Nat → Reader (List Selection)
  | 0 => tooDeep
  | n + 1 => do
    expect .braceOpen
    itemsUntil .braceClose (selection n (selectionSet n))

/-- What follows the keyword of an operation. -/
def operation (kind : OperationKind) (position : Position) : Reader Definition := do
  let operationName ←
    match (← current).1 with
    | .lexeme (.name n) => do
      advance
      pure (some n)
    | _ => pure none
  let _ ← optionalSome .parenOpen .parenClose variableDefinition
  directives false maxNesting
  return .operation ⟨kind, operationName, ← selectionSet maxNesting, some position⟩

/-- What follows the keyword of a fragment. -/
def fragment (position : Position) : Reader Definition := do
  let n ← fragmentName
  expectKeyword "on"
  let condition ← name
  directives false maxNesting
  return .fragment ⟨n, condition, some (← selectionSet maxNesting), some position⟩

/-- The keyword of a definition, which a description may stand in front of, and its position. -/
def keyword : Reader (Sight × Position) := do
  if ← atDescription then following else current

/-- Takes the keyword of a definition, and the description in front of it. -/
def takeKeyword : Reader Unit := do
  description
  advance

/-- A definition: a selection set alone, or a keyword that may have a description in front. -/
def definition : Reader Definition := do
  let (first, position) ← current
  if first == .lexeme (.punctuator .braceOpen) then
    return .operation ⟨.query, none, ← selectionSet maxNesting, some position⟩
  let described ← atDescription
  let (word, wordPosition) ← keyword
  match word with
  | .lexeme (.punctuator .braceOpen) => fail .descriptionOnShorthand position
  | .lexeme (.name "fragment") =>
    takeKeyword
    fragment position
  | .lexeme (.name n) =>
    match OperationKind.ofKeyword? n with
    | some kind =>
      takeKeyword
      operation kind position
    | none =>
      if described then fail .descriptionOnOther position
      else fail (.unexpected word) wordPosition
  | _ => fail (.unexpected word) wordPosition

end Reader

/-- Reads the text of a document. -/
def Document.parse (text : String) : Except SyntaxFault Document :=
  Reader.run (Document.mk <$> Reader.someUntilEnd Reader.definition) text

end QueryBounds
