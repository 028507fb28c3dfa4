import QueryBounds.Source.Scan

/-!
# Readers

A reader takes tokens from the current one on and gives back those it left. The token after a
consumed one is looked at as soon as it becomes the current one, so a fault of the text surfaces
there and not before.
-/
namespace QueryBounds

abbrev Reader := StateT Tokens (Except SyntaxFault)

/-- Tokens whose current one is not a fault. -/
def Tokens.sound : Tokens → Except SyntaxFault Tokens
  | .fault f => .error f
  | ts => .ok ts

/-- What stands first, and where. -/
def Tokens.sight : Tokens → Except SyntaxFault (Sight × Position)
  | .done finish => .ok (.endOfText, finish)
  | .fault f => .error f
  | .token t _ => .ok (.lexeme t.lexeme, t.position)

namespace Reader

variable {α : Type}

def fail (cause : SyntaxCause) (position : Position) : Reader α :=
  throw ⟨cause, position⟩

/-- What the current token is, and where it stands. -/
def current : Reader (Sight × Position) := do (← get).sight

/-- What follows the current token. -/
def following : Reader (Sight × Position) := do
  match ← get with
  | .token _ rest => rest.sight
  | ts => ts.sight

/-- Goes on to the next token; the end of the text stays where it is. -/
def advance : Reader Unit := do
  match ← get with
  | .token _ rest => set (← rest.sound)
  | ts => set (← ts.sound)

def unexpected : Reader α := do
  let (sight, position) ← current
  fail (.unexpected sight) position

def wanting (wanted : Wanted) : Reader α := do
  let (sight, position) ← current
  fail (.expected wanted sight) position

/-- Whether the current token is the given punctuator. -/
def atPunctuator (p : Punctuator) : Reader Bool := do
  return (← current).1 == .lexeme (.punctuator p)

/-- Takes the given punctuator if it is the current token. -/
def skip (p : Punctuator) : Reader Bool := do
  if ← atPunctuator p then
    advance
    return true
  else return false

def expect (p : Punctuator) : Reader Unit := do
  unless ← skip p do wanting (.punctuator p)

/-- Takes the given word if it is the current token. -/
def skipKeyword (word : String) : Reader Bool := do
  if (← current).1 == .lexeme (.name word) then
    advance
    return true
  else return false

def expectKeyword (word : String) : Reader Unit := do
  unless ← skipKeyword word do wanting (.keyword word)

def name : Reader String := do
  match (← current).1 with
  | .lexeme (.name n) =>
    advance
    return n
  | _ => wanting .name

/-- A name that has a meaning here; any other is blamed once it has been read. -/
def nameWith (meaning? : String → Option α) : Reader α := do
  let (found, position) ← current
  match meaning? (← name) with
  | some a => return a
  | none => fail (.unexpected found) position

/-- Items with a punctuator between them, and one in front if liked. -/
def separated (p : Punctuator) (item : Reader α) : Reader (List α) := do
  let _ ← skip p
  let first ← item
  return first :: (← more (← get).length)
where
  more : Nat → Reader (List α)
    | 0 => return []
    | n + 1 => do
      if ← skip p then
        let x ← item
        return x :: (← more n)
      else return []

/-- Items up to a closing punctuator. Every item takes at least one token, so as many rounds as
there are tokens are enough; where none is left, the item reports the end of the text. -/
def itemsUntil (close : Punctuator) (item : Reader α) : Reader (List α) := do
  rounds (← get).length
where
  rounds : Nat → Reader (List α)
    | 0 => do
      let x ← item
      return [x]
    | n + 1 => do
      if ← skip close then return []
      let x ← item
      return x :: (← rounds n)

/-- At least one item, up to a closing punctuator. -/
def someUntil (close : Punctuator) (item : Reader α) : Reader (List α) := do
  let x ← item
  return x :: (← itemsUntil close item)

/-- A bracketed list of at least one item, or nothing. -/
def optionalSome (opening close : Punctuator) (item : Reader α) : Reader (List α) := do
  if ← skip opening then someUntil close item else return []

/-- At least one item, up to the end of the text. -/
def someUntilEnd (item : Reader α) : Reader (List α) := do
  rounds (← get).length
where
  rounds : Nat → Reader (List α)
    | 0 => do
      let x ← item
      return [x]
    | n + 1 => do
      let x ← item
      match (← current).1 with
      | .endOfText => return [x]
      | _ => return x :: (← rounds n)

/-- Reads a whole text. -/
def run (reader : Reader α) (text : String) : Except SyntaxFault α := do
  let (a, _) ← StateT.run reader (← (Tokens.ofText text).sound)
  return a

end Reader
end QueryBounds
