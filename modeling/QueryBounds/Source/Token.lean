import QueryBounds.Document

/-!
# Tokens

The lexical elements of query texts and schema texts.
-/
namespace QueryBounds

inductive Punctuator where
  | bang
  | dollar
  | ampersand
  | parenOpen
  | parenClose
  | dots
  | colon
  | equals
  | atSign
  | bracketOpen
  | bracketClose
  | braceOpen
  | bar
  | braceClose
  deriving DecidableEq, Repr

def Punctuator.symbol : Punctuator → String
  | .bang => "!"
  | .dollar => "$"
  | .ampersand => "&"
  | .parenOpen => "("
  | .parenClose => ")"
  | .dots => "..."
  | .colon => ":"
  | .equals => "="
  | .atSign => "@"
  | .bracketOpen => "["
  | .bracketClose => "]"
  | .braceOpen => "\x7b"
  | .bar => "|"
  | .braceClose => "\x7d"

/-- The punctuators of one character. -/
def Punctuator.ofChar? : Char → Option Punctuator
  | '!' => some .bang
  | '$' => some .dollar
  | '&' => some .ampersand
  | '(' => some .parenOpen
  | ')' => some .parenClose
  | ':' => some .colon
  | '=' => some .equals
  | '@' => some .atSign
  | '[' => some .bracketOpen
  | ']' => some .bracketClose
  | '\x7b' => some .braceOpen
  | '|' => some .bar
  | '\x7d' => some .braceClose
  | _ => none

inductive Lexeme where
  | punctuator (p : Punctuator)
  | name (text : String)
  | int (text : String)
  | float (text : String)
  | string (value : String)
  | blockString (value : String)
  deriving DecidableEq, Repr

structure Token where
  lexeme : Lexeme
  position : Position
  deriving DecidableEq, Repr

/-- What a reader can meet: a token or the end of the text. -/
inductive Sight where
  | lexeme (l : Lexeme)
  | endOfText
  deriving DecidableEq, Repr

/-- The description of what was met, its value in single quotes. -/
def Sight.describe : Sight → String
  | .lexeme (.punctuator p) => "'" ++ p.symbol ++ "'"
  | .lexeme (.name t) => "Name '" ++ t ++ "'"
  | .lexeme (.int t) => "Int '" ++ t ++ "'"
  | .lexeme (.float t) => "Float '" ++ t ++ "'"
  | .lexeme (.string v) => "String '" ++ v ++ "'"
  | .lexeme (.blockString v) => "BlockString '" ++ v ++ "'"
  | .endOfText => "<EOF>"

/-- The value of what was met, without what kind of token it is; punctuators have none. -/
def Sight.value? : Sight → Option String
  | .lexeme (.punctuator _) => none
  | .lexeme (.name t) => some t
  | .lexeme (.int t) => some t
  | .lexeme (.float t) => some t
  | .lexeme (.string v) => some v
  | .lexeme (.blockString v) => some v
  | .endOfText => none

end QueryBounds
