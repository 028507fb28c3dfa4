import QueryBounds.Source.Token

/-!
# Faults of a text

Every way in which a text can fail to be a document, with its wording.
-/
namespace QueryBounds

/-- What a reader wanted at a place. -/
inductive Wanted where
  | punctuator (p : Punctuator)
  | name
  | keyword (word : String)
  deriving DecidableEq, Repr

def Wanted.describe : Wanted → String
  | .punctuator p => "'" ++ p.symbol ++ "'"
  | .name => "Name"
  | .keyword word => "'" ++ word ++ "'"

inductive SyntaxCause where
  | expected (wanted : Wanted) (found : Sight)
  | unexpected (found : Sight)
  | variableInConstant (name : String)
  | descriptionOnShorthand
  | descriptionOnOther
  | reservedValue (found : Sight)
  | nestedTooDeeply
  | unexpectedCharacter (c : Char)
  | singleQuote
  | twoDots
  | digitsAfterDot (digits : String)
  | digitAfterZero (c : Char)
  | digitExpected (c : Option Char)
  | unterminatedString
  | characterEscape (text : String)
  | unicodeEscape (text : String)
  deriving DecidableEq, Repr

structure SyntaxFault where
  cause : SyntaxCause
  position : Position
  deriving DecidableEq, Repr

/-- Upper-case hexadecimal digits, at least four. -/
def codePoint (n : Nat) : String :=
  let digits := (Nat.toDigits 16 n).map Char.toUpper
  "U+" ++ String.ofList (List.replicate (4 - digits.length) '0' ++ digits)

/-- A character as a fault shows it: printable ASCII as itself in quotes, the rest by number. -/
def showCharacter : Option Char → String
  | none => "<EOF>"
  | some c =>
    if c = '"' then "'\"'"
    else if ' ' ≤ c ∧ c ≤ '~' then "'" ++ c.toString ++ "'"
    else codePoint c.toNat

namespace SyntaxCause

def message : SyntaxCause → String
  | .expected wanted found => "Expected " ++ wanted.describe ++ ", found " ++ found.describe ++ "."
  | .unexpected found => "Unexpected " ++ found.describe ++ "."
  | .variableInConstant name => "Unexpected variable '$" ++ name ++ "' in constant value."
  | .descriptionOnShorthand =>
    "Unexpected description, descriptions are not supported on shorthand queries."
  | .descriptionOnOther =>
    "Unexpected description, only GraphQL definitions support descriptions."
  | .reservedValue found =>
    found.describe ++ " is reserved and cannot be used for an enum value."
  | .nestedTooDeeply => "Document is nested too deeply. Parsing aborted."
  | .unexpectedCharacter c => "Unexpected character: " ++ showCharacter (some c) ++ "."
  | .singleQuote =>
    "Unexpected single quote character ('), did you mean to use a double quote (\")?"
  | .twoDots => "Unexpected '..', did you mean '...'?"
  | .digitsAfterDot digits =>
    "Invalid number, expected digit before '.', did you mean '0." ++ digits ++ "'?"
  | .digitAfterZero c =>
    "Invalid number, unexpected digit after 0: " ++ showCharacter (some c) ++ "."
  | .digitExpected c => "Invalid number, expected digit but got: " ++ showCharacter c ++ "."
  | .unterminatedString => "Unterminated string."
  | .characterEscape text => "Invalid character escape sequence: '" ++ text ++ "'."
  | .unicodeEscape text => "Invalid Unicode escape sequence: '" ++ text ++ "'."

end SyntaxCause

def SyntaxFault.message (f : SyntaxFault) : String := "Syntax Error: " ++ f.cause.message

end QueryBounds
