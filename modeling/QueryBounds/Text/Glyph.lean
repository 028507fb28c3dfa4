import QueryBounds.Document

/-!
# Characters with their places

A text is read as a list of characters that know where they stand. A line ends at a carriage
return and line feed together, at a line feed, or at a carriage return, and at nothing else.
-/
namespace QueryBounds

structure Glyph where
  char : Char
  position : Position

namespace Glyph

/-- Whether a character ends a line. -/
def isLineEnd (c : Char) : Bool := c == '\n' || c == '\r'

/-- The place after a character, seen the character that follows it. -/
def next (p : Position) (c : Char) (following : Option Char) : Position :=
  if c = '\n' ∨ (c = '\r' ∧ following ≠ some '\n') then ⟨p.line + 1, 1⟩
  else ⟨p.line, p.column + 1⟩

/-- The characters of a text from a place on, and the place after the last one. -/
def locate (p : Position) : List Char → List Glyph × Position
  | [] => ([], p)
  | c :: cs =>
    let (rest, finish) := locate (next p c cs.head?) cs
    (⟨c, p⟩ :: rest, finish)

/-- Where a text goes on: at its first character, or at the given end. -/
def start (finish : Position) : List Glyph → Position
  | [] => finish
  | g :: _ => g.position

def text (gs : List Glyph) : String := String.ofList (gs.map (·.char))

theorem length_locate (p : Position) (cs : List Char) : (locate p cs).1.length = cs.length := by
  induction cs generalizing p with
  | nil => rfl
  | cons c cs ih => simp [locate, ih]

end Glyph
end QueryBounds
