import QueryBounds.Source.Fault
import QueryBounds.Text.Glyph

/-!
# From characters to tokens

A scanner says how many characters after the first one a token covers, so what is left after a
token is always shorter than the text it was read from. The tokens of a text end with the end of
the text or with the first fault; a reader meets that fault only when it gets there.
-/
namespace QueryBounds

/-- The tokens of a text up to its end or its first fault. -/
inductive Tokens where
  | done (finish : Position)
  | fault (f : SyntaxFault)
  | token (t : Token) (rest : Tokens)

namespace Scan

def isDigit (c : Char) : Bool := '0' ≤ c && c ≤ '9'

def isNameStart (c : Char) : Bool := ('a' ≤ c && c ≤ 'z') || ('A' ≤ c && c ≤ 'Z') || c == '_'

def isNameChar (c : Char) : Bool := isNameStart c || isDigit c

/-- Characters between tokens that mean nothing: blanks, commas, line ends, byte order marks. -/
def isIgnored (c : Char) : Bool :=
  c == ' ' || c == '\t' || c == ',' || c == '\uFEFF' || Glyph.isLineEnd c

def hexDigit? (c : Char) : Option Nat :=
  if '0' ≤ c ∧ c ≤ '9' then some (c.toNat - 48)
  else if 'a' ≤ c ∧ c ≤ 'f' then some (c.toNat - 87)
  else if 'A' ≤ c ∧ c ≤ 'F' then some (c.toNat - 55)
  else none

/-- The character of a code point, if the code point has one. -/
def scalar? (n : Nat) : Option Char := if n.isValidChar then some (Char.ofNat n) else none

/-! ## Numbers -/

/-- A run of digits at the start of a text, which must not be empty, and what follows it. -/
def digits (finish : Position) (gs : List Glyph) :
    Except SyntaxFault (List Glyph × List Glyph) :=
  let run := gs.takeWhile (isDigit ·.char)
  if run.isEmpty then .error ⟨.digitExpected (gs.head?.map (·.char)), Glyph.start finish gs⟩
  else .ok (run, gs.dropWhile (isDigit ·.char))

/-- The whole part of a number: a lone zero, or digits that do not start with one. -/
def wholePart (finish : Position) : List Glyph → Except SyntaxFault (List Glyph × List Glyph)
  | g :: rest =>
    if g.char = '0' then
      match rest with
      | d :: _ =>
        if isDigit d.char then .error ⟨.digitAfterZero d.char, d.position⟩ else .ok ([g], rest)
      | [] => .ok ([g], rest)
    else digits finish (g :: rest)
  | [] => digits finish []

/-- One of the given characters at the start of a text, if it is there. -/
def optional (among : List Char) : List Glyph → List Glyph × List Glyph
  | g :: rest => if g.char ∈ among then ([g], rest) else ([], g :: rest)
  | [] => ([], [])

/-- The digits that have to follow a mark, if the mark is there. -/
def marked (finish : Position) (mark : List Char) (sign : List Char) (gs : List Glyph) :
    Except SyntaxFault (List Glyph × List Glyph) :=
  match optional mark gs with
  | ([], rest) => .ok ([], rest)
  | (m, rest) => do
    let (s, rest) := optional sign rest
    let (ds, rest) ← digits finish rest
    .ok (m ++ s ++ ds, rest)

/-- A number and the count of its characters after the first. -/
def number (finish : Position) (gs : List Glyph) : Except SyntaxFault (Lexeme × Nat) := do
  let (sign, rest) := optional ['-'] gs
  let (whole, rest) ← wholePart finish rest
  let (fraction, rest) ← marked finish ['.'] [] rest
  let (exponent, rest) ← marked finish ['e', 'E'] ['+', '-'] rest
  match rest with
  | g :: _ =>
    if g.char = '.' || isNameStart g.char then
      throw ⟨.digitExpected (some g.char), g.position⟩
  | [] => pure ()
  let all := sign ++ whole ++ fraction ++ exponent
  let text := Glyph.text all
  return (if fraction.isEmpty && exponent.isEmpty then .int text else .float text, all.length - 1)

/-! ## Strings -/

/-- The character of a one-letter escape. -/
def escaped? : Char → Option Char
  | '"' => some '"'
  | '\\' => some '\\'
  | '/' => some '/'
  | 'b' => some '\x08'
  | 'f' => some '\x0c'
  | 'n' => some '\n'
  | 'r' => some '\r'
  | 't' => some '\t'
  | _ => none

/-- The code point of four hexadecimal digits at the start of a text. -/
def fourHex? : List Char → Option Nat
  | a :: b :: c :: d :: _ => do
    let a ← hexDigit? a
    let b ← hexDigit? b
    let c ← hexDigit? c
    let d ← hexDigit? d
    return ((a * 16 + b) * 16 + c) * 16 + d
  | _ => none

/-- The character of a four-digit escape, after its letter, and the count of characters read. Two
escapes that are the halves of a surrogate pair make one character. -/
def fourDigitEscape? (cs : List Char) : Option (Char × Nat) := do
  let high ← fourHex? cs
  match scalar? high with
  | some c => return (c, 4)
  | none =>
    match cs.drop 4 with
    | '\\' :: 'u' :: more =>
      let low ← fourHex? more
      if high ≤ 0xDBFF ∧ 0xDC00 ≤ low ∧ low ≤ 0xDFFF then
        let c ← scalar? (0x10000 + (high - 0xD800) * 0x400 + (low - 0xDC00))
        return (c, 10)
      else none
    | _ => none

/-- The character of a braced escape, after its brace, with the count of characters read; or the
count of characters up to the one that broke it off. -/
def bracedEscape (point : Option Nat) (count : Nat) : List Char → Except Nat (Char × Nat)
  | [] => .error count
  | '\x7d' :: _ =>
    match point.bind scalar? with
    | some c => .ok (c, count + 1)
    | none => .error (count + 1)
  | c :: cs =>
    match hexDigit? c with
    | some d => bracedEscape (some (point.getD 0 * 16 + d)) (count + 1) cs
    | none => .error (count + 1)

/-- The character of an escape, read after its backslash, and the count of characters read. A
braced escape holds at most nine characters after its brace. -/
def escape (window : List Char) : Except SyntaxCause (Char × Nat) :=
  match window with
  | 'u' :: '\x7b' :: cs =>
    match bracedEscape none 0 (cs.take 9) with
    | .ok (c, n) => .ok (c, n + 2)
    | .error n => .error (.unicodeEscape (String.ofList ('\\' :: window.take (n + 2))))
  | 'u' :: cs =>
    match fourDigitEscape? cs with
    | some (c, n) => .ok (c, n + 1)
    | none => .error (.unicodeEscape (String.ofList ('\\' :: window.take 5)))
  | c :: _ =>
    match escaped? c with
    | some d => .ok (d, 1)
    | none => .error (.characterEscape (String.ofList ['\\', c]))
  | [] => .error (.characterEscape "\\")

/-- The value of a string, read after its opening quote, and the count of characters read. -/
def stringValue (finish : Position) : List Glyph → Except SyntaxFault (List Char × Nat)
  | [] => .error ⟨.unterminatedString, finish⟩
  | g :: rest =>
    if g.char = '"' then .ok ([], 1)
    else if g.char = '\\' then
      match escape ((rest.take 11).map (·.char)) with
      | .error cause => .error ⟨cause, g.position⟩
      | .ok (c, n) => do
        let (cs, m) ← stringValue finish (rest.drop n)
        .ok (c :: cs, m + n + 1)
    else if Glyph.isLineEnd g.char then .error ⟨.unterminatedString, g.position⟩
    else do
      let (cs, m) ← stringValue finish rest
      .ok (g.char :: cs, m + 1)
termination_by gs => gs.length
decreasing_by all_goals simp only [List.length_cons, List.length_drop]; omega

/-- Whether a text starts with the given characters. -/
def startsWith (word : List Char) (gs : List Glyph) : Bool :=
  (gs.take word.length).map (·.char) == word

/-- The lines of a block string, read after its opening quotes, and the count of characters read;
`line` is the current line so far, its last character first. -/
def blockLines (finish : Position) (line : List Char) :
    List Glyph → Except SyntaxFault (List (List Char) × Nat)
  | [] => .error ⟨.unterminatedString, finish⟩
  | g :: rest =>
    if startsWith ['"', '"', '"'] (g :: rest) then .ok ([line.reverse], 3)
    else if startsWith ['\\', '"', '"', '"'] (g :: rest) then do
      let (lines, n) ← blockLines finish ('"' :: '"' :: '"' :: line) (rest.drop 3)
      .ok (lines, n + 4)
    else if Glyph.isLineEnd g.char then do
      let width := if startsWith ['\r', '\n'] (g :: rest) then 1 else 0
      let (lines, n) ← blockLines finish [] (rest.drop width)
      .ok (line.reverse :: lines, n + width + 1)
    else do
      let (lines, n) ← blockLines finish (g.char :: line) rest
      .ok (lines, n + 1)
termination_by gs => gs.length
decreasing_by all_goals simp only [List.length_cons, List.length_drop]; omega

def isBlank (c : Char) : Bool := c == ' ' || c == '\t'

/-- The lines of a block string as written in its value: the indentation that all lines but the
first have in common is taken off them, then blank lines at both ends are dropped. -/
def dedent (lines : List (List Char)) : List (List Char) :=
  let indents := (lines.tail.filter (!·.all isBlank)).map fun line =>
    (line.takeWhile isBlank).length
  let shifted := lines.take 1 ++ lines.tail.map (·.drop (indents.min?.getD 0))
  let trim (ls : List (List Char)) := ls.dropWhile (·.all isBlank)
  (trim (trim shifted).reverse).reverse

def blockValue (lines : List (List Char)) : String :=
  String.ofList (List.intercalate ['\n'] (dedent lines))

/-! ## Tokens -/

/-- The token at the start of a text, with the count of its characters after the first. -/
def lexeme (finish : Position) (g : Glyph) (rest : List Glyph) :
    Except SyntaxFault (Lexeme × Nat) :=
  match Punctuator.ofChar? g.char with
  | some p => .ok (.punctuator p, 0)
  | none =>
    if isNameStart g.char then
      let more := rest.takeWhile (isNameChar ·.char)
      .ok (.name (Glyph.text (g :: more)), more.length)
    else if isDigit g.char || g.char == '-' then number finish (g :: rest)
    else if startsWith ['"', '"'] rest && g.char == '"' then do
      let (lines, n) ← blockLines finish [] (rest.drop 2)
      .ok (.blockString (blockValue lines), n + 2)
    else if g.char = '"' then do
      let (cs, n) ← stringValue finish rest
      .ok (.string (String.ofList cs), n)
    else if g.char = '.' then
      if startsWith ['.', '.'] rest then .ok (.punctuator .dots, 2)
      else if startsWith ['.'] rest then .error ⟨.twoDots, g.position⟩
      else
        let after := rest.takeWhile (isDigit ·.char)
        if after.isEmpty then .error ⟨.unexpectedCharacter '.', g.position⟩
        else .error ⟨.digitsAfterDot (Glyph.text after), g.position⟩
    else if g.char = '\'' then .error ⟨.singleQuote, g.position⟩
    else .error ⟨.unexpectedCharacter g.char, g.position⟩

/-- The tokens of a text; a comment runs to the end of its line. -/
def tokens (finish : Position) : List Glyph → Tokens
  | [] => .done finish
  | g :: rest =>
    if isIgnored g.char then tokens finish rest
    else if g.char = '#' then tokens finish (rest.dropWhile fun h => !Glyph.isLineEnd h.char)
    else
      match lexeme finish g rest with
      | .error f => .fault f
      | .ok (l, extra) => .token ⟨l, g.position⟩ (tokens finish (rest.drop extra))
termination_by gs => gs.length
decreasing_by
  · simp
  · have := (rest.dropWhile_sublist fun h : Glyph => !Glyph.isLineEnd h.char).length_le
    simp only [List.length_cons]; omega
  · simp only [List.length_cons, List.length_drop]; omega

end Scan

/-- The tokens of a text. -/
def Tokens.ofText (text : String) : Tokens :=
  let (gs, finish) := Glyph.locate ⟨1, 1⟩ text.toList
  Scan.tokens finish gs

namespace Tokens

/-- The number of tokens before the end or the fault. -/
def length : Tokens → Nat
  | .token _ rest => rest.length + 1
  | _ => 0

end Tokens
end QueryBounds
