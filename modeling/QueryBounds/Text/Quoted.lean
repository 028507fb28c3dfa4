import QueryBounds.Text.Printable

/-!
# Quoted texts

A text is quoted with single quotes, or with double quotes when it holds a single quote and no
double one. The quote in use and the backslash are escaped, and so is what has no visible form.
-/
namespace QueryBounds.Text

/-- A number in lower-case hexadecimal, filled up to a width with zeros. -/
def paddedHex (width n : Nat) : List Char :=
  let ds := Nat.toDigits 16 n
  List.replicate (width - ds.length) '0' ++ ds

/-- A character as it stands between quotes. -/
def escapeChar (quote c : Char) : List Char :=
  if c = quote ∨ c = '\\' then ['\\', c]
  else if c = '\n' then ['\\', 'n']
  else if c = '\r' then ['\\', 'r']
  else if c = '\t' then ['\\', 't']
  else if isPrintable c then [c]
  else if c.toNat < 0x100 then ['\\', 'x'] ++ paddedHex 2 c.toNat
  else if c.toNat < 0x10000 then ['\\', 'u'] ++ paddedHex 4 c.toNat
  else ['\\', 'U'] ++ paddedHex 8 c.toNat

/-- The quote that a text is written with. -/
def quoteFor (cs : List Char) : Char :=
  if '\'' ∈ cs ∧ '"' ∉ cs then '"' else '\''

def quoted (s : String) : String :=
  let quote := quoteFor s.toList
  String.ofList (quote :: s.toList.flatMap (escapeChar quote) ++ [quote])

end QueryBounds.Text
