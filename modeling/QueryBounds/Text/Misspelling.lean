/-!
# Misspellings

An unknown name may be a misspelling of a known one. How far two names are apart is the number of
edits that lead from one to the other, where an edit adds, drops or changes a letter or swaps two
neighbours; letters of either case are alike, and the case of a whole name counts as one edit.
-/
namespace QueryBounds.Text

/-! ## Counting edits

Edits are counted in a table with a row for every start of one text and a column for every start of
the other. -/

/-- The row of a table of edits under two other rows, `up` and `upper`, from some column on. The row
belongs to the letter `c` after the letter `last`, and `left` is the count in that column. -/
def editRow (c : Char) (last previous : Option Char) (left : Nat) :
    List Char → List Nat → List Nat → List Nat
  | d :: ds, corner :: above :: up, swap :: upper =>
    let plain := min (min (above + 1) (left + 1)) (if c = d then corner else corner + 1)
    let count := if last = some d ∧ previous = some c then min plain (swap + 1) else plain
    left :: editRow c last (some d) count ds (above :: up) upper
  | _, _, _ => [left]

/-- The number of edits from one text to another. -/
def edits (a b : List Char) : Nat :=
  let first := List.range (b.length + 1)
  rows none 1 first (0 :: first) a
where
  /-- The count in the last column of the last row. -/
  rows (last : Option Char) (n : Nat) (up upper : List Nat) : List Char → Nat
    | [] => up.getLastD 0
    | c :: cs => rows (some c) (n + 1) (editRow c last none n b up upper) (0 :: up) cs

/-- How far two names are apart. -/
def distance (a b : String) : Nat :=
  if a = b then 0
  else if a.toLower = b.toLower then 1
  else edits a.toLower.toList b.toLower.toList

/-! ## What may have been meant -/

/-- The runs of digits and of other letters in a name, those of digits with their amount. -/
def runs (name : String) : List (Nat × List Char) :=
  (name.toList.splitBy fun a b => a.isDigit == b.isDigit).map fun cs =>
    (if cs.all (·.isDigit) then ((String.ofList cs).toNat?).getD 0 else 0, cs)

/-- The order of names by letters and amounts. -/
def compareNames (a b : String) : Ordering :=
  List.compareLex (compareLex (compareOn (·.1)) (compareOn (·.2))) (runs a) (runs b)

/-- The known names that are near a name, the nearest first; longer names may be farther apart. -/
def similar (name : String) (known : List String) : List String :=
  let near := known.filter fun k => distance name k ≤ name.length * 2 / 5 + 1
  near.mergeSort fun a b => (compareLex (compareOn (distance name)) compareNames a b).isLE

/-- Texts as a choice. -/
def oneOf : List String → String
  | [] => ""
  | [a] => a
  | [a, b] => a ++ " or " ++ b
  | items => ", ".intercalate items.dropLast ++ ", or " ++ items.getLastD ""

/-- The question whether one of the nearest names was meant, if there are any. -/
def didYouMean (name : String) (known : List String) : String :=
  match (similar name known).take 5 with
  | [] => ""
  | names => " Did you mean " ++ oneOf (names.map fun n => "'" ++ n ++ "'") ++ "?"

end QueryBounds.Text
