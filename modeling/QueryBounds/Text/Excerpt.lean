import QueryBounds.Text.Glyph

/-!
# Excerpts of a text

A place in a text is shown by its line, the lines around it, and a caret under its column. A long
line is shown alone, cut into pieces of eighty characters; the caret stands under the piece that
holds its column, and under the last piece for a place behind the line.
-/
namespace QueryBounds.Text

/-- The lines of a text. -/
def lines : List Char → List (List Char)
  | [] => [[]]
  | '\r' :: '\n' :: cs => [] :: lines cs
  | c :: cs =>
    if Glyph.isLineEnd c then [] :: lines cs
    else match lines cs with
      | line :: more => (c :: line) :: more
      | [] => [[c]]

/-- The pieces of a line, eighty characters each but the last. -/
def pieces : List Char → List (List Char)
  | [] => []
  | c :: cs => (c :: cs.take 79) :: pieces (cs.drop 79)
termination_by cs => cs.length
decreasing_by simp only [List.length_cons, List.length_drop]; omega

def padLeft (width : Nat) (cs : List Char) : List Char :=
  List.replicate (width - cs.length) ' ' ++ cs

/-- Lines behind their margins; the margins are made equally wide, and nothing follows the margin
of an empty line. -/
def withMargins (rows : List (String × Option (List Char))) : String :=
  let shown := rows.filterMap fun (margin, line) => line.map (margin.toList, ·)
  let width := (shown.map (·.1.length)).foldl max 0
  let row (margin line : List Char) : List Char :=
    padLeft width margin ++ if line.isEmpty then [] else ' ' :: line
  "\n".intercalate (shown.map fun (margin, line) => String.ofList (row margin line))

/-- The text around a place. -/
def excerpt (text : String) (p : Position) : String :=
  let all := lines text.toList
  let line := (all[p.line - 1]?).getD []
  let caret (column : Nat) := padLeft column ['^']
  if line.length > 120 then
    let parts := pieces line
    let part := min ((p.column - 1) / 80) (parts.length - 1)
    withMargins <|
      [(toString p.line ++ " |", parts[0]?)]
        ++ ((parts.drop 1).take part).map (fun cs => ("|", some cs))
        ++ [("|", some (caret (p.column - 80 * part))), ("|", parts[part + 1]?)]
  else
    withMargins [
      (toString (p.line - 1) ++ " |", if p.line ≤ 1 then none else all[p.line - 2]?),
      (toString p.line ++ " |", some line),
      ("|", some (caret p.column)),
      (toString (p.line + 1) ++ " |", all[p.line]?)]

end QueryBounds.Text
