import QueryBounds.Command.Run
import QueryBounds.Text.Identifier

/-!
# The program

Reads the files that the arguments name, runs the command on them, and writes what it says. All
decisions are made by the command itself.
-/
namespace QueryBounds

/-- What a path leads to. The system has one code for a directory in the place of a file. -/
def readPath (path : String) : IO (Except PathTrouble ByteArray) := do
  try
    return .ok (← IO.FS.readBinFile path)
  catch e =>
    return .error <| match e with
      | .inappropriateType _ 21 _ => .isDirectory
      | .inappropriateType _ _ _ => .notDirectory
      | _ => .missing

/-- The files behind paths, each under the path as given and under its normal form. -/
def readPaths (paths : List String) : IO Files := do
  let found ← (paths.flatMap fun p => [p, Files.normalPath p]).mapM fun p => do
    return (p, ← readPath p)
  return fun path => (found.lookup path).getD (.error .missing)

def usage : String := "Usage: query-bounds (check | measure) [OPTIONS] QUERY_FILE"

end QueryBounds

open QueryBounds in
def main (args : List String) : IO UInt32 := do
  let paths := ((Command.Request.parse args).map (·.files)).getD []
  let fresh := Text.identifier (← IO.getRandomBytes 16).toList
  match (Command.execute (← readPaths paths) fresh args).2 with
  | .usage =>
    IO.eprintln usage
    return 2
  | .exited code output errors =>
    IO.print output
    IO.eprint errors
    return code.toUInt32
  | .crashed _ => return 1
