import QueryBounds.Files
import QueryBounds.Text.Numeral

/-!
# Arguments of the command line

Options may stand before and after the file. An option with a value takes the next argument,
whatever it is, or what follows an equals sign; of a repeated option the last value counts. Two
dashes end the options.
-/
namespace QueryBounds.Command

/-- The options of a command: those with a value, those without, and one-letter names of the
latter. -/
structure Form where
  valued : List String
  flags : List String
  letters : List (Char × String)

/-- Arguments taken apart. -/
structure Parsed where
  files : List String
  values : List (String × String)
  flags : List String

namespace Parsed

def withFile (p : Parsed) (file : String) : Parsed := { p with files := file :: p.files }

def withValue (p : Parsed) (name value : String) : Parsed :=
  { p with values := (name, value) :: p.values }

def withFlags (p : Parsed) (names : List String) : Parsed := { p with flags := names ++ p.flags }

/-- The last value of an option. -/
def value? (p : Parsed) (name : String) : Option String :=
  ((p.values.filter (·.1 == name)).getLast?).map (·.2)

/-- All values of an option in order. -/
def all (p : Parsed) (name : String) : List String :=
  (p.values.filter (·.1 == name)).map (·.2)

def has (p : Parsed) (name : String) : Bool := p.flags.contains name

end Parsed

/-- What is before the first equals sign of an argument, and what is after it if there is one. -/
def splitEquals (arg : String) : String × Option String :=
  let name := arg.toList.takeWhile (· != '=')
  match arg.toList.drop name.length with
  | [] => (arg, none)
  | _ :: rest => (String.ofList name, some (String.ofList rest))

/-- Takes arguments apart, unless one of them is wrong. -/
def Form.parse (form : Form) : List String → Option Parsed
  | [] => some ⟨[], [], []⟩
  | arg :: rest =>
    if arg = "--" then some ⟨rest, [], []⟩
    else if arg.startsWith "-" && arg != "-" then
      let (name, attached) := splitEquals arg
      if form.valued.contains name then
        match attached with
        | some v => (form.parse rest).map (·.withValue name v)
        | none =>
          match rest with
          | v :: others => (form.parse others).map (·.withValue name v)
          | [] => none
      else if form.flags.contains name then
        if attached.isSome then none else (form.parse rest).map (·.withFlags [name])
      else if arg.startsWith "--" then none
      else do
        let names ← (arg.toList.drop 1).mapM fun c => form.letters.lookup c
        (form.parse rest).map (·.withFlags names)
    else (form.parse rest).map (·.withFile arg)

/-! ## The two commands -/

structure CheckOptions where
  queryFile : String
  schemaFile : Option String
  maxAliases : Option Nat
  maxDepth : Option Nat
  allowed : List String
  flattenFragments : Bool
  ignoreIntrospection : Bool
  hideLimits : Bool
  verbose : Bool

structure MeasureOptions where
  queryFile : String
  allowed : List String
  flattenFragments : Bool

inductive Request where
  | check (o : CheckOptions)
  | measure (o : MeasureOptions)

def checkForm : Form where
  valued := ["--schema", "--max-aliases", "--allow-alias", "--max-depth"]
  flags := ["--flatten-fragments", "--ignore-introspection", "--hide-limits", "--verbose"]
  letters := [('v', "--verbose")]

def measureForm : Form where
  valued := ["--allow-alias"]
  flags := ["--flatten-fragments"]
  letters := []

/-- The one file that a command takes. -/
def oneFile : List String → Option String
  | [file] => some file
  | _ => none

/-- An optional number that must not be negative. -/
def bound? (p : Parsed) (name : String) : Option (Option Nat) :=
  match p.value? name with
  | none => some none
  | some text => do
    let n ← Text.wholeNumber? text
    if n < 0 then none else return some n.toNat

/-- What the arguments of the command line ask for, unless they are wrong. -/
def Request.parse (args : List String) : Option Request :=
  match (if args.head? = some "--" then args.tail else args) with
  | "check" :: rest => do
    let p ← checkForm.parse rest
    return .check {
      queryFile := ← oneFile p.files
      schemaFile := p.value? "--schema"
      maxAliases := ← bound? p "--max-aliases"
      maxDepth := ← bound? p "--max-depth"
      allowed := p.all "--allow-alias"
      flattenFragments := p.has "--flatten-fragments"
      ignoreIntrospection := p.has "--ignore-introspection"
      hideLimits := p.has "--hide-limits"
      verbose := p.has "--verbose" }
  | "measure" :: rest => do
    let p ← measureForm.parse rest
    return .measure {
      queryFile := ← oneFile p.files
      allowed := p.all "--allow-alias"
      flattenFragments := p.has "--flatten-fragments" }
  | _ => none

/-- The files that a request names. -/
def Request.files : Request → List String
  | .check o => o.queryFile :: o.schemaFile.toList
  | .measure o => [o.queryFile]

/-- Whether a path leads to a file. -/
def isFile (files : Files) (path : String) : Bool :=
  match files path with
  | .ok _ => true
  | .error _ => false

end QueryBounds.Command
