import QueryBounds.Text.Quoted

/-!
# Setting values

Settings come from outside with a value of any kind. Most of them are kept as they are and only
asked whether they hold; a few have to be of one kind. Numbers are equal when they denote the same
amount, and a truth value counts as one or zero among them.
-/
namespace QueryBounds

/-- A decimal number: its digits, how many of them are behind the point, and its sign. -/
structure Decimal where
  negative : Bool
  digits : Nat
  places : Nat
  deriving DecidableEq, Repr

namespace Decimal

/-- How many units of a place behind the point make one. -/
def scale (places : Nat) : Nat := Nat.pow 10 places

/-- The digits of a number without the zeros at their end. -/
def significant (digits : Nat) : List Char :=
  ((Nat.toDigits 10 digits).reverse.dropWhile (· == '0')).reverse

/-- Digits with a point behind the first `point` of them, and a digit on either side of it. -/
def positional (ds : List Char) (point : Int) : List Char :=
  if point ≤ 0 then ['0', '.'] ++ List.replicate (-point).toNat '0' ++ ds
  else
    let whole := point.toNat
    let behind := ds.drop whole
    ds.take whole ++ List.replicate (whole - ds.length) '0' ++ ['.']
      ++ if behind.isEmpty then ['0'] else behind

/-- Digits with a point behind the first, and the power of ten in two digits or more. -/
def scientific (ds : List Char) (point : Int) : List Char :=
  let power := Nat.toDigits 10 (point - 1).natAbs
  ds.take 1 ++ (if ds.length ≤ 1 then [] else '.' :: ds.drop 1)
    ++ ['e', if point < 1 then '-' else '+'] ++ List.replicate (2 - power.length) '0' ++ power

/-- The spelling of a number, positional unless it has more than sixteen digits before the point or
more than three zeros behind it. -/
def text (d : Decimal) : String :=
  let ds := significant d.digits
  let point : Int := (Nat.toDigits 10 d.digits).length - (d.places : Int)
  String.ofList <| (if d.negative then ['-'] else []) ++
    if ds.isEmpty then ['0', '.', '0']
    else if -3 ≤ point ∧ point ≤ 16 then positional ds point
    else scientific ds point

def numerator (d : Decimal) : Int := if d.negative then -(d.digits : Int) else d.digits

end Decimal

/-- A function called when a limit has been checked; one with a failure raises it when called.
Functions may share a name; `origin` tells apart those that were made on their own. -/
structure Hook where
  name : String
  failure : Option String
  origin : Nat
  deriving DecidableEq, Repr

inductive Value where
  | null
  | bool (b : Bool)
  | int (n : Int)
  | decimal (d : Decimal)
  | text (s : String)
  | list (items : List Value)
  | dict (entries : List (String × Value))
  | hook (h : Hook)
  deriving Inhabited

namespace Value

/-- Whether a value holds: anything but nothing, zero and what is empty. -/
def holds : Value → Bool
  | null => false
  | bool b => b
  | int n => n != 0
  | decimal d => d.digits != 0
  | text s => !s.isEmpty
  | list items => !items.isEmpty
  | dict entries => !entries.isEmpty
  | hook _ => true

/-- The name of the kind of a value. -/
def kind : Value → String
  | null => "NoneType"
  | bool _ => "bool"
  | int _ => "int"
  | decimal _ => "float"
  | text _ => "str"
  | list _ => "list"
  | dict _ => "dict"
  | hook _ => "function"

mutual

/-- The spelling of a value in a report, texts quoted. -/
def spelling : Value → String
  | null => "None"
  | bool b => if b then "True" else "False"
  | int n => toString n
  | decimal d => d.text
  | text s => Text.quoted s
  | list items => "[" ++ ", ".intercalate (itemSpellings items) ++ "]"
  | dict entries => "\x7b" ++ ", ".intercalate (entrySpellings entries) ++ "\x7d"
  | hook h => "<function " ++ h.name ++ ">"

def itemSpellings : List Value → List String
  | [] => []
  | v :: vs => v.spelling :: itemSpellings vs

def entrySpellings : List (String × Value) → List String
  | [] => []
  | (k, v) :: es => (Text.quoted k ++ ": " ++ v.spelling) :: entrySpellings es

end

/-- A value inside a sentence, texts as they are. -/
def display : Value → String
  | text s => s
  | v => v.spelling

def text? : Value → Option String
  | text s => some s
  | _ => none

/-- The amount that a value denotes, as a numerator and a number of decimal places. -/
def amount? : Value → Option (Int × Nat)
  | bool b => some (if b then 1 else 0, 0)
  | int n => some (n, 0)
  | decimal d => some (d.numerator, d.places)
  | _ => none

mutual

/-- Whether two values are equal. -/
def same : Value → Value → Bool
  | null, null => true
  | text s, text t => s == t
  | hook g, hook h => g == h
  | list xs, list ys => sameItems xs ys
  | dict es, dict fs => es.length == fs.length && sameEntries es fs
  | v, w =>
    match v.amount?, w.amount? with
    | some (a, p), some (b, q) => a * Decimal.scale q == b * Decimal.scale p
    | _, _ => false

def sameItems : List Value → List Value → Bool
  | [], [] => true
  | x :: xs, y :: ys => x.same y && sameItems xs ys
  | _, _ => false

/-- Whether every entry of the first mapping is in the second. -/
def sameEntries : List (String × Value) → List (String × Value) → Bool
  | [], _ => true
  | (k, v) :: es, fs =>
    (match fs.lookup k with
      | some w => v.same w
      | none => false) && sameEntries es fs

end

/-- Whether a value can be a member of a set: lists and mappings cannot. -/
def isHashable : Value → Bool
  | list _ => false
  | dict _ => false
  | _ => true

/-- The items that a value is made of, if it is a collection; a text is one of characters and a
mapping one of keys. -/
def items? : Value → Option (List Value)
  | list items => some items
  | text s => some (s.toList.map fun c => text c.toString)
  | dict entries => some (entries.map fun e => text e.1)
  | _ => none

end Value

/-- Named settings in the order in which they were given. -/
abbrev Settings := List (String × Value)

namespace Settings

/-- Sets a name; a name that is set already keeps its place. -/
def put (settings : Settings) (name : String) (v : Value) : Settings :=
  if settings.any (·.1 == name) then settings.map fun e => if e.1 == name then (name, v) else e
  else settings ++ [(name, v)]

/-- Settings from pairs, the last of several pairs with one name winning. -/
def ofPairs (pairs : List (String × Value)) : Settings :=
  pairs.foldl (fun settings e => settings.put e.1 e.2) []

def value (settings : Settings) (name : String) (otherwise : Value) : Value :=
  (settings.lookup name).getD otherwise

end Settings
end QueryBounds
