import QueryBounds.Alias.Occurrences

/-!
# Counting aliases

A counter walks documents one after another over one fragment index. It remembers how many
aliases a fragment adds, so a shared fragment is walked once, but only when no cycle cut the walk
of that fragment short, and it takes a remembered number at once only when that stays within the
limit; otherwise it walks again and stops at the very field that crosses the limit.
-/
namespace QueryBounds.Alias

open Fragment (Index)

/-- Whether a count is above a limit. -/
def exceeds (limit : Option Int) (count : Nat) : Bool :=
  match limit with
  | none => false
  | some n => n < (count : Int)

/-- How far a counter has come: the running count, the field at which it last crossed the limit,
the aliases that whole fragments add, and the number of spreads skipped for being on the path. -/
structure Progress where
  count : Nat
  exceededAt : Option Field
  memo : List (String × Nat)
  skipped : Nat
  deriving DecidableEq, Repr

namespace Progress

def start : Progress := ⟨0, none, [], 0⟩

/-- Remembers what a fragment added since `before`, unless a spread was skipped on the way. -/
def remember (name : String) (before after : Progress) : Progress :=
  if after.skipped = before.skipped then
    { after with memo := (name, after.count - before.count) :: after.memo }
  else after

end Progress

structure Counter where
  index : Index
  allowed : List String
  limit : Option Int

namespace Counter

/-- Counts a field; the walk stops, which is the first component, when that crosses the limit. -/
def tally (c : Counter) (f : Field) (s : Progress) : Bool × Progress :=
  if isCounted c.allowed f then
    let s := { s with count := s.count + 1 }
    if exceeds c.limit s.count then (true, { s with exceededAt := some f }) else (false, s)
  else (false, s)

/-- The progress after a remembered fragment, if it is remembered and stays within the limit. -/
def remembered? (c : Counter) (name : String) (s : Progress) : Option Progress :=
  match s.memo.lookup name with
  | none => none
  | some k => if exceeds c.limit (s.count + k) then none else some { s with count := s.count + k }

/-- Goes on after a walk, unless it stopped. -/
def andThen {σ : Type} (r : Bool × σ) (next : σ → Bool × σ) : Bool × σ :=
  if r.1 then r else next r.2

/-- Counts below a list of selections, reached along a path. -/
def walk (c : Counter) (path : Path) : List Selection → Progress → Bool × Progress
  | [], s => (false, s)
  | .field f body :: rest, s =>
    andThen (andThen (c.tally f s) (c.walk path (body.getD []))) (c.walk path rest)
  | .inline _ body :: rest, s => andThen (c.walk path (body.getD []) s) (c.walk path rest)
  | .spread sp :: rest, s =>
    match _ : path.enter? sp.name with
    | none => c.walk path rest { s with skipped := s.skipped + 1 }
    | some inner =>
      match c.remembered? sp.name s with
      | some s => c.walk path rest s
      | none =>
        match _ : c.index.find? sp.name with
        | none => c.walk path rest s
        | some f =>
          andThen (c.walk inner f.selections s) fun after =>
            c.walk path rest (Progress.remember sp.name s after)
  | .unknown :: rest, s => c.walk path rest s
termination_by sels => (c.index.remaining path, sizeOf sels)
decreasing_by
  · exact Prod.Lex.right _ (Selection.sizeOf_body_lt_field _ _ _)
  · exact Prod.Lex.right _ (Selection.sizeOf_rest_lt _ _)
  · exact Prod.Lex.right _ (Selection.sizeOf_body_lt_inline _ _ _)
  · exact Prod.Lex.right _ (Selection.sizeOf_rest_lt _ _)
  · exact Prod.Lex.right _ (Selection.sizeOf_rest_lt _ _)
  · exact Prod.Lex.right _ (Selection.sizeOf_rest_lt _ _)
  · exact Prod.Lex.right _ (Selection.sizeOf_rest_lt _ _)
  · exact Prod.Lex.left _ _ (Index.remaining_lt ‹_› ‹_›)
  · exact Prod.Lex.right _ (Selection.sizeOf_rest_lt _ _)
  · exact Prod.Lex.right _ (Selection.sizeOf_rest_lt _ _)

/-- Counts operations in order, up to the first at which the walk stops. -/
def countOperations (c : Counter) : List Operation → Progress → Progress
  | [], s => s
  | o :: os, s =>
    match c.walk .empty o.selections s with
    | (true, s) => s
    | (false, s) => c.countOperations os s

/-- Counts a document; its own fragments play no part, only those of the counter's index. -/
def countDocument (c : Counter) (d : Document) (s : Progress) : Progress :=
  c.countOperations d.operations s

end Counter

/-- Counts the aliases of a document, up to the first field that crosses the limit. -/
def count (d : Document) (allowed : List String) (limit : Option Int) : Progress :=
  Counter.countDocument ⟨Index.ofDocument d, allowed, limit⟩ d .start

end QueryBounds.Alias
