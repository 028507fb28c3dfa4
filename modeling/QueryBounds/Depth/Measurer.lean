import QueryBounds.Depth.Nesting

/-!
# Measuring depth

A measurer serves all operations of a document. It remembers the depth of a fragment when no cycle
cut the measurement of that fragment short, since then the path along which it was reached made no
difference.
-/
namespace QueryBounds.Depth

open Fragment (Index)

structure Measurer where
  index : Index
  flatten : Bool

/-- What a measurer has learned: the depths of whole fragments, and the number of spreads skipped
for being on the path. -/
structure Learned where
  memo : List (String × Nat)
  skipped : Nat
  deriving DecidableEq, Repr

namespace Learned

def start : Learned := ⟨[], 0⟩

/-- Remembers the depth of a fragment, unless a spread was skipped since `before`. -/
def remember (name : String) (depth : Nat) (before after : Learned) : Learned :=
  if after.skipped = before.skipped then { after with memo := (name, depth) :: after.memo }
  else after

end Learned

namespace Measurer

def step (m : Measurer) : Nat := fragmentStep m.flatten

/-- The greatest depth below a list of selections, reached along a path. -/
def walk (m : Measurer) (path : Path) : List Selection → Learned → Nat × Learned
  | [], s => (0, s)
  | .field _ body :: rest, s =>
    let (d, s) := m.walk path (body.getD []) s
    let (e, s) := m.walk path rest s
    (max (1 + d) e, s)
  | .inline _ body :: rest, s =>
    let (d, s) := m.walk path (body.getD []) s
    let (e, s) := m.walk path rest s
    (max (m.step + d) e, s)
  | .spread sp :: rest, s =>
    match _ : path.enter? sp.name with
    | none => m.walk path rest { s with skipped := s.skipped + 1 }
    | some inner =>
      match _ : m.index.find? sp.name with
      | none =>
        let (e, s) := m.walk path rest s
        (max m.step e, s)
      | some f =>
        match s.memo.lookup sp.name with
        | some d =>
          let (e, s) := m.walk path rest s
          (max (2 * m.step + d) e, s)
        | none =>
          let (d, after) := m.walk inner f.selections s
          let (e, s) := m.walk path rest (Learned.remember sp.name d s after)
          (max (2 * m.step + d) e, s)
  | .unknown :: rest, s => m.walk path rest s
termination_by sels => (m.index.remaining path, sizeOf sels)
decreasing_by
  · exact Prod.Lex.right _ (Selection.sizeOf_body_lt_field _ _ _)
  · exact Prod.Lex.right _ (Selection.sizeOf_rest_lt _ _)
  · exact Prod.Lex.right _ (Selection.sizeOf_body_lt_inline _ _ _)
  · exact Prod.Lex.right _ (Selection.sizeOf_rest_lt _ _)
  · exact Prod.Lex.right _ (Selection.sizeOf_rest_lt _ _)
  · exact Prod.Lex.right _ (Selection.sizeOf_rest_lt _ _)
  · exact Prod.Lex.right _ (Selection.sizeOf_rest_lt _ _)
  · exact Prod.Lex.left _ _ (Index.remaining_lt ‹_› ‹_›)
  · exact Prod.Lex.right _ (Selection.sizeOf_rest_lt _ _)
  · exact Prod.Lex.right _ (Selection.sizeOf_rest_lt _ _)

/-- The deepest of a list of selections and its depth, the first one where several are; `best` is
the deepest so far. -/
def deepest (m : Measurer) :
    List Selection → Nat × Option Selection → Learned → (Nat × Option Selection) × Learned
  | [], best, s => (best, s)
  | sel :: rest, best, s =>
    let (d, s) := m.walk .empty [sel] s
    m.deepest rest (if best.1 < d then (d, some sel) else best) s

/-- The depth of an operation and its first top-level selection that reaches it. -/
def measure (m : Measurer) (o : Operation) (s : Learned) :
    (Nat × Option Selection) × Learned :=
  m.deepest o.selections (0, none) s

end Measurer

/-- The depth of an operation, measured on its own. -/
def ofOperation (index : Index) (flatten : Bool) (o : Operation) : Nat :=
  (Measurer.measure ⟨index, flatten⟩ o .start).1.1

end QueryBounds.Depth
