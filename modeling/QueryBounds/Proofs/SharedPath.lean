import QueryBounds.Proofs.Counting
import QueryBounds.Proofs.Measuring
import QueryBounds.Proofs.RootFields
import QueryBounds.Proofs.Visiting

/-!
# Counting, measuring and looking for introspection on one path

The three traversals as programs over a single path. Nothing in a fragment is smaller than the spread
that leads into it, so a program does not go down a document; it is given room for so many expansions
inside each other, and fails when it needs more. One more than the index has names is always enough:
the program returns what the walk along paths of its own returns, and the path is empty again.
-/
namespace QueryBounds

open Fragment (Index)
open Visiting (scope)

/-! ## The programs -/

namespace Alias.Counter

/-- Counts below a list of selections, given how to count what a fragment adds. -/
def visit (c : Counter) (expand : String → Progress → Visiting (Bool × Progress)) :
    List Selection → Progress → Visiting (Bool × Progress)
  | [], s => pure (false, s)
  | .field f body :: rest, s =>
    Visiting.andThen (Visiting.andThen (pure (c.tally f s)) (c.visit expand (body.getD [])))
      (c.visit expand rest)
  | .inline _ body :: rest, s =>
    Visiting.andThen (c.visit expand (body.getD []) s) (c.visit expand rest)
  | .spread sp :: rest, s =>
    Visiting.andThen
      (scope sp.name fun entered =>
        if entered then expand sp.name s
        else pure (false, { s with skipped := s.skipped + 1 }))
      (c.visit expand rest)
  | .unknown :: rest, s => c.visit expand rest s
termination_by sels => sizeOf sels
decreasing_by
  · exact Selection.sizeOf_body_lt_field _ _ _
  · exact Selection.sizeOf_rest_lt _ _
  · exact Selection.sizeOf_body_lt_inline _ _ _
  · exact Selection.sizeOf_rest_lt _ _
  · exact Selection.sizeOf_rest_lt _ _
  · exact Selection.sizeOf_rest_lt _ _

/-- Counts what a fragment adds, from the memo if that stays within the limit. -/
def visitFragment (c : Counter) : Nat → String → Progress → Visiting (Bool × Progress)
  | 0, _, _ => .full
  | room + 1, name, s =>
    match c.remembered? name s with
    | some s => pure (false, s)
    | none =>
      match c.index.find? name with
      | none => pure (false, s)
      | some f =>
        Visiting.andThen (c.visit (c.visitFragment room) f.selections s) fun after =>
          pure (false, Progress.remember name s after)

/-- Counts operations in order, up to the first at which the traversal stops. -/
def visitOperations (c : Counter) (room : Nat) : List Operation → Progress → Visiting Progress
  | [], s => pure s
  | o :: os, s => do
    let r ← c.visit (c.visitFragment room) o.selections s
    if r.1 then pure r.2 else c.visitOperations room os r.2

def visitDocument (c : Counter) (room : Nat) (d : Document) (s : Progress) : Visiting Progress :=
  c.visitOperations room d.operations s

end Alias.Counter

namespace Depth

namespace Measurer

/-- The greatest depth below a list of selections, given the depth of fragments. -/
def visit (m : Measurer) (expand : String → Learned → Visiting (Nat × Learned)) :
    List Selection → Learned → Visiting (Nat × Learned)
  | [], s => pure (0, s)
  | .field _ body :: rest, s => do
    let r ← m.visit expand (body.getD []) s
    let q ← m.visit expand rest r.2
    pure (max (1 + r.1) q.1, q.2)
  | .inline _ body :: rest, s => do
    let r ← m.visit expand (body.getD []) s
    let q ← m.visit expand rest r.2
    pure (max (m.step + r.1) q.1, q.2)
  | .spread sp :: rest, s => do
    let r ← scope sp.name fun entered =>
      if entered then
        match m.index.find? sp.name with
        | none => pure (m.step, s)
        | some _ => do
          let r ← expand sp.name s
          pure (2 * m.step + r.1, r.2)
      else pure (0, { s with skipped := s.skipped + 1 })
    let q ← m.visit expand rest r.2
    pure (max r.1 q.1, q.2)
  | .unknown :: rest, s => m.visit expand rest s
termination_by sels => sizeOf sels
decreasing_by
  · exact Selection.sizeOf_body_lt_field _ _ _
  · exact Selection.sizeOf_rest_lt _ _
  · exact Selection.sizeOf_body_lt_inline _ _ _
  · exact Selection.sizeOf_rest_lt _ _
  · exact Selection.sizeOf_rest_lt _ _
  · exact Selection.sizeOf_rest_lt _ _

/-- The depth of a fragment, from the memo if it is there. -/
def visitFragment (m : Measurer) : Nat → String → Learned → Visiting (Nat × Learned)
  | 0, _, _ => .full
  | room + 1, name, s =>
    match s.memo.lookup name with
    | some d => pure (d, s)
    | none =>
      match m.index.find? name with
      | none => pure (0, s)
      | some f => do
        let r ← m.visit (m.visitFragment room) f.selections s
        pure (r.1, Learned.remember name r.1 s r.2)

/-- The deepest of a list of selections and its depth; `best` is the deepest so far. -/
def visitDeepest (m : Measurer) (room : Nat) : List Selection → Nat × Option Selection → Learned →
    Visiting ((Nat × Option Selection) × Learned)
  | [], best, s => pure (best, s)
  | sel :: rest, best, s => do
    let r ← m.visit (m.visitFragment room) [sel] s
    m.visitDeepest room rest (if best.1 < r.1 then (r.1, some sel) else best) r.2

def visitOperation (m : Measurer) (room : Nat) (o : Operation) (s : Learned) :
    Visiting ((Nat × Option Selection) × Learned) :=
  m.visitDeepest room o.selections (0, none) s

end Measurer

/-- The names of the fields at the level of a list of selections, given those of fragments. -/
def visitRootFields (i : Index) (expand : Fragment → Visiting (List String)) :
    List Selection → Visiting (List String)
  | [] => pure []
  | .field f _ :: rest => do
    let names ← visitRootFields i expand rest
    pure (f.name :: names)
  | .inline _ body :: rest => do
    let inside ← visitRootFields i expand (body.getD [])
    let names ← visitRootFields i expand rest
    pure (inside ++ names)
  | .spread s :: rest => do
    let inside ← scope s.name fun entered =>
      match if entered then i.find? s.name else none with
      | none => pure []
      | some f => expand f
    let names ← visitRootFields i expand rest
    pure (inside ++ names)
  | .unknown :: rest => visitRootFields i expand rest
termination_by sels => sizeOf sels
decreasing_by
  · exact Selection.sizeOf_rest_lt _ _
  · exact Selection.sizeOf_body_lt_inline _ _ _
  · exact Selection.sizeOf_rest_lt _ _
  · exact Selection.sizeOf_rest_lt _ _
  · exact Selection.sizeOf_rest_lt _ _

/-- The names of the fields at the level of a fragment. -/
def visitRootFieldsOf (i : Index) : Nat → Fragment → Visiting (List String)
  | 0, _ => .full
  | room + 1, f => visitRootFields i (visitRootFieldsOf i room) f.selections

def visitIntrospection (i : Index) (room : Nat) (o : Operation) : Visiting Bool := do
  let names ← visitRootFields i (visitRootFieldsOf i room) o.selections
  pure (!names.isEmpty && names.all metaFields.contains && names.any introspectionFields.contains)

end Depth

/-! ## The programs return what the walks return -/

variable {p : Path} {sels : List Selection} {room : Nat}

namespace Alias.Counter

/-- What an entered fragment adds, whether it is remembered, missing or walked. -/
def walkFragment (c : Counter) (inner : Path) (name : String) (s : Progress) : Bool × Progress :=
  match c.remembered? name s with
  | some s => (false, s)
  | none =>
    match c.index.find? name with
    | none => (false, s)
    | some f => andThen (c.walk inner f.selections s) fun after =>
        (false, Progress.remember name s after)

theorem walk_enter (c : Counter) {inner : Path} {sp : Spread} (rest : List Selection)
    (s : Progress) (he : p.enter? sp.name = some inner) :
    c.walk p (.spread sp :: rest) s = andThen (c.walkFragment inner sp.name s) (c.walk p rest) := by
  rw [walk_spread, he, walkFragment]
  cases c.remembered? sp.name s with
  | some s' => rfl
  | none =>
    cases c.index.find? sp.name with
    | none => rfl
    | some f => rw [andThen_assoc]; rfl

/-- With room for one more expansion than there are names left to enter, a program counts what the
walk counts. -/
theorem visit_returns (c : Counter) (hp : c.index.Branch p)
    (hs : ∀ n ∈ spreadNames sels, c.index.Continues p n) (hroom : c.index.remaining p < room)
    (s : Progress) :
    (c.visit (c.visitFragment room) sels s).Returns c.index p (c.walk p sels s) := by
  induction p, sels using c.index.walk_induction generalizing room s with
  | nil p =>
    rw [visit, walk]
    exact Visiting.returns_pure _
  | field p h body rest ihb ihr =>
    simp only [spreadNames, List.forall_mem_append] at hs
    rw [visit, walk]
    exact ((Visiting.returns_pure _).andThen (ihb hp hs.1 hroom)).andThen (ihr hp hs.2 hroom)
  | inline p h body rest ihb ihr =>
    simp only [spreadNames, List.forall_mem_append] at hs
    rw [visit, walk]
    exact (ihb hp hs.1 hroom s).andThen (ihr hp hs.2 hroom)
  | refused p sp rest he ih =>
    simp only [spreadNames, List.forall_mem_cons] at hs
    rw [visit, walk_spread, he]
    refine (Visiting.Returns.refused he ?_).andThen (r := (false, _)) (ih hp hs.2 hroom)
    exact Visiting.returns_pure _
  | undefined p inner sp rest he hf ih =>
    simp only [spreadNames, List.forall_mem_cons] at hs
    obtain ⟨room, rfl⟩ := Nat.exists_eq_succ_of_ne_zero (Nat.ne_zero_of_lt hroom)
    rw [visit, walk_enter c rest s he]
    refine (Visiting.Returns.entered hp hs.1 he ?_).andThen (ih hp hs.2 hroom)
    rw [if_pos rfl, visitFragment, walkFragment]
    cases c.remembered? sp.name s with
    | some s' => exact Visiting.returns_pure _
    | none =>
      rw [hf]
      exact Visiting.returns_pure _
  | defined p inner sp f rest he hf ihf ihr =>
    simp only [spreadNames, List.forall_mem_cons] at hs
    obtain ⟨room, rfl⟩ := Nat.exists_eq_succ_of_ne_zero (Nat.ne_zero_of_lt hroom)
    rw [visit, walk_enter c rest s he]
    refine (Visiting.Returns.entered hp hs.1 he ?_).andThen (ihr hp hs.2 hroom)
    rw [if_pos rfl, visitFragment, walkFragment]
    cases c.remembered? sp.name s with
    | some s' => exact Visiting.returns_pure _
    | none =>
      rw [hf]
      have hbody := ihf (hp.enter hs.1 he) (Index.continues_body he hf)
        (Index.remaining_lt_room he hf hroom) s
      exact hbody.andThen fun after => Visiting.returns_pure _
  | unknown p rest ih =>
    simp only [spreadNames] at hs
    rw [visit, walk]
    exact ih hp hs hroom s

theorem visitDocument_returns (c : Counter) (hroom : c.index.names.length < room) (d : Document)
    (s : Progress) :
    (c.visitDocument room d s).Returns c.index .empty (c.countDocument d s) := by
  rw [visitDocument, countDocument]
  induction d.operations generalizing s with
  | nil => exact Visiting.returns_pure s
  | cons o os ih =>
    have hwalk := c.visit_returns Index.branch_empty (Index.continues_empty o.selections)
      (Index.remaining_empty.trans_lt hroom) s
    rw [visitOperations, countOperations]
    refine hwalk.bind ?_
    rcases c.walk .empty o.selections s with ⟨_ | _, s'⟩
    · exact ih s'
    · exact Visiting.returns_pure s'

end Alias.Counter

namespace Depth.Measurer

/-- The depth of a spread, and then that of the selections beside it. -/
theorem walk_spread_cons (m : Measurer) (p : Path) (sp : Spread) (rest : List Selection)
    (s : Learned) :
    m.walk p (.spread sp :: rest) s =
      (max (m.walk p [.spread sp] s).1 (m.walk p rest (m.walk p [.spread sp] s).2).1,
        (m.walk p rest (m.walk p [.spread sp] s).2).2) := by
  simp only [walk_spread]
  cases p.enter? sp.name with
  | none => simp [walk]
  | some inner =>
    cases m.index.find? sp.name with
    | none => simp [walk]
    | some f => cases s.memo.lookup sp.name <;> simp [walk]

theorem visit_returns (m : Measurer) (hp : m.index.Branch p)
    (hs : ∀ n ∈ spreadNames sels, m.index.Continues p n) (hroom : m.index.remaining p < room)
    (s : Learned) :
    (m.visit (m.visitFragment room) sels s).Returns m.index p (m.walk p sels s) := by
  induction p, sels using m.index.walk_induction generalizing room s with
  | nil p =>
    rw [visit, walk]
    exact Visiting.returns_pure _
  | field p h body rest ihb ihr =>
    simp only [spreadNames, List.forall_mem_append] at hs
    rw [visit, walk]
    exact (ihb hp hs.1 hroom s).bind ((ihr hp hs.2 hroom _).bind (Visiting.returns_pure _))
  | inline p h body rest ihb ihr =>
    simp only [spreadNames, List.forall_mem_append] at hs
    rw [visit, walk]
    exact (ihb hp hs.1 hroom s).bind ((ihr hp hs.2 hroom _).bind (Visiting.returns_pure _))
  | refused p sp rest he ih =>
    simp only [spreadNames, List.forall_mem_cons] at hs
    rw [visit, walk_spread_cons]
    refine (Visiting.Returns.refused he ?_).bind
      ((ih hp hs.2 hroom _).bind (Visiting.returns_pure _))
    simp only [walk_spread, he, walk]
    exact Visiting.returns_pure _
  | undefined p inner sp rest he hf ih =>
    simp only [spreadNames, List.forall_mem_cons] at hs
    rw [visit, walk_spread_cons]
    refine (Visiting.Returns.entered hp hs.1 he ?_).bind
      ((ih hp hs.2 hroom _).bind (Visiting.returns_pure _))
    simp only [walk_spread, he, hf, walk, Nat.max_zero]
    exact Visiting.returns_pure _
  | defined p inner sp f rest he hf ihf ihr =>
    simp only [spreadNames, List.forall_mem_cons] at hs
    obtain ⟨room, rfl⟩ := Nat.exists_eq_succ_of_ne_zero (Nat.ne_zero_of_lt hroom)
    rw [visit, walk_spread_cons]
    refine (Visiting.Returns.entered hp hs.1 he ?_).bind
      ((ihr hp hs.2 hroom _).bind (Visiting.returns_pure _))
    simp only [walk_spread, he, hf, walk, Nat.max_zero, if_true, visitFragment]
    cases s.memo.lookup sp.name with
    | some d => exact (Visiting.returns_pure _).bind (Visiting.returns_pure _)
    | none =>
      refine Visiting.Returns.bind (Visiting.Returns.bind ?_ (Visiting.returns_pure _))
        (Visiting.returns_pure _)
      exact ihf (hp.enter hs.1 he) (Index.continues_body he hf)
        (Index.remaining_lt_room he hf hroom) s
  | unknown p rest ih =>
    simp only [spreadNames] at hs
    rw [visit, walk]
    exact ih hp hs hroom s

theorem visitOperation_returns (m : Measurer) (hroom : m.index.names.length < room)
    (o : Operation) (s : Learned) :
    (m.visitOperation room o s).Returns m.index .empty (m.measure o s) := by
  rw [visitOperation, measure]
  generalize ((0, none) : Nat × Option Selection) = best
  induction o.selections generalizing best s with
  | nil => exact Visiting.returns_pure _
  | cons sel rest ih =>
    have hwalk := m.visit_returns Index.branch_empty (Index.continues_empty [sel])
      (Index.remaining_empty.trans_lt hroom) s
    rw [visitDeepest, deepest]
    exact hwalk.bind (ih _ _)

end Depth.Measurer

namespace Depth

variable {i : Index}

theorem visitRootFields_returns (hp : i.Branch p) (hs : ∀ n ∈ spreadNames sels, i.Continues p n)
    (hroom : i.remaining p < room) :
    (visitRootFields i (visitRootFieldsOf i room) sels).Returns i p (rootFieldNames i p sels) := by
  induction p, sels using i.walk_induction generalizing room with
  | nil p =>
    rw [visitRootFields, rootFieldNames]
    exact Visiting.returns_pure _
  | field p h body rest ihb ihr =>
    simp only [spreadNames, List.forall_mem_append] at hs
    rw [visitRootFields, rootFieldNames]
    exact (ihr hp hs.2 hroom).bind (Visiting.returns_pure _)
  | inline p h body rest ihb ihr =>
    simp only [spreadNames, List.forall_mem_append] at hs
    rw [visitRootFields, rootFieldNames]
    exact (ihb hp hs.1 hroom).bind ((ihr hp hs.2 hroom).bind (Visiting.returns_pure _))
  | refused p sp rest he ih =>
    simp only [spreadNames, List.forall_mem_cons] at hs
    rw [visitRootFields, rootFieldNames_spread, he]
    refine (Visiting.Returns.refused he ?_).bind
      ((ih hp hs.2 hroom).bind (Visiting.returns_pure _))
    exact Visiting.returns_pure _
  | undefined p inner sp rest he hf ih =>
    simp only [spreadNames, List.forall_mem_cons] at hs
    rw [visitRootFields, rootFieldNames_spread, he]
    refine (Visiting.Returns.entered hp hs.1 he ?_).bind
      ((ih hp hs.2 hroom).bind (Visiting.returns_pure _))
    simp only [hf, if_true]
    exact Visiting.returns_pure _
  | defined p inner sp f rest he hf ihf ihr =>
    simp only [spreadNames, List.forall_mem_cons] at hs
    obtain ⟨room, rfl⟩ := Nat.exists_eq_succ_of_ne_zero (Nat.ne_zero_of_lt hroom)
    rw [visitRootFields, rootFieldNames_spread, he]
    refine (Visiting.Returns.entered hp hs.1 he ?_).bind
      ((ihr hp hs.2 hroom).bind (Visiting.returns_pure _))
    simp only [hf, if_true, visitRootFieldsOf]
    exact ihf (hp.enter hs.1 he) (Index.continues_body he hf)
      (Index.remaining_lt_room he hf hroom)
  | unknown p rest ih =>
    simp only [spreadNames] at hs
    rw [visitRootFields, rootFieldNames]
    exact ih hp hs hroom

theorem visitIntrospection_returns (hroom : i.names.length < room) (o : Operation) :
    (visitIntrospection i room o).Returns i .empty (isIntrospection i o) := by
  have hnames := visitRootFields_returns Index.branch_empty (Index.continues_empty o.selections)
    (Index.remaining_empty.trans_lt hroom)
  exact hnames.bind (Visiting.returns_pure _)

end Depth

/-- Counting, measuring and looking for introspection end on every document, however its fragments
spread each other, with what the walks say; it takes room for one expansion more than the index has
names, and more room makes no difference. On the way the path holds names that differ, each spread by
the fragment of the one before and all but the last defined; afterwards it is empty again, also when
the count has stopped at the limit. -/
theorem traversals_return (c : Alias.Counter) (d : Document) (s : Alias.Progress)
    (m : Depth.Measurer) (o : Operation) (l : Depth.Learned) (i : Index) (spare : Nat) :
    (c.visitDocument (c.index.names.length + 1 + spare) d s).Returns c.index .empty
        (c.countDocument d s) ∧
      (m.visitOperation (m.index.names.length + 1 + spare) o l).Returns m.index .empty
        (m.measure o l) ∧
      (Depth.visitIntrospection i (i.names.length + 1 + spare) o).Returns i .empty
        (Depth.isIntrospection i o) :=
  ⟨c.visitDocument_returns (by omega) d s, m.visitOperation_returns (by omega) o l,
    Depth.visitIntrospection_returns (by omega) o⟩

end QueryBounds
