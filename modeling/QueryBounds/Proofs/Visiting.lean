import Mathlib.Data.List.Chain
import Mathlib.Data.List.Nodup
import Mathlib.Data.List.Perm.Subperm
import QueryBounds.Alias.Counter
import QueryBounds.Proofs.Spreads

/-!
# Traversals that share one path

A walk hands every branch a path of its own. A program keeps a single path instead, enters a name
before it expands a fragment and leaves the name afterwards, and nothing in its shape bounds how many
expansions are under way at once. What does is the invariant of the path: no name occurs twice and
every name is spread by the fragment of the one before, so that all but the last are names of the
index.
-/
namespace QueryBounds

open Fragment (Index)

theorem Path.exit?_of_enter? {p inner : Path} {name : String} (h : p.enter? name = some inner) :
    inner.exit? name = some p := by
  obtain ⟨hname, hinner⟩ := Path.enter?_eq_some h
  have hmem : name ∈ inner.names := by simp [hinner]
  have herase : inner.names.erase name = p.names := by
    rw [hinner, List.erase_append_right _ hname, List.erase_cons_head, List.append_nil]
  rw [Path.exit?, if_pos hmem, herase]

/-! ## Nested expansions -/

namespace Fragment.Index

/-- What a path holds while fragments are expanded along it. -/
structure Branch (i : Index) (p : Path) : Prop where
  nodup : p.names.Nodup
  chain : p.names.IsChain i.Spreads
  defined : ∀ name ∈ p.names.dropLast, name ∈ i.names
  length_le : p.names.length ≤ i.names.length + 1

/-- The fragment entered last, if there is one, spreads the name. -/
def Continues (i : Index) (p : Path) (name : String) : Prop :=
  ∀ last ∈ p.names.getLast?, i.Spreads last name

variable {i : Index} {p inner : Path} {name : String} {f : Fragment}

theorem Spreads.mem_names {a b : String} (h : i.Spreads a b) : a ∈ i.names := by
  obtain ⟨f, hf, -⟩ := h
  exact mem_names_of_find? hf

/-- Along a chain of spreads every name but the last has a fragment. -/
theorem defined_of_chain {names : List String} (h : names.IsChain i.Spreads) :
    ∀ name ∈ names.dropLast, name ∈ i.names := by
  induction names with
  | nil => simp
  | cons first rest ih =>
    cases rest with
    | nil => simp
    | cons second others =>
      obtain ⟨hfirst, hrest⟩ := List.isChain_cons_cons.1 h
      simp only [List.dropLast_cons_cons, List.forall_mem_cons]
      exact ⟨hfirst.mem_names, ih hrest⟩

theorem branch_of_chain (hn : p.names.Nodup) (hc : p.names.IsChain i.Spreads) : i.Branch p := by
  have hdefined := defined_of_chain hc
  refine ⟨hn, hc, hdefined, ?_⟩
  have hle : p.names.dropLast.length ≤ i.names.length :=
    ((hn.sublist (List.dropLast_sublist _)).subperm hdefined).length_le
  rw [List.length_dropLast] at hle
  omega

theorem branch_empty : i.Branch .empty := branch_of_chain .nil .nil

theorem continues_empty (sels : List Selection) :
    ∀ n ∈ spreadNames sels, i.Continues .empty n := by
  simp [Continues, Path.empty]

theorem remaining_empty : i.remaining .empty = i.names.length := by
  simp [remaining, Path.empty]

/-- Inside a fragment one name fewer is left to enter, so one place fewer is enough. -/
theorem remaining_lt_room {room : Nat} (he : p.enter? name = some inner)
    (hf : i.find? name = some f) (h : i.remaining p < room + 1) : i.remaining inner < room :=
  Nat.lt_of_lt_of_le (remaining_lt he hf) (Nat.le_of_lt_succ h)

/-- What the last fragment spreads may be entered next. -/
theorem Branch.enter (h : i.Branch p) (hs : i.Continues p name)
    (he : p.enter? name = some inner) : i.Branch inner := by
  obtain ⟨hname, hinner⟩ := Path.enter?_eq_some he
  apply branch_of_chain
  · rw [hinner]
    exact List.nodup_append.2 ⟨h.nodup, by simp, fun a ha b hb hab =>
      hname (by rwa [← List.mem_singleton.1 hb, ← hab])⟩
  · rw [hinner, List.isChain_append]
    refine ⟨h.chain, .singleton _, fun last hlast next hnext => ?_⟩
    cases hnext
    exact hs last hlast

/-- Inside a fragment the path continues with the spreads of its body. -/
theorem continues_body (he : p.enter? name = some inner) (hf : i.find? name = some f) :
    ∀ n ∈ spreadNames f.selections, i.Continues inner n := by
  intro n hn last hlast
  rw [(Path.enter?_eq_some he).2, List.getLast?_concat, Option.mem_some_iff] at hlast
  subst hlast
  exact (spreads_iff hf n).2 hn

end Fragment.Index

/-! ## Programs over a path -/

/-- The one path of a traversal: as it is, and as it was after each change, the latest first. -/
structure Trace where
  path : Path
  moments : List Path

/-- A traversal over one path. It comes to `none` when there is no room for another expansion, or
when a name to be left is not on the path. -/
abbrev Visiting := StateT Trace Option

namespace Visiting

variable {α β σ : Type}

/-- There is no room for another expansion. -/
def full : Visiting α := fun _ => none

/-- Enters a name and says whether the path has let it in. -/
def enter (name : String) : Visiting Bool := fun t =>
  match t.path.enter? name with
  | none => some (false, t)
  | some p => some (true, ⟨p, p :: t.moments⟩)

/-- Ends a scope: a name that was entered is left. -/
def close (name : String) (entered : Bool) : Visiting Unit := fun t =>
  if entered then (t.path.exit? name).map fun p => ((), ⟨p, p :: t.moments⟩) else some ((), t)

/-- Runs a body in the scope of a name, and closes the scope however the body came out. -/
abbrev scope (name : String) (body : Bool → Visiting α) : Visiting α := do
  let entered ← enter name
  let a ← body entered
  close name entered
  return a

/-- Goes on after a traversal, unless it stopped. -/
abbrev andThen (x : Visiting (Bool × σ)) (next : σ → Visiting (Bool × σ)) :
    Visiting (Bool × σ) := do
  let r ← x
  if r.1 then pure r else next r.2

/-- A traversal ends with a value and the path as it was, and all along the path is a branch. -/
def Returns (x : Visiting α) (i : Index) (p : Path) (a : α) : Prop :=
  ∀ before, ∃ during, x.run ⟨p, before⟩ = some (a, ⟨p, during ++ before⟩) ∧
    ∀ q ∈ during, i.Branch q

variable {i : Index} {p inner : Path} {name : String} {x : Visiting α} {a : α} {b : β}

theorem returns_pure (a : α) : (pure a : Visiting α).Returns i p a :=
  fun _ => ⟨[], rfl, by simp⟩

theorem Returns.bind {k : α → Visiting β} (hx : x.Returns i p a) (hk : (k a).Returns i p b) :
    (x >>= k).Returns i p b := by
  intro before
  obtain ⟨first, hfirst, hbranch⟩ := hx before
  obtain ⟨second, hsecond, hbranch'⟩ := hk (first ++ before)
  refine ⟨second ++ first, ?_, List.forall_mem_append.2 ⟨hbranch', hbranch⟩⟩
  rw [StateT.run_bind, hfirst, List.append_assoc]
  exact hsecond

theorem Returns.andThen {x : Visiting (Bool × σ)} {k : σ → Visiting (Bool × σ)} {r : Bool × σ}
    {next : σ → Bool × σ} (hx : x.Returns i p r) (hk : ∀ s, (k s).Returns i p (next s)) :
    (x.andThen k).Returns i p (Alias.Counter.andThen r next) := by
  refine hx.bind ?_
  cases hr : r.1 with
  | true =>
    simp only [if_true, Alias.Counter.andThen, hr]
    exact returns_pure r
  | false =>
    simp only [Bool.false_eq_true, if_false, Alias.Counter.andThen, hr]
    exact hk r.2

/-- A scope that the path refuses changes nothing. -/
theorem Returns.refused {body : Bool → Visiting α} (he : p.enter? name = none)
    (hb : (body false).Returns i p a) : (scope name body).Returns i p a := by
  intro before
  obtain ⟨during, hrun, hbranch⟩ := hb before
  refine ⟨during, ?_, hbranch⟩
  have henter : (enter name).run ⟨p, before⟩ = some (false, ⟨p, before⟩) := by
    simp [enter, StateT.run, he]
  rw [scope, StateT.run_bind, henter]
  simp only [Option.bind_eq_bind, Option.bind_some, StateT.run_bind, hrun]
  rfl

/-- A scope that the path lets in leaves the name again. -/
theorem Returns.entered {body : Bool → Visiting α} (hp : i.Branch p) (hs : i.Continues p name)
    (he : p.enter? name = some inner) (hb : (body true).Returns i inner a) :
    (scope name body).Returns i p a := by
  intro before
  obtain ⟨during, hrun, hbranch⟩ := hb (inner :: before)
  refine ⟨p :: during ++ [inner], ?_, ?_⟩
  · have henter : (enter name).run ⟨p, before⟩ = some (true, ⟨inner, inner :: before⟩) := by
      simp [enter, StateT.run, he]
    have hclose (t : List Path) : (close name true).run ⟨inner, t⟩ = some ((), ⟨p, p :: t⟩) := by
      simp [close, StateT.run, Path.exit?_of_enter? he]
    rw [scope, StateT.run_bind, henter]
    simp only [Option.bind_eq_bind, Option.bind_some, StateT.run_bind, hrun, hclose]
    simp
  · simp only [List.cons_append, List.forall_mem_cons, List.forall_mem_append]
    exact ⟨hp, hbranch, hp.enter hs he, by simp⟩

end Visiting
end QueryBounds
