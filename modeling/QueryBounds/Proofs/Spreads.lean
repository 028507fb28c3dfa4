import Mathlib.Logic.Relation
import QueryBounds.Fragment.Index

/-!
# Which fragments lead to which

A fragment leads to the fragments that its body spreads, however deep inside fields and inline
fragments the spread stands. Two facts about this graph carry all the reasoning on what a walk may
remember. The names on a path lead to every spread below it, so a spread that the path refuses
closes a cycle. And what is clear of a path, with no name on the path and none on a cycle within
reach, stays so along every path that leads to it.
-/
namespace QueryBounds

/-- The names that a list of selections spreads anywhere, fragments not looked through. -/
def spreadNames : List Selection → List String
  | [] => []
  | .field _ body :: rest => spreadNames (body.getD []) ++ spreadNames rest
  | .inline _ body :: rest => spreadNames (body.getD []) ++ spreadNames rest
  | .spread s :: rest => s.name :: spreadNames rest
  | .unknown :: rest => spreadNames rest
termination_by sels => sizeOf sels
decreasing_by
  · exact Selection.sizeOf_body_lt_field _ _ _
  · exact Selection.sizeOf_rest_lt _ _
  · exact Selection.sizeOf_body_lt_inline _ _ _
  · exact Selection.sizeOf_rest_lt _ _
  · exact Selection.sizeOf_rest_lt _ _
  · exact Selection.sizeOf_rest_lt _ _

theorem spreadNames_cons (sel : Selection) (rest : List Selection) :
    spreadNames (sel :: rest) = spreadNames [sel] ++ spreadNames rest := by
  cases sel <;> simp [spreadNames]

theorem mem_spreadNames_of_mem {sel : Selection} {sels : List Selection} (h : sel ∈ sels)
    {name : String} (hname : name ∈ spreadNames [sel]) : name ∈ spreadNames sels := by
  induction sels with
  | nil => cases h
  | cons first rest ih =>
    rw [spreadNames_cons]
    rcases List.mem_cons.1 h with rfl | hrest
    · exact List.mem_append_left _ hname
    · exact List.mem_append_right _ (ih hrest)

namespace Fragment.Index

open Relation

/-- The body of one fragment spreads the other. -/
def Spreads (i : Index) (a b : String) : Prop :=
  ∃ f, i.find? a = some f ∧ b ∈ spreadNames f.selections

/-- A fragment leads back to itself. -/
def OnCycle (i : Index) (name : String) : Prop := TransGen i.Spreads name name

/-- No cycle is within reach of a fragment. -/
def CycleFree (i : Index) (name : String) : Prop :=
  ∀ n, ReflTransGen i.Spreads name n → ¬ i.OnCycle n

/-- Nothing within reach of a fragment is on the path or on a cycle. -/
def Clear (i : Index) (p : Path) (name : String) : Prop :=
  ∀ n, ReflTransGen i.Spreads name n → n ∉ p.names ∧ ¬ i.OnCycle n

/-- All spreads of a list of selections are clear of the path. -/
def AllClear (i : Index) (p : Path) (sels : List Selection) : Prop :=
  ∀ n ∈ spreadNames sels, i.Clear p n

/-- Every name on the path leads to a fragment. -/
def LeadsTo (i : Index) (p : Path) (name : String) : Prop :=
  ∀ m ∈ p.names, TransGen i.Spreads m name

/-- Every name on the path leads to every spread of a list of selections, as it does while these
selections are walked along the path. -/
def LeadsToAll (i : Index) (p : Path) (sels : List Selection) : Prop :=
  ∀ n ∈ spreadNames sels, i.LeadsTo p n

variable {i : Index} {p inner : Path} {name : String} {f : Fragment}

theorem spreads_iff (hf : i.find? name = some f) (n : String) :
    i.Spreads name n ↔ n ∈ spreadNames f.selections := by
  constructor
  · rintro ⟨g, hg, hn⟩
    rw [hf] at hg
    cases hg
    exact hn
  · exact fun hn => ⟨f, hf, hn⟩

theorem not_spreads (hf : i.find? name = none) (n : String) : ¬ i.Spreads name n := by
  rintro ⟨g, hg, -⟩
  rw [hf] at hg
  cases hg

/-! ## Lists of selections, part by part -/

@[simp] theorem allClear_nil : i.AllClear p [] := by simp [AllClear, spreadNames]

@[simp] theorem allClear_field (h : Field) (body : Option (List Selection))
    (rest : List Selection) :
    i.AllClear p (.field h body :: rest) ↔ i.AllClear p (body.getD []) ∧ i.AllClear p rest := by
  simp only [AllClear, spreadNames, List.forall_mem_append]

@[simp] theorem allClear_inline (h : Inline) (body : Option (List Selection))
    (rest : List Selection) :
    i.AllClear p (.inline h body :: rest) ↔ i.AllClear p (body.getD []) ∧ i.AllClear p rest := by
  simp only [AllClear, spreadNames, List.forall_mem_append]

@[simp] theorem allClear_spread (s : Spread) (rest : List Selection) :
    i.AllClear p (.spread s :: rest) ↔ i.Clear p s.name ∧ i.AllClear p rest := by
  simp only [AllClear, spreadNames, List.forall_mem_cons]

@[simp] theorem allClear_unknown (rest : List Selection) :
    i.AllClear p (.unknown :: rest) ↔ i.AllClear p rest := by
  simp only [AllClear, spreadNames]

@[simp] theorem leadsToAll_empty (sels : List Selection) : i.LeadsToAll .empty sels := by
  simp [LeadsToAll, LeadsTo, Path.empty]

@[simp] theorem leadsToAll_field (h : Field) (body : Option (List Selection))
    (rest : List Selection) :
    i.LeadsToAll p (.field h body :: rest)
      ↔ i.LeadsToAll p (body.getD []) ∧ i.LeadsToAll p rest := by
  simp only [LeadsToAll, spreadNames, List.forall_mem_append]

@[simp] theorem leadsToAll_inline (h : Inline) (body : Option (List Selection))
    (rest : List Selection) :
    i.LeadsToAll p (.inline h body :: rest)
      ↔ i.LeadsToAll p (body.getD []) ∧ i.LeadsToAll p rest := by
  simp only [LeadsToAll, spreadNames, List.forall_mem_append]

@[simp] theorem leadsToAll_spread (s : Spread) (rest : List Selection) :
    i.LeadsToAll p (.spread s :: rest) ↔ i.LeadsTo p s.name ∧ i.LeadsToAll p rest := by
  simp only [LeadsToAll, spreadNames, List.forall_mem_cons]

@[simp] theorem leadsToAll_unknown (rest : List Selection) :
    i.LeadsToAll p (.unknown :: rest) ↔ i.LeadsToAll p rest := by
  simp only [LeadsToAll, spreadNames]

/-! ## Entering a fragment -/

/-- A path that leads to a fragment leads on to what its body spreads once it is entered. -/
theorem LeadsTo.enter (h : i.LeadsTo p name) (hp : p.enter? name = some inner)
    (hf : i.find? name = some f) : i.LeadsToAll inner f.selections := by
  intro n hn m hm
  have hs : i.Spreads name n := ⟨f, hf, hn⟩
  rw [(Path.enter?_eq_some hp).2, List.mem_append, List.mem_singleton] at hm
  rcases hm with hm | rfl
  · exact (h m hm).tail hs
  · exact .single hs

/-- A spread that the path refuses is not clear of it. -/
theorem not_clear_of_refused (hp : p.enter? name = none) : ¬ i.Clear p name :=
  fun h => (h name .refl).1 (Path.enter?_eq_none.1 hp)

/-- A name without a definition leads nowhere, so it is clear of a path that it can be entered on. -/
theorem clear_of_undefined (hp : p.enter? name = some inner) (hf : i.find? name = none) :
    i.Clear p name := by
  intro n hn
  obtain rfl : n = name := (reflTransGen_iff_eq (not_spreads hf)).1 hn
  refine ⟨(Path.enter?_eq_some hp).1, fun hc => ?_⟩
  obtain ⟨m, hm, -⟩ := TransGen.head'_iff.1 hc
  exact not_spreads hf m hm

/-- A fragment is clear of a path exactly when the spreads of its body are clear of the path that
has it entered: a way back to the fragment would be a cycle. -/
theorem clear_iff (hp : p.enter? name = some inner) (hf : i.find? name = some f) :
    i.Clear p name ↔ i.AllClear inner f.selections := by
  obtain ⟨hname, hinner⟩ := Path.enter?_eq_some hp
  have hmem (n : String) : n ∈ inner.names ↔ n ∈ p.names ∨ n = name := by simp [hinner]
  constructor
  · intro h m hm n hn
    have hs : i.Spreads name m := ⟨f, hf, hm⟩
    obtain ⟨hpath, hcycle⟩ := h n (.head hs hn)
    refine ⟨fun hin => ?_, hcycle⟩
    rcases (hmem n).1 hin with hin | rfl
    · exact hpath hin
    · exact hcycle (TransGen.head' hs hn)
  · intro h n hn
    rcases hn.cases_head with rfl | ⟨m, hs, hmn⟩
    · refine ⟨hname, fun hc => ?_⟩
      obtain ⟨m, hs, hback⟩ := TransGen.head'_iff.1 hc
      exact (h m ((spreads_iff hf m).1 hs) name hback).1 ((hmem name).2 (.inr rfl))
    · obtain ⟨hin, hcycle⟩ := h m ((spreads_iff hf m).1 hs) n hmn
      exact ⟨fun hpath => hin ((hmem n).2 (.inl hpath)), hcycle⟩

/-! ## Cycles and paths -/

theorem Clear.cycleFree (h : i.Clear p name) : i.CycleFree name := fun n hn => (h n hn).2

/-- What reaches no cycle is clear of every path that leads to it: a name of the path within reach
would lie on a cycle. -/
theorem CycleFree.clear (h : i.CycleFree name) (hp : i.LeadsTo p name) : i.Clear p name := by
  intro n hn
  refine ⟨fun hin => ?_, h n hn⟩
  exact h n hn ((hp n hin).trans_left hn)

end Fragment.Index
end QueryBounds
