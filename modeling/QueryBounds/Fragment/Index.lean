import QueryBounds.Document
import QueryBounds.Fragment.Path

/-!
# Fragments by name

The index of a document holds the first definition of every fragment name, in the order of those
definitions. The index names that are not on a path yet are what is left to expand; their number
goes down with every fragment that a walk enters.
-/
namespace QueryBounds.Fragment

structure Index where
  fragments : List Fragment
  nodup : (fragments.map (·.name)).Nodup

namespace Index

def empty : Index := ⟨[], by simp⟩

def names (i : Index) : List String := i.fragments.map (·.name)

def find? (i : Index) (name : String) : Option Fragment := i.fragments.find? (·.name == name)

/-- Adds a fragment at the end, unless its name is taken. -/
def add (i : Index) (f : Fragment) : Index :=
  if h : f.name ∈ i.fragments.map (·.name) then i
  else ⟨i.fragments ++ [f], by
    simp only [List.map_append, List.map_cons, List.map_nil]
    refine List.nodup_append.2 ⟨i.nodup, by simp, fun a ha b hb hab => h ?_⟩
    rwa [← List.mem_singleton.1 hb, ← hab]⟩

def ofDocument (d : Document) : Index := d.fragments.foldl add empty

/-- How many names of the index are not on the path. -/
def remaining (i : Index) (p : Path) : Nat := (i.names.filter (· ∉ p.names)).length

theorem name_of_find? {i : Index} {name : String} {f : Fragment} (h : i.find? name = some f) :
    f.name = name := by
  simpa using List.find?_some h

theorem mem_names_of_find? {i : Index} {name : String} {f : Fragment}
    (h : i.find? name = some f) : name ∈ i.names := by
  rw [← name_of_find? h]
  exact List.mem_map_of_mem (List.mem_of_find?_eq_some h)

theorem find?_add (i : Index) (f : Fragment) (name : String) :
    (i.add f).find? name = (i.find? name).or (if f.name == name then some f else none) := by
  unfold add find?
  split
  · next hmem =>
    obtain ⟨g, hg, hname⟩ := List.mem_map.1 hmem
    by_cases hn : f.name = name
    · have hfound : (i.fragments.find? (·.name == name)).isSome := by
        rw [List.find?_isSome]
        exact ⟨g, hg, by simp [hname, hn]⟩
      rw [Option.or_of_isSome hfound]
    · simp [hn]
  · simp only [List.find?_append, List.find?_singleton]

/-- A fragment is known by its first definition in the document. -/
theorem find?_ofDocument (d : Document) (name : String) :
    (ofDocument d).find? name = d.fragments.find? (·.name == name) := by
  suffices h : ∀ (fs : List Fragment) (i : Index),
      (fs.foldl add i).find? name = (i.find? name).or (fs.find? (·.name == name)) from
    h d.fragments empty
  intro fs
  induction fs with
  | nil => simp
  | cons f fs ih =>
    intro i
    rw [List.foldl_cons, ih, find?_add, Option.or_assoc, List.find?_cons]
    cases f.name == name <;> rfl

/-- Entering a fragment of the index leaves fewer of them to enter. -/
theorem remaining_lt {i : Index} {p q : Path} {name : String} {f : Fragment}
    (hp : p.enter? name = some q) (hf : i.find? name = some f) : i.remaining q < i.remaining p := by
  obtain ⟨hn, hq⟩ := Path.enter?_eq_some hp
  have key : i.names.filter (· ∉ q.names)
      = (i.names.filter (· ∉ p.names)).filter (· ≠ name) := by
    rw [List.filter_filter, hq]
    apply List.filter_congr
    intro x _
    simp [and_comm]
  unfold remaining
  rw [key]
  apply List.length_filter_lt_length_iff_exists.2
  exact ⟨name, List.mem_filter.2 ⟨mem_names_of_find? hf, by simpa using hn⟩, by simp⟩

end Index
end QueryBounds.Fragment
