import QueryBounds.Proofs.Expansion

/-!
# What may be remembered of a fragment

A counter and a measurer both keep a number for a fragment, found along one path and used along
others. The number is that of the fragment's expansion, and it is the same along all paths because
only fragments that reach no cycle are remembered: whatever path leads to such a fragment, nothing
within its reach is on it.
-/
namespace QueryBounds.Fragment

/-- Every entry of a memo is about a fragment that reaches no cycle and holds the value of its
body, expanded where the fragment alone is on the path. -/
def Sound (i : Index) (value : List Selection → Nat) (memo : List (String × Nat)) : Prop :=
  ∀ name k, (name, k) ∈ memo →
    ∃ f, i.find? name = some f ∧ i.CycleFree name ∧ k = value (i.expand ⟨[name]⟩ f.selections)

variable {i : Index} {value : List Selection → Nat} {memo : List (String × Nat)}
variable {p inner : Path} {name : String} {f : Fragment} {k : Nat}

@[simp] theorem sound_nil : Sound i value [] := by simp [Sound]

/-- Along any path that leads to it, a fragment that reaches no cycle expands to the same. -/
theorem expand_of_cycleFree (hc : i.CycleFree name) (hlead : i.LeadsTo p name)
    (hp : p.enter? name = some inner) (hf : i.find? name = some f) :
    i.AllClear inner f.selections ∧
      i.expand ⟨[name]⟩ f.selections = i.expand inner f.selections := by
  have halone : Path.empty.enter? name = some ⟨[name]⟩ := by simp [Path.enter?, Path.empty]
  have hempty : i.LeadsTo .empty name := by simp [Index.LeadsTo, Path.empty]
  have hinner := (Index.clear_iff hp hf).1 (hc.clear hlead)
  have hfresh := (Index.clear_iff halone hf).1 (hc.clear hempty)
  exact ⟨hinner, Index.expand_congr hfresh hinner⟩

/-- What is looked up in a sound memo is the value along the path at hand, and walking the fragment
there would meet no name of the path. -/
theorem Sound.lookup (hs : Sound i value memo) (hk : memo.lookup name = some k)
    (hlead : i.LeadsTo p name) (hp : p.enter? name = some inner) :
    ∃ f, i.find? name = some f ∧ i.AllClear inner f.selections ∧
      k = value (i.expand inner f.selections) := by
  obtain ⟨before, after, rfl, -⟩ := List.lookup_eq_some_iff.1 hk
  obtain ⟨f, hf, hc, rfl⟩ := hs name k (by simp)
  obtain ⟨hclear, he⟩ := expand_of_cycleFree hc hlead hp hf
  exact ⟨f, hf, hclear, by rw [he]⟩

/-- A memo stays sound when the value of a fragment is added whose walk met no name of its path. -/
theorem Sound.cons (hs : Sound i value memo) (hlead : i.LeadsTo p name)
    (hp : p.enter? name = some inner) (hf : i.find? name = some f)
    (hclear : i.AllClear inner f.selections) (hk : k = value (i.expand inner f.selections)) :
    Sound i value ((name, k) :: memo) := by
  intro n l hmem
  rcases List.mem_cons.1 hmem with heq | hmem
  · cases heq
    have hc : i.CycleFree name := ((Index.clear_iff hp hf).2 hclear).cycleFree
    exact ⟨f, hf, hc, by rw [hk, (expand_of_cycleFree hc hlead hp hf).2]⟩
  · exact hs n l hmem

end QueryBounds.Fragment
