import QueryBounds.Proofs.Memo
import QueryBounds.Proofs.Visiting

/-!
# What a walk comes to remember

A walk that never stops early remembers every fragment it comes to that reaches no cycle, and no
other. That a fragment on a cycle is left out is the soundness of the memo. That none else is left
out takes two facts together: with a fragment a memo knows all the fragments that it spreads, so what
a remembered fragment hides from a later walk is remembered as well; and a route to a fragment can be
taken so that it comes to no fragment of the path, since what the path refuses is reached from a
fragment that is still being expanded.
-/
namespace QueryBounds.Fragment

open Relation

/-- The names that a memo has an entry for. -/
def known (memo : List (String × Nat)) : List String := memo.map (·.1)

theorem lookup_isSome_iff (memo : List (String × Nat)) (name : String) :
    (memo.lookup name).isSome ↔ name ∈ known memo := by
  induction memo with
  | nil => simp [known]
  | cons entry memo ih =>
    obtain ⟨n, k⟩ := entry
    rw [List.lookup_cons]
    by_cases hn : name = n
    · simp [hn, known]
    · have hne : (name == n) = false := beq_false_of_ne hn
      simp only [hne, ih, known, List.map_cons, List.mem_cons, hn, false_or]

namespace Index

/-- A fragment spreads another that is not on the path. -/
def SpreadsOff (i : Index) (p : Path) (a b : String) : Prop := i.Spreads a b ∧ b ∉ p.names

/-- Spreads lead to a fragment by a route that comes to no fragment of the path. -/
def RoutedOff (i : Index) (p : Path) (spreads : List String) (name : String) : Prop :=
  ∃ n ∈ spreads, n ∉ p.names ∧ ReflTransGen (i.SpreadsOff p) n name

/-- Spreads lead to a fragment. -/
def Routed (i : Index) (spreads : List String) (name : String) : Prop :=
  ∃ n ∈ spreads, ReflTransGen i.Spreads n name

/-- With a fragment the names hold all the fragments that it spreads. -/
def Closed (i : Index) (names : List String) : Prop :=
  ∀ a ∈ names, ∀ b, i.Spreads a b → (i.find? b).isSome → b ∈ names

variable {i : Index} {p inner : Path} {name target : String} {f : Fragment}
variable {spreads others names before after final : List String}

/-! ## Routes -/

theorem routedOff_empty : i.RoutedOff .empty spreads target ↔ i.Routed spreads target := by
  have hoff : i.SpreadsOff .empty = i.Spreads := by
    funext n m
    simp [SpreadsOff, Path.empty]
  have hname (n : String) : n ∉ Path.empty.names := by simp [Path.empty]
  simp only [RoutedOff, Routed, hoff, hname, not_false_eq_true, true_and]

theorem RoutedOff.append (h : i.RoutedOff p (spreads ++ others) target) :
    i.RoutedOff p spreads target ∨ i.RoutedOff p others target := by
  obtain ⟨n, hn, hoff, hroute⟩ := h
  exact (List.mem_append.1 hn).imp (⟨n, ·, hoff, hroute⟩) (⟨n, ·, hoff, hroute⟩)

theorem Routed.append_left (h : i.Routed spreads target) : i.Routed (spreads ++ others) target := by
  obtain ⟨n, hn, hroute⟩ := h
  exact ⟨n, List.mem_append_left _ hn, hroute⟩

theorem Routed.append_right (h : i.Routed others target) : i.Routed (spreads ++ others) target := by
  obtain ⟨n, hn, hroute⟩ := h
  exact ⟨n, List.mem_append_right _ hn, hroute⟩

theorem routed_flatMap {α : Type} (xs : List α) (spreadsOf : α → List String) :
    i.Routed (xs.flatMap spreadsOf) target ↔ ∃ x ∈ xs, i.Routed (spreadsOf x) target := by
  constructor
  · rintro ⟨n, hn, hroute⟩
    obtain ⟨x, hx, hn⟩ := List.mem_flatMap.1 hn
    exact ⟨x, hx, n, hn, hroute⟩
  · rintro ⟨x, hx, n, hn, hroute⟩
    exact ⟨n, List.mem_flatMap.2 ⟨x, hx, hn⟩, hroute⟩

/-- What the body of a fragment leads to, the fragment leads to. -/
theorem Routed.from_body (hf : i.find? name = some f)
    (h : i.Routed (spreadNames f.selections) target) : i.Routed [name] target := by
  obtain ⟨n, hn, hroute⟩ := h
  exact ⟨name, by simp, .head ((spreads_iff hf n).2 hn) hroute⟩

/-- A route from a fragment ends there, or goes on from its body without coming back to it. -/
theorem RoutedOff.enter (hp : p.enter? name = some inner) (hf : i.find? name = some f)
    (h : i.RoutedOff p [name] target) :
    target = name ∨ i.RoutedOff inner (spreadNames f.selections) target := by
  obtain ⟨n, hn, -, hroute⟩ := h
  obtain rfl := List.mem_singleton.1 hn
  -- Along the route: whenever it comes back to the fragment it starts anew at the body.
  induction hroute with
  | refl => exact .inl rfl
  | @tail m t _ hlast ih =>
    obtain ⟨hspreads, hoff⟩ := hlast
    by_cases ht : t = n
    · exact .inl ht
    · have hinner : t ∉ inner.names := by simp [(Path.enter?_eq_some hp).2, hoff, ht]
      right
      rcases ih with rfl | ⟨first, hfirst, hclear, hroute⟩
      · exact ⟨t, (spreads_iff hf t).1 hspreads, hinner, .refl⟩
      · exact ⟨first, hfirst, hclear, hroute.tail ⟨hspreads, hinner⟩⟩

/-- A path of nested expansions leads to what its last fragment spreads. -/
theorem Branch.leadsTo (hp : i.Branch p) (hs : i.Continues p name) : i.LeadsTo p name := by
  intro m hm
  have hchain : (p.names ++ [name]).IsChain (TransGen i.Spreads) := by
    refine List.IsChain.imp (fun _ _ => TransGen.single) (List.isChain_append.2 ?_)
    refine ⟨hp.chain, .singleton _, fun last hlast next hnext => ?_⟩
    cases hnext
    exact hs last hlast
  exact (List.pairwise_append.1 hchain.pairwise).2.2 m hm name (by simp)

/-- On a path that leads to it, a fragment reaches no cycle exactly when its body is clear. -/
theorem cycleFree_iff_allClear (hl : i.LeadsTo p name) (hp : p.enter? name = some inner)
    (hf : i.find? name = some f) : i.CycleFree name ↔ i.AllClear inner f.selections := by
  rw [← clear_iff hp hf]
  exact ⟨fun h => h.clear hl, Clear.cycleFree⟩

theorem CycleFree.of_spreads (h : i.CycleFree name) (hs : i.Spreads name target) :
    i.CycleFree target := fun n hn => h n (.head hs hn)

/-! ## Names that are closed under spreads -/

theorem closed_nil : i.Closed [] := by simp [Closed]

/-- Closed names hold every fragment that they lead to. -/
theorem Closed.mem (h : i.Closed names) (hname : name ∈ names)
    (hroute : ReflTransGen i.Spreads name target) (hdef : (i.find? target).isSome) :
    target ∈ names := by
  induction hroute with
  | refl => exact hname
  | @tail m t _ hlast ih =>
    -- what spreads another fragment is itself defined
    have hm : (i.find? m).isSome := by
      obtain ⟨g, hg, -⟩ := hlast
      simp [hg]
    exact h m (ih hm) t hlast hdef

/-! ## Parts of a walk -/

/-- What a part of a walk adds to the names that are known, when it is walked along a path and comes
to these spreads: nothing but fragments they lead to, and of the fragments they lead to off the path
all that reach no cycle. -/
structure Fills (i : Index) (p : Path) (spreads before after : List String) : Prop where
  grows : ∀ name ∈ before, name ∈ after
  only : ∀ name ∈ after, name ∈ before ∨ i.Routed spreads name
  closed : i.Closed after
  reached : ∀ name, i.RoutedOff p spreads name → (i.find? name).isSome → i.CycleFree name →
    name ∈ after

theorem fills_nothing (hc : i.Closed before) : i.Fills p [] before before :=
  ⟨fun _ h => h, fun _ h => .inl h, hc, by simp [RoutedOff]⟩

theorem Fills.seq (h : i.Fills p spreads before after) (h' : i.Fills p others after final) :
    i.Fills p (spreads ++ others) before final where
  grows name hname := h'.grows name (h.grows name hname)
  only name hname := by
    rcases h'.only name hname with hname | hroute
    · exact (h.only name hname).imp_right Routed.append_left
    · exact .inr hroute.append_right
  closed := h'.closed
  reached name hroute hdef hfree := by
    rcases hroute.append with hroute | hroute
    · exact h'.grows name (h.reached name hroute hdef hfree)
    · exact h'.reached name hroute hdef hfree

/-- A spread that the path refuses leads nowhere off the path. -/
theorem fills_refused (hc : i.Closed before) (hp : p.enter? name = none) :
    i.Fills p [name] before before where
  grows _ h := h
  only _ h := .inl h
  closed := hc
  reached target := by
    rintro ⟨n, hn, hoff, -⟩
    obtain rfl := List.mem_singleton.1 hn
    exact absurd (Path.enter?_eq_none.1 hp) hoff

/-- A spread without a fragment leads to no fragment. -/
theorem fills_undefined (hc : i.Closed before) (hf : i.find? name = none) :
    i.Fills p [name] before before where
  grows _ h := h
  only _ h := .inl h
  closed := hc
  reached target := by
    rintro ⟨n, hn, -, hroute⟩ hdef -
    obtain rfl := List.mem_singleton.1 hn
    have hend : target = n := (reflTransGen_iff_eq fun m hm => not_spreads hf m hm.1).1 hroute
    rw [hend, hf] at hdef
    cases hdef

/-- With a known fragment all that it leads to is known. -/
theorem fills_known (hc : i.Closed before) (hname : name ∈ before) :
    i.Fills p [name] before before where
  grows _ h := h
  only _ h := .inl h
  closed := hc
  reached target := by
    rintro ⟨n, hn, -, hroute⟩ hdef -
    obtain rfl := List.mem_singleton.1 hn
    exact hc.mem hname (ReflTransGen.mono (fun _ _ h => h.1) _ _ hroute) hdef

/-- A fragment whose body has been walked becomes known exactly when it reaches no cycle. -/
theorem Fills.enter (hl : i.LeadsTo p name) (hp : p.enter? name = some inner)
    (hf : i.find? name = some f) (h : i.Fills inner (spreadNames f.selections) before after)
    (hfinal : ∀ n, n ∈ final ↔ n ∈ after ∨ n = name ∧ i.CycleFree name) :
    i.Fills p [name] before final where
  grows n hn := (hfinal n).2 (.inl (h.grows n hn))
  only n hn := by
    rcases (hfinal n).1 hn with hn | ⟨rfl, -⟩
    · exact (h.only n hn).imp_right (Routed.from_body hf)
    · exact .inr ⟨n, by simp, .refl⟩
  closed := by
    intro a ha b hs hdef
    refine (hfinal b).2 (.inl ?_)
    rcases (hfinal a).1 ha with ha | ⟨rfl, hfree⟩
    · exact h.closed a ha b hs hdef
    · -- a fragment that reaches no cycle spreads none that is on the path, so its walk came to all
      have hb : b ∈ spreadNames f.selections := (spreads_iff hf b).1 hs
      have hoff : b ∉ inner.names := ((cycleFree_iff_allClear hl hp hf).1 hfree b hb b .refl).1
      exact h.reached b ⟨b, hb, hoff, .refl⟩ hdef (hfree.of_spreads hs)
  reached target hroute hdef hfree := by
    rcases hroute.enter hp hf with rfl | hroute
    · exact (hfinal target).2 (.inr ⟨rfl, hfree⟩)
    · exact (hfinal target).2 (.inl (h.reached target hroute hdef hfree))

/-- From nothing, walks along the empty path come to know exactly the fragments they are led to that
reach no cycle. -/
theorem Fills.mem_iff (h : i.Fills .empty spreads [] names)
    (hfree : ∀ n ∈ names, (i.find? n).isSome ∧ i.CycleFree n) :
    name ∈ names ↔ (i.find? name).isSome ∧ i.Routed spreads name ∧ i.CycleFree name := by
  constructor
  · intro hname
    obtain ⟨hdef, hcycle⟩ := hfree name hname
    have hroute : i.Routed spreads name := (h.only name hname).resolve_left (by simp)
    exact ⟨hdef, hroute, hcycle⟩
  · rintro ⟨hdef, hroute, hcycle⟩
    exact h.reached name (routedOff_empty.2 hroute) hdef hcycle

end Index

/-! ## Entries -/

variable {i : Index} {value : List Selection → Nat} {memo : List (String × Nat)}
variable {name : String} {k : Nat}

/-- An entry of a sound memo is the value of the fragment's body along every path of nested
expansions on which the fragment can be spread. -/
theorem Sound.entry (hs : Sound i value memo) (h : (name, k) ∈ memo) :
    ∃ f, i.find? name = some f ∧ i.CycleFree name ∧ ∀ p inner, i.Branch p → i.Continues p name →
      p.enter? name = some inner → k = value (i.expand inner f.selections) := by
  obtain ⟨f, hf, hfree, hk⟩ := hs name k h
  refine ⟨f, hf, hfree, fun p inner hp hcont he => ?_⟩
  rw [hk, (expand_of_cycleFree hfree (hp.leadsTo hcont) he hf).2]

theorem Sound.cycleFree_of_known (hs : Sound i value memo) (h : name ∈ known memo) :
    (i.find? name).isSome ∧ i.CycleFree name := by
  obtain ⟨⟨n, k⟩, hmem, rfl⟩ := List.mem_map.1 h
  obtain ⟨f, hf, hfree, -⟩ := hs n k hmem
  exact ⟨by simp [hf], hfree⟩

end QueryBounds.Fragment
