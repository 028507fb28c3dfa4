import QueryBounds.Depth.Introspection
import QueryBounds.Limit.Validate
import QueryBounds.Proofs.Expansion

/-!
# Fields at the root of an operation

An operation is one of introspection by the fields at its root, and what is at its root is a
question of reach: the selection sets one comes to from its own through inline fragments and through
the bodies of spread fragments. A walk follows only routes that enter no fragment twice. It misses
nothing by that, since the part of a route behind the last visit to a fragment starts at the body of
that fragment, and the walk goes on from there as well.
-/
namespace QueryBounds

open Fragment (Index)
open Relation (ReflTransGen)

namespace Fragment.Index

/-- A selection set has another one at its own level: that of an inline fragment in it, or that of a
fragment which it spreads and whose name is not on the path. -/
inductive LooksInto (i : Index) (p : Path) (sels : List Selection) : List Selection → Prop
  | inline (h : Inline) (body : List Selection) :
      .inline h (some body) ∈ sels → LooksInto i p sels body
  | spread (s : Spread) (f : Fragment) :
      .spread s ∈ sels → s.name ∉ p.names → i.find? s.name = some f →
      LooksInto i p sels f.selections

/-- A field of that name is at the level of a selection set, as far as routes that leave out the
fragments on the path lead to it. -/
def SelectsAtRoot (i : Index) (p : Path) (sels : List Selection) (name : String) : Prop :=
  ∃ set, ReflTransGen (i.LooksInto p) sels set ∧ ∃ h body, .field h body ∈ set ∧ h.name = name

variable {i : Index} {p inner : Path} {name : String} {sels : List Selection}

/-! ## Routes through a list of selections -/

theorem looksInto_cons (sel : Selection) (rest set : List Selection) :
    i.LooksInto p (sel :: rest) set ↔ i.LooksInto p [sel] set ∨ i.LooksInto p rest set := by
  constructor
  · rintro (⟨h, body, hmem⟩ | ⟨s, f, hmem, hn, hf⟩)
    · rcases List.mem_cons.1 hmem with rfl | hmem
      · exact .inl (.inline h _ (by simp))
      · exact .inr (.inline h _ hmem)
    · rcases List.mem_cons.1 hmem with rfl | hmem
      · exact .inl (.spread s f (by simp) hn hf)
      · exact .inr (.spread s f hmem hn hf)
  · rintro ((⟨h, body, hmem⟩ | ⟨s, f, hmem, hn, hf⟩) | (⟨h, body, hmem⟩ | ⟨s, f, hmem, hn, hf⟩))
    · exact .inline h _ (by simpa using .inl (List.mem_singleton.1 hmem))
    · exact .spread s f (by simpa using .inl (List.mem_singleton.1 hmem)) hn hf
    · exact .inline h _ (by simp [hmem])
    · exact .spread s f (by simp [hmem]) hn hf

/-- A field is at the root of selections when it is one of them, or at the root of what they look
into. -/
theorem selectsAtRoot_iff (sels : List Selection) :
    i.SelectsAtRoot p sels name ↔ (∃ h body, .field h body ∈ sels ∧ h.name = name) ∨
      ∃ set, i.LooksInto p sels set ∧ i.SelectsAtRoot p set name := by
  constructor
  · rintro ⟨set, hroute, hfield⟩
    rcases hroute.cases_head with rfl | ⟨first, hfirst, hroute⟩
    · exact .inl hfield
    · exact .inr ⟨first, hfirst, set, hroute, hfield⟩
  · rintro (hfield | ⟨first, hfirst, set, hroute, hfield⟩)
    · exact ⟨sels, .refl, hfield⟩
    · exact ⟨set, .head hfirst hroute, hfield⟩

theorem selectsAtRoot_cons {sel : Selection} {rest : List Selection} :
    i.SelectsAtRoot p (sel :: rest) name ↔
      i.SelectsAtRoot p [sel] name ∨ i.SelectsAtRoot p rest name := by
  rw [selectsAtRoot_iff (sel :: rest), selectsAtRoot_iff [sel], selectsAtRoot_iff rest]
  simp only [looksInto_cons sel rest, List.mem_cons, List.not_mem_nil, or_false]
  constructor
  · rintro (⟨h, body, hmem | hmem, hname⟩ | ⟨set, hset | hset, hfield⟩)
    · exact .inl (.inl ⟨h, body, hmem, hname⟩)
    · exact .inr (.inl ⟨h, body, hmem, hname⟩)
    · exact .inl (.inr ⟨set, hset, hfield⟩)
    · exact .inr (.inr ⟨set, hset, hfield⟩)
  · rintro ((⟨h, body, hmem, hname⟩ | ⟨set, hset, hfield⟩) |
      (⟨h, body, hmem, hname⟩ | ⟨set, hset, hfield⟩))
    · exact .inl ⟨h, body, .inl hmem, hname⟩
    · exact .inr ⟨set, .inl hset, hfield⟩
    · exact .inl ⟨h, body, .inr hmem, hname⟩
    · exact .inr ⟨set, .inr hset, hfield⟩

theorem not_selectsAtRoot_nil : ¬ i.SelectsAtRoot p [] name := by
  rw [selectsAtRoot_iff]
  rintro (⟨h, body, hmem, -⟩ | ⟨set, ⟨h, body, hmem⟩ | ⟨s, f, hmem, -, -⟩, -⟩)
  all_goals cases hmem

theorem selectsAtRoot_field (h : Field) (body : Option (List Selection)) :
    i.SelectsAtRoot p [.field h body] name ↔ h.name = name := by
  rw [selectsAtRoot_iff]
  constructor
  · rintro (⟨g, inside, hmem, hname⟩ | ⟨set, ⟨g, inside, hmem⟩ | ⟨s, f, hmem, -, -⟩, -⟩)
    · cases List.mem_singleton.1 hmem
      exact hname
    · cases List.mem_singleton.1 hmem
    · cases List.mem_singleton.1 hmem
  · intro hname
    exact .inl ⟨h, body, by simp, hname⟩

theorem selectsAtRoot_inline (h : Inline) (body : Option (List Selection)) :
    i.SelectsAtRoot p [.inline h body] name ↔ i.SelectsAtRoot p (body.getD []) name := by
  rw [selectsAtRoot_iff]
  constructor
  · rintro (⟨g, inside, hmem, -⟩ | ⟨set, ⟨g, inside, hmem⟩ | ⟨s, f, hmem, -, -⟩, hfield⟩)
    · cases List.mem_singleton.1 hmem
    · cases List.mem_singleton.1 hmem
      exact hfield
    · cases List.mem_singleton.1 hmem
  · intro hfield
    cases body with
    | none => exact absurd hfield not_selectsAtRoot_nil
    | some inside => exact .inr ⟨inside, .inline h inside (by simp), hfield⟩

theorem selectsAtRoot_spread (s : Spread) :
    i.SelectsAtRoot p [.spread s] name ↔
      s.name ∉ p.names ∧ ∃ f, i.find? s.name = some f ∧ i.SelectsAtRoot p f.selections name := by
  rw [selectsAtRoot_iff]
  constructor
  · rintro (⟨g, inside, hmem, -⟩ | ⟨set, ⟨g, inside, hmem⟩ | ⟨t, f, hmem, hn, hf⟩, hfield⟩)
    · cases List.mem_singleton.1 hmem
    · cases List.mem_singleton.1 hmem
    · cases List.mem_singleton.1 hmem
      exact ⟨hn, f, hf, hfield⟩
  · rintro ⟨hn, f, hf, hfield⟩
    exact .inr ⟨f.selections, .spread s f (by simp) hn hf, hfield⟩

theorem not_selectsAtRoot_unknown : ¬ i.SelectsAtRoot p [.unknown] name := by
  rw [selectsAtRoot_iff]
  rintro (⟨h, body, hmem, -⟩ | ⟨set, ⟨h, body, hmem⟩ | ⟨s, f, hmem, -, -⟩, -⟩)
  all_goals cases List.mem_singleton.1 hmem

/-! ## Routes that enter no fragment twice -/

/-- A route either leaves a fragment out or has a last visit to it, behind which it starts at the
body of that fragment and leaves the fragment out. -/
theorem route_avoids_or_from_body {f : Fragment} {target : List Selection}
    (hp : p.enter? name = some inner) (hf : i.find? name = some f)
    (h : ReflTransGen (i.LooksInto p) sels target) :
    ReflTransGen (i.LooksInto inner) sels target ∨
      ReflTransGen (i.LooksInto inner) f.selections target := by
  -- On the last step of the route: a visit to the fragment there starts it anew at the body, and any
  -- other step goes on from whichever of the two routes stands so far.
  induction h with
  | refl => exact .inl .refl
  | tail _ hlast ih =>
    cases hlast with
    | inline g _ hmem => exact ih.imp (·.tail (.inline g _ hmem)) (·.tail (.inline g _ hmem))
    | spread s g hmem hn hg =>
      by_cases hs : s.name = name
      · rw [hs, hf] at hg
        cases hg
        exact .inr .refl
      · have hn' : s.name ∉ inner.names := by simp [(Path.enter?_eq_some hp).2, hn, hs]
        exact ih.imp (·.tail (.spread s g hmem hn' hg)) (·.tail (.spread s g hmem hn' hg))

/-- Below a fragment that has been entered, routes that come back to it lead to no other fields. -/
theorem selectsAtRoot_entered {f : Fragment} {entered : String} (hp : p.enter? entered = some inner)
    (hf : i.find? entered = some f) :
    i.SelectsAtRoot p f.selections name ↔ i.SelectsAtRoot inner f.selections name := by
  constructor
  · rintro ⟨set, hroute, hfield⟩
    exact ⟨set, (route_avoids_or_from_body hp hf hroute).elim id id, hfield⟩
  · rintro ⟨set, hroute, hfield⟩
    have hstep (a b : List Selection) (h : i.LooksInto inner a b) : i.LooksInto p a b := by
      cases h with
      | inline g _ hmem => exact .inline g _ hmem
      | spread s g hmem hn hg =>
        refine .spread s g hmem (fun hin => hn ?_) hg
        simp [(Path.enter?_eq_some hp).2, hin]
    exact ⟨set, ReflTransGen.mono hstep _ _ hroute, hfield⟩

end Fragment.Index

namespace Depth

theorem rootFieldNames_spread (i : Index) (p : Path) (s : Spread) (rest : List Selection) :
    rootFieldNames i p (.spread s :: rest) =
      (match p.enter? s.name with
        | none => []
        | some inner =>
          match i.find? s.name with
          | none => []
          | some f => rootFieldNames i inner f.selections)
        ++ rootFieldNames i p rest := by
  rw [rootFieldNames]
  split
  · next he => rw [he]
  · next inner he =>
    rw [he]
    simp only
    split
    · next hf => rw [hf]
    · next f hf => rw [hf]

/-- A walk collects the names of exactly the fields at the root of its selections. -/
theorem mem_rootFieldNames {i : Index} {p : Path} {sels : List Selection} {name : String} :
    name ∈ rootFieldNames i p sels ↔ i.SelectsAtRoot p sels name := by
  induction p, sels using i.walk_induction with
  | nil p => simp [rootFieldNames, Index.not_selectsAtRoot_nil]
  | field p h body rest _ ih =>
    rw [Index.selectsAtRoot_cons, Index.selectsAtRoot_field, ← ih, rootFieldNames, List.mem_cons,
      eq_comm]
  | inline p h body rest ihb ih =>
    rw [Index.selectsAtRoot_cons, Index.selectsAtRoot_inline, ← ihb, ← ih, rootFieldNames,
      List.mem_append]
  | refused p s rest he ih =>
    have hon : s.name ∈ p.names := Path.enter?_eq_none.1 he
    rw [Index.selectsAtRoot_cons, Index.selectsAtRoot_spread, ← ih]
    simp [rootFieldNames_spread, he, hon]
  | undefined p inner s rest he hf ih =>
    rw [Index.selectsAtRoot_cons, Index.selectsAtRoot_spread, ← ih]
    simp [rootFieldNames_spread, he, hf]
  | defined p inner s f rest he hf ihf ih =>
    have hoff : s.name ∉ p.names := (Path.enter?_eq_some he).1
    rw [Index.selectsAtRoot_cons, Index.selectsAtRoot_spread, ← ih]
    simp [rootFieldNames_spread, he, hf, ihf, hoff, Index.selectsAtRoot_entered he hf]
  | unknown p rest ih =>
    rw [Index.selectsAtRoot_cons, ← ih, rootFieldNames]
    simp [Index.not_selectsAtRoot_unknown]

/-- The selection sets at the root of an operation of a document: its own, and with each of them
those of its inline fragments and those of the fragments it spreads, each by its first definition. -/
inductive RootSet (d : Document) (o : Operation) : List Selection → Prop
  | own : RootSet d o o.selections
  | inline {sels body : List Selection} (h : Inline) :
      RootSet d o sels → .inline h (some body) ∈ sels → RootSet d o body
  | spread {sels : List Selection} {f : Fragment} (s : Spread) :
      RootSet d o sels → .spread s ∈ sels → d.fragments.find? (·.name == s.name) = some f →
      RootSet d o f.selections

theorem rootSet_iff {d : Document} {o : Operation} {set : List Selection} :
    RootSet d o set ↔ ReflTransGen ((Index.ofDocument d).LooksInto .empty) o.selections set := by
  constructor
  · intro h
    induction h with
    | own => exact .refl
    | inline h _ hmem ih => exact ih.tail (.inline h _ hmem)
    | spread s _ hmem hf ih =>
      exact ih.tail (.spread s _ hmem (by simp [Path.empty]) ((Index.find?_ofDocument d _).trans hf))
  · intro h
    induction h with
    | refl => exact .own
    | tail _ hlast ih =>
      cases hlast with
      | inline h body hmem => exact .inline h ih hmem
      | spread s f hmem _ hf => exact .spread s ih hmem ((Index.find?_ofDocument d _).symm.trans hf)

/-- A field that stands directly in one of the selection sets at the root of an operation. -/
def RootField (d : Document) (o : Operation) (h : Field) : Prop :=
  ∃ set, RootSet d o set ∧ ∃ body, .field h body ∈ set

theorem mem_rootFieldNames_iff_rootField {d : Document} {o : Operation} {name : String} :
    name ∈ rootFieldNames (Index.ofDocument d) .empty o.selections ↔
      ∃ h, RootField d o h ∧ h.name = name := by
  rw [mem_rootFieldNames]
  constructor
  · rintro ⟨set, hroute, h, body, hmem, hname⟩
    exact ⟨h, ⟨set, rootSet_iff.2 hroute, body, hmem⟩, hname⟩
  · rintro ⟨h, ⟨set, hset, body, hmem⟩, hname⟩
    exact ⟨set, rootSet_iff.1 hset, h, body, hmem, hname⟩

theorem isIntrospection_iff_names (i : Index) (o : Operation) :
    isIntrospection i o = true ↔
      (∀ name ∈ rootFieldNames i .empty o.selections, name ∈ metaFields) ∧
        ∃ name ∈ rootFieldNames i .empty o.selections, name ∈ introspectionFields := by
  simp only [isIntrospection, Bool.and_eq_true, List.all_eq_true, List.any_eq_true,
    List.contains_iff_mem, Bool.not_eq_true', List.isEmpty_eq_false_iff_exists_mem]
  constructor
  · rintro ⟨⟨-, hall⟩, hany⟩
    exact ⟨hall, hany⟩
  · rintro ⟨hall, name, hmem, hname⟩
    exact ⟨⟨⟨name, hmem⟩, hall⟩, name, hmem, hname⟩

/-- An operation is one of introspection exactly when all fields at its root are meta-fields and one
of them asks for the schema or a type. So a depth limit leaves no operation out that has any other
field at its root, whatever chain of fragments stands before it. -/
theorem isIntrospection_iff_rootField (d : Document) (o : Operation) :
    (isIntrospection (Index.ofDocument d) o = true ↔
      (∀ h, RootField d o h → h.name ∈ ["__schema", "__type", "__typename"]) ∧
        ∃ h, RootField d o h ∧ h.name ∈ ["__schema", "__type"]) ∧
    ∀ l : DepthLimit, l.skips (Index.ofDocument d) o = true →
      ∀ h, RootField d o h → h.name ∈ ["__schema", "__type", "__typename"] := by
  have hmeta (name : String) : name ∈ metaFields ↔ name ∈ ["__schema", "__type", "__typename"] := by
    simp only [metaFields, introspectionFields, List.mem_cons, List.not_mem_nil, or_false]
    grind
  have hall : (∀ name ∈ rootFieldNames (Index.ofDocument d) .empty o.selections,
      name ∈ metaFields) ↔ ∀ h, RootField d o h → h.name ∈ ["__schema", "__type", "__typename"] := by
    simp only [mem_rootFieldNames_iff_rootField, hmeta]
    constructor
    · exact fun hnames h hroot => hnames h.name ⟨h, hroot, rfl⟩
    · rintro hfields _ ⟨h, hroot, rfl⟩
      exact hfields h hroot
  have hany : (∃ name ∈ rootFieldNames (Index.ofDocument d) .empty o.selections,
      name ∈ introspectionFields) ↔ ∃ h, RootField d o h ∧ h.name ∈ ["__schema", "__type"] := by
    simp only [mem_rootFieldNames_iff_rootField]
    constructor
    · rintro ⟨_, ⟨h, hroot, rfl⟩, hname⟩
      exact ⟨h, hroot, hname⟩
    · rintro ⟨h, hroot, hname⟩
      exact ⟨h.name, ⟨h, hroot, rfl⟩, hname⟩
  rw [isIntrospection_iff_names, hall, hany]
  refine ⟨Iff.rfl, fun l hskip => ?_⟩
  have hintro : isIntrospection (Index.ofDocument d) o = true := by
    simp only [DepthLimit.skips, Bool.and_eq_true] at hskip
    exact hskip.2
  exact hall.1 ((isIntrospection_iff_names _ o).1 hintro).1

end Depth
end QueryBounds
