import Mathlib
import QueryBounds.Proofs.Inlining

/-!
# Edits inside selection sets

A list of selections is within another when it becomes the other by putting selections in, or
moving them about, in any number of its selection sets. Being within carries over to expansions, also
where the fragments themselves were edited: a walk along a path asks the path alone which spreads to
refuse, so an edit takes away nothing that was there, not even by closing a cycle. Counted fields,
depths and root fields then follow by looking at expansions, which have no spreads left.
-/
namespace QueryBounds

open Fragment (Index)
open List (Subperm)

/-- Selections of which any number of selection sets, the list itself and those of the fields and
inline fragments in it, have given way to others. A selection set that is not there counts as an
empty one. -/
inductive Edited (R : List Selection → List Selection → Prop) :
    List Selection → List Selection → Prop
  | refl (sels : List Selection) : Edited R sels sels
  | set {sels sels' : List Selection} (h : R sels sels') : Edited R sels sels'
  | beside (sel : Selection) {rest rest' : List Selection} (h : Edited R rest rest') :
      Edited R (sel :: rest) (sel :: rest')
  | field (head : Field) {body body' : Option (List Selection)} (rest : List Selection)
      (h : Edited R (body.getD []) (body'.getD [])) :
      Edited R (.field head body :: rest) (.field head body' :: rest)
  | inline (head : Inline) {body body' : Option (List Selection)} (rest : List Selection)
      (h : Edited R (body.getD []) (body'.getD [])) :
      Edited R (.inline head body :: rest) (.inline head body' :: rest)
  | trans {sels sels' sels'' : List Selection} (h : Edited R sels sels') (h' : Edited R sels' sels'') :
      Edited R sels sels''

namespace Edited

variable {R S : List Selection → List Selection → Prop} {sels sels' rest rest' : List Selection}

theorem mono (hRS : ∀ sels sels', R sels sels' → S sels sels') (h : Edited R sels sels') :
    Edited S sels sels' := by
  induction h with
  | refl sels => exact .refl sels
  | set h => exact .set (hRS _ _ h)
  | beside sel _ ih => exact .beside sel ih
  | field head rest _ ih => exact .field head rest ih
  | inline head rest _ ih => exact .inline head rest ih
  | trans _ _ ih ih' => exact ih.trans ih'

theorem symm (hR : ∀ sels sels', R sels sels' → R sels' sels) (h : Edited R sels sels') :
    Edited R sels' sels := by
  induction h with
  | refl sels => exact .refl sels
  | set h => exact .set (hR _ _ h)
  | beside sel _ ih => exact .beside sel ih
  | field head rest _ ih => exact .field head rest ih
  | inline head rest _ ih => exact .inline head rest ih
  | trans _ _ ih ih' => exact ih'.trans ih

theorem behind (front : List Selection) (h : Edited R rest rest') :
    Edited R (front ++ rest) (front ++ rest') := by
  induction front with
  | nil => exact h
  | cons sel front ih => exact .beside sel ih

theorem field_cons (head : Field) {body body' : Option (List Selection)}
    (hb : Edited R (body.getD []) (body'.getD [])) (hr : Edited R rest rest') :
    Edited R (.field head body :: rest) (.field head body' :: rest') :=
  (field head rest hb).trans (.beside _ hr)

theorem inline_cons (head : Inline) {body body' : Option (List Selection)}
    (hb : Edited R (body.getD []) (body'.getD [])) (hr : Edited R rest rest') :
    Edited R (.inline head body :: rest) (.inline head body' :: rest') :=
  (inline head rest hb).trans (.beside _ hr)

end Edited

/-- Everything selected in the one list is selected in the other as often, set by set. -/
abbrev Within : List Selection → List Selection → Prop := Edited Subperm

theorem Edited.within_of_sublist {sels sels' : List Selection} (h : Edited List.Sublist sels sels') :
    Within sels sels' :=
  h.mono fun _ _ => List.Sublist.subperm

theorem Edited.within_of_perm {sels sels' : List Selection} (h : Edited List.Perm sels sels') :
    Within sels sels' :=
  h.mono fun _ _ => List.Perm.subperm

theorem subperm_flatMap {α β : Type} {xs ys : List α} (h : Subperm xs ys) (f : α → List β) :
    Subperm (xs.flatMap f) (ys.flatMap f) := by
  obtain ⟨zs, hperm, hsub⟩ := h
  exact ⟨zs.flatMap f, hperm.flatMap_right f, hsub.flatMap f⟩

/-- What is collected from selections one after the other is collected from each on its own. -/
theorem flatMap_of_cons {β : Type} {collect : List Selection → List β} (hnil : collect [] = [])
    (hcons : ∀ sel rest, collect (sel :: rest) = collect [sel] ++ collect rest)
    (sels : List Selection) : collect sels = sels.flatMap fun sel => collect [sel] := by
  induction sels with
  | nil => exact hnil
  | cons sel rest ih => rw [hcons, ih, List.flatMap_cons]

/-- A collection from selections loses nothing to edits when none is lost in bodies. -/
theorem Edited.subperm {β : Type} {collect : List Selection → List β} (hnil : collect [] = [])
    (hcons : ∀ sel rest, collect (sel :: rest) = collect [sel] ++ collect rest)
    (hfield : ∀ head body body', Subperm (collect (body.getD [])) (collect (body'.getD [])) →
      Subperm (collect [.field head body]) (collect [.field head body']))
    (hinline : ∀ head body body', Subperm (collect (body.getD [])) (collect (body'.getD [])) →
      Subperm (collect [.inline head body]) (collect [.inline head body']))
    {sels sels' : List Selection} (h : Within sels sels') :
    Subperm (collect sels) (collect sels') := by
  induction h with
  | refl sels => exact List.Subperm.refl _
  | set h =>
    rw [flatMap_of_cons hnil hcons, flatMap_of_cons hnil hcons]
    exact subperm_flatMap h _
  | @beside sel rest rest' _ ih =>
    rw [hcons sel rest, hcons sel rest']
    exact (List.Subperm.refl _).append ih
  | @field head body body' rest _ ih =>
    rw [hcons _ rest, hcons _ rest]
    exact (hfield head body body' ih).append (.refl _)
  | @inline head body body' rest _ ih =>
    rw [hcons _ rest, hcons _ rest]
    exact (hinline head body body' ih).append (.refl _)
  | trans _ _ ih ih' => exact ih.trans ih'

/-! ## Expansions -/

namespace Fragment.Index

/-- Every fragment of the one index is in the other as well, with a body that its own is within. -/
def Within (i j : Index) : Prop :=
  ∀ name f, i.find? name = some f →
    ∃ g, j.find? name = some g ∧ QueryBounds.Within f.selections g.selections

theorem expand_cons (i : Index) (p : Path) (sel : Selection) (rest : List Selection) :
    i.expand p (sel :: rest) = i.expand p [sel] ++ i.expand p rest := by
  cases sel <;> simp [expand, expand_spread]

/-- Over one index an expansion is edited where the selections are. -/
theorem within_expand_selections (i : Index) (p : Path) {sels sels' : List Selection}
    (h : QueryBounds.Within sels sels') : QueryBounds.Within (i.expand p sels) (i.expand p sels') := by
  induction h with
  | refl sels => exact .refl _
  | set h =>
    have hnil : i.expand p [] = [] := by simp only [expand]
    rw [flatMap_of_cons hnil (i.expand_cons p), flatMap_of_cons hnil (i.expand_cons p)]
    exact .set (subperm_flatMap h _)
  | @beside sel rest rest' _ ih =>
    rw [expand_cons i p sel rest, expand_cons i p sel rest']
    exact ih.behind _
  | field head rest _ ih =>
    simp only [expand]
    refine .field head _ ?_
    rwa [getD_map_expand, getD_map_expand]
  | inline head rest _ ih =>
    simp only [expand]
    refine .inline head _ ?_
    rwa [getD_map_expand, getD_map_expand]
  | trans _ _ ih ih' => exact ih.trans ih'

/-- Over an index with edited fragments the same selections expand to edited ones. The path refuses
the same spreads in both. -/
theorem within_expand_index {i j : Index} (hij : i.Within j) (p : Path) (sels : List Selection) :
    QueryBounds.Within (i.expand p sels) (j.expand p sels) := by
  induction p, sels using i.walk_induction with
  | nil p =>
    simp only [expand]
    exact .refl []
  | field p h body rest ihb ihr =>
    simp only [expand]
    refine .field_cons h ?_ ihr
    rwa [getD_map_expand, getD_map_expand]
  | inline p h body rest ihb ihr =>
    simp only [expand]
    refine .inline_cons h ?_ ihr
    rwa [getD_map_expand, getD_map_expand]
  | refused p s rest he ih => simpa only [expand_spread, he, List.nil_append] using ih
  | undefined p inner s rest he hf ih =>
    simp only [expand_spread, he, hf]
    -- a fragment that was missing stood for nothing, and now for what is inside its definition
    split
    · exact .beside _ ih
    · exact .inline_cons plainInline (.set List.nil_subperm) ih
  | defined p inner s f rest he hf ihf ihr =>
    obtain ⟨g, hg, hbody⟩ := hij s.name f hf
    have hinside := ihf.trans (j.within_expand_selections inner hbody)
    simp only [expand_spread, he, hf, hg]
    exact .inline_cons plainInline (.inline_cons plainInline hinside (.refl [])) ihr
  | unknown p rest ih =>
    simp only [expand]
    exact .beside _ ih

theorem within_expand {i j : Index} (hij : i.Within j) (p : Path) {sels sels' : List Selection}
    (h : QueryBounds.Within sels sels') : QueryBounds.Within (i.expand p sels) (j.expand p sels') :=
  (within_expand_index hij p sels).trans (j.within_expand_selections p h)

end Fragment.Index

/-! ## Measures -/

namespace Alias

theorem occurrences_cons (i : Index) (allowed : List String) (p : Path) (sel : Selection)
    (rest : List Selection) :
    occurrences i allowed p (sel :: rest) =
      occurrences i allowed p [sel] ++ occurrences i allowed p rest := by
  cases sel <;> simp [occurrences, occurrences_spread]

/-- Edits lose no counted field. -/
theorem subperm_occurrences {i j : Index} (hij : i.Within j) (allowed : List String) (p : Path)
    {sels sels' : List Selection} (h : Within sels sels') :
    Subperm (occurrences i allowed p sels) (occurrences j allowed p sels') := by
  rw [← occurrences_expand i .empty allowed p .empty, ← occurrences_expand j .empty allowed p .empty]
  refine Edited.subperm (by simp only [occurrences]) (occurrences_cons _ _ _) ?_ ?_
    (Index.within_expand hij p h)
  · intro head body body' hbody
    simp only [occurrences, List.append_nil]
    exact (List.Subperm.refl _).append hbody
  · intro head body body' hbody
    simpa only [occurrences, List.append_nil] using hbody

end Alias

namespace Depth

theorem nesting_le_of_mem (i : Index) (step : Nat) (p : Path) {sel : Selection}
    {sels : List Selection} (h : sel ∈ sels) : nesting i step p [sel] ≤ nesting i step p sels := by
  induction sels with
  | nil => cases h
  | cons first rest ih =>
    rw [nesting_cons i step p first rest]
    rcases List.mem_cons.1 h with rfl | hrest
    · exact Nat.le_max_left _ _
    · exact Nat.le_trans (ih hrest) (Nat.le_max_right _ _)

theorem nesting_le_of_subset (i : Index) (step : Nat) (p : Path) {sels sels' : List Selection}
    (h : sels ⊆ sels') : nesting i step p sels ≤ nesting i step p sels' := by
  induction sels with
  | nil => simp [nesting]
  | cons sel rest ih =>
    obtain ⟨hsel, hrest⟩ := List.cons_subset.1 h
    rw [nesting_cons]
    exact Nat.max_le.2 ⟨nesting_le_of_mem i step p hsel, ih hrest⟩

theorem nesting_le_selections (i : Index) (step : Nat) (p : Path) {sels sels' : List Selection}
    (h : Within sels sels') : nesting i step p sels ≤ nesting i step p sels' := by
  induction h with
  | refl sels => exact Nat.le_refl _
  | set h => exact nesting_le_of_subset i step p h.subset
  | @beside sel rest rest' _ ih =>
    rw [nesting_cons i step p sel rest, nesting_cons i step p sel rest']
    exact max_le_max (Nat.le_refl _) ih
  | field head rest _ ih =>
    simp only [nesting]
    exact max_le_max (Nat.add_le_add_left ih 1) (Nat.le_refl _)
  | inline head rest _ ih =>
    simp only [nesting]
    exact max_le_max (Nat.add_le_add_left ih step) (Nat.le_refl _)
  | trans _ _ ih ih' => exact Nat.le_trans ih ih'

/-- Edits lose no depth. -/
theorem nesting_le {i j : Index} (hij : i.Within j) (step : Nat) (p : Path)
    {sels sels' : List Selection} (h : Within sels sels') :
    nesting i step p sels ≤ nesting j step p sels' := by
  rw [← nesting_expand i .empty step p .empty, ← nesting_expand j .empty step p .empty]
  exact nesting_le_selections _ _ _ (Index.within_expand hij p h)

theorem ofOperation_le {i j : Index} (hij : i.Within j) (flatten : Bool) {o o' : Operation}
    (h : Within o.selections o'.selections) : ofOperation i flatten o ≤ ofOperation j flatten o' := by
  rw [ofOperation_eq_nesting, ofOperation_eq_nesting]
  exact nesting_le hij _ _ h

theorem rootFieldNames_cons (i : Index) (p : Path) (sel : Selection) (rest : List Selection) :
    rootFieldNames i p (sel :: rest) = rootFieldNames i p [sel] ++ rootFieldNames i p rest := by
  cases sel <;> simp [rootFieldNames, rootFieldNames_spread]

/-- Edits lose no field at the root. -/
theorem subperm_rootFieldNames {i j : Index} (hij : i.Within j) (p : Path)
    {sels sels' : List Selection} (h : Within sels sels') :
    Subperm (rootFieldNames i p sels) (rootFieldNames j p sels') := by
  rw [← rootFieldNames_expand i .empty p .empty, ← rootFieldNames_expand j .empty p .empty]
  refine Edited.subperm (by simp only [rootFieldNames]) (rootFieldNames_cons _ _) ?_ ?_
    (Index.within_expand hij p h)
  · intro head body body' _
    simp only [rootFieldNames]
    exact List.Subperm.refl _
  · intro head body body' hbody
    simpa only [rootFieldNames, List.append_nil] using hbody

end Depth

/-! ## Documents -/

/-- An operation that was edited inside. -/
structure Operation.Edited (R : List Selection → List Selection → Prop) (o o' : Operation) : Prop where
  node : o'.node = o.node
  selections : QueryBounds.Edited R o.selections o'.selections

/-- A fragment that was edited inside. -/
structure Fragment.Edited (R : List Selection → List Selection → Prop) (f g : Fragment) : Prop where
  node : g.node = f.node
  selections : QueryBounds.Edited R f.selections g.selections

/-- A definition that was edited inside. -/
inductive Definition.Edited (R : List Selection → List Selection → Prop) :
    Definition → Definition → Prop
  | operation {o o' : Operation} (h : o.Edited R o') :
      Definition.Edited R (.operation o) (.operation o')
  | fragment {f g : Fragment} (h : f.Edited R g) : Definition.Edited R (.fragment f) (.fragment g)
  | other : Definition.Edited R .other .other

section Documents

variable {R : List Selection → List Selection → Prop} {d d' : Document} {o o' : Operation}
variable {f g : Fragment}

theorem Fragment.Edited.name (h : f.Edited R g) : g.name = f.name := by
  have hnode := h.node
  simp only [Fragment.node, Node.fragment.injEq] at hnode
  exact hnode.1

theorem Definition.Edited.symm (hR : ∀ sels sels', R sels sels' → R sels' sels) {x y : Definition}
    (h : x.Edited R y) : y.Edited R x := by
  cases h with
  | operation h => exact .operation ⟨h.node.symm, h.selections.symm hR⟩
  | fragment h => exact .fragment ⟨h.node.symm, h.selections.symm hR⟩
  | other => exact .other

namespace Document

theorem operations_edited (h : List.Forall₂ (Definition.Edited R) d.definitions d'.definitions) :
    List.Forall₂ (Operation.Edited R) d.operations d'.operations := by
  refine List.rel_filterMap (fun x y hxy => ?_) h
  cases hxy with
  | operation h => exact .some h
  | fragment _ => exact .none
  | other => exact .none

theorem fragments_edited (h : List.Forall₂ (Definition.Edited R) d.definitions d'.definitions) :
    List.Forall₂ (Fragment.Edited R) d.fragments d'.fragments := by
  refine List.rel_filterMap (fun x y hxy => ?_) h
  cases hxy with
  | operation _ => exact .none
  | fragment h => exact .some h
  | other => exact .none

/-- The first fragment of a name was edited from the first one before. -/
theorem find?_edited (h : List.Forall₂ (Definition.Edited R) d.definitions d'.definitions)
    {name : String} (hf : d.fragments.find? (·.name == name) = some f) :
    ∃ g, d'.fragments.find? (·.name == name) = some g ∧ f.Edited R g := by
  have hfragments := fragments_edited h
  generalize d.fragments = fs at hfragments hf
  generalize d'.fragments = gs at hfragments
  induction hfragments with
  | nil => cases hf
  | @cons x y xs ys hxy _ ih =>
    rw [List.find?_cons] at hf ⊢
    rw [hxy.name]
    cases hname : x.name == name with
    | true =>
      rw [hname] at hf
      cases hf
      exact ⟨y, rfl, hxy⟩
    | false =>
      rw [hname] at hf
      exact ih hf

end Document

theorem exists_of_forall₂ {α β : Type} {T : α → β → Prop} {xs : List α} {ys : List β} {x : α}
    (h : List.Forall₂ T xs ys) (hx : x ∈ xs) : ∃ y ∈ ys, T x y := by
  induction h with
  | nil => cases hx
  | @cons a b as bs hab _ ih =>
    rcases List.mem_cons.1 hx with rfl | hx
    · exact ⟨b, List.mem_cons_self, hab⟩
    · obtain ⟨y, hy, hT⟩ := ih hx
      exact ⟨y, List.mem_cons_of_mem b hy, hT⟩

/-- Operations that were edited, over an index that was, have lost no counted field. -/
theorem Alias.subperm_operations {i j : Index} (hij : i.Within j) (allowed : List String)
    {os os' : List Operation}
    (h : List.Forall₂ (fun o o' => Within o.selections o'.selections) os os') :
    Subperm (os.flatMap fun o => occurrences i allowed .empty o.selections)
      (os'.flatMap fun o => occurrences j allowed .empty o.selections) := by
  induction h with
  | nil => exact List.Subperm.refl _
  | cons ho _ ih =>
    rw [List.flatMap_cons, List.flatMap_cons]
    exact (subperm_occurrences hij allowed .empty ho).append ih

end Documents
end QueryBounds
