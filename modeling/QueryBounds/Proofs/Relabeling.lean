import QueryBounds.Proofs.Reordering

/-!
# Selections under other labels

Fields may stand under other aliases and fragments under other names. As long as different names stay
different, a walk along the renamed path enters and refuses the same spreads, since a path only asks
whether two names are the same, so the expansions are the same selections under other labels. Names that
no fragment has count as names here: a missing fragment must stay missing. Depth does not see labels at
all, and the fields at the root are told by their names alone.
-/
namespace QueryBounds

open Fragment (Index)

/-! ## Selections under other labels -/

/-- The same selections under other labels: heads of fields in some relation, and spreads of the
fragments by their new names. Places in the text may differ, and a selection set that is not there
counts as an empty one. -/
inductive Relabeled (R : Field → Field → Prop) (ρ : String → String) :
    List Selection → List Selection → Prop
  | nil : Relabeled R ρ [] []
  | field {h h' : Field} {body body' : Option (List Selection)} {rest rest' : List Selection}
      (head : R h h') (below : Relabeled R ρ (body.getD []) (body'.getD []))
      (beside : Relabeled R ρ rest rest') :
      Relabeled R ρ (.field h body :: rest) (.field h' body' :: rest')
  | inline {h h' : Inline} {body body' : Option (List Selection)} {rest rest' : List Selection}
      (head : h'.condition = h.condition) (below : Relabeled R ρ (body.getD []) (body'.getD []))
      (beside : Relabeled R ρ rest rest') :
      Relabeled R ρ (.inline h body :: rest) (.inline h' body' :: rest')
  | spread {s s' : Spread} {rest rest' : List Selection} (head : s'.name = ρ s.name)
      (beside : Relabeled R ρ rest rest') :
      Relabeled R ρ (.spread s :: rest) (.spread s' :: rest')
  | unknown {rest rest' : List Selection} (beside : Relabeled R ρ rest rest') :
      Relabeled R ρ (.unknown :: rest) (.unknown :: rest')

/-- The same field, under any alias. -/
def Field.SameName (h h' : Field) : Prop := h'.name = h.name

/-- What a field is known by in a response and in the schema. -/
def Field.labels (f : Field) : Option String × String := (f.aliasName, f.name)

/-- The same field under the same alias. -/
def Field.SameLabels (h h' : Field) : Prop := h'.labels = h.labels

theorem Field.SameLabels.sameName {h h' : Field} (hh : h.SameLabels h') : h.SameName h' :=
  congrArg Prod.snd hh

namespace Path

/-- The path with every name on it renamed. -/
def map (ρ : String → String) (p : Path) : Path := ⟨p.names.map ρ⟩

@[simp] theorem map_empty (ρ : String → String) : Path.empty.map ρ = .empty := rfl

/-- A renamed path enters and refuses the renamed fragments, as long as different names of the path
stay different from the one at hand. -/
theorem enter?_map {ρ : String → String} {p : Path} {name : String}
    (h : ∀ a ∈ p.names, ρ a = ρ name → a = name) :
    (p.map ρ).enter? (ρ name) = (p.enter? name).map (·.map ρ) := by
  have hmem : ρ name ∈ (p.map ρ).names ↔ name ∈ p.names := by
    constructor
    · intro hin
      obtain ⟨a, ha, haρ⟩ := List.mem_map.1 hin
      exact h a ha haρ ▸ ha
    · exact fun hin => List.mem_map_of_mem hin
  unfold enter?
  by_cases hin : name ∈ p.names
  · rw [if_pos hin, if_pos (hmem.2 hin)]
    rfl
  · rw [if_neg hin, if_neg fun hρ => hin (hmem.1 hρ)]
    simp [map]

end Path

namespace Relabeled

variable {R : Field → Field → Prop} {ρ : String → String} {sels sels' : List Selection}

/-- Selections stand under other labels one by one. -/
theorem forall₂ (h : Relabeled R ρ sels sels') :
    List.Forall₂ (fun sel sel' => Relabeled R ρ [sel] [sel']) sels sels' := by
  induction h with
  | nil => exact .nil
  | field head below _ _ ih => exact .cons (.field head below .nil) ih
  | inline head below _ _ ih => exact .cons (.inline head below .nil) ih
  | spread head _ ih => exact .cons (.spread head .nil) ih
  | unknown _ ih => exact .cons (.unknown .nil) ih

end Relabeled

/-! ## Expansions -/

namespace Fragment.Index

/-- An index that has the fragments of another under other labels, as far as these names go: they are
renamed apart, a name without a fragment is renamed to one without, and no fragment of theirs spreads
a name outside. -/
structure RelabelsOn (R : Field → Field → Prop) (ρ : String → String) (names : String → Prop)
    (i j : Index) : Prop where
  defined : ∀ name f, names name → i.find? name = some f →
    ∃ g, j.find? (ρ name) = some g ∧ Relabeled R ρ f.selections g.selections
  undefined : ∀ name, names name → i.find? name = none → j.find? (ρ name) = none
  closed : ∀ a b, names a → i.Spreads a b → names b
  apart : ∀ a b, names a → names b → ρ a = ρ b → a = b

namespace RelabelsOn

variable {R : Field → Field → Prop} {ρ : String → String} {names : String → Prop} {i j : Index}

theorem enter? (hij : RelabelsOn R ρ names i j) {p : Path} (hp : ∀ name ∈ p.names, names name)
    {name : String} (hname : names name) :
    (p.map ρ).enter? (ρ name) = (p.enter? name).map (·.map ρ) :=
  Path.enter?_map fun a ha => hij.apart a name (hp a ha) hname

/-- Over such an index the selections expand to those under other labels. -/
theorem expand (hij : RelabelsOn R ρ names i j) (p : Path) (sels : List Selection)
    (hp : ∀ name ∈ p.names, names name) (hsels : ∀ name ∈ spreadNames sels, names name)
    {sels' : List Selection} (h : Relabeled R ρ sels sels') :
    Relabeled R ρ (i.expand p sels) (j.expand (p.map ρ) sels') := by
  induction p, sels using i.walk_induction generalizing sels' with
  | nil p =>
    cases h
    simp only [Index.expand]
    exact .nil
  | field p head body rest ihb ihr =>
    simp only [spreadNames, List.forall_mem_append] at hsels
    cases h with
    | field hhead hbody hrest =>
      simp only [Index.expand]
      refine .field hhead ?_ (ihr hp hsels.2 hrest)
      rw [getD_map_expand, getD_map_expand]
      exact ihb hp hsels.1 hbody
  | inline p head body rest ihb ihr =>
    simp only [spreadNames, List.forall_mem_append] at hsels
    cases h with
    | inline hhead hbody hrest =>
      simp only [Index.expand]
      refine .inline hhead ?_ (ihr hp hsels.2 hrest)
      rw [getD_map_expand, getD_map_expand]
      exact ihb hp hsels.1 hbody
  | refused p s rest he ih =>
    simp only [spreadNames, List.forall_mem_cons] at hsels
    cases h with
    | spread hhead hrest =>
      rw [expand_spread, expand_spread, hhead, hij.enter? hp hsels.1, he]
      exact ih hp hsels.2 hrest
  | undefined p inner s rest he hf ih =>
    simp only [spreadNames, List.forall_mem_cons] at hsels
    cases h with
    | spread hhead hrest =>
      have hf' := hij.undefined s.name hsels.1 hf
      rw [expand_spread, expand_spread, hhead, hij.enter? hp hsels.1, he]
      simp only [hf, hf', Option.map_some]
      exact .inline rfl .nil (ih hp hsels.2 hrest)
  | defined p inner s f rest he hf ihf ihr =>
    simp only [spreadNames, List.forall_mem_cons] at hsels
    cases h with
    | spread hhead hrest =>
      obtain ⟨g, hg, hbody⟩ := hij.defined s.name f hsels.1 hf
      have hinner : ∀ name ∈ inner.names, names name := by
        rw [(Path.enter?_eq_some he).2, List.forall_mem_append, List.forall_mem_singleton]
        exact ⟨hp, hsels.1⟩
      have hinside : Relabeled R ρ (i.expand inner f.selections)
          (j.expand (inner.map ρ) g.selections) :=
        ihf hinner (fun name hname => hij.closed s.name name hsels.1 ⟨f, hf, hname⟩) hbody
      rw [expand_spread, expand_spread, hhead, hij.enter? hp hsels.1, he]
      simp only [hf, hg, Option.map_some, List.singleton_append]
      refine .inline rfl ?_ (ihr hp hsels.2 hrest)
      exact .inline rfl hinside .nil
  | unknown p rest ih =>
    simp only [spreadNames] at hsels
    cases h with
    | unknown hrest =>
      simp only [Index.expand]
      exact .unknown (ih hp hsels hrest)

end RelabelsOn
end Fragment.Index

/-! ## Measures of selections under other labels -/

section Measures

variable {R : Field → Field → Prop} {ρ : String → String} {sels sels' : List Selection}

theorem Fragment.Index.find?_empty (name : String) : Index.empty.find? name = none := rfl

theorem Path.enter?_empty (name : String) : Path.empty.enter? name = some ⟨[name]⟩ := by
  simp [enter?, empty]

theorem Depth.nesting_relabeled (step : Nat) (h : Relabeled R ρ sels sels') :
    nesting .empty step .empty sels = nesting .empty step .empty sels' := by
  induction h with
  | nil => rfl
  | field _ _ _ ihb ihr => simp only [nesting, ihb, ihr]
  | inline _ _ _ ihb ihr => simp only [nesting, ihb, ihr]
  | spread _ _ ih => simp only [nesting_spread, Path.enter?_empty, Index.find?_empty, ih]
  | unknown _ ih => simp only [nesting, ih]

theorem Depth.rootFieldNames_relabeled (hR : ∀ h h', R h h' → h.SameName h')
    (h : Relabeled R ρ sels sels') :
    rootFieldNames .empty .empty sels = rootFieldNames .empty .empty sels' := by
  induction h with
  | nil => rfl
  | field hh _ _ _ ihr =>
    have hname := hR _ _ hh
    unfold Field.SameName at hname
    simp only [rootFieldNames, hname, ihr]
  | inline _ _ _ ihb ihr => simp only [rootFieldNames, ihb, ihr]
  | spread _ _ ih => simp only [rootFieldNames_spread, Path.enter?_empty, Index.find?_empty, ih]
  | unknown _ ih => simp only [rootFieldNames, ih]

theorem Alias.isCounted_labels (allowed : List String) {h h' : Field} (hh : h.SameLabels h') :
    isCounted allowed h' = isCounted allowed h := by
  simp only [Field.SameLabels, Field.labels, Prod.mk.injEq] at hh
  unfold isCounted
  rw [hh.1, hh.2]

theorem Alias.occurrences_relabeled (allowed : List String)
    (h : Relabeled Field.SameLabels ρ sels sels') :
    (occurrences .empty allowed .empty sels).map Field.labels =
      (occurrences .empty allowed .empty sels').map Field.labels := by
  induction h with
  | nil => rfl
  | @field head head' _ _ _ _ hh _ _ ihb ihr =>
    have hhead : (if isCounted allowed head then [head] else []).map Field.labels =
        (if isCounted allowed head' then [head'] else []).map Field.labels := by
      rw [isCounted_labels allowed hh]
      cases isCounted allowed head
      · rfl
      · exact congrArg (fun l => [l]) hh.symm
    simp only [occurrences, List.map_append, hhead, ihb, ihr]
  | inline _ _ _ ihb ihr => simp only [occurrences, List.map_append, ihb, ihr]
  | spread _ _ ih =>
    simp only [occurrences_spread, Path.enter?_empty, Index.find?_empty, List.nil_append, ih]
  | unknown _ ih => simp only [occurrences, ih]

end Measures

namespace Fragment.Index.RelabelsOn

variable {R : Field → Field → Prop} {ρ : String → String} {names : String → Prop} {i j : Index}
variable {sels sels' : List Selection}

/-- An expansion at the top, where no fragment is being expanded yet. -/
theorem expand_empty (hij : RelabelsOn R ρ names i j) (hsels : ∀ name ∈ spreadNames sels, names name)
    (h : Relabeled R ρ sels sels') : Relabeled R ρ (i.expand .empty sels) (j.expand .empty sels') :=
  hij.expand .empty sels (by simp [Path.empty]) hsels h

theorem nesting (hij : RelabelsOn R ρ names i j) (hsels : ∀ name ∈ spreadNames sels, names name)
    (h : Relabeled R ρ sels sels') (step : Nat) :
    Depth.nesting i step .empty sels = Depth.nesting j step .empty sels' := by
  rw [← Depth.nesting_expand i .empty step .empty .empty,
    ← Depth.nesting_expand j .empty step .empty .empty]
  exact Depth.nesting_relabeled step (hij.expand_empty hsels h)

theorem rootFieldNames (hij : RelabelsOn R ρ names i j) (hR : ∀ h h', R h h' → h.SameName h')
    (hsels : ∀ name ∈ spreadNames sels, names name) (h : Relabeled R ρ sels sels') :
    Depth.rootFieldNames i .empty sels = Depth.rootFieldNames j .empty sels' := by
  rw [← Depth.rootFieldNames_expand i .empty .empty .empty,
    ← Depth.rootFieldNames_expand j .empty .empty .empty]
  exact Depth.rootFieldNames_relabeled hR (hij.expand_empty hsels h)

theorem occurrences (hij : RelabelsOn Field.SameLabels ρ names i j)
    (hsels : ∀ name ∈ spreadNames sels, names name) (h : Relabeled Field.SameLabels ρ sels sels')
    (allowed : List String) :
    (Alias.occurrences i allowed .empty sels).map Field.labels =
      (Alias.occurrences j allowed .empty sels').map Field.labels := by
  rw [← Alias.occurrences_expand i .empty allowed .empty .empty,
    ← Alias.occurrences_expand j .empty allowed .empty .empty]
  exact Alias.occurrences_relabeled allowed (hij.expand_empty hsels h)

end Fragment.Index.RelabelsOn

/-! ## The deepest selection -/

namespace Depth

/-- The culprit is the first selection of the greatest depth, if that is not zero. -/
theorem IsDeepest.eq_find? {depth : Selection → Nat} {sels : List Selection}
    {r : Nat × Option Selection} (h : IsDeepest depth sels r) :
    r.2 = sels.find? fun sel => decide (0 < depth sel ∧ depth sel = r.1) := by
  cases hr : r.2 with
  | none =>
    have hzero : r.1 = 0 := h.none_iff.1 hr
    symm
    rw [List.find?_eq_none]
    intro sel _
    simp only [decide_eq_true_eq]
    omega
  | some sel =>
    obtain ⟨before, after, hsels, hdepth, hbefore⟩ := h.first sel hr
    have hpos : r.1 ≠ 0 := fun hzero => by
      rw [h.none_iff.2 hzero] at hr
      cases hr
    symm
    rw [List.find?_eq_some_iff_append]
    refine ⟨by simp only [decide_eq_true_eq]; omega, before, after, hsels, fun b hb => ?_⟩
    have hless := hbefore b hb
    simp only [Bool.not_eq_true', decide_eq_false_iff_not]
    omega

/-- Searches for what holds at the same places find it at the same place. -/
theorem find?_same_place {α β : Type} {p : α → Bool} {q : β → Bool} {xs : List α} {ys : List β}
    (h : List.Forall₂ (fun x y => p x = q y) xs ys) :
    ∃ k : Nat, xs.find? p = xs[k]? ∧ ys.find? q = ys[k]? := by
  induction h with
  | nil => exact ⟨0, rfl, rfl⟩
  | @cons x y xs ys hxy _ ih =>
    obtain ⟨k, hk, hk'⟩ := ih
    rw [List.find?_cons, List.find?_cons, ← hxy]
    cases p x with
    | true => exact ⟨0, rfl, rfl⟩
    | false => exact ⟨k + 1, hk, hk'⟩

/-- Two operations, each over its index, that measure alike, and whose culprits stand at the same place
among the selections at the top. -/
structure MeasureAlikeInPlace (i j : Index) (o o' : Operation) : Prop
    extends MeasureAlike i j o o' where
  culprit : ∀ flatten, ∃ k : Nat,
    (Measurer.measure ⟨i, flatten⟩ o .start).1.2 = o.selections[k]? ∧
    (Measurer.measure ⟨j, flatten⟩ o' .start).1.2 = o'.selections[k]?

end Depth

namespace Fragment.Index.RelabelsOn

variable {R : Field → Field → Prop} {ρ : String → String} {names : String → Prop} {i j : Index}

theorem selectionDepth (hij : RelabelsOn R ρ names i j) (step : Nat) {sels sels' : List Selection}
    (hsels : ∀ name ∈ spreadNames sels, names name) (h : Relabeled R ρ sels sels') :
    List.Forall₂ (fun sel sel' => Depth.selectionDepth i step sel = Depth.selectionDepth j step sel')
      sels sels' := by
  have hone := h.forall₂
  clear h
  induction hone with
  | nil => exact .nil
  | @cons sel sel' rest rest' hsel _ ih =>
    rw [spreadNames_cons, List.forall_mem_append] at hsels
    exact .cons (hij.nesting hsels.1 hsel step) (ih hsels.2)

theorem measureAlike (hij : RelabelsOn R ρ names i j) (hR : ∀ h h', R h h' → h.SameName h')
    {o o' : Operation} (ho : ∀ name ∈ spreadNames o.selections, names name)
    (h : Relabeled R ρ o.selections o'.selections) : Depth.MeasureAlikeInPlace i j o o' := by
  have hdepth (flatten : Bool) : Depth.ofOperation i flatten o = Depth.ofOperation j flatten o' := by
    rw [Depth.ofOperation_eq_nesting, Depth.ofOperation_eq_nesting]
    exact hij.nesting ho h _
  refine ⟨⟨hdepth, ?_⟩, fun flatten => ?_⟩
  · unfold Depth.isIntrospection
    rw [hij.rootFieldNames hR ho h]
  · have hsame : (Depth.Measurer.measure ⟨i, flatten⟩ o .start).1.1 =
        (Depth.Measurer.measure ⟨j, flatten⟩ o' .start).1.1 := hdepth flatten
    rw [(Depth.Measurer.isDeepest_measure ⟨i, flatten⟩ o).eq_find?,
      (Depth.Measurer.isDeepest_measure ⟨j, flatten⟩ o').eq_find?, hsame]
    -- the selections at the top are equally deep one by one
    refine Depth.find?_same_place ?_
    have hsels := hij.selectionDepth (Depth.fragmentStep flatten) ho h
    refine hsels.imp fun sel sel' hsel => ?_
    exact congrArg (fun depth => decide (0 < depth ∧ depth = _)) hsel

end Fragment.Index.RelabelsOn

end QueryBounds
