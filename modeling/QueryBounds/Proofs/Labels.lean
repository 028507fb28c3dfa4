import QueryBounds.Proofs.Relabeling

/-!
# Aliases and fragment names as labels

An alias is no more than a label to depth and introspection, and the name of a fragment is no more than
a label to every measure. A document may change its aliases at will and be as deep as before, at the
same selections, so no alias hides depth or passes a field off as a meta-field. When its fragments are
renamed apart, it counts and measures the same, and either limit decides it as before.
-/
namespace QueryBounds

open Fragment (Index)

/-! ## Documents under other labels -/

section Documents

variable (R : Field → Field → Prop) (ρ : String → String)

/-- The same operation under other labels. -/
structure Operation.Relabeled (o o' : Operation) : Prop where
  kind : o'.kind = o.kind
  name : o'.name = o.name
  selections : QueryBounds.Relabeled R ρ o.selections o'.selections

/-- The same fragment under other labels. -/
structure Fragment.Relabeled (f g : Fragment) : Prop where
  name : g.name = ρ f.name
  condition : g.condition = f.condition
  selections : QueryBounds.Relabeled R ρ f.selections g.selections

/-- The same definition under other labels. -/
inductive Definition.Relabeled : Definition → Definition → Prop
  | operation {o o' : Operation} (h : o.Relabeled R ρ o') :
      Definition.Relabeled (.operation o) (.operation o')
  | fragment {f g : Fragment} (h : f.Relabeled R ρ g) : Definition.Relabeled (.fragment f) (.fragment g)
  | other : Definition.Relabeled .other .other

/-- The same document under other labels, definition by definition. -/
def Document.Relabeled (d d' : Document) : Prop :=
  List.Forall₂ (Definition.Relabeled R ρ) d.definitions d'.definitions

end Documents

namespace Document

/-- The same document with any aliases: they may be given, taken away and changed at any field. -/
abbrev Realiased (d d' : Document) : Prop := d.Relabeled Field.SameName id d'

/-- The same document with its fragments renamed, in definitions and spreads alike. -/
abbrev Renamed (ρ : String → String) (d d' : Document) : Prop := d.Relabeled Field.SameLabels ρ d'

/-- The names of fragments that stand anywhere in a document, defined or spread. -/
def fragmentNames (d : Document) : List String :=
  d.fragments.map (·.name) ++ d.fragments.flatMap (spreadNames ·.selections) ++
    d.operations.flatMap (spreadNames ·.selections)

namespace Relabeled

variable {R : Field → Field → Prop} {ρ : String → String} {d d' : Document}

theorem operations (h : d.Relabeled R ρ d') :
    List.Forall₂ (Operation.Relabeled R ρ) d.operations d'.operations := by
  refine List.rel_filterMap (fun x y hxy => ?_) h
  cases hxy with
  | operation h => exact .some h
  | fragment _ => exact .none
  | other => exact .none

theorem fragments (h : d.Relabeled R ρ d') :
    List.Forall₂ (Fragment.Relabeled R ρ) d.fragments d'.fragments := by
  refine List.rel_filterMap (fun x y hxy => ?_) h
  cases hxy with
  | operation _ => exact .none
  | fragment h => exact .some h
  | other => exact .none

/-- Fragments renamed apart are found under their new names, the first of each name first. -/
theorem find?_relabeled {fs gs : List Fragment} {name : String}
    (h : List.Forall₂ (Fragment.Relabeled R ρ) fs gs)
    (happart : ∀ f ∈ fs, ρ f.name = ρ name → f.name = name) :
    Option.Rel (Fragment.Relabeled R ρ) (fs.find? (·.name == name)) (gs.find? (·.name == ρ name)) := by
  induction h with
  | nil => exact .none
  | @cons f g fs gs hfg _ ih =>
    have hname : (g.name == ρ name) = (f.name == name) := by
      rw [Bool.eq_iff_iff, beq_iff_eq, beq_iff_eq, hfg.name]
      exact ⟨happart f List.mem_cons_self, congrArg ρ⟩
    rw [List.find?_cons, List.find?_cons, hname]
    cases f.name == name with
    | true => exact .some hfg
    | false => exact ih fun e he => happart e (List.mem_cons_of_mem f he)

theorem mem_fragmentNames_of_defined {f : Fragment} (hf : f ∈ d.fragments) :
    f.name ∈ d.fragmentNames := by
  unfold fragmentNames
  exact List.mem_append_left _ (List.mem_append_left _ (List.mem_map_of_mem hf))

theorem mem_fragmentNames_of_spread {f : Fragment} {name : String} (hf : f ∈ d.fragments)
    (h : name ∈ spreadNames f.selections) : name ∈ d.fragmentNames := by
  unfold fragmentNames
  exact List.mem_append_left _ (List.mem_append_right _ (List.mem_flatMap.2 ⟨f, hf, h⟩))

theorem mem_fragmentNames_of_operation {o : Operation} {name : String} (ho : o ∈ d.operations)
    (h : name ∈ spreadNames o.selections) : name ∈ d.fragmentNames := by
  unfold fragmentNames
  exact List.mem_append_right _ (List.mem_flatMap.2 ⟨o, ho, h⟩)

/-- A document whose fragments are renamed apart has the renamed index. -/
theorem relabelsOn (h : d.Relabeled R ρ d') (hρ : Set.InjOn ρ {name | name ∈ d.fragmentNames}) :
    Index.RelabelsOn R ρ (· ∈ d.fragmentNames) (Index.ofDocument d) (Index.ofDocument d') := by
  have hfind (name : String) (hname : name ∈ d.fragmentNames) :
      Option.Rel (Fragment.Relabeled R ρ) ((Index.ofDocument d).find? name)
        ((Index.ofDocument d').find? (ρ name)) := by
    rw [Index.find?_ofDocument, Index.find?_ofDocument]
    exact find?_relabeled h.fragments fun f hf hfname =>
      hρ (mem_fragmentNames_of_defined hf) hname hfname
  constructor
  case defined =>
    intro name f hname hf
    have hfound := hfind name hname
    rw [hf] at hfound
    generalize (Index.ofDocument d').find? (ρ name) = found at hfound ⊢
    cases hfound with
    | some hfg => exact ⟨_, rfl, hfg.selections⟩
  case undefined =>
    intro name hname hf
    have hfound := hfind name hname
    rw [hf] at hfound
    generalize (Index.ofDocument d').find? (ρ name) = found at hfound ⊢
    cases hfound with
    | none => rfl
  case closed =>
    rintro a b ha ⟨f, hf, hb⟩
    exact mem_fragmentNames_of_spread (List.mem_of_find?_eq_some ((Index.find?_ofDocument d a) ▸ hf)) hb
  case apart => exact fun a b ha hb hab => hρ ha hb hab

/-- Every operation, together with the fact that its spreads are among the names of the document. -/
theorem operations_named (h : d.Relabeled R ρ d') :
    List.Forall₂ (fun o o' => (∀ name ∈ spreadNames o.selections, name ∈ d.fragmentNames) ∧
      o.Relabeled R ρ o') d.operations d'.operations :=
  (List.forall₂_and_left _ _).2
    ⟨fun _ ho _ hname => mem_fragmentNames_of_operation ho hname, h.operations⟩

theorem measureAlike (h : d.Relabeled R ρ d') (hR : ∀ f f', R f f' → f.SameName f')
    (hρ : Set.InjOn ρ {name | name ∈ d.fragmentNames}) :
    List.Forall₂ (Depth.MeasureAlikeInPlace (Index.ofDocument d) (Index.ofDocument d'))
      d.operations d'.operations :=
  h.operations_named.imp fun _ _ ⟨hnames, ho⟩ =>
    (h.relabelsOn hρ).measureAlike hR hnames ho.selections

theorem documentOccurrences (h : d.Renamed ρ d') (hρ : Set.InjOn ρ {name | name ∈ d.fragmentNames})
    (allowed : List String) :
    (Alias.documentOccurrences allowed d).map Field.labels =
      (Alias.documentOccurrences allowed d').map Field.labels := by
  have hindex := h.relabelsOn hρ
  have hoperations := h.operations_named
  unfold Alias.documentOccurrences
  generalize d.operations = os at hoperations
  generalize d'.operations = os' at hoperations
  induction hoperations with
  | nil => rfl
  | cons ho _ ih =>
    rw [List.flatMap_cons, List.flatMap_cons, List.map_append, List.map_append,
      hindex.occurrences ho.1 ho.2.selections, ih]

end Relabeled
end Document

/-! ## Counts and decisions -/

/-- What can be seen of a tally when fields are known by their labels. -/
def Alias.Tally.labels (t : Alias.Tally) : Nat × Option (Option String × String) :=
  (t.count, t.exceededAt.map Field.labels)

/-- A count sees the labels of fields only. -/
theorem Alias.Tally.labels_addAll {limit : Option Int} {fs gs : List Field} {t u : Tally}
    (h : fs.map Field.labels = gs.map Field.labels) (ht : t.labels = u.labels) :
    (t.addAll limit fs).2.labels = (u.addAll limit gs).2.labels := by
  induction fs generalizing gs t u with
  | nil =>
    cases gs with
    | nil => exact ht
    | cons g gs => cases h
  | cons f fs ih =>
    cases gs with
    | nil => cases h
    | cons g gs =>
      obtain ⟨hf, hfs⟩ := List.cons_eq_cons.1 h
      obtain ⟨hcount, hat⟩ := Prod.ext_iff.1 ht
      have hsame : t.count = u.count := hcount
      simp only [addAll, add, hsame]
      by_cases hx : exceeds limit (u.count + 1) = true
      · simp only [hx, if_true, Counter.andThen]
        exact Prod.ext rfl (congrArg some hf)
      · simp only [hx, Bool.false_eq_true, if_false, Counter.andThen_mk_false]
        exact ih hfs (Prod.ext rfl hat)

theorem Alias.count_labels {allowed : List String} {d d' : Document}
    (h : (documentOccurrences allowed d).map Field.labels =
      (documentOccurrences allowed d').map Field.labels) (limit : Option Int) :
    (count d allowed limit).tally.labels = (count d' allowed limit).tally.labels := by
  rw [count_tally, count_tally]
  exact Tally.labels_addAll h rfl

/-- A violation without the nodes at which it stands. -/
def Violation.placeless (v : Violation) : Violation := { v with nodes := [] }

theorem DepthLimit.placeless_tooDeepViolation (l : DepthLimit) (i : Index) (k : Nat) (o : Operation) :
    (l.tooDeepViolation i k o).placeless = Violation.ofLimit .depth (.int k)
      (.int (Depth.ofOperation i l.flattenFragments.holds o)) l.hiddenMessage [] := rfl

namespace EitherLimit

variable {d d' : Document}

/-- Two documents with the same violation, places apart, both exceed a limit or neither does, and a
check of them ends alike. -/
theorem decided_alike {l : EitherLimit}
    (h : (l.violation? d).map Violation.placeless = (l.violation? d').map Violation.placeless) :
    (l.Exceeded d ↔ l.Exceeded d') ∧
      (l.ending (l.violation? d)).map (List.map Violation.placeless) =
        (l.ending (l.violation? d')).map (List.map Violation.placeless) := by
  have hsome := congrArg Option.isSome h
  rw [Option.isSome_map, Option.isSome_map] at hsome
  rw [← isSome_violation?, ← isSome_violation?, hsome]
  exact ⟨Iff.rfl, ending_map l _ h⟩

/-- A depth limit finds the same in documents whose operations measure alike one by one. -/
theorem placeless_depth (l : DepthLimit)
    (h : List.Forall₂ (Depth.MeasureAlikeInPlace (Index.ofDocument d) (Index.ofDocument d'))
      d.operations d'.operations) :
    ((depth l).violation? d).map Violation.placeless =
      ((depth l).violation? d').map Violation.placeless := by
  rw [violation?, violation?]
  cases l.n with
  | none => simp only [Option.bind_none, Option.map_none]
  | some k =>
    simp only [Option.bind_some]
    generalize d.operations = os at h
    generalize d'.operations = os' at h
    induction h with
    | nil => simp only [List.find?_nil, Option.map_none]
    | @cons o o' os os' ho _ ih =>
      have hdepth := ho.depth l.flattenFragments.holds
      have hdeep : l.tooDeep (Index.ofDocument d) k o = l.tooDeep (Index.ofDocument d') k o' := by
        rw [DepthLimit.tooDeep, DepthLimit.tooDeep, DepthLimit.skips, DepthLimit.skips, hdepth,
          ho.introspection]
      rw [List.find?_cons, List.find?_cons, ← hdeep]
      cases l.tooDeep (Index.ofDocument d) k o with
      | true =>
        simp only [Option.map_some]
        rw [DepthLimit.placeless_tooDeepViolation, DepthLimit.placeless_tooDeepViolation, hdepth]
      | false => exact ih

/-- An alias limit finds the same in documents with the same counted fields, places apart. -/
theorem placeless_aliases (l : AliasLimit)
    (h : (Alias.documentOccurrences l.allowed d).map Field.labels =
      (Alias.documentOccurrences l.allowed d').map Field.labels) :
    ((aliases l).violation? d).map Violation.placeless =
      ((aliases l).violation? d').map Violation.placeless := by
  rw [violation?, violation?]
  cases l.n with
  | none => simp only [Option.bind_none, Option.map_none]
  | some k =>
    have hk := congrArg (·[k]?) h
    simp only [List.getElem?_map] at hk
    -- where the violation stands is all that it has of the field
    have hcrossing (v : Option Field) : (v.map (l.crossing k)).map Violation.placeless =
        (v.map Field.labels).map fun _ => Violation.ofLimit .aliases (.int k) (.int (k + 1 : Nat))
          l.hiddenMessage [] := by
      cases v <;> rfl
    simp only [Option.bind_some, hcrossing, hk]

end EitherLimit

namespace Document

/-- Aliases and fragment names are labels. A document under any other aliases has operations as deep as
before, with the culprit at the same place, and with the same answer on introspection, so a depth limit
accepts both or rejects both with the same limit, depth and message. A document whose fragments are
renamed apart moreover counts the same aliases, and either limit decides it alike. -/
theorem labels_immaterial (d d' : Document) :
    (d.Realiased d' →
      List.Forall₂ (Depth.MeasureAlikeInPlace (Index.ofDocument d) (Index.ofDocument d'))
        d.operations d'.operations ∧
      ∀ l : DepthLimit, ((EitherLimit.depth l).Exceeded d ↔ (EitherLimit.depth l).Exceeded d') ∧
        (l.validate d).result.map (List.map Violation.placeless) =
          (l.validate d').result.map (List.map Violation.placeless)) ∧
    ∀ ρ : String → String, Set.InjOn ρ {name | name ∈ d.fragmentNames} → d.Renamed ρ d' →
      List.Forall₂ (Depth.MeasureAlikeInPlace (Index.ofDocument d) (Index.ofDocument d'))
        d.operations d'.operations ∧
      (∀ allowed limit,
        (Alias.count d allowed limit).count = (Alias.count d' allowed limit).count ∧
        (Alias.count d allowed limit).exceededAt.map Field.labels =
          (Alias.count d' allowed limit).exceededAt.map Field.labels) ∧
      (∀ l : AliasLimit, ((EitherLimit.aliases l).Exceeded d ↔ (EitherLimit.aliases l).Exceeded d') ∧
        (l.validate d).result.map (List.map Violation.placeless) =
          (l.validate d').result.map (List.map Violation.placeless)) ∧
      ∀ l : DepthLimit, ((EitherLimit.depth l).Exceeded d ↔ (EitherLimit.depth l).Exceeded d') ∧
        (l.validate d).result.map (List.map Violation.placeless) =
          (l.validate d').result.map (List.map Violation.placeless) := by
  constructor
  · intro h
    have hmeasure := h.measureAlike (fun _ _ hname => hname) (Set.injOn_id _)
    refine ⟨hmeasure, fun l => ?_⟩
    rw [l.result_validate, l.result_validate]
    exact EitherLimit.decided_alike (EitherLimit.placeless_depth l hmeasure)
  · intro ρ hρ h
    have hmeasure := h.measureAlike (fun _ _ hlabels => hlabels.sameName) hρ
    have hfields := Relabeled.documentOccurrences h hρ
    refine ⟨hmeasure, fun allowed limit => ?_, fun l => ?_, fun l => ?_⟩
    · exact Prod.ext_iff.1 (Alias.count_labels (hfields allowed) limit)
    · rw [l.result_validate, l.result_validate]
      exact EitherLimit.decided_alike (EitherLimit.placeless_aliases l (hfields l.allowed))
    · rw [l.result_validate, l.result_validate]
      exact EitherLimit.decided_alike (EitherLimit.placeless_depth l hmeasure)

open AliasLimit (aliased)

def bareQuery : Operation :=
  ⟨.query, none,
    [.spread ⟨"F", none⟩, .field ⟨none, "books", none⟩ (some [.spread ⟨"F", none⟩])], none⟩

/-- Fragments that lead to each other and to a missing one, below a field and beside it. -/
def bare : Document := ⟨[
  .operation bareQuery,
  .fragment ⟨"F", "T", some [.field (aliased "a") none, .spread ⟨"G", none⟩], none⟩,
  .fragment ⟨"G", "T", some [.spread ⟨"F", none⟩, .spread ⟨"H", none⟩], none⟩]⟩

/-- The same document with its fields passed off as meta-fields. -/
def masked : Document := ⟨[
  .operation ⟨.query, none,
    [.spread ⟨"F", none⟩,
      .field ⟨some "__schema", "books", none⟩ (some [.spread ⟨"F", none⟩])], none⟩,
  .fragment ⟨"F", "T", some [.field ⟨some "__type", "x", none⟩ none, .spread ⟨"G", none⟩], none⟩,
  .fragment ⟨"G", "T", some [.spread ⟨"F", none⟩, .spread ⟨"H", none⟩], none⟩]⟩

/-- The names of `bare` in turn, the missing one included. -/
def turned : String → String
  | "F" => "G"
  | "G" => "H"
  | "H" => "F"
  | name => name

/-- The same document with its fragments renamed. -/
def renamed : Document := ⟨[
  .operation ⟨.query, none,
    [.spread ⟨"G", none⟩, .field ⟨none, "books", none⟩ (some [.spread ⟨"G", none⟩])], none⟩,
  .fragment ⟨"G", "T", some [.field (aliased "a") none, .spread ⟨"H", none⟩], none⟩,
  .fragment ⟨"H", "T", some [.spread ⟨"G", none⟩, .spread ⟨"F", none⟩], none⟩]⟩

theorem bare_realiased : bare.Realiased masked := by
  refine .cons (.operation ⟨rfl, rfl, ?_⟩) (.cons (.fragment ⟨rfl, rfl, ?_⟩)
    (.cons (.fragment ⟨rfl, rfl, ?_⟩) .nil))
  · exact .spread rfl (.field rfl (.spread rfl .nil) .nil)
  · exact .field rfl .nil (.spread rfl .nil)
  · exact .spread rfl (.spread rfl .nil)

theorem bare_renamed : bare.Renamed turned renamed := by
  have hF : "G" = turned "F" := by simp [turned]
  have hG : "H" = turned "G" := by simp [turned]
  have hH : "F" = turned "H" := by simp [turned]
  refine .cons (.operation ⟨rfl, rfl, ?_⟩) (.cons (.fragment ⟨hF, rfl, ?_⟩)
    (.cons (.fragment ⟨hG, rfl, ?_⟩) .nil))
  · exact .spread hF (.field rfl (.spread hF .nil) .nil)
  · exact .field rfl .nil (.spread hG .nil)
  · exact .spread hF (.spread hH .nil)

theorem turned_injOn : Set.InjOn turned {name | name ∈ bare.fragmentNames} := by
  have hnames (name : String) (h : name ∈ bare.fragmentNames) :
      name = "F" ∨ name = "G" ∨ name = "H" := by
    simp [fragmentNames, bare, bareQuery, fragments, Document.operations, Fragment.selections,
      spreadNames] at h
    grind
  intro a ha b hb hab
  rcases hnames a ha with rfl | rfl | rfl <;> rcases hnames b hb with rfl | rfl | rfl <;>
    simp [turned] at hab ⊢

theorem masked_and_renamed_rejected_as_bare :
    bare.Realiased masked ∧ bare.Renamed turned renamed ∧
      (DepthLimit.atMostThree.validate masked).result.map (List.map Violation.placeless) =
        .ok [Violation.ofLimit .depth (.int 3) (.int 6) .null []] ∧
      (DepthLimit.atMostThree.validate renamed).result.map (List.map Violation.placeless) =
        .ok [Violation.ofLimit .depth (.int 3) (.int 6) .null []] ∧
      (Alias.count renamed [] (some 1)).count = 2 := by
  have hdepth : Depth.ofOperation (Index.ofDocument bare) false bareQuery = 6 := by cbv
  have hdeep : DepthLimit.atMostThree.tooDeep (Index.ofDocument bare) 3 bareQuery = true := by cbv
  have hfind : bare.operations.find? (DepthLimit.atMostThree.tooDeep (Index.ofDocument bare) 3) =
      some bareQuery := List.find?_cons_of_pos hdeep
  have hresult := DepthLimit.validate_result bare (l := .atMostThree) rfl rfl
    (Limit.quiet_of_no_hooks rfl rfl _)
  have hbare : (DepthLimit.atMostThree.validate bare).result.map (List.map Violation.placeless) =
      .ok [Violation.ofLimit .depth (.int 3) (.int 6) .null []] := by
    have hplaceless := DepthLimit.atMostThree.placeless_tooDeepViolation (Index.ofDocument bare) 3
      bareQuery
    rw [show DepthLimit.atMostThree.flattenFragments.holds = false from rfl, hdepth] at hplaceless
    rw [hresult, hfind]
    exact congrArg (fun v => Except.ok [v]) hplaceless
  have hcount : (Alias.count bare [] (some 1)).count = 2 := by cbv
  have hmasked := ((bare.labels_immaterial masked).1 bare_realiased).2 .atMostThree
  obtain ⟨-, hcounts, -, hdepths⟩ :=
    (bare.labels_immaterial renamed).2 turned turned_injOn bare_renamed
  refine ⟨bare_realiased, bare_renamed, ?_, ?_, ?_⟩
  · rw [← hmasked.2, hbare]
  · rw [← (hdepths .atMostThree).2, hbare]
  · rw [← (hcounts [] (some 1)).1, hcount]

end Document
end QueryBounds
