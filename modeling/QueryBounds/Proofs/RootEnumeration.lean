import Mathlib
import QueryBounds.Proofs.Edits

/-!
# How many names an introspection test reads

The names at the root of an operation are collected without a memo: the fields of a fragment are
listed again at every expansion of it. So the list holds the own fields of the operation and, for each
expansion, those of the fragment. It is no longer than the document as long as no fragment is expanded
twice, and with fragments that spread the next one twice it doubles with each of them.
-/
namespace QueryBounds

open Fragment (Index)

/-- The fields that a list of selections holds, however deep, fragments not looked through. -/
def allFields : List Selection → List Field
  | [] => []
  | .field h body :: rest => h :: (allFields (body.getD []) ++ allFields rest)
  | .inline _ body :: rest => allFields (body.getD []) ++ allFields rest
  | .spread _ :: rest => allFields rest
  | .unknown :: rest => allFields rest
termination_by sels => sizeOf sels
decreasing_by
  · exact Selection.sizeOf_body_lt_field _ _ _
  · exact Selection.sizeOf_rest_lt _ _
  · exact Selection.sizeOf_body_lt_inline _ _ _
  · exact Selection.sizeOf_rest_lt _ _
  · exact Selection.sizeOf_rest_lt _ _
  · exact Selection.sizeOf_rest_lt _ _

/-- The fields of an operation and of all fragment definitions of a document. -/
def Document.fieldsWith (d : Document) (o : Operation) : List Field :=
  allFields o.selections ++ d.fragments.flatMap fun f => allFields f.selections

namespace Depth

/-- The fields at the level of a list of selections, fragments not looked through. -/
def ownFields : List Selection → List Field
  | [] => []
  | .field h _ :: rest => h :: ownFields rest
  | .inline _ body :: rest => ownFields (body.getD []) ++ ownFields rest
  | .spread _ :: rest => ownFields rest
  | .unknown :: rest => ownFields rest
termination_by sels => sizeOf sels
decreasing_by
  · exact Selection.sizeOf_rest_lt _ _
  · exact Selection.sizeOf_body_lt_inline _ _ _
  · exact Selection.sizeOf_rest_lt _ _
  · exact Selection.sizeOf_rest_lt _ _
  · exact Selection.sizeOf_rest_lt _ _

/-- The fragments that are expanded at the level of a list of selections, each as often as it is. -/
def expansions (index : Index) (path : Path) : List Selection → List Fragment
  | [] => []
  | .field _ _ :: rest => expansions index path rest
  | .inline _ body :: rest => expansions index path (body.getD []) ++ expansions index path rest
  | .spread s :: rest =>
    (match _ : path.enter? s.name with
      | none => []
      | some inner =>
        match _ : index.find? s.name with
        | none => []
        | some f => f :: expansions index inner f.selections)
      ++ expansions index path rest
  | .unknown :: rest => expansions index path rest
termination_by sels => (index.remaining path, sizeOf sels)
decreasing_by
  · exact Prod.Lex.right _ (Selection.sizeOf_rest_lt _ _)
  · exact Prod.Lex.right _ (Selection.sizeOf_body_lt_inline _ _ _)
  · exact Prod.Lex.right _ (Selection.sizeOf_rest_lt _ _)
  · exact Prod.Lex.left _ _ (Index.remaining_lt ‹_› ‹_›)
  · exact Prod.Lex.right _ (Selection.sizeOf_rest_lt _ _)
  · exact Prod.Lex.right _ (Selection.sizeOf_rest_lt _ _)

theorem expansions_spread (i : Index) (p : Path) (s : Spread) (rest : List Selection) :
    expansions i p (.spread s :: rest) =
      (match p.enter? s.name with
        | none => []
        | some inner =>
          match i.find? s.name with
          | none => []
          | some f => f :: expansions i inner f.selections)
        ++ expansions i p rest := by
  rw [expansions]
  split
  · next he => rw [he]
  · next inner he =>
    rw [he]
    simp only
    split
    · next hf => rw [hf]
    · next f hf => rw [hf]

theorem find?_of_mem_expansions {i : Index} {p : Path} {sels : List Selection} {f : Fragment}
    (h : f ∈ expansions i p sels) : i.find? f.name = some f := by
  induction p, sels using i.walk_induction with
  | nil p => simp [expansions] at h
  | field p head body rest _ ih => exact ih (by simpa [expansions] using h)
  | inline p head body rest ihb ih =>
    simp only [expansions, List.mem_append] at h
    exact h.elim ihb ih
  | refused p s rest he ih => exact ih (by simpa [expansions_spread, he] using h)
  | undefined p inner s rest he hf ih => exact ih (by simpa [expansions_spread, he, hf] using h)
  | defined p inner s g rest he hf ihf ih =>
    simp only [expansions_spread, he, hf, List.mem_append, List.mem_cons] at h
    rcases h with (rfl | h) | h
    · rw [Index.name_of_find? hf, hf]
    · exact ihf h
    · exact ih h
  | unknown p rest ih => exact ih (by simpa [expansions] using h)

/-- The fields that a walk at the root comes to. -/
def rootFields (i : Index) (p : Path) (sels : List Selection) : List Field :=
  ownFields sels ++ (expansions i p sels).flatMap fun f => ownFields f.selections

theorem rootFields_inline (i : Index) (p : Path) (h : Inline) (body : Option (List Selection))
    (rest : List Selection) :
    (rootFields i p (body.getD []) ++ rootFields i p rest).Perm
      (rootFields i p (.inline h body :: rest)) := by
  simp only [rootFields, ownFields, expansions, List.flatMap_append, List.append_assoc]
  exact (List.perm_append_comm_assoc ..).append_left _

theorem rootFields_entered {i : Index} {p inner : Path} {s : Spread} {f : Fragment}
    (he : p.enter? s.name = some inner) (hf : i.find? s.name = some f) (rest : List Selection) :
    (rootFields i inner f.selections ++ rootFields i p rest).Perm
      (rootFields i p (.spread s :: rest)) := by
  simp only [rootFields, ownFields, expansions_spread, he, hf, List.flatMap_append,
    List.flatMap_cons]
  exact List.perm_append_comm_assoc _ _ _

/-- Up to their order the names that a walk collects are those of the own fields and, for each
expansion of a fragment, of the own fields of the fragment. -/
theorem rootFieldNames_perm (i : Index) (p : Path) (sels : List Selection) :
    (rootFieldNames i p sels).Perm ((rootFields i p sels).map (·.name)) := by
  induction p, sels using i.walk_induction with
  | nil p => simp [rootFieldNames, rootFields, ownFields, expansions]
  | field p h body rest _ ih =>
    simpa [rootFieldNames, rootFields, ownFields, expansions] using ih
  | inline p h body rest ihb ih =>
    have hparts := (rootFields_inline i p h body rest).map (·.name)
    rw [List.map_append] at hparts
    rw [rootFieldNames]
    exact (ihb.append ih).trans hparts
  | refused p s rest he ih =>
    simpa [rootFieldNames_spread, rootFields, ownFields, expansions_spread, he] using ih
  | undefined p inner s rest he hf ih =>
    simpa [rootFieldNames_spread, rootFields, ownFields, expansions_spread, he, hf] using ih
  | defined p inner s f rest he hf ihf ih =>
    have hparts := (rootFields_entered he hf rest).map (·.name)
    rw [List.map_append] at hparts
    simp only [rootFieldNames_spread, he, hf]
    exact (ihf.append ih).trans hparts
  | unknown p rest ih =>
    simpa [rootFieldNames, rootFields, ownFields, expansions] using ih

theorem length_ownFields_le (sels : List Selection) :
    (ownFields sels).length ≤ (allFields sels).length := by
  fun_induction ownFields sels with
  | case1 => simp
  | case2 h body rest ih =>
    simp only [allFields, List.length_cons, List.length_append]
    omega
  | case3 h body rest ihb ih =>
    simp only [allFields, List.length_append]
    omega
  | case4 s rest ih => simpa only [allFields] using ih
  | case5 rest ih => simpa only [allFields] using ih

/-- Fragments that are expanded at most once each have no more fields than all definitions. -/
theorem length_expanded_le {d : Document} {p : Path} {sels : List Selection}
    (h : ((expansions (Index.ofDocument d) p sels).map (·.name)).Nodup) :
    ((expansions (Index.ofDocument d) p sels).flatMap fun f => ownFields f.selections).length ≤
      (d.fragments.flatMap fun f => allFields f.selections).length := by
  have hmem : expansions (Index.ofDocument d) p sels ⊆ d.fragments := by
    intro f hf
    have hfind := find?_of_mem_expansions hf
    rw [Index.find?_ofDocument] at hfind
    exact List.mem_of_find?_eq_some hfind
  have hsub : List.Subperm (expansions (Index.ofDocument d) p sels) d.fragments :=
    (h.of_map _).subperm hmem
  have hown (fs : List Fragment) : (fs.flatMap fun f => ownFields f.selections).length ≤
      (fs.flatMap fun f => allFields f.selections).length := by
    simp only [List.length_flatMap]
    exact List.sum_le_sum fun f _ => length_ownFields_le f.selections
  exact Nat.le_trans (hown _) (subperm_flatMap hsub _).length_le

/-- An introspection test reads the names of the operation's own fields and, once for every expansion
of a fragment, those of the fragment's. These are no more than there are fields in the operation and
the fragment definitions together, as long as no fragment is expanded twice. -/
theorem root_names_per_expansion (d : Document) (o : Operation) :
    (rootFieldNames (Index.ofDocument d) .empty o.selections).length =
      (ownFields o.selections).length +
        ((expansions (Index.ofDocument d) .empty o.selections).map fun f =>
          (ownFields f.selections).length).sum ∧
    (((expansions (Index.ofDocument d) .empty o.selections).map (·.name)).Nodup →
      (rootFieldNames (Index.ofDocument d) .empty o.selections).length ≤
        (d.fieldsWith o).length) := by
  have hlength := (rootFieldNames_perm (Index.ofDocument d) .empty o.selections).length_eq
  rw [List.length_map, rootFields, List.length_append] at hlength
  refine ⟨by rw [hlength, List.length_flatMap], fun honce => ?_⟩
  rw [hlength, Document.fieldsWith, List.length_append]
  exact Nat.add_le_add (length_ownFields_le _) (length_expanded_le honce)

def nestedQuery : Operation :=
  ⟨.query, none, [.spread ⟨"A", none⟩, .field ⟨none, "__typename", none⟩ none], none⟩

/-- One fragment inside another, each expanded once. -/
def nested : Document := ⟨[
  .operation nestedQuery,
  .fragment ⟨"A", "Query", some [.inline ⟨none, none⟩ (some [.spread ⟨"B", none⟩])], none⟩,
  .fragment ⟨"B", "Query", some [.field ⟨none, "__schema", none⟩
    (some [.field ⟨none, "types", none⟩ (some [.field ⟨none, "name", none⟩ none])])], none⟩]⟩

theorem nested_names_within_fields :
    ((expansions (Index.ofDocument nested) .empty nestedQuery.selections).map (·.name)).Nodup ∧
      (rootFieldNames (Index.ofDocument nested) .empty nestedQuery.selections).length ≤
        (nested.fieldsWith nestedQuery).length := by
  have hnames : (expansions (Index.ofDocument nested) .empty nestedQuery.selections).map (·.name) =
      ["A", "B"] := by cbv
  have honce : ((expansions (Index.ofDocument nested) .empty
      nestedQuery.selections).map (·.name)).Nodup := by simp [hnames]
  exact ⟨honce, (root_names_per_expansion nested nestedQuery).2 honce⟩

/-! ## Fragments that spread the next one twice -/

/-- The name of a fragment by its number. -/
def rung (k : Nat) : String := "F" ++ toString k

/-- The fragments of a ladder: the lowest selects a field, and every other one spreads the one below
it twice. -/
def ladderFragment : Nat → Fragment
  | 0 => ⟨rung 0, "Query", some [.field ⟨none, "__typename", none⟩ none], none⟩
  | k + 1 => ⟨rung (k + 1), "Query", some [.spread ⟨rung k, none⟩, .spread ⟨rung k, none⟩], none⟩

def ladderQuery (n : Nat) : Operation := ⟨.query, none, [.spread ⟨rung n, none⟩], none⟩

/-- A query that spreads the highest fragment of a ladder. -/
def ladder (n : Nat) : Document :=
  ⟨.operation (ladderQuery n) :: (List.range (n + 1)).map fun k => .fragment (ladderFragment k)⟩

theorem rung_injective {j k : Nat} (h : rung j = rung k) : j = k := by
  have htext : toString j = toString k := (String.append_right_inj "F").1 h
  have hdigits : Nat.toDigits 10 j = Nat.toDigits 10 k := by
    simpa [Nat.toString_eq_repr, Nat.toList_repr] using congrArg String.toList htext
  have hread (n : Nat) : Nat.ofDigitChars 10 (Nat.toDigits 10 n) 0 = n :=
    Nat.ofDigitChars_toDigits (by decide) (by decide)
  rw [← hread j, hdigits, hread]

theorem ladderFragment_name (k : Nat) : (ladderFragment k).name = rung k := by
  cases k <;> rfl

theorem fragments_ladder (n : Nat) :
    (ladder n).fragments = (List.range (n + 1)).map ladderFragment := by
  simp [ladder, Document.fragments, List.filterMap_map]

theorem find?_ladder {n k : Nat} (h : k ≤ n) :
    (Index.ofDocument (ladder n)).find? (rung k) = some (ladderFragment k) := by
  have hrange : (List.range (n + 1)).find? (fun j => (ladderFragment j).name == rung k) =
      some k := by
    rw [List.find?_range_eq_some]
    refine ⟨by simp [ladderFragment_name], by simpa using Nat.lt_succ_of_le h, fun j hj => ?_⟩
    have hne : rung j ≠ rung k := fun heq => Nat.ne_of_lt hj (rung_injective heq)
    simpa [ladderFragment_name] using hne
  rw [Index.find?_ofDocument, fragments_ladder, List.find?_map]
  exact congrArg (Option.map ladderFragment) hrange

/-- Below a path without rungs as low, a fragment of the ladder gives its one field as often as there
are ways down to it. -/
theorem rootFieldNames_ladder {n k : Nat} (hk : k ≤ n) (p : Path)
    (hp : ∀ j, j ≤ k → rung j ∉ p.names) :
    rootFieldNames (Index.ofDocument (ladder n)) p [.spread ⟨rung k, none⟩] =
      List.replicate (2 ^ k) "__typename" := by
  induction k generalizing p with
  | zero =>
    have he : p.enter? (rung 0) = some ⟨p.names ++ [rung 0]⟩ := if_neg (hp 0 (Nat.le_refl 0))
    simp [rootFieldNames_spread, he, find?_ladder hk, ladderFragment, Fragment.selections,
      rootFieldNames]
  | succ k ih =>
    have he : p.enter? (rung (k + 1)) = some ⟨p.names ++ [rung (k + 1)]⟩ :=
      if_neg (hp (k + 1) (Nat.le_refl _))
    have hbelow := ih (Nat.le_of_succ_le hk) ⟨p.names ++ [rung (k + 1)]⟩ fun j hj => by
      have hne : rung j ≠ rung (k + 1) := fun heq => by
        have := rung_injective heq
        omega
      simp [hne, hp j (Nat.le_succ_of_le hj)]
    have hbody : rootFieldNames (Index.ofDocument (ladder n)) ⟨p.names ++ [rung (k + 1)]⟩
        (ladderFragment (k + 1)).selections = List.replicate (2 ^ (k + 1)) "__typename" := by
      change rootFieldNames _ _ [.spread ⟨rung k, none⟩, .spread ⟨rung k, none⟩] = _
      rw [rootFieldNames_cons, hbelow, List.replicate_append_replicate, Nat.pow_succ, Nat.mul_two]
    simp only [rootFieldNames_spread, he, find?_ladder hk, hbody, rootFieldNames, List.append_nil]

theorem fieldsWith_ladder (n : Nat) :
    (ladder n).fieldsWith (ladderQuery n) = [⟨none, "__typename", none⟩] := by
  have hstep (k : Nat) : allFields (ladderFragment (k + 1)).selections = [] := by
    simp [ladderFragment, Fragment.selections, allFields]
  have hbottom : allFields (ladderFragment 0).selections = [⟨none, "__typename", none⟩] := by
    simp [ladderFragment, Fragment.selections, allFields]
  have hnone : ((List.range n).map (· + 1)).flatMap (fun k => allFields (ladderFragment k).selections) =
      [] := by
    simp [List.flatMap_map, hstep]
  rw [Document.fieldsWith, fragments_ladder, List.range_succ_eq_map, List.flatMap_map,
    List.flatMap_cons, hbottom]
  simp [ladderQuery, allFields, hnone]

/-- Thirty fragments that spread the next one twice hold one field in all, and the test reads its name
more than a billion times. -/
theorem ladder_of_thirty_enumerated :
    ((ladder 30).fieldsWith (ladderQuery 30)).length = 1 ∧
      (rootFieldNames (Index.ofDocument (ladder 30)) .empty (ladderQuery 30).selections).length =
        2 ^ 30 ∧
      ¬ (rootFieldNames (Index.ofDocument (ladder 30)) .empty (ladderQuery 30).selections).length ≤
        ((ladder 30).fieldsWith (ladderQuery 30)).length := by
  have hfields : ((ladder 30).fieldsWith (ladderQuery 30)).length = 1 := by
    rw [fieldsWith_ladder]
    rfl
  have hnames : (rootFieldNames (Index.ofDocument (ladder 30)) .empty
      (ladderQuery 30).selections).length = 2 ^ 30 := by
    rw [ladderQuery, rootFieldNames_ladder (Nat.le_refl 30) .empty (by simp [Path.empty]),
      List.length_replicate]
  refine ⟨hfields, hnames, ?_⟩
  rw [hfields, hnames]
  decide

end Depth
end QueryBounds
