import QueryBounds.Alias.Occurrences
import QueryBounds.Depth.Nesting
import QueryBounds.Proofs.Spreads

/-!
# Documents without fragments

Selections mean what they would mean with every fragment written out in place of its spreads. The
expansion of a list of selections is that text: it has no spread left, so neither an index nor a
path has any say in it, and what a walk counts or measures is a function of the expansion alone.
-/
namespace QueryBounds

open Fragment (Index)

namespace Fragment.Index

/-- Induction along a walk: into bodies and on to the rest, and through a spread into the body of
its fragment when the path lets the name in. -/
@[elab_as_elim]
theorem walk_induction (i : Index) {motive : Path → List Selection → Prop}
    (nil : ∀ p, motive p [])
    (field : ∀ p h body rest, motive p (body.getD []) → motive p rest →
      motive p (.field h body :: rest))
    (inline : ∀ p h body rest, motive p (body.getD []) → motive p rest →
      motive p (.inline h body :: rest))
    (refused : ∀ p s rest, p.enter? s.name = none → motive p rest → motive p (.spread s :: rest))
    (undefined : ∀ p inner s rest, p.enter? s.name = some inner → i.find? s.name = none →
      motive p rest → motive p (.spread s :: rest))
    (defined : ∀ p inner s f rest, p.enter? s.name = some inner → i.find? s.name = some f →
      motive inner f.selections → motive p rest → motive p (.spread s :: rest))
    (unknown : ∀ p rest, motive p rest → motive p (.unknown :: rest))
    (p : Path) : ∀ sels, motive p sels
  | [] => nil p
  | .field h body :: rest =>
    field p h body rest
      (walk_induction i nil field inline refused undefined defined unknown p (body.getD []))
      (walk_induction i nil field inline refused undefined defined unknown p rest)
  | .inline h body :: rest =>
    inline p h body rest
      (walk_induction i nil field inline refused undefined defined unknown p (body.getD []))
      (walk_induction i nil field inline refused undefined defined unknown p rest)
  | .spread s :: rest => by
    have hrest := walk_induction i nil field inline refused undefined defined unknown p rest
    cases hp : p.enter? s.name with
    | none => exact refused p s rest hp hrest
    | some inner =>
      cases hf : i.find? s.name with
      | none => exact undefined p inner s rest hp hf hrest
      | some f =>
        exact defined p inner s f rest hp hf
          (walk_induction i nil field inline refused undefined defined unknown inner f.selections)
          hrest
  | .unknown :: rest =>
    unknown p rest (walk_induction i nil field inline refused undefined defined unknown p rest)
termination_by sels => (i.remaining p, sizeOf sels)
decreasing_by
  · exact Prod.Lex.right _ (Selection.sizeOf_body_lt_field _ _ _)
  · exact Prod.Lex.right _ (Selection.sizeOf_rest_lt _ _)
  · exact Prod.Lex.right _ (Selection.sizeOf_body_lt_inline _ _ _)
  · exact Prod.Lex.right _ (Selection.sizeOf_rest_lt _ _)
  · exact Prod.Lex.right _ (Selection.sizeOf_rest_lt _ _)
  · exact Prod.Lex.left _ _ (Index.remaining_lt hp hf)
  · exact Prod.Lex.right _ (Selection.sizeOf_rest_lt _ _)

/-- The head of an inline fragment without a type condition, as an expansion puts it in. -/
def plainInline : Inline := ⟨none, none⟩

/-- The selections with their fragments written out along a path. A spread gives way to two nested
inline fragments around the body of its fragment, to an empty inline fragment when there is no such
fragment, and to nothing when the fragment is being expanded already. -/
def expand (i : Index) (p : Path) : List Selection → List Selection
  | [] => []
  | .field h body :: rest =>
    .field h (body.map fun _ => i.expand p (body.getD [])) :: i.expand p rest
  | .inline h body :: rest =>
    .inline h (body.map fun _ => i.expand p (body.getD [])) :: i.expand p rest
  | .spread s :: rest =>
    (match _ : p.enter? s.name with
      | none => []
      | some inner =>
        match _ : i.find? s.name with
        | none => [.inline plainInline (some [])]
        | some f =>
          [.inline plainInline (some [.inline plainInline (some (i.expand inner f.selections))])])
      ++ i.expand p rest
  | .unknown :: rest => .unknown :: i.expand p rest
termination_by sels => (i.remaining p, sizeOf sels)
decreasing_by
  · exact Prod.Lex.right _ (Selection.sizeOf_body_lt_field _ _ _)
  · exact Prod.Lex.right _ (Selection.sizeOf_rest_lt _ _)
  · exact Prod.Lex.right _ (Selection.sizeOf_body_lt_inline _ _ _)
  · exact Prod.Lex.right _ (Selection.sizeOf_rest_lt _ _)
  · exact Prod.Lex.left _ _ (Index.remaining_lt ‹_› ‹_›)
  · exact Prod.Lex.right _ (Selection.sizeOf_rest_lt _ _)
  · exact Prod.Lex.right _ (Selection.sizeOf_rest_lt _ _)

theorem expand_spread (i : Index) (p : Path) (s : Spread) (rest : List Selection) :
    i.expand p (.spread s :: rest) =
      (match p.enter? s.name with
        | none => []
        | some inner =>
          match i.find? s.name with
          | none => [.inline plainInline (some [])]
          | some f =>
            [.inline plainInline (some [.inline plainInline (some (i.expand inner f.selections))])])
        ++ i.expand p rest := by
  rw [expand]
  split
  · next he => rw [he]
  · next inner he =>
    rw [he]
    simp only
    split
    · next hf => rw [hf]
    · next f hf => rw [hf]

/-- A body that is not there is expanded to one that selects nothing. -/
theorem getD_map_expand (i : Index) (p : Path) (body : Option (List Selection)) :
    (body.map fun _ => i.expand p (body.getD [])).getD [] = i.expand p (body.getD []) := by
  cases body with
  | none => simp [expand]
  | some sels => rfl

variable {i : Index} {p q : Path}

/-- The path makes no difference to what is clear of it. -/
theorem expand_congr {sels : List Selection} (hp : i.AllClear p sels) (hq : i.AllClear q sels) :
    i.expand p sels = i.expand q sels := by
  induction p, sels using i.walk_induction generalizing q with
  | nil p => simp only [expand]
  | field p h body rest ihb ihr =>
    obtain ⟨hpb, hpr⟩ := (allClear_field ..).1 hp
    obtain ⟨hqb, hqr⟩ := (allClear_field ..).1 hq
    simp only [expand, ihb hpb hqb, ihr hpr hqr]
  | inline p h body rest ihb ihr =>
    obtain ⟨hpb, hpr⟩ := (allClear_inline ..).1 hp
    obtain ⟨hqb, hqr⟩ := (allClear_inline ..).1 hq
    simp only [expand, ihb hpb hqb, ihr hpr hqr]
  | refused p s rest he ih =>
    exact absurd ((allClear_spread ..).1 hp).1 (not_clear_of_refused he)
  | undefined p inner s rest he hf ih =>
    obtain ⟨hqs, hqr⟩ := (allClear_spread ..).1 hq
    cases hqe : q.enter? s.name with
    | none => exact absurd hqs (not_clear_of_refused hqe)
    | some innerq =>
      simp only [expand_spread, he, hqe, hf, ih ((allClear_spread ..).1 hp).2 hqr]
  | defined p inner s f rest he hf ihf ihr =>
    obtain ⟨hps, hpr⟩ := (allClear_spread ..).1 hp
    obtain ⟨hqs, hqr⟩ := (allClear_spread ..).1 hq
    cases hqe : q.enter? s.name with
    | none => exact absurd hqs (not_clear_of_refused hqe)
    | some innerq =>
      have hbody := ihf ((clear_iff he hf).1 hps) ((clear_iff hqe hf).1 hqs)
      simp only [expand_spread, he, hqe, hf, hbody, ihr hpr hqr]
  | unknown p rest ih =>
    simp only [expand, ih ((allClear_unknown _).1 hp) ((allClear_unknown _).1 hq)]

end Fragment.Index

/-! ## Counting and measuring an expansion -/

namespace Alias

theorem occurrences_spread (i : Index) (allowed : List String) (p : Path) (s : Spread)
    (rest : List Selection) :
    occurrences i allowed p (.spread s :: rest) =
      (match p.enter? s.name with
        | none => []
        | some inner =>
          match i.find? s.name with
          | none => []
          | some f => occurrences i allowed inner f.selections)
        ++ occurrences i allowed p rest := by
  rw [occurrences]
  split
  · next he => rw [he]
  · next inner he =>
    rw [he]
    simp only
    split
    · next hf => rw [hf]
    · next f hf => rw [hf]

/-- The counted fields below selections are those of the expansion. -/
theorem occurrences_expand (i j : Index) (allowed : List String) (p q : Path)
    (sels : List Selection) :
    occurrences j allowed q (i.expand p sels) = occurrences i allowed p sels := by
  induction p, sels using i.walk_induction with
  | nil p => simp only [Index.expand, occurrences]
  | field p h body rest ihb ihr =>
    simp only [Index.expand, occurrences, Index.getD_map_expand, ihb, ihr]
  | inline p h body rest ihb ihr =>
    simp only [Index.expand, occurrences, Index.getD_map_expand, ihb, ihr]
  | refused p s rest he ih =>
    simp only [Index.expand_spread, occurrences_spread, he, List.nil_append, ih]
  | undefined p inner s rest he hf ih =>
    simp [Index.expand_spread, occurrences_spread, he, hf, occurrences, ih]
  | defined p inner s f rest he hf ihf ihr =>
    simp [Index.expand_spread, occurrences_spread, he, hf, occurrences, ihf, ihr]
  | unknown p rest ih => simp only [Index.expand, occurrences, ih]

end Alias

namespace Depth

theorem nesting_spread (i : Index) (step : Nat) (p : Path) (s : Spread) (rest : List Selection) :
    nesting i step p (.spread s :: rest) =
      max
        (match p.enter? s.name with
          | none => 0
          | some inner =>
            match i.find? s.name with
            | none => step
            | some f => 2 * step + nesting i step inner f.selections)
        (nesting i step p rest) := by
  rw [nesting]
  split
  · next he => rw [he]
  · next inner he =>
    rw [he]
    simp only
    split
    · next hf => rw [hf]
    · next f hf => rw [hf]

/-- The depth of selections is that of the expansion. -/
theorem nesting_expand (i j : Index) (step : Nat) (p q : Path) (sels : List Selection) :
    nesting j step q (i.expand p sels) = nesting i step p sels := by
  induction p, sels using i.walk_induction with
  | nil p => simp only [Index.expand, nesting]
  | field p h body rest ihb ihr =>
    simp only [Index.expand, nesting, Index.getD_map_expand, ihb, ihr]
  | inline p h body rest ihb ihr =>
    simp only [Index.expand, nesting, Index.getD_map_expand, ihb, ihr]
  | refused p s rest he ih =>
    simp only [Index.expand_spread, nesting_spread, he, List.nil_append, ih, Nat.zero_max]
  | undefined p inner s rest he hf ih =>
    simp [Index.expand_spread, nesting_spread, he, hf, nesting, ih]
  | defined p inner s f rest he hf ihf ihr =>
    simp only [Index.expand_spread, nesting_spread, he, hf, nesting, List.singleton_append,
      Option.getD_some, ihf, ihr, Nat.max_zero, Nat.two_mul, Nat.add_assoc]
  | unknown p rest ih => simp only [Index.expand, nesting, ih]

end Depth
end QueryBounds
