import QueryBounds.Proofs.Leniency

/-!
# How deep an operation can be

A path lets no fragment in twice, so on any branch of a walk the body of a fragment adds to the depth
at most once. What a branch can still add is the sum over the fragments that are not on the path yet,
and a whole operation is at most as deep as its own text is high and all fragments together. A fragment
boundary is never worth less when it adds a level, so flattening makes nothing deeper.
-/
namespace QueryBounds

open Fragment (Index)

namespace Depth

/-- How high selections are by themselves, with a step for every spread and no look into its fragment. -/
def height (step : Nat) : List Selection → Nat
  | [] => 0
  | .field _ body :: rest => max (1 + height step (body.getD [])) (height step rest)
  | .inline _ body :: rest => max (step + height step (body.getD [])) (height step rest)
  | .spread _ :: rest => max step (height step rest)
  | .unknown :: rest => height step rest
termination_by sels => sizeOf sels
decreasing_by
  · exact Selection.sizeOf_body_lt_field _ _ _
  · exact Selection.sizeOf_rest_lt _ _
  · exact Selection.sizeOf_body_lt_inline _ _ _
  · exact Selection.sizeOf_rest_lt _ _
  · exact Selection.sizeOf_rest_lt _ _
  · exact Selection.sizeOf_rest_lt _ _

/-- What a fragment can add to a branch: two steps into it and the height of its body. -/
def share (step : Nat) (f : Fragment) : Nat := 2 * step + height step f.selections

/-- What the fragments of an index that are not on the path can add to a branch. -/
def reserve (i : Index) (step : Nat) (p : Path) : Nat :=
  ((i.fragments.filter fun f => f.name ∉ p.names).map (share step)).sum

theorem reserve_empty (i : Index) (step : Nat) :
    reserve i step .empty = (i.fragments.map (share step)).sum := by
  unfold reserve
  rw [List.filter_eq_self.2 (by simp [Path.empty])]

/-- Entering a fragment takes its share out of the reserve. -/
theorem reserve_enter {i : Index} {p inner : Path} {name : String} {f : Fragment} (step : Nat)
    (hp : p.enter? name = some inner) (hf : i.find? name = some f) :
    share step f + reserve i step inner = reserve i step p := by
  obtain ⟨hname, hinner⟩ := Path.enter?_eq_some hp
  have hfname := Index.name_of_find? hf
  obtain ⟨before, after, hfragments⟩ := List.append_of_mem (List.mem_of_find?_eq_some hf)
  have hnodup := i.nodup
  rw [hfragments, List.map_append, List.map_cons, List.nodup_middle, List.nodup_cons] at hnodup
  -- no other fragment has the name, so no other is filtered out by entering it
  have hother (g : Fragment) (hg : g ∈ before ++ after) : g.name ∉ inner.names ↔ g.name ∉ p.names := by
    have hne : g.name ≠ name := by
      rintro rfl
      exact hnodup.1 (by rw [hfname, ← List.map_append]; exact List.mem_map_of_mem hg)
    simp [hinner, hne]
  have hkeep (gs : List Fragment) (hgs : ∀ g ∈ gs, g ∈ before ++ after) :
      (gs.filter fun g => g.name ∉ inner.names) = gs.filter fun g => g.name ∉ p.names :=
    List.filter_congr fun g hg => by simp only [hother g (hgs g hg)]
  have hin : f.name ∈ inner.names := by simp [hinner, hfname]
  have hout : f.name ∉ p.names := by rwa [hfname]
  unfold reserve
  rw [hfragments, List.filter_append, List.filter_append, List.filter_cons_of_neg (by simp [hin]),
    List.filter_cons_of_pos (by simp [hout]), hkeep before (by simp +contextual),
    hkeep after (by simp +contextual)]
  simp only [List.map_append, List.map_cons, List.sum_append, List.sum_cons]
  omega

/-- A walk along a path goes no deeper than its selections are high and the reserve adds. -/
theorem nesting_le_height (i : Index) (step : Nat) (p : Path) (sels : List Selection) :
    nesting i step p sels ≤ height step sels + reserve i step p := by
  induction p, sels using i.walk_induction with
  | nil p => simp only [nesting, Nat.zero_le]
  | field p h body rest ihb ihr =>
    simp only [nesting, height]
    omega
  | inline p h body rest ihb ihr =>
    simp only [nesting, height]
    omega
  | refused p s rest he ih =>
    simp only [nesting_spread, he, height]
    omega
  | undefined p inner s rest he hf ih =>
    simp only [nesting_spread, he, hf, height]
    omega
  | defined p inner s f rest he hf ihf ihr =>
    have henter := reserve_enter step he hf
    have hspread : nesting i step p (.spread s :: rest) =
        max (2 * step + nesting i step inner f.selections) (nesting i step p rest) := by
      simp only [nesting_spread, he, hf]
    rw [hspread, height]
    unfold share at henter
    omega
  | unknown p rest ih => simpa only [nesting, height] using ih

/-- Selections are no deeper when a fragment boundary adds less. -/
theorem nesting_mono_step (i : Index) {step step' : Nat} (h : step ≤ step') (p : Path)
    (sels : List Selection) : nesting i step p sels ≤ nesting i step' p sels := by
  induction p, sels using i.walk_induction with
  | nil p => simp only [nesting, Nat.le_refl]
  | field p head body rest ihb ihr =>
    simp only [nesting]
    omega
  | inline p head body rest ihb ihr =>
    simp only [nesting]
    omega
  | refused p s rest he ih =>
    simp only [nesting_spread, he]
    omega
  | undefined p inner s rest he hf ih =>
    simp only [nesting_spread, he, hf]
    omega
  | defined p inner s f rest he hf ihf ihr =>
    simp only [nesting_spread, he, hf]
    exact max_le_max (Nat.add_le_add (Nat.mul_le_mul_left 2 h) ihf) ihr
  | unknown p rest ih => simpa only [nesting] using ih

theorem ofOperation_flatten_le (i : Index) (o : Operation) :
    ofOperation i true o ≤ ofOperation i false o := by
  rw [ofOperation_eq_nesting, ofOperation_eq_nesting]
  exact nesting_mono_step i (Nat.zero_le 1) .empty o.selections

theorem ofOperation_le_heights (i : Index) (flatten : Bool) (o : Operation) :
    ofOperation i flatten o ≤ height (fragmentStep flatten) o.selections +
      (i.fragments.map fun f =>
        2 * fragmentStep flatten + height (fragmentStep flatten) f.selections).sum := by
  rw [ofOperation_eq_nesting]
  have h := nesting_le_height i (fragmentStep flatten) .empty o.selections
  rwa [reserve_empty] at h

end Depth

namespace DepthLimit

/-- A limit that flattens fragments is no stricter than one that does not. -/
theorem noStricter_flattened {l : DepthLimit} (hl : l.flattenFragments.holds = false) (flatten : Value)
    (d : Document) :
    (EitherLimit.depth { l with flattenFragments := flatten }).NoStricter (.depth l) d where
  onAccept := rfl
  onReject := rfl
  propagate := rfl
  exceeded := by
    rintro ⟨o, ho, hlooks, hdeep⟩
    refine ⟨o, ho, hlooks, Limit.exceededBy_mono (Int.ofNat_le.2 ?_) hdeep⟩
    rw [hl]
    cases flatten.holds with
    | false => exact Nat.le_refl _
    | true => exact Depth.ofOperation_flatten_le _ o

end DepthLimit

namespace Depth

/-- Flattening makes no operation deeper, and flattened or not an operation is at most as deep as its
own selections are high and every fragment once more. So what a limit accepts without flattening it
accepts with it. -/
theorem depth_bounded :
    (∀ (i : Index) (o : Operation), ofOperation i true o ≤ ofOperation i false o) ∧
    (∀ (i : Index) (flatten : Bool) (o : Operation),
      ofOperation i flatten o ≤ height (fragmentStep flatten) o.selections +
        (i.fragments.map fun f =>
          2 * fragmentStep flatten + height (fragmentStep flatten) f.selections).sum) ∧
    ∀ (l : DepthLimit) (flatten : Value) (d : Document), l.flattenFragments.holds = false →
      (¬ (EitherLimit.depth l).Exceeded d →
        ¬ (EitherLimit.depth { l with flattenFragments := flatten }).Exceeded d ∧
        ({ l with flattenFragments := flatten }.validate d).result = (l.validate d).result) ∧
      ((l.propagate.holds = true ∨ ∀ h ∈ l.onAccept, h.failure = none) →
        (l.validate d).result = .ok [] →
        ({ l with flattenFragments := flatten }.validate d).result = .ok []) := by
  refine ⟨ofOperation_flatten_le, ofOperation_le_heights, fun l flatten d hl => ?_⟩
  have hmild := DepthLimit.noStricter_flattened hl flatten d
  rw [DepthLimit.result_validate, DepthLimit.result_validate]
  exact ⟨hmild.accepted, hmild.returns_nothing⟩

open DepthLimit (atMostThree looped)

/-- As deep as the operations of `looped` come to, every fragment boundary counted. -/
def atMostSix : DepthLimit := { atMostThree with n := some 6 }

theorem looped_accepted_flattened :
    (atMostSix.validate looped).result = .ok [] ∧
      ({ atMostSix with flattenFragments := .bool true }.validate looped).result = .ok [] := by
  have hdeep : looped.operations.find? (atMostSix.tooDeep (Index.ofDocument looped) 6) = none := by
    cbv
  have haccepted : (atMostSix.validate looped).result = .ok [] := by
    rw [DepthLimit.validate_result looped rfl rfl (Limit.quiet_of_no_hooks rfl rfl _), hdeep]
    rfl
  exact ⟨haccepted, (depth_bounded.2.2 atMostSix (.bool true) looped rfl).2 (.inl rfl) haccepted⟩

end Depth
end QueryBounds
