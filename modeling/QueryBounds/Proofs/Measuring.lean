import QueryBounds.Depth.Measurer
import QueryBounds.Proofs.Memo

/-!
# The memo of a measurer changes no depth

A measurer that serves many operations measures each of them as a new one would, and as the plain
recursion on nesting says, for every index and whether or not fragments are flattened. As with a
counter, the invariant is that the memo is sound, and a part of the walk has skipped no spread
exactly when all its spreads are clear of the path.
-/
namespace QueryBounds.Depth

open Fragment (Index Sound)

/-- The greatest depth of selections is that of the first or that of the others. -/
theorem nesting_cons (i : Index) (step : Nat) (p : Path) (sel : Selection)
    (rest : List Selection) :
    nesting i step p (sel :: rest) = max (nesting i step p [sel]) (nesting i step p rest) := by
  cases sel <;> simp [nesting, nesting_spread]

namespace Measurer

/-- The memo of a measurer on its way. -/
def SoundMemo (m : Measurer) (s : Learned) : Prop :=
  Sound m.index (nesting .empty m.step .empty) s.memo

theorem soundMemo_start {m : Measurer} : m.SoundMemo .start := Fragment.sound_nil

/-- What a part of a walk does: it finds a depth, keeps the memo sound, and has skipped a spread
exactly when it was not clear of the path. -/
structure Finds (m : Measurer) (depth : Nat) (clear : Prop) (s : Learned) (r : Nat × Learned) :
    Prop where
  sound : m.SoundMemo r.2
  depth_eq : r.1 = depth
  skipped_le : s.skipped ≤ r.2.skipped
  clear_iff : r.2.skipped = s.skipped ↔ clear

variable {m : Measurer} {s s' : Learned} {r q : Nat × Learned} {d e : Nat} {P Q : Prop}

/-- The memo apart, only what has been skipped matters of where a walk starts. -/
theorem Finds.congr_start (h : Finds m d P s r) (hk : s'.skipped = s.skipped) :
    Finds m d P s' r := by
  refine ⟨h.sound, h.depth_eq, ?_, ?_⟩
  · rw [hk]
    exact h.skipped_le
  · rw [hk]
    exact h.clear_iff

/-- A selection, some levels above its parts, and then the others beside it. -/
theorem Finds.seq (levels : Nat) (h : Finds m d P s r) (hq : Finds m e Q r.2 q) :
    Finds m (max (levels + d) e) (P ∧ Q) s (max (levels + r.1) q.1, q.2) := by
  refine ⟨hq.sound, ?_, Nat.le_trans h.skipped_le hq.skipped_le, ?_⟩
  · rw [h.depth_eq, hq.depth_eq]
  · have hle := h.skipped_le
    have hle' := hq.skipped_le
    rw [← h.clear_iff, ← hq.clear_iff]
    simp only
    omega

theorem finds_nothing (hs : m.SoundMemo s) : Finds m 0 True s (0, s) :=
  ⟨hs, rfl, Nat.le_refl _, by simp⟩

theorem finds_skip (hs : m.SoundMemo s) :
    Finds m 0 False s (0, { s with skipped := s.skipped + 1 }) :=
  ⟨hs, rfl, Nat.le_succ _, by simp⟩

/-- A depth that is taken from the memo is the one that a walk would find. -/
theorem finds_remembered {p inner : Path} {name : String} {f : Fragment} (hs : m.SoundMemo s)
    (hl : m.index.LeadsTo p name) (hp : p.enter? name = some inner)
    (hf : m.index.find? name = some f) (hd : s.memo.lookup name = some d) :
    Finds m (nesting m.index m.step inner f.selections) (m.index.AllClear inner f.selections) s
      (d, s) := by
  obtain ⟨g, hg, hclear, hdepth⟩ := hs.lookup hd hl hp
  rw [hf] at hg
  cases hg
  rw [nesting_expand] at hdepth
  exact ⟨hs, hdepth, Nat.le_refl _, by simp [hclear]⟩

/-- The depth of a fragment that was measured without a skip is worth remembering. -/
theorem soundMemo_remember {p inner : Path} {name : String} {f : Fragment}
    (hl : m.index.LeadsTo p name) (hp : p.enter? name = some inner)
    (hf : m.index.find? name = some f)
    (h : Finds m (nesting m.index m.step inner f.selections) (m.index.AllClear inner f.selections)
      s r) :
    m.SoundMemo (Learned.remember name r.1 s r.2) := by
  unfold Learned.remember
  split
  · next hskip =>
    have hdepth : r.1 = nesting .empty m.step .empty (m.index.expand inner f.selections) := by
      rw [nesting_expand, h.depth_eq]
    exact Sound.cons h.sound hl hp hf (h.clear_iff.1 hskip) hdepth
  · exact h.sound

@[simp] theorem remember_skipped (name : String) (depth : Nat) (before after : Learned) :
    (Learned.remember name depth before after).skipped = after.skipped := by
  unfold Learned.remember
  split <;> rfl

theorem walk_spread (m : Measurer) (p : Path) (sp : Spread) (rest : List Selection)
    (s : Learned) :
    m.walk p (.spread sp :: rest) s =
      match p.enter? sp.name with
      | none => m.walk p rest { s with skipped := s.skipped + 1 }
      | some inner =>
        match m.index.find? sp.name with
        | none =>
          let r := m.walk p rest s
          (max m.step r.1, r.2)
        | some f =>
          match s.memo.lookup sp.name with
          | some d =>
            let r := m.walk p rest s
            (max (2 * m.step + d) r.1, r.2)
          | none =>
            let r := m.walk inner f.selections s
            let q := m.walk p rest (Learned.remember sp.name r.1 s r.2)
            (max (2 * m.step + r.1) q.1, q.2) := by
  rw [walk]
  split
  · next he => rw [he]
  · next inner he =>
    rw [he]
    simp only
    split
    · next hf => rw [hf]
    · next f hf => cases s.memo.lookup sp.name <;> rw [hf]

/-- A walk finds the depth below its selections. -/
theorem walk_finds (p : Path) (sels : List Selection) (hs : m.SoundMemo s)
    (hl : m.index.LeadsToAll p sels) :
    Finds m (nesting m.index m.step p sels) (m.index.AllClear p sels) s (m.walk p sels s) := by
  induction p, sels using m.index.walk_induction generalizing s with
  | nil p =>
    simp only [walk, nesting, Index.allClear_nil]
    exact finds_nothing hs
  | field p h body rest ihb ihr =>
    obtain ⟨hlb, hlr⟩ := (Index.leadsToAll_field ..).1 hl
    have hbody := ihb hs hlb
    have hall := hbody.seq 1 (ihr hbody.sound hlr)
    simpa only [walk, nesting, Index.allClear_field] using hall
  | inline p h body rest ihb ihr =>
    obtain ⟨hlb, hlr⟩ := (Index.leadsToAll_inline ..).1 hl
    have hbody := ihb hs hlb
    have hall := hbody.seq m.step (ihr hbody.sound hlr)
    simpa only [walk, nesting, Index.allClear_inline] using hall
  | refused p sp rest he ih =>
    have hskip := finds_skip hs
    have hall := hskip.seq 0 (ih hskip.sound ((Index.leadsToAll_spread ..).1 hl).2)
    simpa only [walk_spread, nesting_spread, he, Index.allClear_spread, Nat.add_zero, Nat.zero_max,
      Index.not_clear_of_refused he] using hall
  | undefined p inner sp rest he hf ih =>
    have hall := (finds_nothing hs).seq m.step (ih hs ((Index.leadsToAll_spread ..).1 hl).2)
    simpa only [walk_spread, nesting_spread, he, hf, Index.allClear_spread, Nat.add_zero,
      Index.clear_of_undefined he hf] using hall
  | defined p inner sp f rest he hf ihf ihr =>
    obtain ⟨hls, hlr⟩ := (Index.leadsToAll_spread ..).1 hl
    have hclear := Index.clear_iff he hf
    cases hd : s.memo.lookup sp.name with
    | some d =>
      have hhead := finds_remembered hs hls he hf hd
      have hall := hhead.seq (2 * m.step) (ihr hhead.sound hlr)
      simpa only [walk_spread, nesting_spread, he, hf, hd, Index.allClear_spread, hclear]
        using hall
    | none =>
      have hbody := ihf hs (hls.enter he hf)
      have hrest := ihr (soundMemo_remember hls he hf hbody) hlr
      have hall := hbody.seq (2 * m.step) (hrest.congr_start (remember_skipped ..).symm)
      simpa only [walk_spread, nesting_spread, he, hf, hd, Index.allClear_spread, hclear]
        using hall
  | unknown p rest ih =>
    simpa only [walk, nesting, Index.allClear_unknown] using
      ih hs ((Index.leadsToAll_unknown _).1 hl)

end Measurer

/-! ## The deepest selection -/

/-- One more selection beside the deepest so far, which gives way only to a deeper one. -/
def deeper (depth : Selection → Nat) (best : Nat × Option Selection) (sel : Selection) :
    Nat × Option Selection :=
  if best.1 < depth sel then (depth sel, some sel) else best

/-- The first of a list of selections with the greatest depth, and that depth; no selection when
that is zero. -/
structure IsDeepest (depth : Selection → Nat) (sels : List Selection)
    (r : Nat × Option Selection) : Prop where
  bound : ∀ sel ∈ sels, depth sel ≤ r.1
  none_iff : r.2 = none ↔ r.1 = 0
  first : ∀ sel, r.2 = some sel → ∃ before after, sels = before ++ sel :: after ∧
    depth sel = r.1 ∧ ∀ b ∈ before, depth b < r.1

variable {depth : Selection → Nat} {sels : List Selection} {best : Nat × Option Selection}

theorem isDeepest_nil : IsDeepest depth [] (0, none) :=
  ⟨by simp, by simp, by simp⟩

theorem IsDeepest.deeper (h : IsDeepest depth sels best) (sel : Selection) :
    IsDeepest depth (sels ++ [sel]) (deeper depth best sel) := by
  unfold Depth.deeper
  split
  · next hlt =>
    refine ⟨?_, ?_, ?_⟩
    · intro t ht
      rcases List.mem_append.1 ht with ht | ht
      · exact Nat.le_of_lt (Nat.lt_of_le_of_lt (h.bound t ht) hlt)
      · exact Nat.le_of_eq (congrArg depth (List.mem_singleton.1 ht))
    · simp only [reduceCtorEq, false_iff]
      omega
    · intro t ht
      cases ht
      exact ⟨sels, [], rfl, rfl, fun b hb => Nat.lt_of_le_of_lt (h.bound b hb) hlt⟩
  · next hge =>
    refine ⟨?_, h.none_iff, ?_⟩
    · intro t ht
      rcases List.mem_append.1 ht with ht | ht
      · exact h.bound t ht
      · rw [List.mem_singleton.1 ht]
        exact Nat.le_of_not_lt hge
    · intro t ht
      obtain ⟨before, after, rfl, hdepth, hbefore⟩ := h.first t ht
      exact ⟨before, after ++ [sel], by simp, hdepth, hbefore⟩

theorem IsDeepest.foldl (h : IsDeepest depth sels best) (rest : List Selection) :
    IsDeepest depth (sels ++ rest) (rest.foldl (Depth.deeper depth) best) := by
  induction rest generalizing sels best with
  | nil => simpa using h
  | cons sel rest ih => simpa using ih (h.deeper sel)

/-- The deepest selection is as deep as the whole list. -/
theorem foldl_deeper_fst (i : Index) (step : Nat) (sels : List Selection)
    (best : Nat × Option Selection) :
    (sels.foldl (deeper (selectionDepth i step)) best).1 =
      max best.1 (nesting i step .empty sels) := by
  induction sels generalizing best with
  | nil => simp [nesting]
  | cons sel rest ih =>
    have hstep : (deeper (selectionDepth i step) best sel).1 =
        max best.1 (nesting i step .empty [sel]) := by
      unfold deeper
      split
      · next hlt => exact (Nat.max_eq_right (Nat.le_of_lt hlt)).symm
      · next hge => exact (Nat.max_eq_left (Nat.le_of_not_lt hge)).symm
    rw [List.foldl_cons, ih, hstep, nesting_cons i step .empty sel rest, Nat.max_assoc]

/-! ## Whole operations -/

namespace Measurer

variable {m : Measurer} {s : Learned}

/-- The depths and culprits of a sequence of operations that one measurer serves. -/
def measureAll (m : Measurer) : List Operation → Learned → List (Nat × Option Selection)
  | [], _ => []
  | o :: os, s =>
    let (r, s) := m.measure o s
    r :: m.measureAll os s

theorem deepest_spec (sels : List Selection) (best : Nat × Option Selection)
    (hs : m.SoundMemo s) :
    (m.deepest sels best s).1 = sels.foldl (deeper (selectionDepth m.index m.step)) best ∧
      m.SoundMemo (m.deepest sels best s).2 := by
  induction sels generalizing best s with
  | nil => exact ⟨rfl, hs⟩
  | cons sel rest ih =>
    have hsel := walk_finds .empty [sel] hs (Index.leadsToAll_empty _)
    have hdepth : (m.walk .empty [sel] s).1 = selectionDepth m.index m.step sel := hsel.depth_eq
    have hrest := ih (deeper (selectionDepth m.index m.step) best sel) hsel.sound
    simpa only [deepest, hdepth, List.foldl_cons, deeper] using hrest

/-- Measuring an operation depends on nothing that was measured before. -/
theorem measure_spec (o : Operation) (hs : m.SoundMemo s) :
    (m.measure o s).1 =
        o.selections.foldl (deeper (selectionDepth m.index m.step)) (0, none) ∧
      m.SoundMemo (m.measure o s).2 :=
  deepest_spec o.selections (0, none) hs

theorem measure_fresh (o : Operation) (hs : m.SoundMemo s) :
    (m.measure o s).1 = (m.measure o .start).1 := by
  rw [(measure_spec o hs).1, (measure_spec o soundMemo_start).1]

/-- What a new measurer finds is the first of the deepest selections at the top. -/
theorem isDeepest_measure (m : Measurer) (o : Operation) :
    IsDeepest (selectionDepth m.index m.step) o.selections (m.measure o .start).1 := by
  rw [(measure_spec o soundMemo_start).1]
  exact isDeepest_nil.foldl o.selections

/-- A measurer that serves a sequence of operations measures each as a new one does: the depth is
that of the plain recursion, and the culprit the first selection that has it. -/
theorem measureAll_fresh (m : Measurer) (os : List Operation) :
    m.measureAll os .start = os.map (fun o => (m.measure o .start).1) ∧
      ∀ o : Operation,
        (m.measure o .start).1.1 = ofOperation m.index m.flatten o ∧
        (m.measure o .start).1.1 = nesting m.index m.step .empty o.selections ∧
        IsDeepest (selectionDepth m.index m.step) o.selections (m.measure o .start).1 := by
  refine ⟨?_, fun o => ⟨rfl, ?_, m.isDeepest_measure o⟩⟩
  · suffices h : ∀ s, m.SoundMemo s →
        m.measureAll os s = os.map (fun o => (m.measure o .start).1) from h .start soundMemo_start
    induction os with
    | nil => exact fun s _ => rfl
    | cons o os ih =>
      intro s hs
      have hnext := ih (m.measure o s).2 (measure_spec o hs).2
      simp only [measureAll, List.map_cons, hnext, measure_fresh o hs]
  · rw [(measure_spec o soundMemo_start).1, foldl_deeper_fst, Nat.zero_max]

end Measurer

theorem ofOperation_eq_nesting (i : Index) (flatten : Bool) (o : Operation) :
    ofOperation i flatten o = nesting i (fragmentStep flatten) .empty o.selections := by
  have hmeasure := (Measurer.measure_spec (m := ⟨i, flatten⟩) o Measurer.soundMemo_start).1
  rw [ofOperation, hmeasure, foldl_deeper_fst, Nat.zero_max]
  rfl

end QueryBounds.Depth
