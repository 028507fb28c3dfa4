import Mathlib
import QueryBounds.Proofs.DepthRejection
import QueryBounds.Proofs.Remembering

/-!
# The depths that a measurer remembers

After any operations a measurer remembers a depth for exactly the fragments that these lead to and
that reach no cycle, and what it remembers is how deep the fragment's body is by the plain recursion,
whatever path of expansions the fragment is spread on.
-/
namespace QueryBounds.Depth.Measurer

open Fragment (Index known)

variable {m : Measurer} {s : Learned} {r : Nat × Learned} {p inner : Path} {name : String}
variable {f : Fragment} {depth : Nat}

/-- A fragment becomes known by being measured exactly when it reaches no cycle. -/
theorem mem_known_remember (hl : m.index.LeadsTo p name) (hp : p.enter? name = some inner)
    (hf : m.index.find? name = some f)
    (h : Finds m depth (m.index.AllClear inner f.selections) s r) (n : String) :
    n ∈ known (Learned.remember name r.1 s r.2).memo ↔
      n ∈ known r.2.memo ∨ n = name ∧ m.index.CycleFree name := by
  rw [Index.cycleFree_iff_allClear hl hp hf, ← h.clear_iff, Learned.remember]
  by_cases hskip : r.2.skipped = s.skipped
  · simp [hskip, known, or_comm]
  · simp [hskip]

/-- What a walk adds to the fragments that are known. -/
theorem walk_fills (p : Path) (sels : List Selection) (hs : m.SoundMemo s)
    (hl : m.index.LeadsToAll p sels) (hc : m.index.Closed (known s.memo)) :
    m.index.Fills p (spreadNames sels) (known s.memo) (known (m.walk p sels s).2.memo) := by
  induction p, sels using m.index.walk_induction generalizing s with
  | nil p =>
    simp only [walk, spreadNames]
    exact Index.fills_nothing hc
  | field p h body rest ihb ihr =>
    obtain ⟨hlb, hlr⟩ := (Index.leadsToAll_field ..).1 hl
    have hbody := ihb hs hlb hc
    have hrest := ihr (walk_finds p (body.getD []) hs hlb).sound hlr hbody.closed
    simpa only [walk, spreadNames] using hbody.seq hrest
  | inline p h body rest ihb ihr =>
    obtain ⟨hlb, hlr⟩ := (Index.leadsToAll_inline ..).1 hl
    have hbody := ihb hs hlb hc
    have hrest := ihr (walk_finds p (body.getD []) hs hlb).sound hlr hbody.closed
    simpa only [walk, spreadNames] using hbody.seq hrest
  | refused p sp rest he ih =>
    have hrest := ih (s := { s with skipped := s.skipped + 1 }) hs
      ((Index.leadsToAll_spread ..).1 hl).2 hc
    simpa only [walk_spread, spreadNames, he, List.singleton_append] using
      (Index.fills_refused hc he).seq hrest
  | undefined p inner sp rest he hf ih =>
    have hrest := ih hs ((Index.leadsToAll_spread ..).1 hl).2 hc
    simpa only [walk_spread, spreadNames, he, hf, List.singleton_append] using
      (Index.fills_undefined hc hf).seq hrest
  | defined p inner sp f rest he hf ihf ihr =>
    obtain ⟨hls, hlr⟩ := (Index.leadsToAll_spread ..).1 hl
    cases hd : s.memo.lookup sp.name with
    | some d =>
      have hknown : sp.name ∈ known s.memo := by
        rw [← Fragment.lookup_isSome_iff, hd]
        rfl
      simpa only [walk_spread, spreadNames, he, hf, hd, List.singleton_append] using
        (Index.fills_known hc hknown).seq (ihr hs hlr hc)
    | none =>
      have hfinds := walk_finds inner f.selections hs (hls.enter he hf)
      have hbody := ihf hs (hls.enter he hf) hc
      have hhead := hbody.enter hls he hf (mem_known_remember hls he hf hfinds)
      have hrest := ihr (soundMemo_remember hls he hf hfinds) hlr hhead.closed
      simpa only [walk_spread, spreadNames, he, hf, hd, List.singleton_append] using
        hhead.seq hrest
  | unknown p rest ih =>
    simpa only [walk, spreadNames] using ih hs ((Index.leadsToAll_unknown _).1 hl) hc

theorem deepest_fills (sels : List Selection) (best : Nat × Option Selection)
    (hs : m.SoundMemo s) (hc : m.index.Closed (known s.memo)) :
    m.index.Fills .empty (spreadNames sels) (known s.memo)
      (known (m.deepest sels best s).2.memo) := by
  induction sels generalizing best s with
  | nil =>
    simp only [deepest, spreadNames]
    exact Index.fills_nothing hc
  | cons sel rest ih =>
    have hlead := Index.leadsToAll_empty (i := m.index) [sel]
    have hsel := walk_fills .empty [sel] hs hlead hc
    rw [spreadNames_cons, deepest]
    exact hsel.seq (ih _ (walk_finds .empty [sel] hs hlead).sound hsel.closed)

/-- What a measurer has learned from a sequence of operations. -/
def learned (m : Measurer) (os : List Operation) (s : Learned) : Learned :=
  os.foldl (fun s o => (m.measure o s).2) s

theorem learned_fills (os : List Operation) (hs : m.SoundMemo s)
    (hc : m.index.Closed (known s.memo)) :
    m.SoundMemo (m.learned os s) ∧
      m.index.Fills .empty (os.flatMap fun o => spreadNames o.selections) (known s.memo)
        (known (m.learned os s).memo) := by
  induction os generalizing s with
  | nil => exact ⟨hs, Index.fills_nothing hc⟩
  | cons o os ih =>
    have ho := deepest_fills o.selections (0, none) hs hc
    obtain ⟨hsound, hrest⟩ := ih (measure_spec o hs).2 ho.closed
    exact ⟨hsound, ho.seq hrest⟩

/-- After any operations a measurer remembers a depth for exactly those fragments that these lead to
and from which no cycle is within reach. The depth is that of the fragment's body by the plain
recursion, the same along every path of expansions on which the fragment can be spread. -/
theorem remembers_cycleFree_depths (m : Measurer) (os : List Operation) :
    (∀ name, ((m.learned os .start).memo.lookup name).isSome ↔
      (m.index.find? name).isSome ∧ (∃ o ∈ os, m.index.Routed (spreadNames o.selections) name) ∧
        m.index.CycleFree name) ∧
    ∀ name d, (name, d) ∈ (m.learned os .start).memo →
      ∃ f, m.index.find? name = some f ∧ ∀ p inner, m.index.Branch p → m.index.Continues p name →
        p.enter? name = some inner → d = nesting m.index m.step inner f.selections := by
  obtain ⟨hsound, hfills⟩ := learned_fills os (soundMemo_start (m := m)) Index.closed_nil
  constructor
  · intro name
    rw [Fragment.lookup_isSome_iff, hfills.mem_iff fun _ => hsound.cycleFree_of_known,
      Index.routed_flatMap]
  · intro name d hentry
    obtain ⟨f, hf, -, hdepth⟩ := hsound.entry hentry
    refine ⟨f, hf, fun p inner hp hs he => ?_⟩
    rw [hdepth p inner hp hs he, nesting_expand]

open DepthLimit (plain)

/-- A fragment that spreads itself, and two below it that do not. -/
def braided : Document := ⟨[
  .operation ⟨.query, none, [.spread ⟨"F", none⟩, .spread ⟨"H", none⟩], none⟩,
  .fragment ⟨"F", "T", some [plain "b" (some [.spread ⟨"F", none⟩]), .spread ⟨"H", none⟩], none⟩,
  .fragment ⟨"H", "T", some [plain "c" (some [.spread ⟨"K", none⟩])], none⟩,
  .fragment ⟨"K", "T", some [plain "d" none], none⟩]⟩

theorem braided_remembers_below :
    (learned ⟨Index.ofDocument braided, false⟩ braided.operations .start).memo =
        [("H", 4), ("K", 1)] ∧
      (Index.ofDocument braided).CycleFree "H" ∧
      ∃ f, (Index.ofDocument braided).find? "H" = some f ∧
        nesting (Index.ofDocument braided) 1 ⟨["F", "H"]⟩ f.selections = 4 := by
  have hmemo : (learned ⟨Index.ofDocument braided, false⟩ braided.operations .start).memo =
      [("H", 4), ("K", 1)] := by cbv
  obtain ⟨hknown, hentries⟩ :=
    remembers_cycleFree_depths ⟨Index.ofDocument braided, false⟩ braided.operations
  have hspreads : (Index.ofDocument braided).Spreads "F" "H" :=
    ⟨_, rfl, by simp [Fragment.selections, spreadNames, plain]⟩
  obtain ⟨f, hf, hdepth⟩ := hentries "H" 4 (by simp [hmemo])
  have hbranch : (Index.ofDocument braided).Branch ⟨["F"]⟩ :=
    Index.branch_of_chain (by simp) (by simp)
  refine ⟨hmemo, ((hknown "H").1 (by simp [hmemo])).2.2, f, hf, ?_⟩
  exact (hdepth ⟨["F"]⟩ ⟨["F", "H"]⟩ hbranch (by simpa [Index.Continues] using hspreads) rfl).symm

end QueryBounds.Depth.Measurer
