import Mathlib
import QueryBounds.Proofs.AliasRejection
import QueryBounds.Proofs.Counting
import QueryBounds.Proofs.Remembering

/-!
# The counts that a counter remembers

Whatever documents a counter has been given and wherever its limit stopped it, what it remembers of a
fragment is the full count of the fragment's body, and only fragments that reach no cycle are
remembered. A counter without a limit stops nowhere, so after every document it remembers all such
fragments that the operations so far lead to.
-/
namespace QueryBounds.Alias.Counter

open Fragment (Index known)

variable {c : Counter} {s : Progress} {r : Bool × Progress} {p inner : Path} {name : String}
variable {f : Fragment} {fs : List Field} {P : Prop}

/-- Without a limit no part of a walk stops. -/
theorem Counts.going (h : Counts c fs P s r) (hn : c.limit = none) : r.1 = false := by
  have hwithin : exceeds c.limit (s.tally.count + fs.length) = false := by
    rw [hn]
    rfl
  exact congrArg Prod.fst (h.tally.trans (Tally.addAll_within hwithin))

@[simp] theorem tally_memo (c : Counter) (f : Field) (s : Progress) :
    (c.tally f s).2.memo = s.memo := by
  unfold tally
  split
  · dsimp only
    split <;> rfl
  · rfl

theorem remembered?_memo {s' : Progress} (h : c.remembered? name s = some s') :
    s'.memo = s.memo ∧ name ∈ known s.memo := by
  obtain ⟨k, hk, -, rfl⟩ := remembered?_eq_some h
  refine ⟨rfl, ?_⟩
  rw [← Fragment.lookup_isSome_iff, hk]
  rfl

/-- A fragment becomes known by being counted exactly when it reaches no cycle. -/
theorem mem_known_remember (hl : c.index.LeadsTo p name) (hp : p.enter? name = some inner)
    (hf : c.index.find? name = some f)
    (h : Counts c fs (c.index.AllClear inner f.selections) s r) (hr : r.1 = false) (n : String) :
    n ∈ known (Progress.remember name s r.2).memo ↔
      n ∈ known r.2.memo ∨ n = name ∧ c.index.CycleFree name := by
  rw [Index.cycleFree_iff_allClear hl hp hf, ← h.clear_iff hr, Progress.remember]
  by_cases hskip : r.2.skipped = s.skipped
  · simp [hskip, known, or_comm]
  · simp [hskip]

/-- What a walk without a limit adds to the fragments that are known. -/
theorem walk_fills (hn : c.limit = none) (p : Path) (sels : List Selection) (hs : c.SoundMemo s)
    (hl : c.index.LeadsToAll p sels) (hc : c.index.Closed (known s.memo)) :
    c.index.Fills p (spreadNames sels) (known s.memo) (known (c.walk p sels s).2.memo) := by
  induction p, sels using c.index.walk_induction generalizing s with
  | nil p =>
    simp only [walk, spreadNames]
    exact Index.fills_nothing hc
  | field p h body rest ihb ihr =>
    obtain ⟨hlb, hlr⟩ := (Index.leadsToAll_field ..).1 hl
    have htally := counts_tally hs h
    have hcounts := walk_counts p (body.getD []) htally.sound hlb
    have hbody := ihb htally.sound hlb (by simpa using hc)
    have hrest := ihr hcounts.sound hlr hbody.closed
    simpa only [walk, spreadNames, andThen_false (htally.going hn), andThen_false (hcounts.going hn),
      tally_memo] using hbody.seq hrest
  | inline p h body rest ihb ihr =>
    obtain ⟨hlb, hlr⟩ := (Index.leadsToAll_inline ..).1 hl
    have hcounts := walk_counts p (body.getD []) hs hlb
    have hbody := ihb hs hlb hc
    have hrest := ihr hcounts.sound hlr hbody.closed
    simpa only [walk, spreadNames, andThen_false (hcounts.going hn)] using hbody.seq hrest
  | refused p sp rest he ih =>
    have hrest := ih (s := { s with skipped := s.skipped + 1 }) hs
      ((Index.leadsToAll_spread ..).1 hl).2 hc
    simpa only [walk_spread, spreadNames, he, List.singleton_append] using
      (Index.fills_refused hc he).seq hrest
  | undefined p inner sp rest he hf ih =>
    have hrest := ih hs ((Index.leadsToAll_spread ..).1 hl).2 hc
    -- a sound memo has no entry for a name without a definition
    have hmiss : c.remembered? sp.name s = none := by
      cases hr : c.remembered? sp.name s with
      | none => rfl
      | some s' =>
        have hdef := (hs.cycleFree_of_known (remembered?_memo hr).2).1
        rw [hf] at hdef
        cases hdef
    simpa only [walk_spread, spreadNames, he, hf, hmiss, List.singleton_append] using
      (Index.fills_undefined hc hf).seq hrest
  | defined p inner sp f rest he hf ihf ihr =>
    obtain ⟨hls, hlr⟩ := (Index.leadsToAll_spread ..).1 hl
    cases hr : c.remembered? sp.name s with
    | some s' =>
      obtain ⟨hmemo, hknown⟩ := remembered?_memo hr
      have hsound := (counts_remembered hs hls he hf hr).sound
      have hrest := ihr hsound hlr (by rwa [hmemo])
      simpa only [walk_spread, spreadNames, he, hf, hr, hmemo, List.singleton_append] using
        (Index.fills_known hc hknown).seq (hmemo ▸ hrest)
    | none =>
      have hcounts := walk_counts inner f.selections hs (hls.enter he hf)
      have hgo := hcounts.going hn
      have hbody := ihf hs (hls.enter he hf) hc
      have hhead := hbody.enter hls he hf (mem_known_remember hls he hf hcounts hgo)
      have hrest := ihr (soundMemo_remember hls he hf hcounts hgo) hlr hhead.closed
      simpa only [walk_spread, spreadNames, he, hf, hr, andThen_false hgo, List.singleton_append]
        using hhead.seq hrest
  | unknown p rest ih =>
    simpa only [walk, spreadNames] using ih hs ((Index.leadsToAll_unknown _).1 hl) hc

theorem countOperations_fills (hn : c.limit = none) (os : List Operation) (hs : c.SoundMemo s)
    (hc : c.index.Closed (known s.memo)) :
    c.index.Fills .empty (os.flatMap fun o => spreadNames o.selections) (known s.memo)
      (known (c.countOperations os s).memo) := by
  induction os generalizing s with
  | nil => exact Index.fills_nothing hc
  | cons o os ih =>
    have hlead := Index.leadsToAll_empty (i := c.index) o.selections
    have hcounts := walk_counts .empty o.selections hs hlead
    have ho := walk_fills hn .empty o.selections hs hlead hc
    have hgo := hcounts.going hn
    have hrest := ih hcounts.sound ho.closed
    rw [countOperations]
    rcases hr : c.walk .empty o.selections s with ⟨stopped, s'⟩
    rw [hr] at ho hgo hrest
    cases hgo
    exact ho.seq hrest

/-- The progress of a counter after a sequence of documents. -/
def counted (c : Counter) (ds : List Document) (s : Progress) : Progress :=
  ds.foldl (fun s d => c.countDocument d s) s

theorem counted_sound (ds : List Document) (hs : c.SoundMemo s) : c.SoundMemo (c.counted ds s) := by
  induction ds generalizing s with
  | nil => exact hs
  | cons d ds ih => exact ih (countOperations_spec d.operations hs).1

theorem counted_fills (hn : c.limit = none) (ds : List Document) (hs : c.SoundMemo s)
    (hc : c.index.Closed (known s.memo)) :
    c.index.Fills .empty
      (ds.flatMap fun d => d.operations.flatMap fun o => spreadNames o.selections)
      (known s.memo) (known (c.counted ds s).memo) := by
  induction ds generalizing s with
  | nil => exact Index.fills_nothing hc
  | cons d ds ih =>
    have hd := countOperations_fills hn d.operations hs hc
    exact hd.seq (ih (countOperations_spec d.operations hs).1 hd.closed)

/-- After any documents and under any limit, whatever a counter remembers is the full count of the body
of a fragment from which no cycle is within reach, the same along every path of expansions. Without a
limit it remembers exactly those of these fragments that the operations of the documents lead to. -/
theorem remembers_cycleFree_counts (c : Counter) (ds : List Document) :
    (∀ name k, (name, k) ∈ (c.counted ds .start).memo →
      ∃ f, c.index.find? name = some f ∧ c.index.CycleFree name ∧
        ∀ p inner, c.index.Branch p → c.index.Continues p name → p.enter? name = some inner →
          k = (occurrences c.index c.allowed inner f.selections).length) ∧
    (c.limit = none → ∀ name, ((c.counted ds .start).memo.lookup name).isSome ↔
      (c.index.find? name).isSome ∧
        (∃ d ∈ ds, ∃ o ∈ d.operations, c.index.Routed (spreadNames o.selections) name) ∧
        c.index.CycleFree name) := by
  have hsound := counted_sound ds (soundMemo_start (c := c))
  constructor
  · intro name k hentry
    obtain ⟨f, hf, hfree, hweight⟩ := hsound.entry hentry
    refine ⟨f, hf, hfree, fun p inner hp hs he => ?_⟩
    rw [hweight p inner hp hs he, weight_expand]
  · intro hn name
    have hfills := counted_fills hn ds (soundMemo_start (c := c)) Index.closed_nil
    rw [Fragment.lookup_isSome_iff, hfills.mem_iff fun _ => hsound.cycleFree_of_known]
    simp only [Index.routed_flatMap]

open AliasLimit (aliased)

/-- A fragment that spreads itself, and two below it that do not. -/
def braided : Document := ⟨[
  .operation ⟨.query, none, [.spread ⟨"F", none⟩, .spread ⟨"H", none⟩], none⟩,
  .fragment ⟨"F", "T", some [.field (aliased "a") (some [.spread ⟨"F", none⟩]),
    .spread ⟨"H", none⟩], none⟩,
  .fragment ⟨"H", "T", some [.field (aliased "b") none, .spread ⟨"K", none⟩, .spread ⟨"K", none⟩],
    none⟩,
  .fragment ⟨"K", "T", some [.field (aliased "c") none], none⟩]⟩

/-- A limit of three stops in the middle of H, when K is known already. -/
theorem braided_remembers_below_limit :
    (counted ⟨Index.ofDocument braided, [], some 3⟩ [braided] .start).memo = [("K", 1)] ∧
      (∃ f, (Index.ofDocument braided).find? "K" = some f ∧
        (occurrences (Index.ofDocument braided) [] ⟨["F", "H", "K"]⟩ f.selections).length = 1) ∧
      (counted ⟨Index.ofDocument braided, [], none⟩ [braided] .start).memo = [("H", 3), ("K", 1)] ∧
      (Index.ofDocument braided).CycleFree "H" := by
  have hlimited : (counted ⟨Index.ofDocument braided, [], some 3⟩ [braided] .start).memo =
      [("K", 1)] := by cbv
  have hunlimited : (counted ⟨Index.ofDocument braided, [], none⟩ [braided] .start).memo =
      [("H", 3), ("K", 1)] := by cbv
  have hFH : (Index.ofDocument braided).Spreads "F" "H" :=
    ⟨_, rfl, by simp [Fragment.selections, spreadNames]⟩
  have hHK : (Index.ofDocument braided).Spreads "H" "K" :=
    ⟨_, rfl, by simp [Fragment.selections, spreadNames]⟩
  have hbranch : (Index.ofDocument braided).Branch ⟨["F", "H"]⟩ :=
    Index.branch_of_chain (by simp) (by simpa using hFH)
  obtain ⟨f, hf, -, hcount⟩ :=
    (remembers_cycleFree_counts ⟨Index.ofDocument braided, [], some 3⟩ [braided]).1 "K" 1
      (by simp [hlimited])
  have hH := ((remembers_cycleFree_counts ⟨Index.ofDocument braided, [], none⟩ [braided]).2 rfl
    "H").1 (by simp [hunlimited])
  refine ⟨hlimited, ⟨f, hf, ?_⟩, hunlimited, hH.2.2⟩
  exact (hcount ⟨["F", "H"]⟩ ⟨["F", "H", "K"]⟩ hbranch (by simpa [Index.Continues] using hHK)
    rfl).symm

end QueryBounds.Alias.Counter
