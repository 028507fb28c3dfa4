import QueryBounds.Proofs.Memo
import QueryBounds.Proofs.Tally

/-!
# The memo of a counter changes no count

A counter that remembers fragments comes to the same tally as the walk without a memo, for every
index and limit and over any sequence of documents. The invariant of the walk is that its memo is
sound; what keeps it so is that a part of the walk has skipped no spread exactly when all spreads of
that part are clear of the path.
-/
namespace QueryBounds.Alias

open Fragment (Index Sound)

/-- How many counted fields an expansion has. -/
def weight (allowed : List String) (sels : List Selection) : Nat :=
  (occurrences .empty allowed .empty sels).length

theorem weight_expand (i : Index) (allowed : List String) (p : Path) (sels : List Selection) :
    weight allowed (i.expand p sels) = (occurrences i allowed p sels).length := by
  rw [weight, occurrences_expand]

namespace Counter

/-- The memo of a counter on its way. -/
def SoundMemo (c : Counter) (s : Progress) : Prop := Sound c.index (weight c.allowed) s.memo

theorem soundMemo_start {c : Counter} : c.SoundMemo .start := Fragment.sound_nil

/-- What a part of a walk does to the progress that it starts from: it adds counted fields, keeps
the memo sound, and, unless it stops, has skipped a spread exactly when it was not clear of the
path. -/
structure Counts (c : Counter) (fields : List Field) (clear : Prop) (s : Progress)
    (r : Bool × Progress) : Prop where
  sound : c.SoundMemo r.2
  tally : (r.1, r.2.tally) = s.tally.addAll c.limit fields
  skipped_le : s.skipped ≤ r.2.skipped
  clear_iff : r.1 = false → (r.2.skipped = s.skipped ↔ clear)

variable {c : Counter} {s s' : Progress} {r : Bool × Progress} {fs gs : List Field} {P Q : Prop}

/-- The memo apart, a progress is known by its tally and what it has skipped. -/
theorem Counts.congr_start (h : Counts c fs P s r) (ht : s'.tally = s.tally)
    (hk : s'.skipped = s.skipped) : Counts c fs P s' r := by
  refine ⟨h.sound, ?_, ?_, ?_⟩
  · rw [ht]
    exact h.tally
  · rw [hk]
    exact h.skipped_le
  · rw [hk]
    exact h.clear_iff

/-- Two parts of a walk, one after the other. -/
theorem Counts.seq {k : Progress → Bool × Progress} (h : Counts c fs P s r)
    (hn : r.1 = false → Counts c gs Q r.2 (k r.2)) :
    Counts c (fs ++ gs) (P ∧ Q) s (andThen r k) := by
  cases hr : r.1 with
  | true =>
    have hstop : andThen r k = r := andThen_true hr k
    rw [hstop]
    refine ⟨h.sound, ?_, h.skipped_le, fun hgo => ?_⟩
    · rw [Tally.addAll_append, ← h.tally, andThen_true (r := (r.1, r.2.tally)) hr]
    · rw [hr] at hgo
      cases hgo
  | false =>
    have hgo : andThen r k = k r.2 := andThen_false hr k
    have hrest := hn hr
    rw [hgo]
    refine ⟨hrest.sound, ?_, Nat.le_trans h.skipped_le hrest.skipped_le, fun hstop => ?_⟩
    · rw [Tally.addAll_append, ← h.tally, andThen_false (r := (r.1, r.2.tally)) hr]
      exact hrest.tally
    · -- neither part can take back what the other has skipped
      have hle := h.skipped_le
      have hle' := hrest.skipped_le
      rw [← h.clear_iff hr, ← hrest.clear_iff hstop]
      omega

/-! ## The steps of a walk -/

theorem counts_tally (hs : c.SoundMemo s) (f : Field) :
    Counts c (if isCounted c.allowed f then [f] else []) True s (c.tally f s) := by
  unfold Counter.tally
  by_cases hf : isCounted c.allowed f = true
  · by_cases hx : exceeds c.limit (s.count + 1) = true
    · simp only [hf, hx, if_true]
      exact ⟨hs, by simp [Progress.tally, Tally.addAll, Tally.add, hx, Counter.andThen],
        Nat.le_refl _, by simp⟩
    · simp only [hf, hx, if_true, Bool.false_eq_true, if_false]
      exact ⟨hs, by simp [Progress.tally, Tally.addAll, Tally.add, hx], Nat.le_refl _, by simp⟩
  · simp only [hf, Bool.false_eq_true, if_false]
    exact ⟨hs, rfl, Nat.le_refl _, by simp⟩

theorem counts_nothing (hs : c.SoundMemo s) : Counts c [] True s (false, s) :=
  ⟨hs, rfl, Nat.le_refl _, by simp⟩

theorem counts_skip (hs : c.SoundMemo s) :
    Counts c [] False s (false, { s with skipped := s.skipped + 1 }) :=
  ⟨hs, rfl, Nat.le_succ _, by simp⟩

theorem remembered?_eq_some {name : String} (h : c.remembered? name s = some s') :
    ∃ k, s.memo.lookup name = some k ∧ exceeds c.limit (s.count + k) = false ∧
      s' = { s with count := s.count + k } := by
  unfold remembered? at h
  split at h
  · cases h
  · next k hk =>
    split at h
    · cases h
    · next hx =>
      cases h
      exact ⟨k, hk, by simpa using hx, rfl⟩

/-- A fragment that is taken from the memo counts as it would if it were walked. -/
theorem counts_remembered {p inner : Path} {name : String} {f : Fragment} (hs : c.SoundMemo s)
    (hl : c.index.LeadsTo p name) (hp : p.enter? name = some inner)
    (hf : c.index.find? name = some f) (h : c.remembered? name s = some s') :
    Counts c (occurrences c.index c.allowed inner f.selections)
      (c.index.AllClear inner f.selections) s (false, s') := by
  obtain ⟨k, hk, hx, rfl⟩ := remembered?_eq_some h
  obtain ⟨g, hg, hclear, hweight⟩ := hs.lookup hk hl hp
  rw [hf] at hg
  cases hg
  rw [weight_expand] at hweight
  refine ⟨hs, ?_, Nat.le_refl _, by simp [hclear]⟩
  rw [hweight] at hx
  rw [Tally.addAll_within (t := s.tally) hx, hweight]
  rfl

/-- What a fragment added that was walked without a skip is worth remembering. -/
theorem soundMemo_remember {p inner : Path} {name : String} {f : Fragment}
    (hl : c.index.LeadsTo p name) (hp : p.enter? name = some inner)
    (hf : c.index.find? name = some f)
    (h : Counts c (occurrences c.index c.allowed inner f.selections)
      (c.index.AllClear inner f.selections) s r) (hr : r.1 = false) :
    c.SoundMemo (Progress.remember name s r.2) := by
  unfold Progress.remember
  split
  · next hskip =>
    refine Sound.cons h.sound hl hp hf ((h.clear_iff hr).1 hskip) ?_
    have hgo : (s.tally.addAll c.limit (occurrences c.index c.allowed inner f.selections)).1
        = false := by rw [← h.tally]; exact hr
    have hcount : r.2.tally = _ := (congrArg Prod.snd h.tally).trans (Tally.addAll_of_going hgo)
    have : r.2.count = s.count + (occurrences c.index c.allowed inner f.selections).length :=
      congrArg Tally.count hcount
    rw [weight_expand]
    omega
  · exact h.sound

@[simp] theorem remember_tally (name : String) (before after : Progress) :
    (Progress.remember name before after).tally = after.tally := by
  unfold Progress.remember
  split <;> rfl

@[simp] theorem remember_skipped (name : String) (before after : Progress) :
    (Progress.remember name before after).skipped = after.skipped := by
  unfold Progress.remember
  split <;> rfl

theorem walk_spread (c : Counter) (p : Path) (sp : Spread) (rest : List Selection)
    (s : Progress) :
    c.walk p (.spread sp :: rest) s =
      match p.enter? sp.name with
      | none => c.walk p rest { s with skipped := s.skipped + 1 }
      | some inner =>
        match c.remembered? sp.name s with
        | some s => c.walk p rest s
        | none =>
          match c.index.find? sp.name with
          | none => c.walk p rest s
          | some f =>
            andThen (c.walk inner f.selections s) fun after =>
              c.walk p rest (Progress.remember sp.name s after) := by
  rw [walk]
  split
  · next he => rw [he]
  · next inner he =>
    rw [he]
    cases hr : c.remembered? sp.name s with
    | some s' => rfl
    | none =>
      simp only
      split
      · next hf => rw [hf]
      · next f hf => rw [hf]

/-! ## Whole walks -/

/-- A walk adds the counted fields below its selections. -/
theorem walk_counts (p : Path) (sels : List Selection) (hs : c.SoundMemo s)
    (hl : c.index.LeadsToAll p sels) :
    Counts c (occurrences c.index c.allowed p sels) (c.index.AllClear p sels) s
      (c.walk p sels s) := by
  induction p, sels using c.index.walk_induction generalizing s with
  | nil p =>
    simp only [walk, occurrences, Index.allClear_nil]
    exact counts_nothing hs
  | field p h body rest ihb ihr =>
    obtain ⟨hlb, hlr⟩ := (Index.leadsToAll_field ..).1 hl
    have hhead := counts_tally hs h
    have hbody := hhead.seq fun _ => ihb hhead.sound hlb
    have hall := hbody.seq fun _ => ihr hbody.sound hlr
    simpa only [walk, occurrences, Index.allClear_field, true_and] using hall
  | inline p h body rest ihb ihr =>
    obtain ⟨hlb, hlr⟩ := (Index.leadsToAll_inline ..).1 hl
    have hbody := ihb hs hlb
    have hall := hbody.seq fun _ => ihr hbody.sound hlr
    simpa only [walk, occurrences, Index.allClear_inline] using hall
  | refused p sp rest he ih =>
    have hrest := ih (s := { s with skipped := s.skipped + 1 }) hs ((Index.leadsToAll_spread ..).1 hl).2
    have hall := (counts_skip hs).seq fun _ => hrest
    simpa only [walk_spread, occurrences_spread, he, Index.allClear_spread, andThen_mk_false,
      Index.not_clear_of_refused he] using hall
  | undefined p inner sp rest he hf ih =>
    obtain ⟨hls, hlr⟩ := (Index.leadsToAll_spread ..).1 hl
    -- a sound memo has no entry for a name without a definition
    have hmiss : c.remembered? sp.name s = none := by
      cases hr : c.remembered? sp.name s with
      | none => rfl
      | some s' =>
        obtain ⟨k, hk, -, -⟩ := remembered?_eq_some hr
        obtain ⟨g, hg, -, -⟩ := hs.lookup hk hls he
        rw [hf] at hg
        cases hg
    have hall := (counts_nothing hs).seq fun _ => ih hs hlr
    simpa only [walk_spread, occurrences_spread, he, hf, hmiss, Index.allClear_spread,
      andThen_mk_false, Index.clear_of_undefined he hf] using hall
  | defined p inner sp f rest he hf ihf ihr =>
    obtain ⟨hls, hlr⟩ := (Index.leadsToAll_spread ..).1 hl
    have hclear := Index.clear_iff he hf
    cases hr : c.remembered? sp.name s with
    | some s' =>
      have hhead := counts_remembered hs hls he hf hr
      have hall := hhead.seq fun _ => ihr hhead.sound hlr
      simpa only [walk_spread, occurrences_spread, he, hf, hr, Index.allClear_spread, hclear,
        andThen_mk_false] using hall
    | none =>
      have hbody := ihf hs (hls.enter he hf)
      have hall := hbody.seq (k := fun after =>
          c.walk p rest (Progress.remember sp.name s after)) fun hgo =>
        (ihr (soundMemo_remember hls he hf hbody hgo) hlr).congr_start (by simp) (by simp)
      simpa only [walk_spread, occurrences_spread, he, hf, hr, Index.allClear_spread, hclear]
        using hall
  | unknown p rest ih =>
    simpa only [walk, occurrences, Index.allClear_unknown] using
      ih hs ((Index.leadsToAll_unknown _).1 hl)

/-- Counting operations keeps the memo sound and gives the tally of the walk without it. -/
theorem countOperations_spec (os : List Operation) (hs : c.SoundMemo s) :
    c.SoundMemo (c.countOperations os s) ∧
      (c.countOperations os s).tally = c.plainOperations os s.tally := by
  induction os generalizing s with
  | nil => exact ⟨hs, rfl⟩
  | cons o os ih =>
    have hwalk := walk_counts .empty o.selections hs (Index.leadsToAll_empty _)
    have htally := hwalk.tally
    rw [← plainWalk_eq_addAll] at htally
    rw [countOperations, plainOperations, ← htally]
    rcases hr : c.walk .empty o.selections s with ⟨stopped, s'⟩
    rw [hr] at hwalk
    cases stopped with
    | true => exact ⟨hwalk.sound, rfl⟩
    | false => exact ih hwalk.sound

/-- The tallies that a counter shows over a sequence of documents are those of the walk without a
memo, whatever fragments there are and wherever the limit stopped it before. -/
theorem tallies_eq_plainTallies (c : Counter) (ds : List Document) :
    c.tallies ds .start = c.plainTallies ds .start := by
  suffices h : ∀ s, c.SoundMemo s → c.tallies ds s = c.plainTallies ds s.tally from
    h .start soundMemo_start
  induction ds with
  | nil => exact fun s _ => rfl
  | cons d ds ih =>
    intro s hs
    obtain ⟨hsound, htally⟩ := countOperations_spec d.operations hs
    simp only [tallies, plainTallies, countDocument, ← htally]
    rw [ih _ hsound]

end Counter
end QueryBounds.Alias
