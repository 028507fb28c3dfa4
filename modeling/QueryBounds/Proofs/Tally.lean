import QueryBounds.Alias.Counter
import QueryBounds.Proofs.Expansion

/-!
# Counting without a memo

A tally is what can be seen of a counter: the running count and the field at which the limit was
last crossed. The plain walk is that of a counter that remembers nothing and walks a fragment again
at each of its spreads. It comes to the same as adding the counted fields one by one in the order
in which a walk meets them, up to the first that takes the count above the limit.
-/
namespace QueryBounds.Alias

open Fragment (Index)

structure Tally where
  count : Nat
  exceededAt : Option Field
  deriving DecidableEq, Repr

namespace Tally

def start : Tally := ⟨0, none⟩

/-- One more counted field; the walk stops there when the count is above the limit. -/
def add (limit : Option Int) (f : Field) (t : Tally) : Bool × Tally :=
  if exceeds limit (t.count + 1) then (true, ⟨t.count + 1, some f⟩)
  else (false, ⟨t.count + 1, t.exceededAt⟩)

/-- Counted fields in their order, up to the first at which the walk stops. -/
def addAll (limit : Option Int) : List Field → Tally → Bool × Tally
  | [], t => (false, t)
  | f :: fs, t => Counter.andThen (t.add limit f) (addAll limit fs)

end Tally

/-- What can be seen of a counter's progress. -/
def Progress.tally (s : Progress) : Tally := ⟨s.count, s.exceededAt⟩

namespace Counter

/-- The walk without a memo: a fragment is walked again at every spread that the path lets in. -/
def plainWalk (c : Counter) (path : Path) : List Selection → Tally → Bool × Tally
  | [], t => (false, t)
  | .field f body :: rest, t =>
    andThen
      (andThen (if isCounted c.allowed f then t.add c.limit f else (false, t))
        (c.plainWalk path (body.getD [])))
      (c.plainWalk path rest)
  | .inline _ body :: rest, t =>
    andThen (c.plainWalk path (body.getD []) t) (c.plainWalk path rest)
  | .spread sp :: rest, t =>
    match _ : path.enter? sp.name with
    | none => c.plainWalk path rest t
    | some inner =>
      match _ : c.index.find? sp.name with
      | none => c.plainWalk path rest t
      | some f => andThen (c.plainWalk inner f.selections t) (c.plainWalk path rest)
  | .unknown :: rest, t => c.plainWalk path rest t
termination_by sels => (c.index.remaining path, sizeOf sels)
decreasing_by
  · exact Prod.Lex.right _ (Selection.sizeOf_body_lt_field _ _ _)
  · exact Prod.Lex.right _ (Selection.sizeOf_rest_lt _ _)
  · exact Prod.Lex.right _ (Selection.sizeOf_body_lt_inline _ _ _)
  · exact Prod.Lex.right _ (Selection.sizeOf_rest_lt _ _)
  · exact Prod.Lex.right _ (Selection.sizeOf_rest_lt _ _)
  · exact Prod.Lex.right _ (Selection.sizeOf_rest_lt _ _)
  · exact Prod.Lex.left _ _ (Index.remaining_lt ‹_› ‹_›)
  · exact Prod.Lex.right _ (Selection.sizeOf_rest_lt _ _)
  · exact Prod.Lex.right _ (Selection.sizeOf_rest_lt _ _)

/-- Counts operations in order without a memo, up to the first at which the walk stops. -/
def plainOperations (c : Counter) : List Operation → Tally → Tally
  | [], t => t
  | o :: os, t =>
    match c.plainWalk .empty o.selections t with
    | (true, t) => t
    | (false, t) => c.plainOperations os t

/-- The running tally after each of a sequence of documents, counted without a memo. -/
def plainTallies (c : Counter) : List Document → Tally → List Tally
  | [], _ => []
  | d :: ds, t =>
    let t := c.plainOperations d.operations t
    t :: c.plainTallies ds t

/-- The running tally after each of a sequence of documents. -/
def tallies (c : Counter) : List Document → Progress → List Tally
  | [], _ => []
  | d :: ds, s =>
    let s := c.countDocument d s
    s.tally :: c.tallies ds s

/-! ## Going on after a walk -/

variable {σ : Type}

theorem andThen_true {r : Bool × σ} (h : r.1 = true) (next : σ → Bool × σ) :
    andThen r next = r := by
  simp [andThen, h]

theorem andThen_false {r : Bool × σ} (h : r.1 = false) (next : σ → Bool × σ) :
    andThen r next = next r.2 := by
  simp [andThen, h]

@[simp] theorem andThen_mk_false (s : σ) (next : σ → Bool × σ) :
    andThen (false, s) next = next s := rfl

theorem andThen_assoc (r : Bool × σ) (f g : σ → Bool × σ) :
    andThen (andThen r f) g = andThen r fun s => andThen (f s) g := by
  obtain ⟨stopped, s⟩ := r
  cases stopped <;> rfl

end Counter

/-! ## Adding fields to a tally -/

theorem exceeds_mono {limit : Option Int} {m n : Nat} (h : m ≤ n) (hm : exceeds limit m = true) :
    exceeds limit n = true := by
  cases limit with
  | none => exact hm
  | some k =>
    simp only [exceeds, decide_eq_true_eq] at hm ⊢
    omega

namespace Tally

open Counter (andThen andThen_assoc)

variable {limit : Option Int}

theorem addAll_append (fs gs : List Field) (t : Tally) :
    t.addAll limit (fs ++ gs) = andThen (t.addAll limit fs) (addAll limit gs) := by
  induction fs generalizing t with
  | nil => rfl
  | cons f fs ih =>
    have hrest : addAll limit (fs ++ gs) = fun u => andThen (addAll limit fs u) (addAll limit gs) :=
      funext ih
    simp only [List.cons_append, addAll, andThen_assoc, hrest]

/-- As long as the walk has not stopped, every field has been counted. -/
theorem addAll_of_going {fs : List Field} {t : Tally} (h : (t.addAll limit fs).1 = false) :
    (t.addAll limit fs).2 = ⟨t.count + fs.length, t.exceededAt⟩ := by
  induction fs generalizing t with
  | nil => rfl
  | cons f fs ih =>
    by_cases hx : exceeds limit (t.count + 1) = true
    · simp [addAll, add, andThen, hx] at h
    · simp only [addAll, add, hx, Bool.false_eq_true, if_false, Counter.andThen_mk_false] at h ⊢
      rw [ih h, List.length_cons]
      simp only [Nat.add_assoc, Nat.add_comm 1]

/-- Fields that stay within the limit are all counted. -/
theorem addAll_within {fs : List Field} {t : Tally}
    (h : exceeds limit (t.count + fs.length) = false) :
    t.addAll limit fs = (false, ⟨t.count + fs.length, t.exceededAt⟩) := by
  induction fs generalizing t with
  | nil => rfl
  | cons f fs ih =>
    have hx : ¬ exceeds limit (t.count + 1) = true := by
      intro hx
      have hlong := exceeds_mono (n := t.count + (f :: fs).length) (by simp) hx
      rw [h] at hlong
      cases hlong
    simp only [addAll, add, hx, Bool.false_eq_true, if_false, Counter.andThen_mk_false]
    rw [ih (by rw [← h, List.length_cons]; congr 1; simp only; omega), List.length_cons]
    simp only [Nat.add_assoc, Nat.add_comm 1]

/-- Fields that go beyond a limit are counted up to the one that crosses it. -/
theorem addAll_beyond {k : Nat} {fs : List Field} {t : Tally} (ht : t.count ≤ k)
    (h : k < t.count + fs.length) :
    t.addAll (some (k : Int)) fs = (true, ⟨k + 1, fs[k - t.count]?⟩) := by
  induction fs generalizing t with
  | nil =>
    simp only [List.length_nil] at h
    omega
  | cons f fs ih =>
    rw [List.length_cons] at h
    by_cases hk : t.count = k
    · have hx : exceeds (some (k : Int)) (t.count + 1) = true := by
        simp only [exceeds, decide_eq_true_eq]
        omega
      simp only [addAll, add, hx, if_true]
      rw [Counter.andThen_true rfl, hk, Nat.sub_self, List.getElem?_cons_zero]
    · have hx : ¬ exceeds (some (k : Int)) (t.count + 1) = true := by
        simp only [exceeds, decide_eq_true_eq]
        omega
      have hstep : k - t.count = (k - (t.count + 1)) + 1 := by omega
      simp only [addAll, add, hx, Bool.false_eq_true, if_false, Counter.andThen_mk_false]
      rw [ih (by simp only; omega) (by simp only; omega), hstep, List.getElem?_cons_succ]

end Tally

/-! ## The plain walk adds the counted fields -/

namespace Counter

theorem plainWalk_spread (c : Counter) (p : Path) (sp : Spread) (rest : List Selection)
    (t : Tally) :
    c.plainWalk p (.spread sp :: rest) t =
      match p.enter? sp.name with
      | none => c.plainWalk p rest t
      | some inner =>
        match c.index.find? sp.name with
        | none => c.plainWalk p rest t
        | some f => andThen (c.plainWalk inner f.selections t) (c.plainWalk p rest) := by
  rw [plainWalk]
  split
  · next he => rw [he]
  · next inner he =>
    rw [he]
    simp only
    split
    · next hf => rw [hf]
    · next f hf => rw [hf]

theorem plainWalk_eq_addAll (c : Counter) (p : Path) (sels : List Selection) (t : Tally) :
    c.plainWalk p sels t = t.addAll c.limit (occurrences c.index c.allowed p sels) := by
  induction p, sels using c.index.walk_induction generalizing t with
  | nil p => simp only [plainWalk, occurrences, Tally.addAll]
  | field p h body rest ihb ihr =>
    have hfield : (if isCounted c.allowed h then t.add c.limit h else (false, t)) =
        t.addAll c.limit (if isCounted c.allowed h then [h] else []) := by
      split
      · simp only [Tally.addAll, Tally.add]
        split <;> rfl
      · rfl
    have hbody := funext ihb
    have hrest := funext ihr
    simp only [plainWalk, occurrences, Tally.addAll_append, hfield, hbody, hrest]
  | inline p h body rest ihb ihr =>
    have hrest := funext ihr
    simp only [plainWalk, occurrences, Tally.addAll_append, ihb, hrest]
  | refused p sp rest he ih =>
    simp only [plainWalk_spread, occurrences_spread, he, List.nil_append, ih]
  | undefined p inner sp rest he hf ih =>
    simp only [plainWalk_spread, occurrences_spread, he, hf, List.nil_append, ih]
  | defined p inner sp f rest he hf ihf ihr =>
    have hrest := funext ihr
    simp only [plainWalk_spread, occurrences_spread, he, hf, Tally.addAll_append, ihf, hrest]
  | unknown p rest ih => simp only [plainWalk, occurrences, ih]

/-- Counting operations adds the counted fields of all of them. -/
theorem plainOperations_eq_addAll (c : Counter) (os : List Operation) (t : Tally) :
    c.plainOperations os t =
      (t.addAll c.limit (os.flatMap fun o =>
        occurrences c.index c.allowed .empty o.selections)).2 := by
  induction os generalizing t with
  | nil => rfl
  | cons o os ih =>
    rw [plainOperations, List.flatMap_cons, Tally.addAll_append, plainWalk_eq_addAll]
    rcases hr : t.addAll c.limit (occurrences c.index c.allowed .empty o.selections) with
      ⟨stopped, u⟩
    cases stopped with
    | true => rfl
    | false => exact ih u

end Counter
end QueryBounds.Alias
