import QueryBounds.Proofs.Leniency

/-!
# Aliases that are allowed

A list of allowed aliases takes out of a count the fields that carry one of them, each as often as it
is counted, and nothing else: which fields are named so makes no difference, nor does it matter how
often an alias is listed or where. So to allow more is never to count more, and a limit that allows
more aliases by name, or more of them, is no stricter.
-/
namespace QueryBounds

open Fragment (Index)

/-- Whether a field carries one of the names as its alias. -/
def Field.isAliasedIn (names : List String) (f : Field) : Bool := f.aliasName.any names.contains

theorem Field.isAliasedIn_iff {names : List String} {f : Field} :
    f.isAliasedIn names = true ↔ ∃ a ∈ names, f.aliasName = some a := by
  unfold isAliasedIn
  cases f.aliasName <;> simp

namespace Alias

theorem isCounted_eq (allowed : List String) (f : Field) :
    isCounted allowed f = (isCounted [] f && !f.isAliasedIn allowed) := by
  unfold isCounted Field.isAliasedIn
  cases f.aliasName <;> simp

/-- The counted fields are those that count when nothing is allowed, without the allowed ones. -/
theorem occurrences_eq_filter (i : Index) (allowed : List String) (p : Path)
    (sels : List Selection) :
    occurrences i allowed p sels =
      (occurrences i [] p sels).filter fun f => !f.isAliasedIn allowed := by
  induction p, sels using i.walk_induction with
  | nil p => simp only [occurrences, List.filter_nil]
  | field p h body rest ihb ihr =>
    have hhead : (if isCounted allowed h then [h] else []) =
        (if isCounted [] h then [h] else []).filter fun f => !f.isAliasedIn allowed := by
      rw [isCounted_eq allowed h]
      cases isCounted [] h <;> cases hf : h.isAliasedIn allowed <;> simp [hf]
    simp only [occurrences, List.filter_append, hhead, ihb, ihr]
  | inline p h body rest ihb ihr => simp only [occurrences, List.filter_append, ihb, ihr]
  | refused p s rest he ih =>
    simp only [occurrences_spread, he, List.nil_append, ih]
  | undefined p inner s rest he hf ih =>
    simp only [occurrences_spread, he, hf, List.nil_append, ih]
  | defined p inner s f rest he hf ihf ihr =>
    simp only [occurrences_spread, he, hf, List.filter_append, ihf, ihr]
  | unknown p rest ih => simp only [occurrences, ih]

theorem documentOccurrences_eq_filter (allowed : List String) (d : Document) :
    documentOccurrences allowed d =
      (documentOccurrences [] d).filter fun f => !f.isAliasedIn allowed := by
  unfold documentOccurrences
  rw [List.filter_flatMap]
  exact List.flatMap_congr fun o _ => occurrences_eq_filter _ allowed .empty o.selections

/-- Lists that allow the same aliases leave the same fields. -/
theorem documentOccurrences_congr {allowed allowed' : List String} (d : Document)
    (h : ∀ a, a ∈ allowed ↔ a ∈ allowed') :
    documentOccurrences allowed d = documentOccurrences allowed' d := by
  rw [documentOccurrences_eq_filter allowed, documentOccurrences_eq_filter allowed']
  have hsame (f : Field) : f.isAliasedIn allowed = f.isAliasedIn allowed' := by
    rw [Bool.eq_iff_iff, Field.isAliasedIn_iff, Field.isAliasedIn_iff]
    simp only [h]
  simp only [hsame]

/-- What is counted when more is allowed is what is counted, without the fields that are aliased so. -/
theorem documentOccurrences_append (allowed more : List String) (d : Document) :
    documentOccurrences (allowed ++ more) d =
      (documentOccurrences allowed d).filter fun f => !f.isAliasedIn more := by
  rw [documentOccurrences_eq_filter (allowed ++ more), documentOccurrences_eq_filter allowed,
    List.filter_filter]
  refine List.filter_congr fun f _ => ?_
  unfold Field.isAliasedIn
  cases f.aliasName <;> simp [Bool.and_comm]

theorem sublist_documentOccurrences {allowed allowed' : List String} (h : allowed ⊆ allowed')
    (d : Document) :
    (documentOccurrences allowed' d).Sublist (documentOccurrences allowed d) := by
  have hsame (a : String) : a ∈ allowed' ↔ a ∈ allowed ++ allowed' := by
    rw [List.mem_append]
    exact ⟨.inr, fun ha => ha.elim (h ·) id⟩
  rw [documentOccurrences_congr d hsame, documentOccurrences_append]
  exact List.filter_sublist

theorem count_tally_congr {allowed allowed' : List String} {d : Document}
    (h : documentOccurrences allowed d = documentOccurrences allowed' d) (limit : Option Int) :
    (count d allowed limit).tally = (count d allowed' limit).tally := by
  rw [count_tally, count_tally, h]

/-- To allow more is never to count more. -/
theorem count_antitone {allowed allowed' : List String} (h : allowed ⊆ allowed') (d : Document) :
    (count d allowed' none).count ≤ (count d allowed none).count := by
  rw [count_unlimited, count_unlimited]
  exact (sublist_documentOccurrences h d).length_le

/-- Allowing more takes away from the count the fields with such an alias that was not allowed yet. -/
theorem count_append (allowed more : List String) (d : Document) :
    (count d (allowed ++ more) none).count +
        (documentOccurrences [] d).countP (fun f => f.isAliasedIn more && !f.isAliasedIn allowed) =
      (count d allowed none).count := by
  rw [count_unlimited, count_unlimited, documentOccurrences_append,
    documentOccurrences_eq_filter allowed d, ← List.countP_filter, ← List.countP_eq_length_filter]
  generalize (documentOccurrences [] d).filter (fun f => !f.isAliasedIn allowed) = counted
  have hnot : (fun f : Field => !f.isAliasedIn more) = fun f => decide ¬ f.isAliasedIn more = true := by
    funext f
    simp
  rw [List.length_eq_countP_add_countP (fun f : Field => f.isAliasedIn more), hnot]
  exact Nat.add_comm _ _

end Alias

namespace AliasLimit

open Alias (count documentOccurrences)

/-- A limit with no lower bound that allows no fewer aliases is no stricter. -/
theorem noStricter {l : AliasLimit} {n : Option Nat} {allowed : List String}
    (hn : ∀ k', n = some k' → ∃ k ≤ k', l.n = some k) (ha : l.allowed ⊆ allowed) (d : Document) :
    (EitherLimit.aliases { l with n, allowed }).NoStricter (.aliases l) d where
  onAccept := rfl
  onReject := rfl
  propagate := rfl
  exceeded := by
    intro hexceeded
    change Limit.exceededBy { l.toLimit with n } (count d allowed none).count = true at hexceeded
    change l.toLimit.exceededBy (count d l.allowed none).count = true
    cases hn' : n with
    | none => simp [Limit.exceededBy, hn'] at hexceeded
    | some k' =>
      obtain ⟨k, hle, hk⟩ := hn k' hn'
      have hcount := Alias.count_antitone ha d
      simp only [Limit.exceededBy, hn', hk, decide_eq_true_eq] at hexceeded ⊢
      omega

end AliasLimit

namespace Document

/-- Allowing more aliases takes their own occurrences out of the count and nothing else, and names that
no counted field has as its alias make no difference under any limit, whatever fields are named so. So
a count goes down the more is allowed, and what a limit accepts is accepted by one that allows no fewer
aliases, by name and in number. -/
theorem allowing_subtracts_own_aliases (d : Document) :
    (∀ allowed more both : List String, (∀ a, a ∈ both ↔ a ∈ allowed ∨ a ∈ more) →
      (Alias.count d both none).count +
          (Alias.documentOccurrences [] d).countP
            (fun f => f.isAliasedIn more && !f.isAliasedIn allowed) =
        (Alias.count d allowed none).count ∧
      ((∀ f ∈ Alias.documentOccurrences allowed d, ∀ a ∈ more, f.aliasName ≠ some a) →
        ∀ limit, (Alias.count d both limit).tally = (Alias.count d allowed limit).tally)) ∧
    (∀ allowed allowed' : List String, allowed ⊆ allowed' →
      (Alias.count d allowed' none).count ≤ (Alias.count d allowed none).count) ∧
    ∀ (l : AliasLimit) (n : Option Nat) (allowed : List String),
      (∀ k', n = some k' → ∃ k ≤ k', l.n = some k) → l.allowed ⊆ allowed →
      (¬ (EitherLimit.aliases l).Exceeded d →
        ¬ (EitherLimit.aliases { l with n, allowed }).Exceeded d ∧
        ({ l with n, allowed : AliasLimit }.validate d).result = (l.validate d).result) ∧
      ((l.propagate.holds = true ∨ ∀ h ∈ l.onAccept, h.failure = none) →
        (l.validate d).result = .ok [] →
        ({ l with n, allowed : AliasLimit }.validate d).result = .ok []) := by
  refine ⟨fun allowed more both hboth => ?_, fun allowed allowed' h => Alias.count_antitone h d,
    fun l n allowed hn ha => ?_⟩
  · have hoccurrences : Alias.documentOccurrences both d =
        Alias.documentOccurrences (allowed ++ more) d :=
      Alias.documentOccurrences_congr d (by simpa using hboth)
    constructor
    · have hcount := congrArg Alias.Tally.count (Alias.count_tally_congr hoccurrences none)
      rw [← Alias.count_append allowed more d]
      exact congrArg (· + _) hcount
    · intro hunused limit
      refine Alias.count_tally_congr ?_ limit
      rw [hoccurrences, Alias.documentOccurrences_append, List.filter_eq_self]
      intro f hf
      rw [Bool.not_eq_true', ← Bool.not_eq_true, Field.isAliasedIn_iff]
      rintro ⟨a, ha, hname⟩
      exact hunused f hf a ha hname
  · have hmild := AliasLimit.noStricter hn ha d
    rw [AliasLimit.result_validate, AliasLimit.result_validate]
    exact ⟨hmild.accepted, hmild.returns_nothing⟩

open AliasLimit (looped unlimited)

theorem looped_allowing_c :
    (Alias.count looped ["x", "c", "a"] none).count = 2 ∧
      ({ unlimited with n := some 5, allowed := ["a", "c"] : AliasLimit }.validate looped).result =
        .ok [] := by
  have hallowed : Alias.documentOccurrences ["a"] looped =
      ["b", "c", "b", "c"].map AliasLimit.aliased := by cbv
  have hown : (Alias.documentOccurrences [] looped).countP
      (fun f => f.isAliasedIn ["c", "x"] && !f.isAliasedIn ["a"]) = 2 := by cbv
  have hcount : (Alias.count looped ["a"] none).count = 4 := by
    rw [Alias.count_unlimited, hallowed]
    rfl
  have hnames (a : String) : a ∈ ["x", "c", "a"] ↔ a ∈ ["a"] ∨ a ∈ ["c", "x"] := by grind
  have h := looped.allowing_subtracts_own_aliases
  constructor
  · have hboth := (h.1 ["a"] ["c", "x"] ["x", "c", "a"] hnames).1
    omega
  · refine (h.2.2 { unlimited with n := some 4, allowed := ["a"] } (some 5) ["a", "c"]
      (by simp) (by simp)).2 (.inl rfl) ?_
    rw [AliasLimit.validate_result (k := 4) looped rfl rfl (Limit.quiet_of_no_hooks rfl rfl _),
      dif_neg (by rw [hallowed]; decide)]

end Document
end QueryBounds
