import Mathlib.Data.List.Basic
import QueryBounds.Guard
import QueryBounds.Proofs.Settling

/-!
# Limits from their own settings

What a limit keeps of the settings that made it is enough to make it again: each kept value passes
the check of its setting and comes out as it was. Of the allowed aliases that is so because a limit
keeps them as a set; a list that is none would come out as one.
-/
namespace QueryBounds

/-! ## Names as a set -/

/-- Dropping repetitions leaves none. Each step filters its head out of a list that gets no longer. -/
theorem nodup_eraseDups (names : List String) : names.eraseDups.Nodup := by
  match names with
  | [] => simp
  | name :: rest =>
    rw [List.eraseDups_cons, List.nodup_cons]
    refine ⟨?_, nodup_eraseDups (rest.filter fun other => !other == name)⟩
    rw [List.mem_eraseDups]
    simp
termination_by names.length
decreasing_by exact Nat.lt_succ_of_le (List.length_filter_le _ _)

theorem eraseDups_of_nodup {names : List String} (h : names.Nodup) : names.eraseDups = names := by
  induction names with
  | nil => rfl
  | cons name rest ih =>
    obtain ⟨hnew, hrest⟩ := List.nodup_cons.1 h
    have hkeep : rest.filter (fun other => !other == name) = rest := by
      rw [List.filter_eq_self]
      intro other hother
      have hne : other ≠ name := fun heq => hnew (heq ▸ hother)
      simpa using hne
    rw [List.eraseDups_cons, hkeep, ih hrest]

theorem mem_distinctNames {names : List String} {name : String} :
    name ∈ distinctNames names ↔ name ∈ names := by
  rw [distinctNames, List.mem_mergeSort, List.mem_eraseDups]

theorem nodup_distinctNames (names : List String) : (distinctNames names).Nodup :=
  (List.mergeSort_perm _ _).nodup_iff.2 (nodup_eraseDups names)

theorem sorted_distinctNames (names : List String) :
    (distinctNames names).Pairwise fun a b => (!decide (b < a)) = true := by
  have hle (a b : String) : (!decide (b < a)) = true ↔ a ≤ b := by
    rw [Bool.not_eq_true', decide_eq_false_iff_not, String.not_lt]
  apply List.pairwise_mergeSort
  · intro a b c hab hbc
    rw [hle] at hab hbc ⊢
    exact String.le_trans hab hbc
  · intro a b
    rw [Bool.or_eq_true, hle, hle]
    exact String.le_total a b

/-- A set of names is the set of its members. -/
theorem distinctNames_distinctNames (names : List String) :
    distinctNames (distinctNames names) = distinctNames names := by
  calc distinctNames (distinctNames names)
      = (distinctNames names).mergeSort fun a b => !decide (b < a) :=
        congrArg (List.mergeSort · _) (eraseDups_of_nodup (nodup_distinctNames names))
    _ = distinctNames names := List.mergeSort_of_pairwise (sorted_distinctNames names)

/-! ## Values that a limit keeps -/

theorem boundOf_kept (n : Option Nat) :
    boundOf ((n.map fun n : Nat => Value.int n).getD .null) = .ok n := by
  cases n with
  | none => rfl
  | some n =>
    have hnonneg : ¬ (n : Int) < 0 := Int.not_lt.2 (Int.natCast_nonneg n)
    simp [boundOf, hnonneg]

theorem hooksOf_kept (setting : SettingName) (hooks : List Hook) :
    hooksOf setting (.list (hooks.map .hook)) = .ok hooks := by
  change (hooks.map Value.hook).mapM _ = Except.ok hooks
  induction hooks with
  | nil => rfl
  | cons h hs ih =>
    rw [List.map_cons, List.mapM_cons, ih]
    rfl

/-- A list has its items for members, provided that a set can hold them. -/
theorem membersOf_list {items : List Value} (h : ∀ item ∈ items, item.isHashable = true) :
    membersOf (.list items) = .ok items := by
  have hfind : items.find? (!·.isHashable) = none := by
    rw [List.find?_eq_none]
    intro item hitem
    simp [h item hitem]
  simp only [membersOf, Value.items?, hfind]

theorem membersOf_texts (names : List String) :
    membersOf (.list (names.map .text)) = .ok (names.map .text) := by
  apply membersOf_list
  intro item hitem
  obtain ⟨text, -, rfl⟩ := List.mem_map.1 hitem
  rfl

theorem blamed?_texts (names : List String) : blamed? (names.map .text) = none := by
  have hfilter : (names.map Value.text).filter (fun v => v.text?.isNone) = [] := by
    rw [List.filter_eq_nil_iff]
    intro v hv
    obtain ⟨text, -, rfl⟩ := List.mem_map.1 hv
    simp [Value.text?]
  rw [blamed?, hfilter]
  rfl

theorem namesOf_texts (names : List String) :
    namesOf (names.map .text) = .ok (distinctNames names) := by
  have hnames : (names.map Value.text).filterMap Value.text? = names := by
    simp [List.filterMap_map, Function.comp_def, Value.text?]
  simp only [namesOf, blamed?_texts, hnames]

/-- Texts pass as allowed aliases, and stand for the set of them. -/
theorem allowedOf_texts (names : List String) :
    allowedOf (.list (names.map .text)) = .ok (distinctNames names) := by
  cases names with
  | nil => rfl
  | cons name rest =>
    change (membersOf (.list ((name :: rest).map .text)) >>= namesOf) = _
    rw [membersOf_texts]
    exact namesOf_texts (name :: rest)

theorem distinct_of_namesOf {members : List Value} {names : List String}
    (h : namesOf members = .ok names) : distinctNames names = names := by
  unfold namesOf at h
  split at h
  · cases h
  · cases h
    exact distinctNames_distinctNames _

/-- Whatever passes as allowed aliases stands for a set of names. -/
theorem distinct_of_allowedOf {v : Value} {allowed : List String} (h : allowedOf v = .ok allowed) :
    distinctNames allowed = allowed := by
  unfold allowedOf at h
  split at h
  · cases h
  · obtain ⟨members, -, hnames⟩ := exists_of_bind_eq_ok h
    exact distinct_of_namesOf hnames

/-! ## Whole limits -/

/-- An assignment with the values that a limit keeps. -/
structure Limit.KeptIn (l : Limit) (a : Assignment) : Prop where
  n : a.value .n = (l.n.map fun n : Nat => Value.int n).getD .null
  exposeLimits : a.value .exposeLimits = l.exposeLimits
  errorMessage : a.value .errorMessage = l.errorMessage
  propagate : a.value .propagateOnRejection = l.propagate
  onAccept : a.value .onAccept = .list (l.onAccept.map .hook)
  onReject : a.value .onReject = .list (l.onReject.map .hook)

theorem Limit.KeptIn.ofAssignment {l : Limit} {a : Assignment} (h : l.KeptIn a) :
    Limit.ofAssignment a = .ok l := by
  unfold Limit.ofAssignment
  rw [h.n, h.onAccept, h.onReject, boundOf_kept, hooksOf_kept, hooksOf_kept, h.exposeLimits,
    h.errorMessage, h.propagate]
  rfl

namespace AliasLimit

/-- Whether some settings make the limit. -/
def IsMade (l : AliasLimit) : Prop := ∃ a, ofAssignment a = .ok l

theorem ofAssignment_kept {l : AliasLimit} {a : Assignment} (h : l.toLimit.KeptIn a)
    (hallowed : a.value .allowList = .list (l.allowed.map .text)) :
    ofAssignment a = .ok { l with allowed := distinctNames l.allowed } := by
  unfold ofAssignment
  rw [h.ofAssignment, hallowed, allowedOf_texts]
  rfl

/-- The rule of a limit's own settings has the limit, its allowed aliases as a set. -/
theorem ofRule_settings (l : AliasLimit) :
    ofRule l.settings = .ok { l with allowed := distinctNames l.allowed } := by
  have hrule : ofRule l.settings = ofAssignment [
      (.exposeLimits, l.exposeLimits), (.errorMessage, l.errorMessage),
      (.propagateOnRejection, l.propagate), (.onAccept, .list (l.onAccept.map .hook)),
      (.onReject, .list (l.onReject.map .hook)),
      (.n, (l.n.map fun n : Nat => Value.int n).getD .null),
      (.allowList, .list (l.allowed.map .text))] := rfl
  rw [hrule]
  exact ofAssignment_kept ⟨rfl, rfl, rfl, rfl, rfl, rfl⟩ rfl

/-- A limit that settings make has a set of allowed aliases. -/
theorem IsMade.allowed {l : AliasLimit} (h : l.IsMade) : distinctNames l.allowed = l.allowed := by
  obtain ⟨a, ha⟩ := h
  obtain ⟨limit, -, hlimit⟩ := exists_of_bind_eq_ok ha
  obtain ⟨allowed, hallowed, hl⟩ := exists_of_bind_eq_ok hlimit
  cases hl
  exact distinct_of_allowedOf hallowed

end AliasLimit

namespace DepthLimit

/-- Whether some settings make the limit. -/
def IsMade (l : DepthLimit) : Prop := ∃ a, ofAssignment a = .ok l

/-- The rule of a limit's own settings has the limit. -/
theorem ofRule_settings (l : DepthLimit) : ofRule l.settings = .ok l := by
  have hrule : ofRule l.settings = ofAssignment [
      (.exposeLimits, l.exposeLimits), (.errorMessage, l.errorMessage),
      (.propagateOnRejection, l.propagate), (.onAccept, .list (l.onAccept.map .hook)),
      (.onReject, .list (l.onReject.map .hook)),
      (.n, (l.n.map fun n : Nat => Value.int n).getD .null),
      (.flattenFragments, l.flattenFragments), (.ignoreIntrospection, l.ignoreIntrospection)] := rfl
  have hkept : l.toLimit.KeptIn [
      (.exposeLimits, l.exposeLimits), (.errorMessage, l.errorMessage),
      (.propagateOnRejection, l.propagate), (.onAccept, .list (l.onAccept.map .hook)),
      (.onReject, .list (l.onReject.map .hook)),
      (.n, (l.n.map fun n : Nat => Value.int n).getD .null),
      (.flattenFragments, l.flattenFragments), (.ignoreIntrospection, l.ignoreIntrospection)] :=
    ⟨rfl, rfl, rfl, rfl, rfl, rfl⟩
  rw [hrule, ofAssignment, hkept.ofAssignment]
  rfl

end DepthLimit

namespace Guard

/-- Whether settings make both limits of the guard. -/
def IsMade (g : Guard) : Prop := g.aliases.IsMade ∧ g.depth.IsMade

/-- A guard from arguments has limits that settings make and has counted nothing. -/
theorem isMade_of_ofArguments {args : Settings} {g : Guard} (h : ofArguments args = .ok g) :
    g.IsMade ∧ g = ofLimits g.aliases g.depth := by
  unfold ofArguments at h
  split at h
  · cases h
  · obtain ⟨onAccept, -, h⟩ := exists_of_bind_eq_ok h
    obtain ⟨onReject, -, h⟩ := exists_of_bind_eq_ok h
    obtain ⟨allowed, -, h⟩ := exists_of_bind_eq_ok h
    obtain ⟨aliases, haliases, h⟩ := exists_of_bind_eq_ok h
    obtain ⟨depth, hdepth, h⟩ := exists_of_bind_eq_ok h
    cases h
    exact ⟨⟨⟨_, haliases⟩, ⟨_, hdepth⟩⟩, rfl⟩

/-- The rules that a guard makes of its settings have its limits. -/
theorem rules_eq_limits {g : Guard} (h : g.IsMade) : g.rules = .ok (g.aliases, g.depth) := by
  unfold rules
  rw [AliasLimit.ofRule_settings, DepthLimit.ofRule_settings, h.1.allowed]
  rfl

end Guard
end QueryBounds
