import QueryBounds.Proofs.NamedParameters
import QueryBounds.Proofs.Rebuilding

/-!
# What a limit stores of its settings

A limit stores of each setting what it was given, brought into one form: hooks as the list of their
entries, allowed aliases as a set, all else as it came. Whatever was given, the stored form is of the
kind that its setting asks for. It is also the form of itself, so that a limit made again of what it
stores is the limit it was, in whichever way either of them is made.
-/
namespace QueryBounds

/-! ## Kinds of stored values -/

namespace Value

/-- Nothing, or a whole number that is not negative. A truth value is neither. -/
def IsBound (v : Value) : Prop := v = .null ∨ ∃ n : Int, v = .int n ∧ 0 ≤ n

/-- A list of hooks and of nothing else. -/
def IsHooks (v : Value) : Prop := ∃ items, v = .list items ∧ ∀ item ∈ items, ∃ h, item = .hook h

/-- A list of texts and of nothing else, none of them twice. -/
def IsNames (v : Value) : Prop :=
  ∃ items, v = .list items ∧ items.Nodup ∧ ∀ item ∈ items, ∃ text, item = .text text

theorem isBound_kept (n : Option Nat) :
    ((n.map fun n : Nat => Value.int n).getD .null).IsBound := by
  cases n with
  | none => exact .inl rfl
  | some n => exact .inr ⟨n, rfl, Int.natCast_nonneg n⟩

theorem isHooks_kept (hooks : List Hook) : (Value.list (hooks.map .hook)).IsHooks := by
  refine ⟨_, rfl, fun item hitem => ?_⟩
  obtain ⟨h, -, rfl⟩ := List.mem_map.1 hitem
  exact ⟨h, rfl⟩

theorem isNames_kept {names : List String} (hd : names.Nodup) :
    (Value.list (names.map .text)).IsNames := by
  refine ⟨_, rfl, hd.map fun s t hst => Value.text.inj hst, fun item hitem => ?_⟩
  obtain ⟨text, -, rfl⟩ := List.mem_map.1 hitem
  exact ⟨text, rfl⟩

end Value

/-! ## What passes the check of its setting -/

/-- The entries of a value for the allowed aliases: none of a value that does not hold. A text has
none to speak of, since it is no collection of names. -/
def allowedEntries? (v : Value) : Option (List Value) :=
  match v with
  | .text _ => none
  | v => if v.holds then v.items? else some []

/-- A value other than a text that holds has its items for entries, any other has none. -/
theorem allowedEntries?_of_ne_text {v : Value} (h : ∀ text, v ≠ .text text) :
    allowedEntries? v = if v.holds then v.items? else some [] := by
  cases v with
  | text s => exact absurd rfl (h s)
  | _ => rfl

theorem eq_of_boundOf {v : Value} {n : Option Nat} (h : boundOf v = .ok n) :
    v = (n.map fun n : Nat => Value.int n).getD .null := by
  unfold boundOf at h
  split at h
  · cases h
    rfl
  · next k =>
    split at h
    · cases h
    · next hneg =>
      cases h
      have hk : (k.toNat : Int) = k := Int.toNat_of_nonneg (Int.not_lt.1 hneg)
      exact congrArg Value.int hk.symm
  · cases h

/-- Hooks are taken as they come; an entry that is none does not pass. -/
theorem entries_of_hooksOf {setting : SettingName} {v : Value} {hooks : List Hook}
    (h : hooksOf setting v = .ok hooks) : hookEntries v = hooks.map .hook := by
  unfold hooksOf at h
  generalize hookEntries v = entries at h
  induction entries generalizing hooks with
  | nil =>
    cases h
    rfl
  | cons entry entries ih =>
    rw [List.mapM_cons] at h
    obtain ⟨first, hfirst, h⟩ := exists_of_bind_eq_ok h
    obtain ⟨rest, hrest, h⟩ := exists_of_bind_eq_ok h
    cases h
    cases entry with
    | hook g =>
      cases hfirst
      rw [List.map_cons, ih hrest]
    | _ => cases hfirst

/-- When no member is to blame they are all texts. -/
theorem text_of_blamed?_eq_none {members : List Value} (h : blamed? members = none) :
    ∀ v ∈ members, ∃ text, Value.text text = v := by
  have hnone : members.filter (fun v => v.text?.isNone) = [] := by
    by_contra hne
    have hsome := List.isSome_minOn?_iff (f := standing members.length).2 hne
    rw [← blamed?, h] at hsome
    cases hsome
  intro v hv
  have htext := List.filter_eq_nil_iff.1 hnone v hv
  cases v with
  | text s => exact ⟨s, rfl⟩
  | _ => exact absurd rfl htext

theorem texts_of_namesOf {members : List Value} {names : List String}
    (h : namesOf members = .ok names) :
    ∃ texts : List String, members = texts.map .text ∧ names = distinctNames texts := by
  have hall : ∀ v ∈ members, ∃ text, Value.text text = v := by
    unfold namesOf at h
    split at h
    · cases h
    · next hblamed => exact text_of_blamed?_eq_none hblamed
  obtain ⟨texts, rfl⟩ : members ∈ Set.range (List.map Value.text) := by
    rw [Set.range_list_map]
    exact hall
  rw [namesOf_texts] at h
  cases h
  exact ⟨texts, rfl, rfl⟩

/-- Of a collection of texts the set of them is stored; no other value passes but one that does not
hold. -/
theorem texts_of_allowedOf {v : Value} {names : List String} (h : allowedOf v = .ok names) :
    ∃ texts : List String, allowedEntries? v = some (texts.map .text) ∧
      names = distinctNames texts := by
  unfold allowedOf at h
  split at h
  · cases h
  · next hnot =>
    obtain ⟨members, hmembers, hnames⟩ := exists_of_bind_eq_ok h
    obtain ⟨texts, rfl, hset⟩ := texts_of_namesOf hnames
    refine ⟨texts, ?_, hset⟩
    rw [allowedEntries?_of_ne_text hnot]
    split at hmembers
    · next hholds =>
      rw [if_pos hholds]
      unfold membersOf at hmembers
      split at hmembers
      · cases hmembers
      · next items hitems =>
        split at hmembers
        · cases hmembers
        · cases hmembers
          exact hitems
    · next hholds =>
      rw [if_neg hholds]
      exact congrArg some (Except.ok.inj hmembers)

/-- What a limit takes in of an assignment that makes it. -/
structure Limit.MadeFrom (l : Limit) (a : Assignment) : Prop where
  n : a.value .n = (l.n.map fun n : Nat => Value.int n).getD .null
  exposeLimits : l.exposeLimits = a.value .exposeLimits
  errorMessage : l.errorMessage = a.value .errorMessage
  propagate : l.propagate = a.value .propagateOnRejection
  onAccept : hookEntries (a.value .onAccept) = l.onAccept.map .hook
  onReject : hookEntries (a.value .onReject) = l.onReject.map .hook

theorem Limit.madeFrom_of_ofAssignment {l : Limit} {a : Assignment}
    (h : Limit.ofAssignment a = .ok l) : l.MadeFrom a := by
  obtain ⟨n, hn, h⟩ := exists_of_bind_eq_ok h
  obtain ⟨onAccept, haccept, h⟩ := exists_of_bind_eq_ok h
  obtain ⟨onReject, hreject, h⟩ := exists_of_bind_eq_ok h
  cases h
  exact ⟨eq_of_boundOf hn, rfl, rfl, rfl, entries_of_hooksOf haccept, entries_of_hooksOf hreject⟩

/-! ## Stored settings -/

/-- Whether a limit stores a setting as it is given, whatever that is. -/
def SettingName.isStoredAsGiven : SettingName → Bool
  | exposeLimits => true
  | errorMessage => true
  | propagateOnRejection => true
  | flattenFragments => true
  | ignoreIntrospection => true
  | _ => false

namespace Settings

/-- What settings hold under the key of a setting. -/
def stored (settings : Settings) (s : SettingName) : Value := settings.value s.key s.default

/-- Settings that store an assignment: the bound as it was given, hooks as the list of their entries,
the allowed aliases as the set of their entries, each of its kind, and all else as it was given. -/
structure Stores (kind : LimitKind) (settings : Settings) (a : Assignment) : Prop where
  bound : settings.stored .n = a.value .n ∧ (settings.stored .n).IsBound
  hooks : ∀ s, s = .onAccept ∨ s = .onReject →
    settings.stored s = .list (hookEntries (a.value s)) ∧ (settings.stored s).IsHooks
  names : kind = .aliases → ∃ texts : List String,
    allowedEntries? (a.value .allowList) = some (texts.map .text) ∧
      settings.stored .allowList = .list ((distinctNames texts).map .text) ∧
      (settings.stored .allowList).IsNames
  asGiven : ∀ s ∈ kind.settings, s.isStoredAsGiven = true → settings.stored s = a.value s

end Settings

/-- Where a limit's own settings agree with what it took in, they store the assignment. -/
theorem Limit.MadeFrom.stores {l : Limit} {a : Assignment} {kind : LimitKind} {settings : Settings}
    (h : l.MadeFrom a) (hshared : ∀ s ∈ SettingName.shared, settings.stored s = l.settings.stored s)
    (hnames : kind = .aliases → ∃ texts : List String,
      allowedEntries? (a.value .allowList) = some (texts.map .text) ∧
        settings.stored .allowList = .list ((distinctNames texts).map .text))
    (hown : ∀ s ∈ kind.settings, s ∉ SettingName.shared → s.isStoredAsGiven = true →
      settings.stored s = a.value s) : settings.Stores kind a := by
  have hn : settings.stored .n = (l.n.map fun n : Nat => Value.int n).getD .null :=
    hshared .n (by decide)
  constructor
  case bound => rw [hn, h.n]; exact ⟨rfl, Value.isBound_kept l.n⟩
  case hooks =>
    rintro s (rfl | rfl)
    · rw [hshared _ (by decide), h.onAccept]
      exact ⟨rfl, Value.isHooks_kept l.onAccept⟩
    · rw [hshared _ (by decide), h.onReject]
      exact ⟨rfl, Value.isHooks_kept l.onReject⟩
  case names =>
    intro hkind
    obtain ⟨texts, hentries, hset⟩ := hnames hkind
    exact ⟨texts, hentries, hset, hset ▸ Value.isNames_kept (nodup_distinctNames texts)⟩
  case asGiven =>
    intro s hs hgiven
    by_cases hin : s ∈ SettingName.shared
    · rw [hshared s hin]
      cases s with
      | exposeLimits => exact h.exposeLimits
      | errorMessage => exact h.errorMessage
      | propagateOnRejection => exact h.propagate
      | flattenFragments => exact absurd hin (by decide)
      | ignoreIntrospection => exact absurd hin (by decide)
      | _ => cases hgiven
    · exact hown s hs hin hgiven

/-! ## Ways to a limit, and back to it -/

theorem LimitKind.nodup_keys (kind : LimitKind) : (kind.settings.map (·.key)).Nodup := by
  cases kind <;> decide

/-- What a rule makes of settings under the keys of a limit, every other way makes of them as well. -/
theorem LimitKind.remade_of_rule {kind : LimitKind} {α : Type} {make : Settings → Except Failure α}
    {settings : Settings} {l : α}
    (hmake : ∀ xs ys : Settings, xs.ReadAlike kind ys → make xs = make ys)
    (hkeys : settings.map (·.1) = kind.settings.map (·.key))
    (hrule : make (settings.withParameters kind.parameters) = .ok l) :
    make settings = .ok l ∧
      make ((settings.withParameters kind.parameters).withParameters kind.parameters) = .ok l ∧
      make (((settings.withParameters factoryParameters).withParameters kind.parameters).withParameters
        kind.parameters) = .ok l := by
  have hd : (settings.map (·.1)).Nodup := by
    rw [hkeys]
    exact kind.nodup_keys
  have hheeded : ∀ e ∈ settings, e.1 ∉ kind.overruled := by
    intro e he
    have hkey : e.1 ∈ kind.settings.map (·.key) := hkeys ▸ List.mem_map_of_mem he
    obtain ⟨s, -, hs⟩ := List.mem_map.1 hkey
    rw [← hs]
    exact kind.key_not_overruled s
  obtain ⟨-, hextension, hfactory, hoptions⟩ := layers_agree hmake hd
  exact ⟨(hoptions hheeded).symm.trans hrule, hextension.trans hrule, hfactory.trans hrule⟩

namespace AliasLimit

/-- The ways in which a limit comes about: from arguments, from options, or as one of a guard. -/
inductive Built : AliasLimit → Prop
  | arguments {args : Settings} {l : AliasLimit} (h : ofArguments args = .ok l) : Built l
  | options {options : Settings} {l : AliasLimit} (h : ofOptions options = .ok l) : Built l
  | guard {args : Settings} {g : Guard} (h : Guard.ofArguments args = .ok g) : Built g.aliases

theorem Built.isMade {l : AliasLimit} (h : l.Built) : l.IsMade := by
  cases h with
  | arguments h =>
    obtain ⟨a, -, ha⟩ := exists_of_bind_eq_ok h
    exact ⟨a, ha⟩
  | options h =>
    obtain ⟨a, -, ha⟩ := exists_of_bind_eq_ok h
    exact ⟨a, ha⟩
  | guard h => exact (Guard.isMade_of_ofArguments h).1.1

theorem stores_of_ofAssignment {l : AliasLimit} {a : Assignment} (h : ofAssignment a = .ok l) :
    l.settings.Stores .aliases a := by
  obtain ⟨limit, hlimit, h⟩ := exists_of_bind_eq_ok h
  obtain ⟨allowed, hallowed, h⟩ := exists_of_bind_eq_ok h
  cases h
  obtain ⟨texts, hentries, rfl⟩ := texts_of_allowedOf hallowed
  refine (Limit.madeFrom_of_ofAssignment hlimit).stores ?_ (fun _ => ⟨texts, hentries, rfl⟩) ?_
  · intro s hs
    cases s with
    | allowList => exact absurd hs (by decide)
    | flattenFragments => exact absurd hs (by decide)
    | ignoreIntrospection => exact absurd hs (by decide)
    | _ => rfl
  · intro s hs hown hgiven
    obtain rfl : s = .allowList := by
      simpa [LimitKind.settings, hown] using hs
    cases hgiven

/-- Made again of what it stores, in whichever way, a limit is the one it was. -/
theorem IsMade.remade {l : AliasLimit} (h : l.IsMade) (given : Settings) :
    ofArguments l.settings = .ok l ∧ ofOptions l.settings = .ok l ∧ ofRule l.settings = .ok l ∧
      ofExtension l.settings = .ok l ∧ ofFactory l.settings given = .ok l := by
  have hrule : ofRule l.settings = .ok l := by rw [ofRule_settings, h.allowed]
  obtain ⟨hoptions, hextension, hfactory⟩ :=
    LimitKind.remade_of_rule (fun _ _ => ofOptions_congr) rfl hrule
  exact ⟨hoptions, hoptions, hrule, hextension, hfactory⟩

end AliasLimit

namespace DepthLimit

/-- The ways in which a limit comes about: from arguments, from options, or as one of a guard. -/
inductive Built : DepthLimit → Prop
  | arguments {args : Settings} {l : DepthLimit} (h : ofArguments args = .ok l) : Built l
  | options {options : Settings} {l : DepthLimit} (h : ofOptions options = .ok l) : Built l
  | guard {args : Settings} {g : Guard} (h : Guard.ofArguments args = .ok g) : Built g.depth

theorem Built.isMade {l : DepthLimit} (h : l.Built) : l.IsMade := by
  cases h with
  | arguments h =>
    obtain ⟨a, -, ha⟩ := exists_of_bind_eq_ok h
    exact ⟨a, ha⟩
  | options h =>
    obtain ⟨a, -, ha⟩ := exists_of_bind_eq_ok h
    exact ⟨a, ha⟩
  | guard h => exact (Guard.isMade_of_ofArguments h).1.2

theorem stores_of_ofAssignment {l : DepthLimit} {a : Assignment} (h : ofAssignment a = .ok l) :
    l.settings.Stores .depth a := by
  obtain ⟨limit, hlimit, h⟩ := exists_of_bind_eq_ok h
  cases h
  refine (Limit.madeFrom_of_ofAssignment hlimit).stores ?_ (by rintro ⟨⟩) ?_
  · intro s hs
    cases s with
    | allowList => exact absurd hs (by decide)
    | flattenFragments => exact absurd hs (by decide)
    | ignoreIntrospection => exact absurd hs (by decide)
    | _ => rfl
  · intro s hs hown _
    have hcases : s = .flattenFragments ∨ s = .ignoreIntrospection := by
      simpa [LimitKind.settings, hown] using hs
    rcases hcases with rfl | rfl <;> rfl

/-- Made again of what it stores, in whichever way, a limit is the one it was. -/
theorem remade (l : DepthLimit) (given : Settings) :
    ofArguments l.settings = .ok l ∧ ofOptions l.settings = .ok l ∧ ofRule l.settings = .ok l ∧
      ofExtension l.settings = .ok l ∧ ofFactory l.settings given = .ok l := by
  have hrule : ofRule l.settings = .ok l := l.ofRule_settings
  obtain ⟨hoptions, hextension, hfactory⟩ :=
    LimitKind.remade_of_rule (fun _ _ => ofOptions_congr) rfl hrule
  exact ⟨hoptions, hoptions, hrule, hextension, hfactory⟩

end DepthLimit

theorem Guard.extensions_eq_limits {g : Guard} (h : g.IsMade) :
    g.extensions = .ok (g.aliases, g.depth) := by
  obtain ⟨-, -, -, haliases, -⟩ := h.1.remade []
  obtain ⟨-, -, -, hdepth, -⟩ := g.depth.remade []
  unfold extensions
  rw [haliases, hdepth]
  rfl

/-- However a limit was built, its settings store the assignment that made it, each in its kind, and
building it again from them, in whichever way, gives the limit itself. So the rules and the
extensions of a guard have its limits. -/
theorem stored_settings_rebuild :
    (∀ l : AliasLimit, l.Built →
      l.IsMade ∧ (∀ a, AliasLimit.ofAssignment a = .ok l → l.settings.Stores .aliases a) ∧
      ∀ given, AliasLimit.ofArguments l.settings = .ok l ∧ AliasLimit.ofOptions l.settings = .ok l ∧
        AliasLimit.ofRule l.settings = .ok l ∧ AliasLimit.ofExtension l.settings = .ok l ∧
        AliasLimit.ofFactory l.settings given = .ok l) ∧
    (∀ l : DepthLimit, l.Built →
      l.IsMade ∧ (∀ a, DepthLimit.ofAssignment a = .ok l → l.settings.Stores .depth a) ∧
      ∀ given, DepthLimit.ofArguments l.settings = .ok l ∧ DepthLimit.ofOptions l.settings = .ok l ∧
        DepthLimit.ofRule l.settings = .ok l ∧ DepthLimit.ofExtension l.settings = .ok l ∧
        DepthLimit.ofFactory l.settings given = .ok l) ∧
    ∀ g : Guard, g.aliases.Built → g.depth.Built →
      g.rules = .ok (g.aliases, g.depth) ∧ g.extensions = .ok (g.aliases, g.depth) := by
  refine ⟨fun l h => ?_, fun l h => ?_, fun g ha hd => ?_⟩
  · exact ⟨h.isMade, fun a => AliasLimit.stores_of_ofAssignment, h.isMade.remade⟩
  · exact ⟨h.isMade, fun a => DepthLimit.stores_of_ofAssignment, l.remade⟩
  · have hmade : g.IsMade := ⟨ha.isMade, hd.isMade⟩
    exact ⟨Guard.rules_eq_limits hmade, Guard.extensions_eq_limits hmade⟩

/-- Options in camel case: a single hook, a number for a truth value, and allowed aliases as the keys of
a mapping. -/
def looseOptions : Settings := [
  ("n", .int 3), ("onAccept", .hook ⟨"log", none, 0⟩), ("exposeLimits", .int 0),
  ("allowList", .dict [("b", .null), ("a", .int 1)])]

/-- The limit of the loose options. -/
def looseLimit : AliasLimit := { AliasLimit.unlimited with
  n := some 3, onAccept := [⟨"log", none, 0⟩], exposeLimits := .int 0, allowed := ["a", "b"] }

theorem looseLimit_rebuilt :
    AliasLimit.ofOptions looseOptions = .ok looseLimit ∧
      AliasLimit.ofExtension looseLimit.settings = .ok looseLimit ∧
      (Guard.ofLimits looseLimit .unlimited).rules = .ok (looseLimit, .unlimited) := by
  have hlimit : AliasLimit.ofOptions looseOptions = .ok looseLimit := by cbv
  have haliases : looseLimit.Built := .options hlimit
  have hdepth : DepthLimit.unlimited.Built := @DepthLimit.Built.arguments [] _ (by cbv)
  obtain ⟨hrebuilt, -, hguard⟩ := stored_settings_rebuild
  obtain ⟨-, -, hways⟩ := hrebuilt looseLimit haliases
  exact ⟨hlimit, (hways []).2.2.2.1,
    (hguard (Guard.ofLimits looseLimit .unlimited) haliases hdepth).1⟩

end QueryBounds
