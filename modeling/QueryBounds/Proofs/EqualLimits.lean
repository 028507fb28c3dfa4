import QueryBounds.Proofs.CallOrder
import QueryBounds.Proofs.EquivalentOptions

/-!
# Limits from equivalent options

Equivalent options are accepted alike. The limits that they make have the same bound, hooks and
message and the same set of allowed aliases. Only a switch may be stored as two different values, such
as a truth value and a number; these are equal, hold alike and have one hash. So the limits are equal,
have one hash if they have any, and check every document with the same result.
-/
namespace QueryBounds

/-- Names with the same members are the same set. -/
theorem distinctNames_congr {xs ys : List String} (h : ∀ name, name ∈ xs ↔ name ∈ ys) :
    distinctNames xs = distinctNames ys := by
  have hperm : (distinctNames xs).Perm (distinctNames ys) := by
    rw [List.perm_ext_iff_of_nodup (nodup_distinctNames xs) (nodup_distinctNames ys)]
    intro name
    rw [mem_distinctNames, mem_distinctNames, h]
  have hle {a b : String} (h : (!decide (b < a)) = true) : a ≤ b := by
    rwa [Bool.not_eq_true', decide_eq_false_iff_not, String.not_lt] at h
  exact hperm.eq_of_pairwise (fun a b _ _ hab hba => String.le_antisymm (hle hab) (hle hba))
    (sorted_distinctNames xs) (sorted_distinctNames ys)

/-! ## What may differ in two limits -/

/-- Equal values that a limit has no way to tell apart. -/
structure Value.Agrees (v w : Value) : Prop where
  same : v.same w = true
  holds : v.holds = w.holds
  hashable : v.isHashable = w.isHashable

theorem Value.IsProper.agrees {v : Value} (h : v.IsProper) : v.Agrees v := ⟨h.same_self, rfl, rfl⟩

/-- Limits with the same bound, message and hooks, whose switches agree. -/
structure Limit.Agrees (l m : Limit) : Prop where
  n : l.n = m.n
  exposeLimits : l.exposeLimits.Agrees m.exposeLimits
  errorMessage : l.errorMessage = m.errorMessage
  proper : l.errorMessage.IsProper
  propagate : l.propagate.Agrees m.propagate
  onAccept : l.onAccept = m.onAccept
  onReject : l.onReject = m.onReject

namespace Limit.Agrees

variable {l m : Limit}

theorem same (h : l.Agrees m) : l.same m = true := by
  have hmessage : m.errorMessage.same m.errorMessage = true := h.errorMessage ▸ h.proper.same_self
  simp [Limit.same, h.n, h.exposeLimits.same, h.errorMessage, hmessage, h.propagate.same, h.onAccept,
    h.onReject]

theorem isHashable (h : l.Agrees m) : l.isHashable = m.isHashable := by
  rw [Limit.isHashable, Limit.isHashable, h.exposeLimits.hashable, h.errorMessage,
    h.propagate.hashable]

theorem hiddenMessage (h : l.Agrees m) : l.hiddenMessage = m.hiddenMessage := by
  rw [Limit.hiddenMessage, Limit.hiddenMessage, h.exposeLimits.holds, h.errorMessage]

theorem hooksFor (h : l.Agrees m) (exceeded : Bool) : l.hooksFor exceeded = m.hooksFor exceeded := by
  rw [Limit.hooksFor, Limit.hooksFor, h.onAccept, h.onReject]

end Limit.Agrees

namespace EitherLimit

/-- Limits of one kind that agree in all their settings. -/
inductive Agrees : EitherLimit → EitherLimit → Prop
  | aliases {l m : AliasLimit} (hlimit : l.toLimit.Agrees m.toLimit)
    (hallowed : l.allowed = m.allowed) : Agrees (.aliases l) (.aliases m)
  | depth {l m : DepthLimit} (hlimit : l.toLimit.Agrees m.toLimit)
    (hflatten : l.flattenFragments.Agrees m.flattenFragments)
    (hignore : l.ignoreIntrospection.Agrees m.ignoreIntrospection) : Agrees (.depth l) (.depth m)

/-! ## What is seen of a limit -/

/-- Whether two limits are of one kind and agree in all settings. -/
def same : EitherLimit → EitherLimit → Bool
  | aliases l, aliases m => l.same m
  | depth l, depth m => l.same m
  | _, _ => false

/-- Whether a limit can be a member of a set. -/
def isHashable : EitherLimit → Bool
  | aliases l => l.isHashable
  | depth l => l.isHashable

/-- What the hash of a limit is made of, given a hash of values. -/
def hashed {H : Type} (hash : Value → H) :
    EitherLimit → Option Nat × List Hook × List Hook × List String × List H
  | aliases l => (l.n, l.onAccept, l.onReject, l.allowed,
      [hash l.exposeLimits, hash l.errorMessage, hash l.propagate])
  | depth l => (l.n, l.onAccept, l.onReject, [],
      [hash l.exposeLimits, hash l.errorMessage, hash l.propagate, hash l.flattenFragments,
        hash l.ignoreIntrospection])

def validate : EitherLimit → Document → Run (List Violation)
  | aliases l => l.validate
  | depth l => l.validate

/-- The limit of a kind that options make. -/
def ofOptions : LimitKind → Settings → Except Failure EitherLimit
  | .aliases, options => return aliases (← AliasLimit.ofOptions options)
  | .depth, options => return depth (← DepthLimit.ofOptions options)

/-- Limits that are equal and have one hash, if they have any: whatever it is, as long as equal values
have one. Every document is checked against them with the same result. -/
structure Interchangeable (l m : EitherLimit) : Prop where
  same : l.same m = true
  hashable : l.isHashable = m.isHashable
  hashed : ∀ {H : Type} (hash : Value → H),
    (∀ v w : Value, v.isHashable = true → w.isHashable = true → v.same w = true →
      hash v = hash w) →
    l.isHashable = true → l.hashed hash = m.hashed hash
  result : ∀ d, (l.validate d).result = (m.validate d).result

namespace Agrees

variable {l m : EitherLimit}

theorem shared (h : l.Agrees m) : l.shared.Agrees m.shared := by
  cases h with
  | aliases hlimit _ => exact hlimit
  | depth hlimit _ _ => exact hlimit

theorem same (h : l.Agrees m) : l.same m = true := by
  cases h with
  | aliases hlimit hallowed => simp [EitherLimit.same, AliasLimit.same, hlimit.same, hallowed]
  | depth hlimit hflatten hignore =>
    simp [EitherLimit.same, DepthLimit.same, hlimit.same, hflatten.same, hignore.same]

theorem isHashable (h : l.Agrees m) : l.isHashable = m.isHashable := by
  cases h with
  | aliases hlimit hallowed => exact hlimit.isHashable
  | depth hlimit hflatten hignore =>
    change DepthLimit.isHashable _ = DepthLimit.isHashable _
    rw [DepthLimit.isHashable, DepthLimit.isHashable, hlimit.isHashable, hflatten.hashable,
      hignore.hashable]

theorem hashed {H : Type} {hash : Value → H}
    (hhash : ∀ v w : Value, v.isHashable = true → w.isHashable = true → v.same w = true →
      hash v = hash w)
    (h : l.Agrees m) (hl : l.isHashable = true) : l.hashed hash = m.hashed hash := by
  have hagrees {v w : Value} (hv : v.isHashable = true) (h : v.Agrees w) : hash v = hash w :=
    hhash v w hv (h.hashable ▸ hv) h.same
  cases h with
  | @aliases l m hlimit hallowed =>
    change l.toLimit.isHashable = true at hl
    simp only [Limit.isHashable, Bool.and_eq_true] at hl
    obtain ⟨⟨hexpose, -⟩, hpropagate⟩ := hl
    simp only [EitherLimit.hashed, hlimit.n, hlimit.onAccept, hlimit.onReject, hallowed,
      hlimit.errorMessage, hagrees hexpose hlimit.exposeLimits, hagrees hpropagate hlimit.propagate]
  | @depth l m hlimit hflatten hignore =>
    change l.isHashable = true at hl
    simp only [DepthLimit.isHashable, Limit.isHashable, Bool.and_eq_true] at hl
    obtain ⟨⟨⟨⟨hexpose, -⟩, hpropagate⟩, hf⟩, hi⟩ := hl
    simp only [EitherLimit.hashed, hlimit.n, hlimit.onAccept, hlimit.onReject, hlimit.errorMessage,
      hagrees hexpose hlimit.exposeLimits, hagrees hpropagate hlimit.propagate, hagrees hf hflatten,
      hagrees hi hignore]

theorem violation? (h : l.Agrees m) (d : Document) : l.violation? d = m.violation? d := by
  cases h with
  | @aliases l m hlimit hallowed =>
    have hcrossing : l.crossing = m.crossing := by
      funext k f
      rw [AliasLimit.crossing, AliasLimit.crossing, hlimit.hiddenMessage]
    simp only [EitherLimit.violation?, hlimit.n, hallowed, hcrossing]
  | @depth l m hlimit hflatten hignore =>
    have hskips : l.skips = m.skips := by
      funext index o
      rw [DepthLimit.skips, DepthLimit.skips, hignore.holds]
    have htooDeep : l.tooDeep = m.tooDeep := by
      funext index k o
      rw [DepthLimit.tooDeep, DepthLimit.tooDeep, hskips, hflatten.holds]
    have hviolation : l.tooDeepViolation = m.tooDeepViolation := by
      funext index k o
      rw [DepthLimit.tooDeepViolation, DepthLimit.tooDeepViolation, DepthLimit.violation,
        DepthLimit.violation, hlimit.hiddenMessage, hflatten.holds]
    simp only [EitherLimit.violation?, hlimit.n, htooDeep, hviolation]

theorem ending (h : l.Agrees m) (violation : Option Violation) :
    l.ending violation = m.ending violation := by
  rw [EitherLimit.ending, EitherLimit.ending, h.shared.hooksFor, h.shared.propagate.holds]

theorem result (h : l.Agrees m) (d : Document) : (l.validate d).result = (m.validate d).result := by
  have hending : l.ending (l.violation? d) = m.ending (m.violation? d) := by
    rw [h.violation?, h.ending]
  cases h with
  | @aliases l m _ _ =>
    exact (l.result_validate d).trans (hending.trans (m.result_validate d).symm)
  | @depth l m _ _ _ =>
    exact (l.result_validate d).trans (hending.trans (m.result_validate d).symm)

theorem interchangeable (h : l.Agrees m) : l.Interchangeable m where
  same := h.same
  hashable := h.isHashable
  hashed _ hhash := h.hashed hhash
  result := h.result

end Agrees
end EitherLimit

/-! ## Limits from values that are not told apart -/

/-- Proper values that a setting does not tell apart agree, if it stores them as they are. -/
theorem SettingName.Alike.agrees {s : SettingName} {v w : Value} (h : s.Alike v w)
    (hs : s.isStoredAsGiven = true) (hproper : v.IsProper) : v.Agrees w := by
  -- A switch tells values apart unless both come to its default, which makes them equal to each other.
  have hswitch {b : Bool} (h : v = w ∨ v.same (.bool b) = true ∧ w.same (.bool b) = true) :
      v.Agrees w := by
    rcases h with rfl | ⟨hv, hw⟩
    · exact hproper.agrees
    · exact ⟨Value.same_of_same_bool hv hw,
        (Value.holds_of_same_bool hv).trans (Value.holds_of_same_bool hw).symm,
        (Value.isHashable_of_same_bool hv).trans (Value.isHashable_of_same_bool hw).symm⟩
  cases s with
  | exposeLimits => exact hswitch h
  | propagateOnRejection => exact hswitch h
  | flattenFragments => exact hswitch h
  | ignoreIntrospection => exact hswitch h
  | errorMessage =>
    obtain rfl := h.message
    exact hproper.agrees
  | _ => cases hs

section Made

variable {a b : Assignment}

theorem Limit.agrees_of_ofAssignment {l m : Limit}
    (h : ∀ s : SettingName, s.Alike (a.value s) (b.value s)) (hproper : ∀ s, (a.value s).IsProper)
    (hl : Limit.ofAssignment a = .ok l) (hm : Limit.ofAssignment b = .ok m) : l.Agrees m := by
  have hla := Limit.madeFrom_of_ofAssignment hl
  have hmb := Limit.madeFrom_of_ofAssignment hm
  have hmessage : a.value .errorMessage = b.value .errorMessage := (h .errorMessage).message
  have hhooks {xs ys : List Hook} (heq : xs.map Value.hook = ys.map Value.hook) : xs = ys :=
    (List.map_injective_iff.2 fun _ _ => Value.hook.inj) heq
  constructor
  case n =>
    have hbound := congrArg boundOf (hla.n.symm.trans ((h .n).trans hmb.n))
    rw [boundOf_kept, boundOf_kept] at hbound
    exact Except.ok.inj hbound
  case exposeLimits =>
    rw [hla.exposeLimits, hmb.exposeLimits]
    exact (h .exposeLimits).agrees rfl (hproper _)
  case errorMessage => rw [hla.errorMessage, hmb.errorMessage, hmessage]
  case proper => exact hla.errorMessage ▸ hproper _
  case propagate =>
    rw [hla.propagate, hmb.propagate]
    exact (h .propagateOnRejection).agrees rfl (hproper _)
  case onAccept =>
    have hentries : hookEntries (a.value .onAccept) = hookEntries (b.value .onAccept) := h .onAccept
    exact hhooks (hla.onAccept.symm.trans (hentries.trans hmb.onAccept))
  case onReject =>
    have hentries : hookEntries (a.value .onReject) = hookEntries (b.value .onReject) := h .onReject
    exact hhooks (hla.onReject.symm.trans (hentries.trans hmb.onReject))

theorem AliasLimit.agrees_of_ofAssignment {l m : AliasLimit}
    (h : ∀ s : SettingName, s.Alike (a.value s) (b.value s)) (hproper : ∀ s, (a.value s).IsProper)
    (hl : AliasLimit.ofAssignment a = .ok l) (hm : AliasLimit.ofAssignment b = .ok m) :
    (EitherLimit.aliases l).Agrees (.aliases m) := by
  obtain ⟨limit, hlimit, hl⟩ := exists_of_bind_eq_ok hl
  obtain ⟨allowed, hallowed, hl⟩ := exists_of_bind_eq_ok hl
  obtain ⟨limit', hlimit', hm⟩ := exists_of_bind_eq_ok hm
  obtain ⟨allowed', hallowed', hm⟩ := exists_of_bind_eq_ok hm
  cases hl
  cases hm
  refine .aliases (Limit.agrees_of_ofAssignment h hproper hlimit hlimit') ?_
  obtain ⟨texts, hentries, rfl⟩ := texts_of_allowedOf hallowed
  obtain ⟨texts', hentries', rfl⟩ := texts_of_allowedOf hallowed'
  have hset : allowedSet? (a.value .allowList) = allowedSet? (b.value .allowList) := h .allowList
  rw [allowedSet?, allowedSet?, hentries, hentries'] at hset
  refine distinctNames_congr fun name => ?_
  have hmem : Value.text name ∈ texts.map Value.text ↔ Value.text name ∈ texts'.map Value.text :=
    Set.ext_iff.1 (Option.some.inj hset) (.text name)
  simpa using hmem

theorem DepthLimit.agrees_of_ofAssignment {l m : DepthLimit}
    (h : ∀ s : SettingName, s.Alike (a.value s) (b.value s)) (hproper : ∀ s, (a.value s).IsProper)
    (hl : DepthLimit.ofAssignment a = .ok l) (hm : DepthLimit.ofAssignment b = .ok m) :
    (EitherLimit.depth l).Agrees (.depth m) := by
  obtain ⟨limit, hlimit, hl⟩ := exists_of_bind_eq_ok hl
  obtain ⟨limit', hlimit', hm⟩ := exists_of_bind_eq_ok hm
  cases hl
  cases hm
  exact .depth (Limit.agrees_of_ofAssignment h hproper hlimit hlimit')
    ((h .flattenFragments).agrees rfl (hproper _)) ((h .ignoreIntrospection).agrees rfl (hproper _))

end Made

/-! ## Limits from options -/

theorem Assignment.value_of_ofOptions {kind : LimitKind} {options : Settings} {a : Assignment}
    (h : Assignment.ofOptions kind options = .ok a) (s : SettingName) :
    a.value s = options.inForce kind s := by
  rw [Assignment.ofOptions_eq] at h
  split at h
  · cases h
  · cases h
    exact Settings.value_assigned s

theorem Settings.isProper_inForce {kind : LimitKind} {options : Settings}
    (h : ∀ e ∈ options, e.2.IsProper) (s : SettingName) : (options.inForce kind s).IsProper := by
  unfold inForce
  cases hlast : (options.filter fun e => kind.setting? e.1 == some s).getLast? with
  | some e => exact h e (List.mem_filter.1 (List.mem_of_getLast? hlast)).1
  | none =>
    have hlist : (Value.list []).IsProper := .list (by simp)
    cases s with
    | n => exact .null
    | errorMessage => exact .text _
    | onAccept => exact hlist
    | onReject => exact hlist
    | allowList => exact hlist
    | _ => exact .bool _

namespace EitherLimit

variable {kind : LimitKind} {xs ys : Settings} {l m : EitherLimit}

/-- Options make a limit just if all their names are known and all values in force are accepted. -/
theorem ofOptions_eq_ok_iff : (∃ l, ofOptions kind xs = .ok l) ↔
    (∀ e ∈ xs, kind.Knows e.1) ∧ ∀ s ∈ kind.settings, s.Accepts (xs.inForce kind s) := by
  have hwrapped {α : Type} (r : Except Failure α) (wrap : α → EitherLimit) :
      (∃ l, (r >>= fun a => pure (wrap a)) = .ok l) ↔ ∃ a, r = .ok a := by
    cases r <;> simp [bind, Except.bind, pure, Except.pure]
  cases kind with
  | aliases =>
    exact (hwrapped _ aliases).trans ((LimitKind.validates AliasLimit.ofAssignment_checks).accepts xs)
  | depth =>
    exact (hwrapped _ depth).trans ((LimitKind.validates DepthLimit.ofAssignment_checks).accepts xs)

/-- The limits that options make agree if no setting tells the values in force apart. -/
theorem agrees_of_ofOptions
    (h : ∀ s : SettingName, s.Alike (xs.inForce kind s) (ys.inForce kind s))
    (hproper : ∀ e ∈ xs, e.2.IsProper) (hl : ofOptions kind xs = .ok l)
    (hm : ofOptions kind ys = .ok m) : l.Agrees m := by
  have hvalues {a b : Assignment} (ha : Assignment.ofOptions kind xs = .ok a)
      (hb : Assignment.ofOptions kind ys = .ok b) :
      (∀ s : SettingName, s.Alike (a.value s) (b.value s)) ∧ ∀ s, (a.value s).IsProper := by
    constructor
    · intro s
      rw [Assignment.value_of_ofOptions ha, Assignment.value_of_ofOptions hb]
      exact h s
    · intro s
      rw [Assignment.value_of_ofOptions ha]
      exact Settings.isProper_inForce hproper s
  cases kind with
  | aliases =>
    obtain ⟨limit, hlimit, hl⟩ := exists_of_bind_eq_ok hl
    obtain ⟨limit', hlimit', hm⟩ := exists_of_bind_eq_ok hm
    cases hl
    cases hm
    obtain ⟨a, ha, hlimit⟩ := exists_of_bind_eq_ok hlimit
    obtain ⟨b, hb, hlimit'⟩ := exists_of_bind_eq_ok hlimit'
    obtain ⟨halike, hvalues⟩ := hvalues ha hb
    exact AliasLimit.agrees_of_ofAssignment halike hvalues hlimit hlimit'
  | depth =>
    obtain ⟨limit, hlimit, hl⟩ := exists_of_bind_eq_ok hl
    obtain ⟨limit', hlimit', hm⟩ := exists_of_bind_eq_ok hm
    cases hl
    cases hm
    obtain ⟨a, ha, hlimit⟩ := exists_of_bind_eq_ok hlimit
    obtain ⟨b, hb, hlimit'⟩ := exists_of_bind_eq_ok hlimit'
    obtain ⟨halike, hvalues⟩ := hvalues ha hb
    exact DepthLimit.agrees_of_ofAssignment halike hvalues hlimit hlimit'

theorem ofOptions_congr (h : xs.ReadAlike kind ys) : ofOptions kind xs = ofOptions kind ys := by
  cases kind with
  | aliases => rw [ofOptions, ofOptions, AliasLimit.ofOptions_congr h]
  | depth => rw [ofOptions, ofOptions, DepthLimit.ofOptions_congr h]

end EitherLimit

namespace Settings

/-- Options are not read for a setting that a later one names. -/
theorem inForce_append {kind : LimitKind} {xs ys : Settings} {s : SettingName}
    (h : ∃ e ∈ ys, kind.Names e.1 s) : inForce kind (xs ++ ys) s = ys.inForce kind s := by
  obtain ⟨e, he, hnamed⟩ := h
  have hmem : e ∈ ys.filter fun e => kind.setting? e.1 == some s :=
    List.mem_filter.2 ⟨he, beq_iff_eq.2 (LimitKind.setting?_eq_some_iff.2 hnamed)⟩
  rw [inForce, inForce, List.filter_append, List.getLast?_append_of_ne_nil _ (List.ne_nil_of_mem hmem)]

/-- Of two options that name one setting the earlier makes no difference. -/
theorem readAlike_overruled {kind : LimitKind} {before between after : Settings}
    {key other : String} {v w : Value} {s : SettingName} (hkey : kind.Names key s)
    (hother : kind.Names other s) :
    ReadAlike kind (before ++ (key, v) :: (between ++ (other, w) :: after))
      (before ++ (between ++ (other, w) :: after)) := by
  constructor
  case unknown =>
    rw [firstUnknown?_append, firstUnknown?_append,
      firstUnknown?_cons_known (LimitKind.setting?_eq_some_iff.2 hkey)]
  case value =>
    intro t
    by_cases ht : t = s
    · subst ht
      have hlater : ∃ e ∈ between ++ (other, w) :: after, kind.Names e.1 t :=
        ⟨(other, w), by simp, hother⟩
      rw [List.append_cons, inForce_append hlater, inForce_append hlater]
    · exact inForce_of_other fun hnamed => ht (hnamed.unique hkey)

end Settings

/-- Equivalent options make interchangeable limits, or neither of them makes one; their values are such
that no mapping among them has a key twice. Of two options that name one setting the earlier makes no
difference. -/
theorem equivalent_options_agree (kind : LimitKind) :
    (∀ xs ys : Settings, xs.NamesOnce kind → (∀ e ∈ xs, e.2.IsProper) →
      Settings.Equivalent kind xs ys →
      (∃ l m, EitherLimit.ofOptions kind xs = .ok l ∧ EitherLimit.ofOptions kind ys = .ok m ∧
        l.Interchangeable m) ∨
      ∃ f g, EitherLimit.ofOptions kind xs = .error f ∧ EitherLimit.ofOptions kind ys = .error g) ∧
    ∀ (s : SettingName) (before : Settings) (key : String) (v : Value) (between : Settings)
      (other : String) (w : Value) (after : Settings), kind.Names key s → kind.Names other s →
        EitherLimit.ofOptions kind (before ++ (key, v) :: (between ++ (other, w) :: after)) =
          EitherLimit.ofOptions kind (before ++ (between ++ (other, w) :: after)) := by
  refine ⟨fun xs ys hx hproper h => ?_, fun s before key v between other w after hkey hother =>
    EitherLimit.ofOptions_congr (Settings.readAlike_overruled hkey hother)⟩
  obtain ⟨honce, halike⟩ := h.keeps
  have hy : ys.NamesOnce kind := honce.1 hx
  have haccepted : (∃ l, EitherLimit.ofOptions kind xs = .ok l) ↔
      ∃ m, EitherLimit.ofOptions kind ys = .ok m := by
    rw [EitherLimit.ofOptions_eq_ok_iff, EitherLimit.ofOptions_eq_ok_iff]
    refine and_congr ⟨fun _ => hy.known, fun _ => hx.known⟩ ?_
    exact forall₂_congr fun s _ => (halike hx s).accepts_iff
  cases hl : EitherLimit.ofOptions kind xs with
  | ok l =>
    obtain ⟨m, hm⟩ := haccepted.1 ⟨l, hl⟩
    exact .inl ⟨l, m, rfl, hm,
      (EitherLimit.agrees_of_ofOptions (halike hx) hproper hl hm).interchangeable⟩
  | error f =>
    cases hm : EitherLimit.ofOptions kind ys with
    | ok m =>
      obtain ⟨l, hl'⟩ := haccepted.2 ⟨m, hm⟩
      cases hl.symm.trans hl'
    | error g => exact .inr ⟨f, g, rfl, rfl⟩

/-- The loose options in another order, with the hook in a list, an alias twice and a default spelled
out. -/
def longOptions : Settings := [
  ("on_accept", .list [.hook ⟨"log", none, 0⟩]), ("exposeLimits", .int 0),
  ("allowList", .list [.text "a", .text "b", .text "a"]), ("n", .int 3),
  ("propagate_on_rejection", .int 1)]

theorem longOptions_equivalent : Settings.Equivalent .aliases looseOptions longOptions := by
  let n : String × Value := ("n", .int 3)
  let hooks : String × Value := ("on_accept", .list [.hook ⟨"log", none, 0⟩])
  let expose : String × Value := ("exposeLimits", .int 0)
  let keys : Value := .dict [("b", .null), ("a", .int 1)]
  let names : Value := .list [.text "a", .text "b", .text "a"]
  have hwrapped := @Settings.Rewrites.wrapped .aliases [n] [expose, ("allowList", keys)] "onAccept"
    ⟨"log", none, 0⟩ .onAccept (by decide) (.inl rfl)
  have hrespelled := @Settings.Rewrites.respelled .aliases [n] [expose, ("allowList", keys)]
    "onAccept" "on_accept" hooks.2 .onAccept (by decide) (by decide)
  have hrelisted := @Settings.Rewrites.relisted .aliases [n, hooks, expose] [] "allowList" keys names
    _ _ (by decide) rfl rfl (by simp [or_comm])
  have hreordered : Settings.Rewrites .aliases [n, hooks, expose, ("allowList", names)]
      [hooks, expose, ("allowList", names), n] :=
    .reordered (@List.perm_append_comm _ [n] [hooks, expose, ("allowList", names)])
  have hdropped := @Settings.Rewrites.dropped .aliases [hooks, expose, ("allowList", names), n] []
    "propagate_on_rejection" (.int 1) .propagateOnRejection (by decide) rfl (by decide)
  exact .trans _ _ _ (.rel _ _ hwrapped) <| .trans _ _ _ (.rel _ _ hrespelled) <|
    .trans _ _ _ (.rel _ _ hrelisted) <| .trans _ _ _ (.rel _ _ hreordered) <|
    .symm _ _ (.rel _ _ hdropped)

/-- The loose options and the long ones make interchangeable limits, and a text for the allowed aliases
that comes before those of the loose options is not even looked at. -/
theorem longOptions_interchangeable :
    (∃ l m, EitherLimit.ofOptions .aliases looseOptions = .ok l ∧
      EitherLimit.ofOptions .aliases longOptions = .ok m ∧ l.Interchangeable m) ∧
    EitherLimit.ofOptions .aliases (("allow_list", .text "ab") :: looseOptions) =
      EitherLimit.ofOptions .aliases looseOptions := by
  obtain ⟨hequivalent, hoverruled⟩ := equivalent_options_agree .aliases
  have honce : looseOptions.NamesOnce .aliases :=
    ⟨fun e he => LimitKind.setting?_ne_none_iff.1
      ((by decide : ∀ e ∈ looseOptions, LimitKind.aliases.setting? e.1 ≠ none) e he), by decide⟩
  have hproper : ∀ e ∈ looseOptions, e.2.IsProper := by
    have hkeys : (Value.dict [("b", .null), ("a", .int 1)]).IsProper :=
      .dict (by decide) (by simp [Value.IsProper.null, Value.IsProper.int])
    simp [looseOptions, hkeys, Value.IsProper.int, Value.IsProper.hook]
  have hmade : EitherLimit.ofOptions .aliases looseOptions = .ok (.aliases looseLimit) := by cbv
  constructor
  · rcases hequivalent _ _ honce hproper longOptions_equivalent with h | ⟨f, g, hf, -⟩
    · exact h
    · cases hmade.symm.trans hf
  · exact hoverruled .allowList [] "allow_list" _ [_, _, _] "allowList" _ [] (by decide) (by decide)

end QueryBounds
