import QueryBounds.Proofs.NamedParameters
import QueryBounds.Proofs.Rebuilding

/-!
# A guard and the limits of its arguments

A guard hands its arguments on to its two limits, each under the name that the limit has for it. A
list of hooks or of allowed aliases comes out of that as it went in, so the guard is built, or is not,
just as the two limits are from the same arguments. A text for the allowed aliases does not: the guard
takes it apart before the limit on aliases gets to see it, and what the limit would refuse passes as
the list of its characters.
-/
namespace QueryBounds

/-- A limit on aliases reads no settings but its own. -/
theorem AliasLimit.ofAssignment_eq_of_settings {a b : Assignment}
    (h : ∀ s ∈ LimitKind.aliases.settings, a.value s = b.value s) :
    ofAssignment a = ofAssignment b := by
  unfold ofAssignment Limit.ofAssignment
  rw [h .n (by decide), h .onAccept (by decide), h .onReject (by decide),
    h .exposeLimits (by decide), h .errorMessage (by decide), h .propagateOnRejection (by decide),
    h .allowList (by decide)]

/-- A limit on depth reads no settings but its own. -/
theorem DepthLimit.ofAssignment_eq_of_settings {a b : Assignment}
    (h : ∀ s ∈ LimitKind.depth.settings, a.value s = b.value s) :
    ofAssignment a = ofAssignment b := by
  unfold ofAssignment Limit.ofAssignment
  rw [h .n (by decide), h .onAccept (by decide), h .onReject (by decide),
    h .exposeLimits (by decide), h .errorMessage (by decide), h .propagateOnRejection (by decide),
    h .flattenFragments (by decide), h .ignoreIntrospection (by decide)]

namespace Guard

/-! ## Arguments of a guard for its limits -/

/-- The name under which a guard takes a setting of a limit. -/
def parameterOf : LimitKind → SettingName → String
  | .aliases, .n => "max_aliases"
  | .depth, .n => "max_depth"
  | _, .allowList => "allow_aliases"
  | _, s => s.key

/-- The setting of a limit that a guard takes under a name. -/
def settingOf? (kind : LimitKind) (name : String) : Option SettingName :=
  kind.settings.find? fun s => parameterOf kind s == name

/-- The arguments of a guard that are for a limit, under the names that the limit has for them. -/
def argumentsFor (kind : LimitKind) (args : Settings) : Settings :=
  args.filterMap fun e => (settingOf? kind e.1).map fun s => (s.key, e.2)

/-- The value of an argument, given or by default. -/
def given (args : Settings) (name : String) : Value :=
  args.value name (parameters.value name .null)

/-- The guard of the two limits that its arguments make, each on its own. -/
def ofEachLimit (args : Settings) : Except Failure Guard := do
  let aliases ← AliasLimit.ofArguments (argumentsFor .aliases args)
  let depth ← DepthLimit.ofArguments (argumentsFor .depth args)
  return ofLimits aliases depth

/-- Arguments that a guard has parameters for, each given once, with lists where hooks are asked for. -/
structure Takes (args : Settings) : Prop where
  known : ∀ e ∈ args, e.1 ∈ parameters.map (·.1)
  once : (args.map (·.1)).Nodup
  onAccept : ∃ items, given args "on_accept" = .list items
  onReject : ∃ items, given args "on_reject" = .list items

variable {args : Settings} {kind : LimitKind} {s : SettingName}

theorem settingOf?_parameterOf (hs : s ∈ kind.settings) :
    settingOf? kind (parameterOf kind s) = some s := by
  revert hs
  cases kind <;> cases s <;> decide

theorem settingOf?_eq_some_iff (hs : s ∈ kind.settings) {name : String} :
    settingOf? kind name = some s ↔ name = parameterOf kind s := by
  constructor
  · intro h
    have hfound := List.find?_some (p := fun s => parameterOf kind s == name) h
    exact (beq_iff_eq.1 hfound).symm
  · rintro rfl
    exact settingOf?_parameterOf hs

theorem settingOfKey?_key (hs : s ∈ kind.settings) : kind.settingOfKey? s.key = some s := by
  revert hs
  cases kind <;> cases s <;> decide

/-- Guards and limits have the same defaults. -/
theorem default_parameterOf (kind : LimitKind) (s : SettingName) :
    parameters.value (parameterOf kind s) .null = s.default := by
  cases kind <;> cases s <;> rfl

/-- What the arguments for a limit assign. -/
def assignedFor (kind : LimitKind) (args : Settings) : Assignment :=
  args.filterMap fun e => (settingOf? kind e.1).map fun s => (s, e.2)

/-- The limit knows all the names of the arguments that are handed on to it. -/
theorem ofArguments_argumentsFor :
    Assignment.ofArguments kind (argumentsFor kind args) = .ok (assignedFor kind args) := by
  induction args with
  | nil => rfl
  | cons e args ih =>
    unfold argumentsFor assignedFor Assignment.ofArguments at ih ⊢
    cases hs : settingOf? kind e.1 with
    | none => simpa [List.filterMap_cons, hs] using ih
    | some s =>
      have hkey := settingOfKey?_key (List.mem_of_find?_eq_some hs)
      simp only [List.filterMap_cons, hs, Option.map_some, List.mapM_cons, hkey, ih]
      rfl

theorem value_assignedFor (hd : (args.map (·.1)).Nodup) (hs : s ∈ kind.settings) :
    (assignedFor kind args).value s = given args (parameterOf kind s) := by
  have hfilter : (assignedFor kind args).filter (·.1 == s) =
      (args.filter (·.1 == parameterOf kind s)).map fun e => (s, e.2) := by
    clear hd
    induction args with
    | nil => rfl
    | cons e args ih =>
      unfold assignedFor at ih ⊢
      by_cases hname : e.1 = parameterOf kind s
      · simp [hname, settingOf?_parameterOf hs, ih]
      · have hother : settingOf? kind e.1 ≠ some s := fun h => hname ((settingOf?_eq_some_iff hs).1 h)
        cases ht : settingOf? kind e.1 with
        | none => simp [ht, hname, ih]
        | some t =>
          have hne : t ≠ s := fun h => hother (h ▸ ht)
          simp [ht, hname, hne, ih]
  rw [Assignment.value, hfilter, List.getLast?_map, Option.map_map, given, Settings.value,
    default_parameterOf, ← Settings.getLast?_filter_name hd]
  rfl

/-! ## Lists are handed on as they are -/

theorem find?_unknown (h : ∀ e ∈ args, e.1 ∈ parameters.map (·.1)) :
    args.find? (fun e => !parameters.any (·.1 == e.1)) = none := by
  rw [List.find?_eq_none]
  intro e he hunknown
  obtain ⟨q, hq, hname⟩ := List.mem_map.1 (h e he)
  have hany : parameters.any (·.1 == e.1) = true := List.any_eq_true.2 ⟨q, hq, beq_iff_eq.2 hname⟩
  rw [hany] at hunknown
  cases hunknown

/-- What a guard hands on to both of its limits. -/
def sharedAssignment (args : Settings) : Assignment := [
  (.exposeLimits, given args "expose_limits"), (.errorMessage, given args "error_message"),
  (.propagateOnRejection, given args "propagate_on_rejection"),
  (.onAccept, given args "on_accept"), (.onReject, given args "on_reject")]

/-- With lists of hooks, all that a guard does not hand on as it is are the allowed aliases. -/
theorem ofArguments_eq_of_members (h : Takes args) {items : List Value}
    (hmembers : membersOf (given args "allow_aliases") = .ok items) :
    ofArguments args = do
      let aliases ← AliasLimit.ofAssignment <|
        (.n, given args "max_aliases") :: (.allowList, .list items) :: sharedAssignment args
      let depth ← DepthLimit.ofAssignment <|
        (.n, given args "max_depth") :: (.flattenFragments, given args "flatten_fragments")
          :: (.ignoreIntrospection, given args "ignore_introspection") :: sharedAssignment args
      return ofLimits aliases depth := by
  obtain ⟨onAccept, haccept⟩ := h.onAccept
  obtain ⟨onReject, hreject⟩ := h.onReject
  -- The collections are taken apart one after the other before a limit looks at anything.
  rw [sharedAssignment, haccept, hreject, ofArguments, find?_unknown h.known]
  change (itemsOf (given args "on_accept") >>= fun _ => _) = _
  rw [haccept]
  change (itemsOf (given args "on_reject") >>= fun _ => _) = _
  rw [hreject]
  change (membersOf (given args "allow_aliases") >>= fun _ => _) = _
  rw [hmembers]
  rfl

theorem ofArguments_aliases (h : Takes args) : AliasLimit.ofArguments (argumentsFor .aliases args) =
    AliasLimit.ofAssignment ((.n, given args "max_aliases")
      :: (.allowList, given args "allow_aliases") :: sharedAssignment args) := by
  rw [AliasLimit.ofArguments, ofArguments_argumentsFor]
  refine AliasLimit.ofAssignment_eq_of_settings fun s hs => ?_
  rw [value_assignedFor h.once hs]
  cases s with
  | flattenFragments => exact absurd hs (by decide)
  | ignoreIntrospection => exact absurd hs (by decide)
  | _ => rfl

theorem ofArguments_depth (h : Takes args) : DepthLimit.ofArguments (argumentsFor .depth args) =
    DepthLimit.ofAssignment ((.n, given args "max_depth")
      :: (.flattenFragments, given args "flatten_fragments")
      :: (.ignoreIntrospection, given args "ignore_introspection") :: sharedAssignment args) := by
  rw [DepthLimit.ofArguments, ofArguments_argumentsFor]
  refine DepthLimit.ofAssignment_eq_of_settings fun s hs => ?_
  rw [value_assignedFor h.once hs]
  cases s with
  | allowList => exact absurd hs (by decide)
  | _ => rfl

/-- With lists throughout, a guard is what its limits are. -/
theorem ofArguments_of_list (h : Takes args) {items : List Value}
    (hallowed : given args "allow_aliases" = .list items)
    (hhashable : ∀ item ∈ items, item.isHashable = true) :
    ofArguments args = ofEachLimit args := by
  rw [ofEachLimit, ofArguments_aliases h, ofArguments_depth h, hallowed]
  exact ofArguments_eq_of_members h (hallowed ▸ membersOf_list hhashable)

theorem ofEachLimit_eq_ok_iff {g : Guard} : ofEachLimit args = .ok g ↔
    AliasLimit.ofArguments (argumentsFor .aliases args) = .ok g.aliases ∧
      DepthLimit.ofArguments (argumentsFor .depth args) = .ok g.depth ∧ g.stats = .zero := by
  constructor
  · intro h
    obtain ⟨aliases, haliases, h⟩ := exists_of_bind_eq_ok h
    obtain ⟨depth, hdepth, h⟩ := exists_of_bind_eq_ok h
    cases h
    exact ⟨haliases, hdepth, rfl⟩
  · obtain ⟨aliases, depth, stats⟩ := g
    rintro ⟨haliases, hdepth, hstats⟩
    rw [ofEachLimit, haliases, hdepth, show stats = .zero from hstats]
    rfl

/-! ## A text is taken apart -/

section Text

variable {before after : Settings} {name : String} {v w : Value}

theorem given_this (hd : ((before ++ (name, v) :: after).map (·.1)).Nodup) :
    given (before ++ (name, v) :: after) name = v := by
  have hbefore : before.lookup name = none := by
    rw [List.lookup_eq_none_iff]
    intro e he
    rw [List.map_append, List.map_cons, List.nodup_middle] at hd
    have hne : e.1 ≠ name := fun heq => (List.nodup_cons.1 hd).1 <|
      List.mem_append_left _ (List.mem_map.2 ⟨e, he, heq⟩)
    simpa using hne.symm
  rw [given, Settings.value, List.lookup_append, hbefore, Option.none_or, List.lookup_cons,
    beq_self_eq_true]
  rfl

theorem given_other {other : String} (h : other ≠ name) :
    given (before ++ (name, v) :: after) other = given (before ++ (name, w) :: after) other := by
  have hskip : (other == name) = false := beq_false_of_ne h
  simp only [given, Settings.value, List.lookup_append, List.lookup_cons, hskip]

/-- The texts of the single characters of a text. -/
def characters (text : String) : List Value := text.toList.map fun c => .text c.toString

theorem Takes.replace (h : Takes (before ++ ("allow_aliases", v) :: after)) :
    Takes (before ++ ("allow_aliases", w) :: after) := by
  have hnames : (before ++ ("allow_aliases", v) :: after).map (·.1) =
      (before ++ ("allow_aliases", w) :: after).map (·.1) := by simp
  refine ⟨?_, hnames ▸ h.once, ?_, ?_⟩
  · have hknown := h.known
    simpa only [List.forall_mem_append, List.forall_mem_cons] using hknown
  · rw [given_other (by decide)]
    exact h.onAccept
  · rw [given_other (by decide)]
    exact h.onReject

/-- A text for the allowed aliases is as good as the list of its characters. -/
theorem ofArguments_of_text {text : String}
    (h : Takes (before ++ ("allow_aliases", .text text) :: after)) :
    ofArguments (before ++ ("allow_aliases", .text text) :: after) =
      ofEachLimit (before ++ ("allow_aliases", .list (characters text)) :: after) := by
  have hlisted : Takes (before ++ ("allow_aliases", .list (characters text)) :: after) := h.replace
  have hhashable : ∀ item ∈ characters text, item.isHashable = true := by
    intro item hitem
    obtain ⟨c, -, rfl⟩ := List.mem_map.1 hitem
    rfl
  have hmembers : membersOf (.text text) = .ok (characters text) := membersOf_list hhashable
  have hother (name : String) (hname : name ≠ "allow_aliases") :
      given (before ++ ("allow_aliases", .text text) :: after) name =
        given (before ++ ("allow_aliases", .list (characters text)) :: after) name :=
    given_other hname
  have hshared : sharedAssignment (before ++ ("allow_aliases", .text text) :: after) =
      sharedAssignment (before ++ ("allow_aliases", .list (characters text)) :: after) := by
    simp only [sharedAssignment, hother _ (by decide : "expose_limits" ≠ "allow_aliases"),
      hother _ (by decide : "error_message" ≠ "allow_aliases"),
      hother _ (by decide : "propagate_on_rejection" ≠ "allow_aliases"),
      hother _ (by decide : "on_accept" ≠ "allow_aliases"),
      hother _ (by decide : "on_reject" ≠ "allow_aliases")]
  rw [ofEachLimit, ofArguments_aliases hlisted, ofArguments_depth hlisted, given_this hlisted.once,
    ofArguments_eq_of_members h (by rw [given_this h.once, hmembers]), hshared,
    hother "max_aliases" (by decide), hother "max_depth" (by decide),
    hother "flatten_fragments" (by decide), hother "ignore_introspection" (by decide)]

/-- The limit on aliases itself takes no text. -/
theorem ofArguments_ne_ok_of_text {text : String}
    (h : Takes (before ++ ("allow_aliases", .text text) :: after)) (l : AliasLimit) :
    AliasLimit.ofArguments
      (argumentsFor .aliases (before ++ ("allow_aliases", .text text) :: after)) ≠ .ok l := by
  rw [ofArguments_aliases h, given_this h.once]
  intro hl
  obtain ⟨limit, -, hl⟩ := exists_of_bind_eq_ok hl
  obtain ⟨allowed, hallowed, -⟩ := exists_of_bind_eq_ok hl
  cases hallowed

end Text

/-! ## When a guard is built -/

/-- From arguments with lists throughout, a guard is built just if both limits are built from the same
arguments; then it has these limits, and otherwise it fails as the first limit that does. From
arguments with a text for the allowed aliases no limit on aliases is built, but a guard is what it is
with the list of the characters instead. -/
theorem built_as_each_limit (args : Settings) (h : Takes args) :
    (∀ items, given args "allow_aliases" = .list items → (∀ item ∈ items, item.isHashable = true) →
      ofArguments args = ofEachLimit args ∧
      ∀ g, ofArguments args = .ok g ↔
        AliasLimit.ofArguments (argumentsFor .aliases args) = .ok g.aliases ∧
          DepthLimit.ofArguments (argumentsFor .depth args) = .ok g.depth ∧ g.stats = .zero) ∧
    ∀ (before : Settings) (text : String) (after : Settings),
      args = before ++ ("allow_aliases", .text text) :: after →
        (∀ l, AliasLimit.ofArguments (argumentsFor .aliases args) ≠ .ok l) ∧
          ofArguments args =
            ofEachLimit (before ++ ("allow_aliases", .list (characters text)) :: after) := by
  constructor
  · intro items hallowed hhashable
    have heach : ofArguments args = ofEachLimit args := ofArguments_of_list h hallowed hhashable
    exact ⟨heach, fun g => heach ▸ ofEachLimit_eq_ok_iff⟩
  · rintro before text after rfl
    exact ⟨ofArguments_ne_ok_of_text h, ofArguments_of_text h⟩

/-- A guard from a list of allowed aliases has the limit that the list makes; from a text it has that of
the characters. -/
theorem listed_and_spelled_aliases :
    (∃ g, ofArguments [("max_aliases", .int 2), ("allow_aliases", .list [.text "b", .text "a"])] =
        .ok g ∧ AliasLimit.ofArguments [("n", .int 2), ("allow_list", .list [.text "b", .text "a"])] =
          .ok g.aliases) ∧
    ofArguments [("max_aliases", .int 2), ("allow_aliases", .text "ba")] =
      ofEachLimit [("max_aliases", .int 2), ("allow_aliases", .list [.text "b", .text "a"])] := by
  have htakes (v : Value) : Takes [("max_aliases", .int 2), ("allow_aliases", v)] :=
    ⟨by simp [parameters], by simp, ⟨[], rfl⟩, ⟨[], rfl⟩⟩
  constructor
  · obtain ⟨g, hg⟩ : ∃ g, ofArguments
        [("max_aliases", .int 2), ("allow_aliases", .list [.text "b", .text "a"])] = .ok g :=
      ⟨_, by cbv⟩
    obtain ⟨-, hlimits⟩ :=
      (built_as_each_limit _ (htakes (.list [.text "b", .text "a"]))).1 _ rfl (by decide)
    exact ⟨g, hg, ((hlimits g).1 hg).1⟩
  · exact ((built_as_each_limit _ (htakes (.text "ba"))).2 [("max_aliases", .int 2)] "ba" [] rfl).2

/-- A guard takes a text for its allowed aliases that the limit on aliases refuses. -/
theorem text_taken_for_aliases :
    (∃ g, ofArguments [("allow_aliases", .text "ab")] = .ok g ∧ g.aliases.allowed = ["a", "b"]) ∧
      AliasLimit.ofArguments [("allow_list", .text "ab")] =
        .error (.configuration (.allowListIsText "ab")) := by
  refine ⟨⟨ofLimits { AliasLimit.unlimited with allowed := ["a", "b"] } .unlimited, ?_, rfl⟩, by cbv⟩
  cbv

end Guard
end QueryBounds
