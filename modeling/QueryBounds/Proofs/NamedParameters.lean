import Mathlib
import QueryBounds.Limit.Rule
import QueryBounds.Proofs.InForce

/-!
# Limits from named parameters

A rule, an extension and a factory of extensions pass their options on with some of them as named
parameters behind the others. However many of these layers there are, the options read the same in
the end. They also read as they do without any layer, with one exception: a parameter that has a
second spelling overrules it, with its default if the parameter itself is not given.
-/
namespace QueryBounds

namespace Settings

variable {args inner outer : Settings} {key : String}

/-! ## One layer of parameters, and one on another -/

/-- The options that are no parameters, by their names. -/
def others (args parameters : Settings) : Settings :=
  args.filter fun e => !parameters.any (·.1 == e.1)

theorem withParameters_eq (args parameters : Settings) :
    args.withParameters parameters =
      args.others parameters ++ parameters.map fun q => (q.1, args.value q.1 q.2) := rfl

theorem lookup_others (h : ∀ q ∈ inner, q.1 ≠ key) :
    (args.others inner).lookup key = args.lookup key := by
  induction args with
  | nil => rfl
  | cons e args ih =>
    unfold others at ih ⊢
    by_cases hname : key = e.1
    · have hkeep : (!inner.any (·.1 == e.1)) = true := by simpa [← hname] using h
      rw [List.filter_cons, if_pos hkeep, List.lookup_cons, List.lookup_cons, ih]
    · have hskip : (key == e.1) = false := by simpa using hname
      rw [List.lookup_cons, hskip, List.filter_cons]
      split
      · rw [List.lookup_cons, hskip, ih]
      · exact ih

theorem lookup_others_of_mem {q : String × Value} (h : q ∈ inner) :
    (args.others inner).lookup q.1 = none := by
  rw [List.lookup_eq_none_iff]
  intro e he
  have hout := (List.mem_filter.1 he).2
  simp only [Bool.not_eq_true', List.any_eq_false, beq_iff_eq] at hout
  simpa using hout q h

theorem lookup_map_name (g : String × Value → Value) (parameters : Settings) :
    (parameters.map fun q => (q.1, g q)).lookup key = (parameters.find? (·.1 == key)).map g := by
  induction parameters with
  | nil => rfl
  | cons q parameters ih =>
    by_cases hname : q.1 = key
    · simp [hname]
    · have hskip : (key == q.1) = false := by simpa using Ne.symm hname
      simp [List.lookup_cons, hskip, hname, ih]

/-- Behind the other options or not, a name has the same value, provided that a parameter of that
name has the same default. -/
theorem value_withParameters {otherwise : Value} (h : ∀ q ∈ inner, q.1 = key → q.2 = otherwise) :
    (args.withParameters inner).value key otherwise = args.value key otherwise := by
  rw [withParameters_eq, value, List.lookup_append, lookup_map_name]
  cases hfind : inner.find? (·.1 == key) with
  | some q =>
    have hmem := List.mem_of_find?_eq_some hfind
    obtain rfl : q.1 = key := by simpa using List.find?_some hfind
    rw [lookup_others_of_mem hmem, Option.none_or, Option.map_some, h q hmem rfl]
    rfl
  | none =>
    have hout : ∀ q ∈ inner, q.1 ≠ key := by simpa using List.find?_eq_none.1 hfind
    rw [lookup_others hout, Option.map_none, Option.or_none]
    rfl

theorem others_others (h : ∀ q ∈ inner, q ∈ outer) :
    (args.others inner).others outer = args.others outer := by
  unfold others
  rw [List.filter_filter]
  apply List.filter_congr
  intro e _
  cases hout : outer.any (·.1 == e.1) with
  | true => rfl
  | false =>
    have hin : inner.any (·.1 == e.1) = false := by
      rw [List.any_eq_false] at hout ⊢
      exact fun q hq => hout q (h q hq)
    rw [hin]
    rfl

/-- A layer of parameters makes no difference to one behind it that has them all. -/
theorem withParameters_withParameters (hsub : ∀ q ∈ inner, q ∈ outer)
    (hnodup : (outer.map (·.1)).Nodup) :
    (args.withParameters inner).withParameters outer = args.withParameters outer := by
  -- What the inner layer puts in are names of the outer one, so nothing of it is left among the
  -- others, and the outer layer reads from it the values that it would read without it.
  have hothers : (args.withParameters inner).others outer = args.others outer := by
    rw [withParameters_eq, others, List.filter_append, ← others, ← others, others_others hsub]
    rw [List.append_right_eq_self]
    unfold others
    rw [List.filter_eq_nil_iff]
    intro e he
    obtain ⟨q, hq, rfl⟩ := List.mem_map.1 he
    have hany : outer.any (·.1 == q.1) = true :=
      List.any_eq_true.2 ⟨q, hsub q hq, by simp⟩
    simp [hany]
  have hvalue (q : String × Value) (hq : q ∈ outer) :
      (args.withParameters inner).value q.1 q.2 = args.value q.1 q.2 := by
    refine value_withParameters fun r hr hname => ?_
    rw [List.inj_on_of_nodup_map hnodup (hsub r hr) hq hname]
  calc (args.withParameters inner).withParameters outer
      = (args.withParameters inner).others outer ++
          outer.map fun q => (q.1, (args.withParameters inner).value q.1 q.2) :=
        withParameters_eq _ _
    _ = args.others outer ++ outer.map fun q => (q.1, args.value q.1 q.2) := by
        rw [hothers, List.map_congr_left fun q hq => by rw [hvalue q hq]]
    _ = args.withParameters outer := (withParameters_eq _ _).symm

end Settings

/-! ## Parameters against their second spellings -/

namespace LimitKind

/-- The second spellings of the parameters of a limit. An option in such a spelling stands before
the parameter and so is overruled by it. -/
def overruled : LimitKind → List String
  | .aliases => ["allowList"]
  | .depth => ["flattenFragments", "ignoreIntrospection"]

theorem nodup_parameters (kind : LimitKind) : (kind.parameters.map (·.1)).Nodup := by
  cases kind <;> decide

theorem setting?_parameter (kind : LimitKind) :
    ∀ q ∈ kind.parameters, kind.setting? q.1 ≠ none := by
  cases kind <;> decide

theorem setting?_overruled (kind : LimitKind) :
    ∀ text ∈ kind.overruled, kind.setting? text ≠ none := by
  cases kind <;> decide

/-- Whether a setting is a parameter of the rule. -/
def isParameter (kind : LimitKind) (s : SettingName) : Bool :=
  kind.parameters.any (·.1 == s.key)

/-- A parameter stands for one setting, under its key and with its default. -/
theorem parameters_naming (kind : LimitKind) (s : SettingName) :
    kind.parameters.filter (fun q => kind.setting? q.1 == some s) =
      if kind.isParameter s then [(s.key, s.default)] else [] := by
  cases kind <;> cases s <;> rfl

theorem key_not_overruled (kind : LimitKind) (s : SettingName) : s.key ∉ kind.overruled := by
  cases kind <;> cases s <;> decide

theorem setting?_key_of_isParameter {kind : LimitKind} {s : SettingName}
    (h : kind.isParameter s = true) : kind.setting? s.key = some s := by
  revert h
  cases kind <;> cases s <;> decide

/-- The second spelling of a setting is overruled when the setting is a parameter, and is never the
name of a parameter itself. -/
theorem camelKey?_overruled (kind : LimitKind) (s : SettingName) :
    ∀ text, s.camelKey? = some text →
      (text ∈ kind.overruled ↔ kind.isParameter s = true) ∧ ∀ q ∈ kind.parameters, q.1 ≠ text := by
  cases kind <;> cases s <;> decide

variable {kind : LimitKind} {s : SettingName} {text : String}

/-- The overruled spellings apart, a parameter is only named by its key. -/
theorem names_parameter_iff (text : String) (hs : kind.isParameter s = true) :
    kind.setting? text = some s ∧ text ∉ kind.overruled ↔ text = s.key := by
  constructor
  · rintro ⟨hnamed, hheeded⟩
    rcases spelling_of_setting? hnamed with hkey | hcamel
    · exact hkey
    · exact absurd ((camelKey?_overruled kind s text hcamel).1.2 hs) hheeded
  · rintro rfl
    exact ⟨setting?_key_of_isParameter hs, key_not_overruled kind s⟩

/-- A setting that is no parameter is named neither by an overruled spelling nor by a parameter. -/
theorem names_other (hs : kind.isParameter s = false) (hnamed : kind.setting? text = some s) :
    text ∉ kind.overruled ∧ ∀ q ∈ kind.parameters, q.1 ≠ text := by
  rcases spelling_of_setting? hnamed with rfl | hcamel
  · refine ⟨key_not_overruled kind s, ?_⟩
    simpa [isParameter] using hs
  · obtain ⟨hoverruled, hparameters⟩ := camelKey?_overruled kind s text hcamel
    exact ⟨by simp [hoverruled, hs], hparameters⟩

end LimitKind

namespace Settings

variable {kind : LimitKind} {args : Settings} {s : SettingName}

/-- The options whose names are not overruled. -/
def heeded (args : Settings) (kind : LimitKind) : Settings :=
  args.filter fun e => !kind.overruled.contains e.1

theorem heeded_eq_self (h : ∀ e ∈ args, e.1 ∉ kind.overruled) : args.heeded kind = args := by
  unfold heeded
  rw [List.filter_eq_self]
  intro e he
  simpa using h e he

/-- Where names are distinct, the last option of a name is the only one. -/
theorem getLast?_filter_name (hd : (args.map (·.1)).Nodup) (key : String) :
    (args.filter (·.1 == key)).getLast?.map (·.2) = args.lookup key := by
  induction args with
  | nil => rfl
  | cons e args ih =>
    obtain ⟨hnew, hrest⟩ := List.nodup_cons.1 hd
    by_cases hname : e.1 = key
    · have hnone : args.filter (·.1 == key) = [] := by
        rw [List.filter_eq_nil_iff]
        intro f hf hkey
        have hsame : f.1 = e.1 := (beq_iff_eq.1 hkey).trans hname.symm
        exact hnew (List.mem_map.2 ⟨f, hf, hsame⟩)
      have hfound : (key == e.1) = true := by simpa using hname.symm
      rw [List.filter_cons, if_pos (by simpa using hname), hnone, List.lookup_cons, hfound]
      rfl
    · have hskip : (key == e.1) = false := by simpa using Ne.symm hname
      rw [List.filter_cons, if_neg (by simpa using hname), ih hrest, List.lookup_cons, hskip]

theorem inForce_heeded_parameter (hd : (args.map (·.1)).Nodup) (hs : kind.isParameter s = true) :
    (args.heeded kind).inForce kind s = args.value s.key s.default := by
  have hfilter : (args.heeded kind).filter (fun e => kind.setting? e.1 == some s) =
      args.filter (·.1 == s.key) := by
    unfold heeded
    rw [List.filter_filter]
    apply List.filter_congr
    intro e _
    rw [Bool.eq_iff_iff]
    simpa using LimitKind.names_parameter_iff e.1 hs
  rw [inForce, hfilter, getLast?_filter_name hd, value]

theorem inForce_heeded_other (hs : kind.isParameter s = false) :
    (args.heeded kind).inForce kind s = args.inForce kind s := by
  have hfilter : (args.heeded kind).filter (fun e => kind.setting? e.1 == some s) =
      args.filter fun e => kind.setting? e.1 == some s := by
    unfold heeded
    rw [List.filter_filter]
    apply List.filter_congr
    intro e _
    by_cases hnamed : kind.setting? e.1 = some s
    · simpa [hnamed] using (LimitKind.names_other hs hnamed).1
    · simp [hnamed]
  rw [inForce, inForce, hfilter]

theorem inForce_withParameters_parameter (hs : kind.isParameter s = true) :
    (args.withParameters kind.parameters).inForce kind s = args.value s.key s.default := by
  have hparameters : (kind.parameters.map fun q => (q.1, args.value q.1 q.2)).filter
      (fun e => kind.setting? e.1 == some s) = [(s.key, args.value s.key s.default)] := by
    rw [List.filter_map, Function.comp_def, LimitKind.parameters_naming, if_pos hs]
    rfl
  rw [inForce, withParameters_eq, List.filter_append, hparameters, List.getLast?_concat]
  rfl

theorem inForce_withParameters_other (hs : kind.isParameter s = false) :
    (args.withParameters kind.parameters).inForce kind s = args.inForce kind s := by
  have hparameters : (kind.parameters.map fun q => (q.1, args.value q.1 q.2)).filter
      (fun e => kind.setting? e.1 == some s) = [] := by
    rw [List.filter_map, Function.comp_def, LimitKind.parameters_naming, if_neg (by simp [hs])]
    rfl
  have hothers : (args.others kind.parameters).filter (fun e => kind.setting? e.1 == some s) =
      args.filter fun e => kind.setting? e.1 == some s := by
    unfold others
    rw [List.filter_filter]
    apply List.filter_congr
    intro e _
    by_cases hnamed : kind.setting? e.1 = some s
    · simpa [hnamed] using (LimitKind.names_other hs hnamed).2
    · simp [hnamed]
  rw [inForce, inForce, withParameters_eq, List.filter_append, hparameters, List.append_nil, hothers]

/-- Parameters and overruled options have known names. -/
theorem firstUnknown?_withParameters :
    (args.withParameters kind.parameters).firstUnknown? kind = args.firstUnknown? kind := by
  have hothers : (args.others kind.parameters).firstUnknown? kind = args.firstUnknown? kind := by
    refine firstUnknown?_filter fun e hunknown => ?_
    rw [Bool.not_eq_true', List.any_eq_false]
    intro q hq hname
    exact LimitKind.setting?_parameter kind q hq (by rw [beq_iff_eq.1 hname, hunknown])
  have hparameters : firstUnknown? kind (kind.parameters.map fun q => (q.1, args.value q.1 q.2)) =
      none := by
    refine firstUnknown?_eq_none fun e he => ?_
    obtain ⟨q, hq, rfl⟩ := List.mem_map.1 he
    exact LimitKind.setting?_parameter kind q hq
  rw [withParameters_eq, firstUnknown?_append, hothers, hparameters, Option.or_none]

theorem firstUnknown?_heeded : (args.heeded kind).firstUnknown? kind = args.firstUnknown? kind := by
  refine firstUnknown?_filter fun e hunknown => ?_
  have hheeded : e.1 ∉ kind.overruled := fun hmem =>
    LimitKind.setting?_overruled kind e.1 hmem hunknown
  simpa using hheeded

/-- The parameters of a rule read as the options that they do not overrule. -/
theorem readAlike_withParameters (hd : (args.map (·.1)).Nodup) :
    ReadAlike kind (args.withParameters kind.parameters) (args.heeded kind) where
  unknown := by rw [firstUnknown?_withParameters, firstUnknown?_heeded]
  value s := by
    cases hs : kind.isParameter s with
    | true => rw [inForce_withParameters_parameter hs, inForce_heeded_parameter hd hs]
    | false => rw [inForce_withParameters_other hs, inForce_heeded_other hs]

end Settings

/-! ## Limits of rules, extensions and factories -/

/-- An extension hands its parameters to a rule that has the same. -/
theorem LimitKind.extension_layers (kind : LimitKind) (args : Settings) :
    (args.withParameters kind.parameters).withParameters kind.parameters =
      args.withParameters kind.parameters :=
  Settings.withParameters_withParameters (fun _ h => h) kind.nodup_parameters

/-- A factory hands its one parameter to an extension that has it as well. -/
theorem LimitKind.factory_layers (kind : LimitKind) (args : Settings) :
    (args.withParameters factoryParameters).withParameters kind.parameters =
      args.withParameters kind.parameters := by
  refine Settings.withParameters_withParameters (fun q hq => ?_) kind.nodup_parameters
  obtain rfl := List.mem_singleton.1 hq
  cases kind <;> exact List.mem_cons_self

/-- Whatever is made of options that are read alike is made the same by a rule, by an extension and by
a factory, and also without them when no option is overruled. -/
theorem LimitKind.layers_agree {kind : LimitKind} {α : Type} {make : Settings → α} {args : Settings}
    (hmake : ∀ xs ys : Settings, xs.ReadAlike kind ys → make xs = make ys)
    (hd : (args.map (·.1)).Nodup) :
    make (args.withParameters kind.parameters) = make (args.heeded kind) ∧
      make ((args.withParameters kind.parameters).withParameters kind.parameters) =
        make (args.withParameters kind.parameters) ∧
      make (((args.withParameters factoryParameters).withParameters kind.parameters).withParameters
          kind.parameters) =
        make (args.withParameters kind.parameters) ∧
      ((∀ e ∈ args, e.1 ∉ kind.overruled) →
        make (args.withParameters kind.parameters) = make args) := by
  have hrule : make (args.withParameters kind.parameters) = make (args.heeded kind) :=
    hmake _ _ (Settings.readAlike_withParameters hd)
  refine ⟨hrule, ?_, ?_, fun h => ?_⟩
  · rw [kind.extension_layers]
  · rw [kind.extension_layers, kind.factory_layers]
  · rw [hrule, Settings.heeded_eq_self h]

/-- Rules, extensions and factories make the same limit of the same options, or fail alike. It is
the limit of the options themselves without those in an overruled spelling, so in the absence of
such spellings every way of making a limit comes to the same. -/
theorem ways_make_same_limit (args given : Settings) (hd : (args.map (·.1)).Nodup) :
    (AliasLimit.ofRule args = AliasLimit.ofOptions (args.heeded .aliases) ∧
      AliasLimit.ofExtension args = AliasLimit.ofRule args ∧
      AliasLimit.ofFactory args given = AliasLimit.ofRule args ∧
      ((∀ e ∈ args, e.1 ∉ LimitKind.aliases.overruled) →
        AliasLimit.ofRule args = AliasLimit.ofOptions args)) ∧
    (DepthLimit.ofRule args = DepthLimit.ofOptions (args.heeded .depth) ∧
      DepthLimit.ofExtension args = DepthLimit.ofRule args ∧
      DepthLimit.ofFactory args given = DepthLimit.ofRule args ∧
      ((∀ e ∈ args, e.1 ∉ LimitKind.depth.overruled) →
        DepthLimit.ofRule args = DepthLimit.ofOptions args)) := by
  constructor
  · exact LimitKind.layers_agree (fun _ _ => AliasLimit.ofOptions_congr) hd
  · exact LimitKind.layers_agree (fun _ _ => DepthLimit.ofOptions_congr) hd

/-- Options in both spellings, none of them overruled. -/
def mixedSpellings : Settings := [
  ("exposeLimits", .bool false), ("allow_list", .list [.text "b", .text "a"]),
  ("error_message", .text "Refused."), ("n", .int 3)]

theorem mixedSpellings_make_same_limit :
    (mixedSpellings.map (·.1)).Nodup ∧
      AliasLimit.ofRule mixedSpellings = AliasLimit.ofOptions mixedSpellings ∧
      AliasLimit.ofFactory mixedSpellings [("n", .int 9)] = AliasLimit.ofRule mixedSpellings := by
  have hd : (mixedSpellings.map (·.1)).Nodup := by decide
  obtain ⟨⟨-, -, hfactory, hsame⟩, -⟩ := ways_make_same_limit mixedSpellings [("n", .int 9)] hd
  exact ⟨hd, hsame (by decide), hfactory⟩

/-- A list of allowed aliases in its second spelling counts for a limit made of options alone, and
for nothing in a rule. -/
theorem second_spelling_overruled :
    ∃ l r, AliasLimit.ofOptions [("allowList", .list [.text "a"])] = .ok l ∧
      AliasLimit.ofRule [("allowList", .list [.text "a"])] = .ok r ∧
      l.allowed = ["a"] ∧ r.allowed = [] :=
  ⟨_, _, rfl, rfl, by cbv, by cbv⟩

end QueryBounds
