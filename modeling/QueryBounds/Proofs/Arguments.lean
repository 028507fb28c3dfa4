import Mathlib
import QueryBounds.Command.Arguments

/-!
# Options as arguments

Every request can be made on the command line: the arguments that spell its options are taken apart
into the same options again. A bound can be spelled unless it has more digits than a number may
have.
-/
namespace QueryBounds

/-! ## Numbers -/

namespace Text

variable {c : Char} {cs : List Char}

theorem digit?_of_isDigit (h : c.isDigit = true) : digit? c = some (c.toNat - '0'.toNat) := by
  have hbounds : 48 ≤ c.toNat ∧ c.toNat ≤ 57 := Char.isDigit_iff_toNat.1 h
  simp [digit?, zeros, hbounds, Nat.lt_succ_of_le hbounds.2]

theorem isBlank_of_isDigit (h : c.isDigit = true) : isBlank c = false := by
  have hbounds : 48 ≤ c.toNat ∧ c.toNat ≤ 57 := Char.isDigit_iff_toNat.1 h
  rw [← Char.ofNat_toNat c]
  generalize c.toNat = k at hbounds
  obtain ⟨hlow, hhigh⟩ := hbounds
  interval_cases k <;> rfl

theorem digits?_of_isDigit (hne : cs ≠ []) (h : ∀ c ∈ cs, c.isDigit = true) :
    digits? cs = some (cs.map fun c => c.toNat - '0'.toNat) := by
  induction cs with
  | nil => exact absurd rfl hne
  | cons c cs ih =>
    have hc := digit?_of_isDigit (h c (by simp))
    cases cs with
    | nil => simp [digits?, hc]
    | cons b rest =>
      have hb : b ≠ '_' := by
        rintro rfl
        exact absurd (h '_' (by simp)) (by decide)
      have hrest := ih (by simp) fun x hx => h x (by simp [hx])
      rw [digits?.eq_4 _ _ (by simp) (by simp [hb]), hc, hrest]
      rfl

theorem trim_eq_self (h : ∀ c ∈ cs, isBlank c = false) : trim cs = cs := by
  have hdrop {xs : List Char} (hxs : ∀ c ∈ xs, isBlank c = false) : xs.dropWhile isBlank = xs := by
    cases xs with
    | nil => rfl
    | cons x xs => simp [hxs x (by simp)]
  rw [trim, hdrop h, hdrop (by simpa using h), List.reverse_reverse]

/-- A number that is not too long is read as it is written. -/
theorem wholeNumber?_toString (n : Nat) (h : n < 10 ^ maxDigits) :
    wholeNumber? (toString n) = some (n : Int) := by
  have hwritten : (toString n).toList = Nat.toDigits 10 n := by
    rw [Nat.toString_eq_repr, Nat.toList_repr]
  have hdigits : ∀ c ∈ Nat.toDigits 10 n, c.isDigit = true := fun c hc =>
    Nat.isDigit_of_mem_toDigits (by decide) (by decide) hc
  have hread := digits?_of_isDigit Nat.toDigits_ne_nil hdigits
  have hlength : ¬ maxDigits < (Nat.toDigits 10 n).length :=
    Nat.not_lt.2 ((Nat.length_toDigits_le_iff (by decide) (by decide)).2 h)
  have hvalue : ((Nat.toDigits 10 n).map fun c => c.toNat - '0'.toNat).foldl
      (fun n d => n * 10 + d) 0 = n := by
    rw [List.foldl_map]
    simpa [Nat.ofDigitChars, Nat.mul_comm] using
      Nat.ofDigitChars_toDigits (b := 10) (n := n) (by decide) (by decide)
  rw [wholeNumber?, hwritten, trim_eq_self fun c hc => isBlank_of_isDigit (hdigits c hc)]
  generalize Nat.toDigits 10 n = cs at hdigits hread hlength hvalue
  split
  next negative rest hsign =>
  split at hsign
  · exact absurd (hdigits '-' List.mem_cons_self) (by decide)
  · exact absurd (hdigits '+' List.mem_cons_self) (by decide)
  · cases hsign
    simp only [hread, Option.bind_eq_bind, Option.bind_some, List.length_map, if_neg hlength,
      hvalue]
    rfl

end Text
namespace Command

/-- Whether an argument is an option whose value is not attached to it. -/
def IsOption (name : String) : Prop :=
  name ≠ "--" ∧ (name.startsWith "-" && name != "-") = true ∧ splitEquals name = (name, none)

instance (name : String) : Decidable (IsOption name) :=
  inferInstanceAs (Decidable (_ ∧ _ ∧ _))

/-- An option with each of the given values. -/
def spelled (name : String) (values : List String) : List String := values.flatMap ([name, ·])

/-- An option without a value, if it is set. -/
def flagged (name : String) (isSet : Bool) : List String := if isSet then [name] else []

@[simp] theorem mem_flagged {name other : String} {isSet : Bool} :
    other ∈ flagged name isSet ↔ isSet = true ∧ other = name := by
  cases isSet <;> simp [flagged]

namespace Form

variable {form : Form} {name : String}

theorem parse_spelled (hname : IsOption name) (hform : form.valued.contains name = true)
    (values rest : List String) :
    form.parse (spelled name values ++ rest) =
      (form.parse rest).map fun p => { p with values := values.map (name, ·) ++ p.values } := by
  obtain ⟨hdash, hstart, hplain⟩ := hname
  induction values with
  | nil => simp [spelled]
  | cons v vs ih =>
    have hcons : spelled name (v :: vs) ++ rest = name :: v :: (spelled name vs ++ rest) := rfl
    rw [hcons, parse, if_neg hdash, if_pos hstart, hplain]
    simp only [hform, if_true, ih, Option.map_map]
    rfl

theorem parse_flagged (hname : IsOption name) (hvalued : form.valued.contains name = false)
    (hform : form.flags.contains name = true) (isSet : Bool) (rest : List String) :
    form.parse (flagged name isSet ++ rest) =
      (form.parse rest).map fun p => { p with flags := flagged name isSet ++ p.flags } := by
  obtain ⟨hdash, hstart, hplain⟩ := hname
  cases isSet with
  | false => simp [flagged]
  | true =>
    change form.parse (name :: rest) = _
    rw [parse, if_neg hdash, if_pos hstart, hplain]
    simp only [hvalued, hform]
    rfl

theorem parse_file (form : Form) (file : String) :
    form.parse ["--", file] = some ⟨[file], [], []⟩ := by
  rw [parse, if_pos rfl]

end Form

/-! ## Requests -/

def CheckOptions.arguments (o : CheckOptions) : List String :=
  spelled "--schema" o.schemaFile.toList
    ++ (spelled "--max-aliases" (o.maxAliases.map toString).toList
    ++ (spelled "--max-depth" (o.maxDepth.map toString).toList
    ++ (spelled "--allow-alias" o.allowed
    ++ (flagged "--flatten-fragments" o.flattenFragments
    ++ (flagged "--ignore-introspection" o.ignoreIntrospection
    ++ (flagged "--hide-limits" o.hideLimits
    ++ (flagged "--verbose" o.verbose
    ++ ["--", o.queryFile])))))))

def MeasureOptions.arguments (o : MeasureOptions) : List String :=
  spelled "--allow-alias" o.allowed
    ++ (flagged "--flatten-fragments" o.flattenFragments ++ ["--", o.queryFile])

namespace Request

/-- Arguments that make a request. -/
def arguments : Request → List String
  | .check o => "check" :: o.arguments
  | .measure o => "measure" :: o.arguments

/-- Whether the bounds of a request have no more digits than a number may have. -/
def IsSpellable : Request → Prop
  | .check o => (∀ n ∈ o.maxAliases, n < 10 ^ Text.maxDigits) ∧
      ∀ n ∈ o.maxDepth, n < 10 ^ Text.maxDigits
  | .measure _ => True

end Request

/-- The parts of the arguments that ask for a check. -/
def CheckOptions.parsed (o : CheckOptions) : Parsed where
  files := [o.queryFile]
  values := o.schemaFile.toList.map ("--schema", ·)
    ++ ((o.maxAliases.map toString).toList.map ("--max-aliases", ·)
    ++ ((o.maxDepth.map toString).toList.map ("--max-depth", ·)
    ++ o.allowed.map ("--allow-alias", ·)))
  flags := flagged "--flatten-fragments" o.flattenFragments
    ++ (flagged "--ignore-introspection" o.ignoreIntrospection
    ++ (flagged "--hide-limits" o.hideLimits ++ flagged "--verbose" o.verbose))

/-- The parts of the arguments that ask for a measurement. -/
def MeasureOptions.parsed (o : MeasureOptions) : Parsed where
  files := [o.queryFile]
  values := o.allowed.map ("--allow-alias", ·)
  flags := flagged "--flatten-fragments" o.flattenFragments

theorem CheckOptions.parse_arguments (o : CheckOptions) :
    checkForm.parse o.arguments = some o.parsed := by
  unfold arguments
  rw [Form.parse_spelled (by decide +kernel) rfl, Form.parse_spelled (by decide +kernel) rfl,
    Form.parse_spelled (by decide +kernel) rfl, Form.parse_spelled (by decide +kernel) rfl,
    Form.parse_flagged (by decide +kernel) rfl rfl, Form.parse_flagged (by decide +kernel) rfl rfl,
    Form.parse_flagged (by decide +kernel) rfl rfl, Form.parse_flagged (by decide +kernel) rfl rfl,
    Form.parse_file]
  simp [parsed]

theorem MeasureOptions.parse_arguments (o : MeasureOptions) :
    measureForm.parse o.arguments = some o.parsed := by
  unfold arguments
  rw [Form.parse_spelled (by decide +kernel) rfl, Form.parse_flagged (by decide +kernel) rfl rfl,
    Form.parse_file]
  simp [parsed]

theorem bound?_toString {p : Parsed} {name : String} {n : Option Nat}
    (h : ∀ k ∈ n, k < 10 ^ Text.maxDigits) (hp : p.value? name = n.map toString) :
    bound? p name = some n := by
  unfold bound?
  rw [hp]
  cases n with
  | none => rfl
  | some k =>
    have hk : ¬ (k : Int) < 0 := Int.not_lt.2 (Int.natCast_nonneg k)
    simp only [Option.map_some, Text.wholeNumber?_toString k (h k rfl), Option.bind_eq_bind,
      Option.bind_some, if_neg hk, Int.toNat_natCast]
    rfl

/-- The arguments of a request make this request. -/
theorem Request.parse_arguments (q : Request) (h : q.IsSpellable) : parse q.arguments = some q := by
  cases q with
  | measure o =>
    have hallowed : o.parsed.all "--allow-alias" = o.allowed := by
      simp [MeasureOptions.parsed, Parsed.all, List.filter_map, Function.comp_def]
    have hflatten : o.parsed.has "--flatten-fragments" = o.flattenFragments := by
      simp [MeasureOptions.parsed, Parsed.has]
    have hparse : parse (arguments (.measure o)) = (do
        let p ← measureForm.parse o.arguments
        return .measure ⟨← oneFile p.files, p.all "--allow-alias", p.has "--flatten-fragments"⟩) :=
      rfl
    rw [hparse, o.parse_arguments]
    simp only [Option.bind_eq_bind, Option.bind_some, hallowed, hflatten]
    rfl
  | check o =>
    have hschema : o.parsed.value? "--schema" = o.schemaFile := by
      cases h : o.schemaFile <;>
        simp [CheckOptions.parsed, Parsed.value?, List.filter_map, Function.comp_def, h]
    have haliases : bound? o.parsed "--max-aliases" = some o.maxAliases := by
      apply bound?_toString h.1
      cases h : o.maxAliases <;>
        simp [CheckOptions.parsed, Parsed.value?, List.filter_map, Function.comp_def, h]
    have hdepth : bound? o.parsed "--max-depth" = some o.maxDepth := by
      apply bound?_toString h.2
      cases h : o.maxDepth <;>
        simp [CheckOptions.parsed, Parsed.value?, List.filter_map, Function.comp_def, h]
    have hallowed : o.parsed.all "--allow-alias" = o.allowed := by
      simp [CheckOptions.parsed, Parsed.all, List.filter_map, Function.comp_def]
    have hflatten : o.parsed.has "--flatten-fragments" = o.flattenFragments := by
      simp [CheckOptions.parsed, Parsed.has]
    have hintrospection : o.parsed.has "--ignore-introspection" = o.ignoreIntrospection := by
      simp [CheckOptions.parsed, Parsed.has]
    have hhide : o.parsed.has "--hide-limits" = o.hideLimits := by
      simp [CheckOptions.parsed, Parsed.has]
    have hverbose : o.parsed.has "--verbose" = o.verbose := by
      simp [CheckOptions.parsed, Parsed.has]
    have hparse : parse (arguments (.check o)) = (do
        let p ← checkForm.parse o.arguments
        return .check ⟨← oneFile p.files, p.value? "--schema", ← bound? p "--max-aliases",
          ← bound? p "--max-depth", p.all "--allow-alias", p.has "--flatten-fragments",
          p.has "--ignore-introspection", p.has "--hide-limits", p.has "--verbose"⟩) := rfl
    rw [hparse, o.parse_arguments]
    simp only [Option.bind_eq_bind, Option.bind_some, hschema, haliases, hdepth, hallowed, hflatten,
      hintrospection, hhide, hverbose]
    rfl

end Command
end QueryBounds
