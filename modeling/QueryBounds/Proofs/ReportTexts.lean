import QueryBounds.Failure.Report
import QueryBounds.Proofs.Settling

/-!
# What a report tells

A report says where the trouble is from entries of its context that belong together: a value with
its kind, a line with its column. Arguments give both entries of such a pair or none, but the
context of a caller may hold one without the other. That is the only way in which a report that has
been built cannot be written. In all other cases the origin, the mapping and the text are there and
name the same place, and the text numbers the suggestions.
-/
namespace QueryBounds

namespace Settings

variable {settings : Settings} {name key : String}

theorem lookup_cons_pair (k : String) (w : Value) (rest : Settings) :
    List.lookup key ((k, w) :: rest) = if key = k then some w else rest.lookup key := by
  rw [List.lookup_cons]
  cases h : key == k <;> simp_all

theorem lookup_replaced (v : Value) :
    (settings.map fun e => if e.1 == name then (name, v) else e).lookup key =
      if key = name ∧ settings.any (·.1 == name) then some v else settings.lookup key := by
  induction settings with
  | nil => simp
  | cons e rest ih =>
    obtain ⟨k, w⟩ := e
    rw [List.map_cons, List.any_cons]
    by_cases hname : k = name
    · simp only [hname, beq_self_eq_true, if_true, lookup_cons_pair, ih]
      by_cases hkey : key = name <;> simp [hkey]
    · have hskip : (k == name) = false := by simpa using hname
      simp only [hskip, Bool.false_eq_true, if_false, Bool.false_or, lookup_cons_pair, ih]
      by_cases hkey : key = k
      · simp [hkey, hname]
      · simp [hkey]

theorem lookup_put (v : Value) :
    (settings.put name v).lookup key = if key = name then some v else settings.lookup key := by
  unfold put
  split
  case isTrue hthere => rw [lookup_replaced]; simp only [hthere, and_true]
  case isFalse hnew =>
    rw [List.lookup_append, lookup_cons_pair, List.lookup_nil]
    by_cases hkey : key = name
    · have hnone : settings.lookup key = none := by
        rw [List.lookup_eq_none_iff]
        intro e he
        have hne : e.1 ≠ name := fun hsame =>
          hnew (List.any_eq_true.2 ⟨e, he, by simpa using hsame⟩)
        simpa [hkey] using hne.symm
      rw [hnone, if_pos hkey, Option.none_or]
    · rw [if_neg hkey, if_neg hkey, Option.or_none]

theorem lookup_texts (texts : List (String × String)) :
    (texts.map fun e => (e.1, Value.text e.2)).lookup key = (texts.lookup key).map .text := by
  induction texts with
  | nil => rfl
  | cons e rest ih =>
    obtain ⟨k, s⟩ := e
    rw [List.map_cons, List.lookup_cons, List.lookup_cons]
    cases key == k
    · exact ih
    · rfl

/-- Settings with a value added if it holds. -/
def putIf (settings : Settings) (name : String) (v : Value) : Settings :=
  if v.holds then settings.put name v else settings

theorem lookup_putIf (v : Value) :
    (settings.putIf name v).lookup key =
      if key = name ∧ v.holds then some v else settings.lookup key := by
  unfold putIf
  split
  case isTrue hv => simp [lookup_put, hv]
  case isFalse hv => simp [hv]

/-- Settings with two entries added if there is something that they tell of. -/
def putPair (settings : Settings) (given : Value) (first : String) (v : Value) (second : String)
    (w : Value) : Settings :=
  match given with
  | .null => settings
  | _ => (settings.put first v).put second w

/-- The first of two entries is there without the second. -/
def Half (entries : Settings) (first second : String) : Prop :=
  (entries.lookup first).isSome ∧ entries.lookup second = none

variable {first second : String}

theorem lookup_putPair (hfirst : key ≠ first) (hsecond : key ≠ second) (given v w : Value) :
    (settings.putPair given first v second w).lookup key = settings.lookup key := by
  cases given <;> simp [putPair, lookup_put, hfirst, hsecond]

/-- The entries of a pair are added together. -/
theorem half_putPair (given v w : Value) :
    Half (settings.putPair given first v second w) first second ↔
      given = .null ∧ Half settings first second := by
  cases given <;> simp [putPair, Half, lookup_put]

end Settings

namespace Report

open Settings (Half)

variable {kind : ReportKind} {args entries : Settings} {r : Report} {fresh : String}

/-! ## Contexts -/

/-- The context of a caller's texts. -/
def ofTexts (texts : List (String × String)) : Settings := texts.map fun e => (e.1, .text e.2)

/-- The context that a report gets from its arguments. -/
def builtContext (kind : ReportKind) (args : Settings) : Except Misfit Value :=
  let given := args.value "context" (.dict [])
  match kind with
  | .general => .ok given
  | .configuration =>
    configurationContext given (args.value "option" .null) (args.value "value" .null)
  | .load =>
    loadContext given (args.value "path" .null) (args.value "source" .null)
      (args.value "line" .null) (args.value "column" .null)

/-- What the parts of a report that has been built are. -/
theorem of_ofArguments (h : ofArguments kind args = .ok r) :
    ∃ context, builtContext kind args = .ok context ∧ r.kind = kind ∧
      r.context = (if context.holds then context else .dict []) ∧
      r.suggestions = (if (args.value "suggestions" .null).holds then args.value "suggestions" .null
        else .list []) := by
  unfold ofArguments at h
  cases hunknown : args.find? fun e => !(ownArguments kind ++ sharedArguments).contains e.1 with
  | some e => rw [hunknown] at h; cases h
  | none =>
    rw [hunknown] at h
    cases hmessage : args.lookup "message" with
    | none => rw [hmessage] at h; cases h
    | some message =>
      rw [hmessage] at h
      cases kind with
      | general =>
        cases h
        exact ⟨_, rfl, rfl, rfl, rfl⟩
      | configuration =>
        obtain ⟨_, hgiven, h⟩ := exists_of_bind_eq_ok h
        cases hgiven
        obtain ⟨context, hcontext, h⟩ := exists_of_bind_eq_ok h
        cases h
        exact ⟨context, hcontext, rfl, rfl, rfl⟩
      | load =>
        obtain ⟨_, hgiven, h⟩ := exists_of_bind_eq_ok h
        cases hgiven
        obtain ⟨context, hcontext, h⟩ := exists_of_bind_eq_ok h
        cases h
        exact ⟨context, hcontext, rfl, rfl, rfl⟩

/-- Entries with a setting, and with its value and the kind of that. -/
def valued (entries : Settings) (option v : Value) : Settings :=
  (entries.putIf "option" option).putPair v "value" (.text v.spelling) "value_type" (.text v.kind)

/-- Entries with a path, and with a line and its column. -/
def placed (entries : Settings) (path line column : Value) : Settings :=
  (entries.putIf "path" path).putPair line "line" line "column" column

theorem configurationContext_dict (option v : Value) :
    configurationContext (.dict entries) option v = .ok (.dict (valued entries option v)) := by
  unfold configurationContext valued Settings.putIf
  cases option.holds <;> cases v <;> rfl

theorem loadContext_dict (path source line column : Value) :
    loadContext (.dict entries) path source line column =
      let told := placed entries path line column
      if source.holds then (quotedSource source).map fun quoted => .dict (told.put "source" quoted)
      else .ok (.dict told) := by
  unfold loadContext placed Settings.putIf
  cases path.holds <;> cases source.holds <;> cases line <;> cases quotedSource source <;> rfl

/-- What a report on a source gets to know of it besides its start. -/
theorem of_loadContext {path source line column context : Value}
    (h : loadContext (.dict entries) path source line column = .ok context) :
    ∃ fs : Settings, context = .dict fs ∧ ∀ key, key ≠ "source" →
      fs.lookup key = (placed entries path line column).lookup key := by
  rw [loadContext_dict] at h
  dsimp only at h
  split at h
  case isTrue =>
    cases hquoted : quotedSource source with
    | error e => rw [hquoted] at h; cases h
    | ok quoted =>
      rw [hquoted] at h
      cases h
      exact ⟨_, rfl, fun key hkey => by rw [Settings.lookup_put, if_neg hkey]⟩
  case isFalse =>
    cases h
    exact ⟨_, rfl, fun _ _ => rfl⟩

theorem dict_kept (entries : Settings) :
    (if (Value.dict entries).holds then Value.dict entries else .dict []) = .dict entries := by
  cases entries <;> rfl

variable {texts : List (String × String)}

/-- A pair is half there exactly when a caller's texts have it so and the arguments do not add it. -/
theorem half_told {name first second : String} (hfirst : first ≠ name) (hsecond : second ≠ name)
    (u given v w : Value) :
    Half (((ofTexts texts).putIf name u).putPair given first v second w) first second ↔
      given = .null ∧ (texts.lookup first).isSome ∧ texts.lookup second = none := by
  rw [Settings.half_putPair]
  simp [Half, Settings.lookup_putIf, hfirst, hsecond, ofTexts, Settings.lookup_texts]

/-- Whether a context blames a setting. -/
theorem option_told (option v : Value) :
    (valued (ofTexts texts) option v).value "option" .null ≠ .null ↔
      option.holds ∨ (texts.lookup "option").isSome := by
  rw [Settings.value, valued, Settings.lookup_putPair (by decide) (by decide),
    Settings.lookup_putIf]
  by_cases ho : option.holds
  · have hne : option ≠ .null := by
      rintro rfl
      cases ho
    simp [ho, hne]
  · cases htold : texts.lookup "option" <;>
      simp [ho, ofTexts, Settings.lookup_texts, htold]

theorem path_text {path line column v : Value} (hpath : path = .null ∨ ∃ s, path = .text s)
    (hv : (placed (ofTexts texts) path line column).lookup "path" = some v) :
    ∃ s, v = .text s := by
  rw [placed, Settings.lookup_putPair (by decide) (by decide), Settings.lookup_putIf] at hv
  split at hv
  case isTrue hholds =>
    cases hv
    obtain rfl | htext := hpath
    · cases hholds.2
    · exact htext
  case isFalse =>
    rw [ofTexts, Settings.lookup_texts, Option.map_eq_some_iff] at hv
    obtain ⟨s, -, rfl⟩ := hv
    exact ⟨s, rfl⟩

/-! ## Origins -/

theorem entry?_dict (key : String) : entry? (.dict entries) key = .ok (entries.lookup key) := rfl

theorem entry_dict (key : String) :
    entry (.dict entries) key = match entries.lookup key with
      | some v => .ok v
      | none => .error (.missing key) := by
  unfold entry
  rw [entry?_dict]
  cases entries.lookup key <;> rfl

theorem settingOrigin_of_half (hoption : entries.value "option" .null ≠ .null)
    (h : Half entries "value" "value_type") :
    settingOrigin (.dict entries) = .error (.missing "value_type") := by
  obtain ⟨hvalue, hkind⟩ := h
  obtain ⟨v, hv⟩ := Option.isSome_iff_exists.1 hvalue
  unfold settingOrigin
  dsimp only
  split
  case h_1 hnull => exact absurd hnull hoption
  case h_2 =>
    rw [hv, entry_dict, hkind]
    rfl

theorem settingOrigin_of_whole
    (h : entries.value "option" .null ≠ .null → ¬ Half entries "value" "value_type") :
    ∃ place, settingOrigin (.dict entries) = .ok place ∧ place ≠ some "" := by
  unfold settingOrigin
  dsimp only
  split
  case h_1 => exact ⟨none, rfl, by simp⟩
  case h_2 hoption =>
    cases hvalue : entries.lookup "value" with
    | none => exact ⟨_, rfl, by simp⟩
    | some v =>
      have hkind : entries.lookup "value_type" ≠ none := fun hnone =>
        h hoption ⟨by simp [hvalue], hnone⟩
      obtain ⟨k, hk⟩ := Option.ne_none_iff_exists'.1 hkind
      rw [entry_dict, hk]
      exact ⟨_, rfl, by simp⟩

theorem sourceOrigin_of_half (h : Half entries "line" "column") :
    sourceOrigin (.dict entries) = .error (.missing "column") := by
  obtain ⟨hline, hcolumn⟩ := h
  obtain ⟨v, hv⟩ := Option.isSome_iff_exists.1 hline
  unfold sourceOrigin
  rw [entry?_dict, entry?_dict, hv, entry_dict, hcolumn]
  rfl

theorem mapM_map_ok {ε α β : Type} {f : β → Except ε α} {g : α → β} (h : ∀ a, f (g a) = .ok a)
    (items : List α) : (items.map g).mapM f = .ok items := by
  induction items with
  | nil => rfl
  | cons a items ih =>
    rw [List.map_cons, List.mapM_cons, h, ih]
    rfl

theorem joinParts_texts (ts : List String) :
    joinParts (ts.map .text) = .ok (", ".intercalate ts) := by
  unfold joinParts
  rw [mapM_map_ok (g := Value.text)]
  · rfl
  · intro t
    rfl

theorem sourceOrigin_of_whole
    (hpath : ∀ v, entries.lookup "path" = some v → ∃ s, v = .text s)
    (h : ¬ Half entries "line" "column") :
    ∃ place, sourceOrigin (.dict entries) = .ok place ∧ place ≠ some "" := by
  obtain ⟨path, hp⟩ : ∃ path : List String, (entries.lookup "path").toList = path.map .text := by
    cases hp : entries.lookup "path" with
    | none => exact ⟨[], rfl⟩
    | some v =>
      obtain ⟨s, rfl⟩ := hpath v hp
      exact ⟨[s], rfl⟩
  -- The path and the place have at most one part each, and all parts are texts.
  have hplace : ∃ place : List String, sourceOrigin (.dict entries) = (do
      let text ← joinParts ((path ++ place).map .text)
      return if text.isEmpty then none else some text) := by
    unfold sourceOrigin
    rw [entry?_dict, entry?_dict]
    cases hline : entries.lookup "line" with
    | none => exact ⟨[], by rw [List.map_append, ← hp]; rfl⟩
    | some line =>
      have hcolumn : entries.lookup "column" ≠ none := fun hnone => h ⟨by simp [hline], hnone⟩
      obtain ⟨column, hc⟩ := Option.ne_none_iff_exists'.1 hcolumn
      rw [entry_dict, hc]
      exact ⟨[_], by rw [List.map_append, ← hp]; rfl⟩
  obtain ⟨place, hplace⟩ := hplace
  rw [hplace, joinParts_texts]
  refine ⟨_, rfl, ?_⟩
  split
  case isTrue => simp
  case isFalse hne => simpa using hne

/-! ## Reports that have been built -/

/-- Arguments as a caller gives them: a context of texts, a path that is a text, and a list of
suggestions if any. -/
structure Takes (args : Settings) (texts : List (String × String)) (suggestions : List Value) :
    Prop where
  context : args.value "context" (.dict []) = .dict (ofTexts texts)
  path : args.value "path" .null = .null ∨ ∃ s, args.value "path" .null = .text s
  suggestions : args.value "suggestions" .null = .null ∧ suggestions = [] ∨
    args.value "suggestions" .null = .list suggestions

/-- Only one of two entries that belong together is there: a caller's context has the first, neither
it nor the arguments have the second, which is the one that is asked for. -/
inductive HalfGiven (args : Settings) (texts : List (String × String)) : ReportKind → String → Prop
  | value (option : (args.value "option" .null).holds ∨ (texts.lookup "option").isSome)
      (value : args.value "value" .null = .null) (first : (texts.lookup "value").isSome)
      (second : texts.lookup "value_type" = none) : HalfGiven args texts .configuration "value_type"
  | line (line : args.value "line" .null = .null) (first : (texts.lookup "line").isSome)
      (second : texts.lookup "column" = none) : HalfGiven args texts .load "column"

/-- An origin that is missing exactly when an entry is lacking, and is never an empty text. -/
def FailsOnlyFor (lacking : String → Prop) (origin : Except ReportGap (Option String)) : Prop :=
  (∀ key, lacking key → origin = .error (.missing key)) ∧
  ((∀ key, ¬ lacking key) → ∃ place, origin = .ok place ∧ place ≠ some "")

/-- A report that cannot be told at all for want of an entry. -/
structure Masked (r : Report) (fresh key : String) : Prop where
  origin : r.origin = .error (.missing key)
  entries : r.entries fresh = .error (.missing key)
  text : r.text fresh = .error (.missing key)

/-- A report that names one place everywhere, if it knows any, and numbers all its suggestions
between the place and the identifier. -/
structure Told (r : Report) (fresh : String) (suggestions : List Value) (place : Option String) :
    Prop where
  origin : r.origin = .ok place
  origin_ne : place ≠ some ""
  entries : ∃ entries, r.entries fresh = .ok entries ∧
    entries.lookup "where" = some ((place.map .text).getD .null)
  text : r.text fresh = .ok ("\n".intercalate (
    ["[" ++ r.code.display ++ "] " ++ r.message.display] ++
    place.toList.map ("Where: " ++ ·) ++
    (if suggestions.isEmpty then [] else "Suggestions:" ::
      suggestions.mapIdx fun i s => "  " ++ toString (i + 1) ++ ". " ++ s.display) ++
    ["Correlation ID: " ++ (r.correlationId.getD (.text fresh)).display]))

theorem numbered_eq_mapIdx (start : Nat) (items : List Value) :
    numbered start items =
      items.mapIdx fun i s => "  " ++ toString (i + start) ++ ". " ++ s.display := by
  induction items generalizing start with
  | nil => rfl
  | cons s items ih =>
    rw [numbered, ih, List.mapIdx_cons]
    simp only [Nat.zero_add, Nat.add_assoc, Nat.add_comm 1 start]

theorem Masked.of_origin {key : String} (h : r.origin = .error (.missing key)) :
    Masked r fresh key where
  origin := h
  entries := by
    unfold Report.entries
    rw [h]
    rfl
  text := by
    unfold Report.text
    rw [h]
    rfl

theorem Told.of_origin {suggestions : List Value} {place : Option String}
    (h : r.origin = .ok place) (hne : place ≠ some "") (hs : r.advice = .ok suggestions) :
    Told r fresh suggestions place where
  origin := h
  origin_ne := hne
  entries := by
    unfold Report.entries
    rw [h]
    exact ⟨_, rfl, rfl⟩
  text := by
    unfold Report.text
    rw [h, hs, ← numbered_eq_mapIdx]
    cases place <;> rfl

theorem advice_built {suggestions : List Value}
    (hr : r.suggestions = (if (args.value "suggestions" .null).holds then
      args.value "suggestions" .null else .list []))
    (h : args.value "suggestions" .null = .null ∧ suggestions = [] ∨
      args.value "suggestions" .null = .list suggestions) : r.advice = .ok suggestions := by
  unfold advice
  rw [hr]
  obtain ⟨hnull, rfl⟩ | hlist := h
  · rw [hnull]
    rfl
  · rw [hlist]
    cases suggestions <;> rfl

variable {suggestions : List Value}

theorem configuration_origin {context : Value} (hargs : Takes args texts suggestions)
    (h : builtContext .configuration args = .ok context) :
    ∃ fs : Settings, context = .dict fs ∧
      FailsOnlyFor (HalfGiven args texts .configuration) (settingOrigin (.dict fs)) := by
  unfold builtContext at h
  dsimp only at h
  rw [hargs.context, configurationContext_dict] at h
  cases h
  refine ⟨_, rfl, ?_, ?_⟩
  · rintro key (⟨option, value, first, second⟩ | _)
    exact settingOrigin_of_half ((option_told _ _).2 option)
      ((half_told (by decide) (by decide) _ _ _ _).2 ⟨value, first, second⟩)
  · intro hwhole
    refine settingOrigin_of_whole fun hoption hhalf => ?_
    obtain ⟨value, first, second⟩ := (half_told (by decide) (by decide) _ _ _ _).1 hhalf
    exact hwhole _ (.value ((option_told _ _).1 hoption) value first second)

theorem load_origin {context : Value} (hargs : Takes args texts suggestions)
    (h : builtContext .load args = .ok context) :
    ∃ fs : Settings, context = .dict fs ∧
      FailsOnlyFor (HalfGiven args texts .load) (sourceOrigin (.dict fs)) := by
  unfold builtContext at h
  dsimp only at h
  rw [hargs.context] at h
  obtain ⟨fs, rfl, hfs⟩ := of_loadContext h
  have hhalf : Half fs "line" "column" ↔ args.value "line" .null = .null ∧
      (texts.lookup "line").isSome ∧ texts.lookup "column" = none := by
    rw [Half, hfs _ (by decide), hfs _ (by decide)]
    exact half_told (by decide) (by decide) _ _ _ _
  refine ⟨fs, rfl, ?_, ?_⟩
  · rintro key (_ | ⟨line, first, second⟩)
    exact sourceOrigin_of_half (hhalf.2 ⟨line, first, second⟩)
  · intro hwhole
    refine sourceOrigin_of_whole (fun v hv => ?_) fun hline => ?_
    · exact path_text hargs.path (hfs "path" (by decide) ▸ hv)
    · obtain ⟨line, first, second⟩ := hhalf.1 hline
      exact hwhole _ (.line line first second)

/-- The origin of a report that has been built. -/
theorem origin_built (hargs : Takes args texts suggestions) (h : ofArguments kind args = .ok r) :
    FailsOnlyFor (HalfGiven args texts kind) r.origin := by
  obtain ⟨context, hcontext, hkind, hr, -⟩ := of_ofArguments h
  unfold origin
  rw [hkind, hr]
  cases kind with
  | general => exact ⟨(fun _ hhalf => nomatch hhalf), fun _ => ⟨none, rfl, by simp⟩⟩
  | configuration =>
    obtain ⟨fs, rfl, horigin⟩ := configuration_origin hargs hcontext
    rw [dict_kept]
    exact horigin
  | load =>
    obtain ⟨fs, rfl, horigin⟩ := load_origin hargs hcontext
    rw [dict_kept]
    exact horigin

/-- A report that has been built is told in full, unless it has one of two entries that belong
together without the other; then not even its text can be had. -/
theorem built_report_told (hargs : Takes args texts suggestions)
    (h : ofArguments kind args = .ok r) (fresh : String) :
    (∀ key, HalfGiven args texts kind key → Masked r fresh key) ∧
    ((∀ key, ¬ HalfGiven args texts kind key) → ∃ place, Told r fresh suggestions place) := by
  obtain ⟨hmasked, htold⟩ := origin_built hargs h
  obtain ⟨-, -, -, -, hsuggestions⟩ := of_ofArguments h
  refine ⟨fun key hhalf => .of_origin (hmasked key hhalf), fun hwhole => ?_⟩
  obtain ⟨place, horigin, hne⟩ := htold hwhole
  exact ⟨place, .of_origin horigin hne (advice_built hsuggestions hargs.suggestions)⟩

/-- A line that a caller's context gives with its column, and a path that the arguments give. -/
def placedArguments : Settings :=
  [("message", .text "cut off"), ("path", .text "books.graphql"),
    ("context", .dict [("line", .text "3"), ("column", .text "7")]),
    ("suggestions", .list [.text "close the brace", .text "name the field"])]

def placedReport : Report where
  kind := .load
  code := .text "QUERY_LOAD_ERROR"
  message := .text "cut off"
  context := .dict [("line", .text "3"), ("column", .text "7"), ("path", .text "books.graphql")]
  suggestions := .list [.text "close the brace", .text "name the field"]
  correlationId := none

theorem placedReport_told :
    Takes placedArguments [("line", "3"), ("column", "7")]
        [.text "close the brace", .text "name the field"] ∧
      ofArguments .load placedArguments = .ok placedReport ∧
      (∀ key, ¬ HalfGiven placedArguments [("line", "3"), ("column", "7")] .load key) ∧
      ∃ place, Told placedReport "7f" [.text "close the brace", .text "name the field"] place := by
  have hargs : Takes placedArguments [("line", "3"), ("column", "7")]
      [.text "close the brace", .text "name the field"] := ⟨rfl, .inr ⟨_, rfl⟩, .inr rfl⟩
  have hbuilt : ofArguments .load placedArguments = .ok placedReport := rfl
  have hwhole : ∀ key, ¬ HalfGiven placedArguments [("line", "3"), ("column", "7")] .load key := by
    rintro key (_ | ⟨-, -, second⟩)
    cases second
  exact ⟨hargs, hbuilt, hwhole, (built_report_told hargs hbuilt "7f").2 hwhole⟩

/-- A setting to blame and, from the caller's context, a value without its kind. -/
def unkindArguments : Settings :=
  [("message", .text "m"), ("option", .text "o"), ("context", .dict [("value", .text "v")])]

theorem unkindArguments_masked :
    Takes unkindArguments [("value", "v")] [] ∧
      ∃ r, ofArguments .configuration unkindArguments = .ok r ∧ Masked r "7f" "value_type" :=
  ⟨⟨rfl, .inl rfl, .inl ⟨rfl, rfl⟩⟩, _, rfl, rfl, rfl, rfl⟩

end Report
end QueryBounds
