import QueryBounds.Proofs.StoredSettings

/-!
# Which options make a limit, and what is to blame when they do not

Options make a limit exactly if each of their names is one that the limit knows, in either spelling, and
each value in force is of the kind that its setting asks for. Otherwise the failure blames the first
unknown name, whatever the values are; where all names are known, it blames the first setting in a
fixed order whose value is not of its kind.
-/
namespace QueryBounds

/-! ## What a setting asks for -/

namespace Value

/-- Nothing, a hook, or a collection of hooks and of nothing else. -/
def GivesHooks (v : Value) : Prop :=
  v = .null ∨ (∃ h, v = .hook h) ∨
    ∃ items, v.items? = some items ∧ ∀ item ∈ items, ∃ h, item = .hook h

/-- No text; and a value that does not hold, or a collection of texts and of nothing else. -/
def GivesNames (v : Value) : Prop :=
  (∀ text, v ≠ .text text) ∧ (v.holds = false ∨
    ∃ items, v.items? = some items ∧ ∀ item ∈ items, ∃ text, item = .text text)

theorem text_or_not (v : Value) : (∃ text, v = .text text) ∨ ∀ text, v ≠ .text text := by
  cases v <;> simp

end Value

/-- Whether a value is of the kind that a setting asks for. -/
def SettingName.Accepts : SettingName → Value → Prop
  | n, v => v.IsBound
  | onAccept, v => v.GivesHooks
  | onReject, v => v.GivesHooks
  | allowList, v => v.GivesNames
  | _, _ => True

/-- The settings of a limit that ask for a kind of value, in the order in which they are looked at. -/
def LimitKind.checked : LimitKind → List SettingName
  | .aliases => [.n, .onAccept, .onReject, .allowList]
  | .depth => [.n, .onAccept, .onReject]

theorem LimitKind.accepts_settings_iff (kind : LimitKind) (value : SettingName → Value) :
    (∀ s ∈ kind.settings, s.Accepts (value s)) ↔ ∀ s ∈ kind.checked, s.Accepts (value s) := by
  cases kind <;> simp [settings, checked, SettingName.shared, SettingName.Accepts]

/-- The failures that blame a setting for its value: that it is no bound, that an entry of it is no
hook, that it is a text in place of names, or no collection at all, or that an entry is no name. -/
inductive Failure.Blames (s : SettingName) (v : Value) : Failure → Prop
  | notWhole (hs : s = .n) (hv : ∀ n, v ≠ .int n) : Blames s v (.configuration (.notWhole v))
  | negative {n : Int} (hs : s = .n) (hv : v = .int n) (hn : n < 0) :
    Blames s v (.configuration (.negative n))
  | notCallable {w : Value} (hs : s = .onAccept ∨ s = .onReject) (hw : w ∈ hookEntries v)
    (hno : ∀ h, w ≠ .hook h) : Blames s v (.configuration (.notCallable s w))
  | isText {text : String} (hs : s = .allowList) (hv : v = .text text) :
    Blames s v (.configuration (.allowListIsText text))
  | notText {items : List Value} {w : Value} (hs : s = .allowList) (hv : v.items? = some items)
    (hw : w ∈ items) (hno : ∀ text, w ≠ .text text) :
    Blames s v (.configuration (.allowedNotText w))
  | notIterable (hs : s = .allowList) (hv : v.items? = none) :
    Blames s v (.misfit (.notIterable v))
  | notHashable {items : List Value} {w : Value} (hs : s = .allowList) (hv : v.items? = some items)
    (hw : w ∈ items) (hno : w.isHashable = false) : Blames s v (.misfit (.notHashable w))

/-- A report that blames a setting names it. -/
theorem Failure.Blames.option {s : SettingName} {v : Value} {c : ConfigurationCause}
    (h : Failure.Blames s v (.configuration c)) : c.option = s.key := by
  cases h with
  | notWhole hs => rw [hs]; rfl
  | negative hs => rw [hs]; rfl
  | notCallable => rfl
  | isText hs => rw [hs]; rfl
  | notText hs => rw [hs]; rfl

/-! ## Checks in order -/

/-- A computation that looks at settings in order: it succeeds when every value is of its kind, and
otherwise blames the first that is not. -/
structure ChecksInOrder {α : Type} (r : Except Failure α) (settings : List SettingName)
    (value : SettingName → Value) : Prop where
  ok : (∀ s ∈ settings, s.Accepts (value s)) → ∃ a, r = .ok a
  blames : ∀ before s after, settings = before ++ s :: after →
    (∀ t ∈ before, t.Accepts (value t)) → ¬ s.Accepts (value s) →
      ∃ f, r = .error f ∧ f.Blames s (value s)

namespace ChecksInOrder

variable {α β : Type} {value : SettingName → Value} {settings later : List SettingName}

theorem done (a : α) : ChecksInOrder (.ok a) [] value :=
  ⟨fun _ => ⟨a, rfl⟩, by simp⟩

theorem single {r : Except Failure α} {s : SettingName}
    (hok : s.Accepts (value s) → ∃ a, r = .ok a)
    (hblame : ¬ s.Accepts (value s) → ∃ f, r = .error f ∧ f.Blames s (value s)) :
    ChecksInOrder r [s] value := by
  refine ⟨fun h => hok (h s (by simp)), fun before t after hsplit _ hrefused => ?_⟩
  cases before with
  | nil =>
    cases hsplit
    exact hblame hrefused
  | cons first before =>
    have hlength := congrArg List.length hsplit
    simp at hlength

theorem bind {r : Except Failure α} {k : α → Except Failure β}
    (hr : ChecksInOrder r settings value) (hk : ∀ a, ChecksInOrder (k a) later value) :
    ChecksInOrder (r >>= k) (settings ++ later) value := by
  constructor
  case ok =>
    intro h
    obtain ⟨a, rfl⟩ := hr.ok fun s hs => h s (List.mem_append_left _ hs)
    exact (hk a).ok fun s hs => h s (List.mem_append_right _ hs)
  case blames =>
    intro before s after hsplit hbefore hrefused
    -- The refused setting is one of the later ones, with all of the first part before it, or it is one
    -- of the first part, and then the rest of that part and all later ones come behind it.
    rcases List.append_eq_append_iff.1 hsplit with ⟨between, rfl, hlater⟩ | ⟨rest, rfl, hafter⟩
    · obtain ⟨a, rfl⟩ := hr.ok fun t ht => hbefore t (List.mem_append_left _ ht)
      exact (hk a).blames between s after hlater
        (fun t ht => hbefore t (List.mem_append_right _ ht)) hrefused
    · cases rest with
      | nil =>
        obtain ⟨a, rfl⟩ := hr.ok (by simpa using hbefore)
        exact (hk a).blames [] s after hafter.symm (by simp) hrefused
      | cons first rest =>
        cases hafter
        obtain ⟨f, rfl, hf⟩ := hr.blames before s rest rfl hbefore hrefused
        exact ⟨f, rfl, hf⟩

/-- Of settings that are not all accepted there is a first. -/
theorem exists_first_refused (h : ¬ ∀ s ∈ settings, s.Accepts (value s)) :
    ∃ before s after, settings = before ++ s :: after ∧ (∀ t ∈ before, t.Accepts (value t)) ∧
      ¬ s.Accepts (value s) := by
  induction settings with
  | nil => simp at h
  | cons s settings ih =>
    by_cases hs : s.Accepts (value s)
    · have hrest : ¬ ∀ t ∈ settings, t.Accepts (value t) := fun hall =>
        h (List.forall_mem_cons.2 ⟨hs, hall⟩)
      obtain ⟨before, t, after, rfl, hbefore, ht⟩ := ih hrest
      exact ⟨s :: before, t, after, rfl, List.forall_mem_cons.2 ⟨hs, hbefore⟩, ht⟩
    · exact ⟨[], s, settings, rfl, by simp, hs⟩

variable {r : Except Failure α}

theorem ok_iff (h : ChecksInOrder r settings value) :
    (∃ a, r = .ok a) ↔ ∀ s ∈ settings, s.Accepts (value s) := by
  refine ⟨fun ⟨a, ha⟩ => ?_, h.ok⟩
  by_contra hrefused
  obtain ⟨before, s, after, hsplit, hbefore, hs⟩ := exists_first_refused hrefused
  obtain ⟨f, hf, -⟩ := h.blames before s after hsplit hbefore hs
  cases ha.symm.trans hf

end ChecksInOrder

/-! ## The single checks -/

section Single

variable {value : SettingName → Value}

theorem boundOf_checks : ChecksInOrder (boundOf (value .n)) [.n] value := by
  apply ChecksInOrder.single
  · rintro (hnull | ⟨n, hn, hnonneg⟩)
    · exact ⟨none, by rw [hnull]; rfl⟩
    · exact ⟨some n.toNat, by rw [hn, boundOf, if_neg (Int.not_lt.2 hnonneg)]⟩
  · intro hrefused
    cases hv : value .n with
    | null => exact absurd (.inl hv) hrefused
    | int n =>
      have hneg : n < 0 := by
        by_contra hnonneg
        exact hrefused (.inr ⟨n, hv, Int.not_lt.1 hnonneg⟩)
      exact ⟨_, if_pos hneg, .negative rfl rfl hneg⟩
    | _ => exact ⟨_, rfl, .notWhole rfl (by simp)⟩

/-- The entries of a value for hooks are all hooks just if the value gives hooks. -/
theorem givesHooks_iff {v : Value} :
    v.GivesHooks ↔ ∀ entry ∈ hookEntries v, ∃ h, entry = .hook h := by
  cases v <;> simp [Value.GivesHooks, hookEntries, Value.items?]

/-- Of entries that are not all hooks the first that is none is to blame. -/
theorem hooksOf_eq_error {s : SettingName} {entries : List Value}
    (h : ¬ ∀ entry ∈ entries, ∃ g, entry = .hook g) :
    ∃ w ∈ entries, (∀ g, w ≠ .hook g) ∧
      hooksOf s (.list entries) = .error (.configuration (.notCallable s w)) := by
  induction entries with
  | nil => simp at h
  | cons entry entries ih =>
    change ∃ w ∈ entry :: entries, (∀ g, w ≠ .hook g) ∧ (entry :: entries).mapM _ = _
    simp only [List.mapM_cons]
    cases entry with
    | hook g =>
      have hrest : ¬ ∀ entry ∈ entries, ∃ g, entry = .hook g := fun hall =>
        h (List.forall_mem_cons.2 ⟨⟨g, rfl⟩, hall⟩)
      obtain ⟨w, hw, hno, herror⟩ := ih hrest
      refine ⟨w, List.mem_cons_of_mem _ hw, hno, ?_⟩
      change entries.mapM _ = _ at herror
      rw [herror]
      rfl
    | _ => exact ⟨_, List.mem_cons_self, by simp, rfl⟩

theorem hooksOf_checks {s : SettingName} (hs : s = .onAccept ∨ s = .onReject) :
    ChecksInOrder (hooksOf s (value s)) [s] value := by
  have haccepts : s.Accepts (value s) ↔ ∀ entry ∈ hookEntries (value s), ∃ h, entry = .hook h := by
    rw [← givesHooks_iff]
    rcases hs with rfl | rfl <;> rfl
  have hentries : hooksOf s (value s) = hooksOf s (.list (hookEntries (value s))) := rfl
  apply ChecksInOrder.single
  · intro h
    obtain ⟨hooks, hhooks⟩ : hookEntries (value s) ∈ Set.range (List.map Value.hook) := by
      rw [Set.range_list_map]
      intro entry hentry
      obtain ⟨h, rfl⟩ := haccepts.1 h entry hentry
      exact ⟨h, rfl⟩
    exact ⟨hooks, by rw [hentries, ← hhooks, hooksOf_kept]⟩
  · intro h
    obtain ⟨w, hw, hno, herror⟩ := hooksOf_eq_error (s := s) fun hall => h (haccepts.2 hall)
    exact ⟨_, hentries.trans herror, .notCallable hs hw hno⟩

theorem allowedOf_of_ne_text {v : Value} (h : ∀ text, v ≠ .text text) :
    allowedOf v = (if v.holds then membersOf v else .ok []) >>= namesOf := by
  cases v with
  | text s => exact absurd rfl (h s)
  | _ => rfl

theorem ne_text_of_entries {v : Value} {items : List Value} (h : allowedEntries? v = some items) :
    ∀ text, v ≠ .text text := by
  rintro text rfl
  cases h

/-- A value gives names just if it has entries for the allowed aliases and these are texts. -/
theorem givesNames_iff {v : Value} :
    v.GivesNames ↔ ∃ items, allowedEntries? v = some items ∧
      ∀ item ∈ items, ∃ text, item = .text text := by
  constructor
  · rintro ⟨hnot, hnames⟩
    rw [allowedEntries?_of_ne_text hnot]
    rcases hnames with hholds | ⟨items, hitems, htexts⟩
    · exact ⟨[], by simp [hholds], by simp⟩
    · by_cases hholds : v.holds = true
      · exact ⟨items, by rw [if_pos hholds, hitems], htexts⟩
      · exact ⟨[], if_neg hholds, by simp⟩
  · rintro ⟨items, hentries, htexts⟩
    have hnot := ne_text_of_entries hentries
    rw [allowedEntries?_of_ne_text hnot] at hentries
    by_cases hholds : v.holds = true
    · rw [if_pos hholds] at hentries
      exact ⟨hnot, .inr ⟨items, hentries, htexts⟩⟩
    · exact ⟨hnot, .inl (by simpa using hholds)⟩

/-- Allowed aliases are made of the entries of the value and of nothing else. -/
theorem allowedOf_of_entries {v : Value} {items : List Value} (h : allowedEntries? v = some items) :
    allowedOf v = membersOf (.list items) >>= namesOf := by
  have hnot := ne_text_of_entries h
  rw [allowedEntries?_of_ne_text hnot] at h
  rw [allowedOf_of_ne_text hnot]
  by_cases hholds : v.holds = true
  · rw [if_pos hholds] at h ⊢
    have hlist : (Value.list items).items? = some items := rfl
    simp only [membersOf, h, hlist]
  · rw [if_neg hholds] at h ⊢
    cases h
    rfl

/-- Of entries that are not all names one is to blame, or is none that a set can hold. -/
theorem namesOf_members_eq_error {items : List Value}
    (h : ¬ ∀ item ∈ items, ∃ text, item = .text text) :
    ∃ f w, (membersOf (.list items) >>= namesOf) = .error f ∧ w ∈ items ∧
      (f = .misfit (.notHashable w) ∧ w.isHashable = false ∨
        f = .configuration (.allowedNotText w) ∧ ∀ text, w ≠ .text text) := by
  cases hfind : items.find? (!·.isHashable) with
  | some w =>
    have hhashable : w.isHashable = false := by simpa using List.find?_some hfind
    refine ⟨_, w, ?_, List.mem_of_find?_eq_some hfind, .inl ⟨rfl, hhashable⟩⟩
    simp only [membersOf, Value.items?, hfind]
    rfl
  | none =>
    have hmembers : (membersOf (.list items) >>= namesOf) = namesOf items := by
      simp only [membersOf, Value.items?, hfind]
      rfl
    rw [hmembers, namesOf]
    cases hblamed : blamed? items with
    | none =>
      refine absurd (fun item hitem => ?_) h
      obtain ⟨text, htext⟩ := text_of_blamed?_eq_none hblamed item hitem
      exact ⟨text, htext.symm⟩
    | some w =>
      obtain ⟨hw, hno⟩ := List.mem_filter.1 (List.minOn?_mem hblamed)
      refine ⟨_, w, rfl, hw, .inr ⟨rfl, ?_⟩⟩
      rintro text rfl
      cases hno

theorem allowedOf_checks : ChecksInOrder (allowedOf (value .allowList)) [.allowList] value := by
  apply ChecksInOrder.single
  · intro h
    obtain ⟨items, hentries, htexts⟩ := givesNames_iff.1 h
    obtain ⟨texts, rfl⟩ : items ∈ Set.range (List.map Value.text) := by
      rw [Set.range_list_map]
      intro item hitem
      obtain ⟨text, rfl⟩ := htexts item hitem
      exact ⟨text, rfl⟩
    exact ⟨_, by rw [allowedOf_of_entries hentries, membersOf_texts]; exact namesOf_texts texts⟩
  · intro hrefused
    generalize hv : value .allowList = v
    replace hrefused : ¬ v.GivesNames := hv ▸ hrefused
    rcases v.text_or_not with ⟨text, rfl⟩ | hnot
    · exact ⟨_, rfl, .isText rfl rfl⟩
    · cases hitems : allowedEntries? v with
      | none =>
        rw [allowedEntries?_of_ne_text hnot] at hitems
        by_cases hholds : v.holds = true
        · rw [if_pos hholds] at hitems
          refine ⟨_, ?_, .notIterable rfl hitems⟩
          simp only [allowedOf_of_ne_text hnot, hholds, if_true, membersOf, hitems]
          rfl
        · rw [if_neg hholds] at hitems
          cases hitems
      | some items =>
        have hentries : ¬ ∀ item ∈ items, ∃ text, item = .text text := fun htexts =>
          hrefused (givesNames_iff.2 ⟨items, hitems, htexts⟩)
        obtain ⟨f, w, hf, hw, hblame⟩ := namesOf_members_eq_error hentries
        have hvalue : v.items? = some items := by
          rw [allowedEntries?_of_ne_text hnot] at hitems
          by_cases hholds : v.holds = true
          · rwa [if_pos hholds] at hitems
          · rw [if_neg hholds] at hitems
            cases hitems
            cases hw
        refine ⟨f, (allowedOf_of_entries hitems).trans hf, ?_⟩
        rcases hblame with ⟨rfl, hno⟩ | ⟨rfl, hno⟩
        · exact .notHashable rfl hvalue hw hno
        · exact .notText rfl hvalue hw hno

end Single

/-! ## Limits from assignments -/

theorem Limit.ofAssignment_checks (a : Assignment) :
    ChecksInOrder (Limit.ofAssignment a) [.n, .onAccept, .onReject] a.value :=
  boundOf_checks.bind fun _ => (hooksOf_checks (.inl rfl)).bind fun _ =>
    (hooksOf_checks (.inr rfl)).bind fun _ => .done _

theorem AliasLimit.ofAssignment_checks (a : Assignment) :
    ChecksInOrder (AliasLimit.ofAssignment a) LimitKind.aliases.checked a.value :=
  (Limit.ofAssignment_checks a).bind fun _ => allowedOf_checks.bind fun _ => .done _

theorem DepthLimit.ofAssignment_checks (a : Assignment) :
    ChecksInOrder (DepthLimit.ofAssignment a) LimitKind.depth.checked a.value :=
  (Limit.ofAssignment_checks a).bind fun _ => .done _

/-! ## Names of options -/

namespace LimitKind

variable {kind : LimitKind} {text : String} {s : SettingName}

/-- Whether a text names a setting of a limit, in either spelling. -/
def Names (kind : LimitKind) (text : String) (s : SettingName) : Prop :=
  s ∈ kind.settings ∧ (text = s.key ∨ s.camelKey? = some text)

instance (kind : LimitKind) (text : String) (s : SettingName) : Decidable (kind.Names text s) :=
  inferInstanceAs (Decidable (_ ∧ _))

/-- Whether a text names some setting of a limit. -/
def Knows (kind : LimitKind) (text : String) : Prop := ∃ s, kind.Names text s

theorem setting?_key (kind : LimitKind) (s : SettingName) (h : s ∈ kind.settings) :
    kind.setting? s.key = some s := by
  revert h
  cases kind <;> cases s <;> decide

theorem setting?_camelKey (kind : LimitKind) (s : SettingName) (h : s ∈ kind.settings) :
    ∀ text, s.camelKey? = some text → kind.setting? text = some s := by
  revert h
  cases kind <;> cases s <;> decide

theorem setting?_eq_some_iff : kind.setting? text = some s ↔ kind.Names text s := by
  constructor
  · intro h
    exact ⟨List.mem_of_find?_eq_some h, spelling_of_setting? h⟩
  · rintro ⟨hs, rfl | hcamel⟩
    · exact kind.setting?_key s hs
    · exact kind.setting?_camelKey s hs text hcamel

theorem setting?_ne_none_iff : kind.setting? text ≠ none ↔ kind.Knows text := by
  rw [Option.ne_none_iff_exists']
  exact exists_congr fun s => setting?_eq_some_iff

end LimitKind

namespace Settings

variable {kind : LimitKind} {options before after : Settings} {key : String} {v : Value}
  {s : SettingName}

theorem inForce_of_unnamed (h : ∀ e ∈ options, ¬ kind.Names e.1 s) :
    options.inForce kind s = s.default := by
  have hfilter : options.filter (fun e => kind.setting? e.1 == some s) = [] := by
    rw [List.filter_eq_nil_iff]
    intro e he hnamed
    exact h e he (LimitKind.setting?_eq_some_iff.1 (beq_iff_eq.1 hnamed))
  rw [inForce, hfilter]
  rfl

theorem inForce_of_last (hkey : kind.Names key s) (h : ∀ e ∈ after, ¬ kind.Names e.1 s) :
    inForce kind (before ++ (key, v) :: after) s = v := by
  have hafter : after.filter (fun e => kind.setting? e.1 == some s) = [] := by
    rw [List.filter_eq_nil_iff]
    intro e he hnamed
    exact h e he (LimitKind.setting?_eq_some_iff.1 (beq_iff_eq.1 hnamed))
  have hthis : (kind.setting? key == some s) = true := by
    rw [LimitKind.setting?_eq_some_iff.2 hkey]
    exact beq_self_eq_true _
  rw [inForce, List.filter_append, List.filter_cons, if_pos hthis, hafter, List.getLast?_concat]
  rfl

theorem firstUnknown?_of_known (h : ∀ e ∈ options, kind.Knows e.1) :
    options.firstUnknown? kind = none :=
  firstUnknown?_eq_none fun e he => LimitKind.setting?_ne_none_iff.2 (h e he)

theorem firstUnknown?_of_unknown (hbefore : ∀ e ∈ before, kind.Knows e.1)
    (hkey : ¬ kind.Knows key) :
    firstUnknown? kind (before ++ (key, v) :: after) = some key := by
  have hnone : kind.setting? key = none := by
    by_contra h
    exact hkey (LimitKind.setting?_ne_none_iff.1 h)
  rw [firstUnknown?_append, firstUnknown?_of_known hbefore, firstUnknown?_cons_unknown hnone]
  rfl

/-- Options all have known names or there is a first that has not. -/
theorem known_or_first_unknown (kind : LimitKind) (options : Settings) :
    (∀ e ∈ options, kind.Knows e.1) ∨ ∃ before key v after,
      options = before ++ (key, v) :: after ∧ (∀ e ∈ before, kind.Knows e.1) ∧
        ¬ kind.Knows key := by
  induction options with
  | nil => simp
  | cons e options ih =>
    obtain ⟨key, v⟩ := e
    by_cases hkey : kind.Knows key
    · rcases ih with hall | ⟨before, other, w, after, rfl, hbefore, hother⟩
      · exact .inl (List.forall_mem_cons.2 ⟨hkey, hall⟩)
      · exact .inr ⟨(key, v) :: before, other, w, after, rfl,
          List.forall_mem_cons.2 ⟨hkey, hbefore⟩, hother⟩
    · exact .inr ⟨[], key, v, options, rfl, by simp, hkey⟩

end Settings

/-! ## Limits from options -/

/-- What makes limits of a kind from options: it succeeds exactly if all names are known and all values
in force are of the kinds that the settings ask for. The first unknown name is to blame whatever the
values are; otherwise the first setting in order whose value is not of its kind is. -/
structure LimitKind.Validates {α : Type} (kind : LimitKind) (make : Settings → Except Failure α) :
    Prop where
  accepts : ∀ options, (∃ l, make options = .ok l) ↔
    (∀ e ∈ options, kind.Knows e.1) ∧ ∀ s ∈ kind.settings, s.Accepts (options.inForce kind s)
  unknown : ∀ before key v after, (∀ e ∈ before, kind.Knows e.1) → ¬ kind.Knows key →
    make (before ++ (key, v) :: after) = .error (.configuration (.unknownOption key kind))
  refused : ∀ options : Settings, (∀ e ∈ options, kind.Knows e.1) →
    ∀ before s after, kind.checked = before ++ s :: after →
      (∀ t ∈ before, t.Accepts (options.inForce kind t)) → ¬ s.Accepts (options.inForce kind s) →
        ∃ f, make options = .error f ∧ f.Blames s (options.inForce kind s) ∧
          ∀ c, f = .configuration c → c.option = s.key

theorem LimitKind.validates {α : Type} {kind : LimitKind} {make : Assignment → Except Failure α}
    (hmake : ∀ a, ChecksInOrder (make a) kind.checked a.value) :
    kind.Validates fun options => Assignment.ofOptions kind options >>= make := by
  have hknown (options : Settings) (h : ∀ e ∈ options, kind.Knows e.1) :
      ChecksInOrder (Assignment.ofOptions kind options >>= make) kind.checked
        (options.inForce kind) := by
    rw [Assignment.ofOptions_eq, Settings.firstUnknown?_of_known h]
    have hvalue : (options.assigned kind).value = options.inForce kind :=
      funext fun s => Settings.value_assigned s
    exact hvalue ▸ hmake (options.assigned kind)
  have hunknown (before : Settings) (key : String) (v : Value) (after : Settings)
      (hbefore : ∀ e ∈ before, kind.Knows e.1) (hkey : ¬ kind.Knows key) :
      (Assignment.ofOptions kind (before ++ (key, v) :: after) >>= make) =
        .error (.configuration (.unknownOption key kind)) := by
    rw [Assignment.ofOptions_eq, Settings.firstUnknown?_of_unknown hbefore hkey]
    rfl
  constructor
  case accepts =>
    intro options
    rw [LimitKind.accepts_settings_iff]
    constructor
    · rintro ⟨l, hl⟩
      rcases options.known_or_first_unknown kind with h | ⟨before, key, v, after, rfl, hbefore, hkey⟩
      · exact ⟨h, (hknown options h).ok_iff.1 ⟨l, hl⟩⟩
      · cases hl.symm.trans (hunknown before key v after hbefore hkey)
    · rintro ⟨h, haccepts⟩
      exact (hknown options h).ok haccepts
  case unknown => exact hunknown
  case refused =>
    intro options h before s after hsplit hbefore hrefused
    obtain ⟨f, hf, hblames⟩ := (hknown options h).blames before s after hsplit hbefore hrefused
    refine ⟨f, hf, hblames, ?_⟩
    rintro c rfl
    exact hblames.option

/-- Two values are not of their kind here; of the two for the same setting the later one counts. -/
def muddledOptions : Settings := [
  ("on_accept", .null), ("allowList", .text "ab"), ("onAccept", .list [.hook ⟨"log", none, 0⟩, .int 1])]

end QueryBounds
