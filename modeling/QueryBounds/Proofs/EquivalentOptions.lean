import QueryBounds.Proofs.ValidOptions
import QueryBounds.Proofs.ValueEquality

/-!
# Options that come to the same

Options may be written in many ways: in either spelling, in any order, with or without those that are at
their defaults, with a hook or a list of that one hook, with allowed aliases in any order and
repeated. Each way of rewriting them keeps the names known and every setting named at most once, and of
the value in force for a setting it changes nothing that the setting can tell. So does any combination.
-/
namespace QueryBounds

/-! ## Rewriting options -/

namespace Settings

/-- Options with known names only that name no setting twice. -/
structure NamesOnce (kind : LimitKind) (options : Settings) : Prop where
  known : ∀ e ∈ options, kind.Knows e.1
  once : (options.map fun e => kind.setting? e.1).Nodup

/-- One rewriting of options: an option in its other spelling, the options in another order, one left
out that is equal to its default, a hook as the list of it, or allowed aliases with the same entries. -/
inductive Rewrites (kind : LimitKind) : Settings → Settings → Prop
  | respelled {before after : Settings} {key other : String} {v : Value} {s : SettingName}
    (hkey : kind.Names key s) (hother : kind.Names other s) :
    Rewrites kind (before ++ (key, v) :: after) (before ++ (other, v) :: after)
  | reordered {xs ys : Settings} (h : xs.Perm ys) : Rewrites kind xs ys
  | dropped {before after : Settings} {key : String} {v : Value} {s : SettingName}
    (hkey : kind.Names key s) (hv : v.same s.default = true)
    (hother : ∀ e ∈ before ++ after, ¬ kind.Names e.1 s) :
    Rewrites kind (before ++ (key, v) :: after) (before ++ after)
  | wrapped {before after : Settings} {key : String} {h : Hook} {s : SettingName}
    (hkey : kind.Names key s) (hs : s = .onAccept ∨ s = .onReject) :
    Rewrites kind (before ++ (key, .hook h) :: after) (before ++ (key, .list [.hook h]) :: after)
  | relisted {before after : Settings} {key : String} {v w : Value} {xs ys : List Value}
    (hkey : kind.Names key .allowList) (hv : allowedEntries? v = some xs)
    (hw : allowedEntries? w = some ys) (h : ∀ x, x ∈ xs ↔ x ∈ ys) :
    Rewrites kind (before ++ (key, v) :: after) (before ++ (key, w) :: after)

/-- Options that come from each other by any combination of rewritings, in either direction. -/
abbrev Equivalent (kind : LimitKind) : Settings → Settings → Prop :=
  Relation.EqvGen (Rewrites kind)

end Settings

/-- The entries of a value for the allowed aliases as a set, if it has any to speak of. -/
def allowedSet? (v : Value) : Option (Set Value) :=
  (allowedEntries? v).map fun items => {x | x ∈ items}

/-- Values that a setting does not tell apart: hooks with the same entries, allowed aliases with the
same set of entries, and otherwise the same value or values equal to the default. -/
def SettingName.Alike : SettingName → Value → Value → Prop
  | n, v, w => v = w
  | onAccept, v, w => hookEntries v = hookEntries w
  | onReject, v, w => hookEntries v = hookEntries w
  | allowList, v, w => allowedSet? v = allowedSet? w
  | s, v, w => v = w ∨ v.same s.default = true ∧ w.same s.default = true

namespace SettingName.Alike

variable {s : SettingName} {u v w : Value}

theorem refl (s : SettingName) (v : Value) : s.Alike v v := by
  cases s with
  | n => exact rfl
  | onAccept => exact rfl
  | onReject => exact rfl
  | allowList => exact rfl
  | _ => exact .inl rfl

theorem symm (h : s.Alike v w) : s.Alike w v := by
  cases s with
  | n => exact Eq.symm h
  | onAccept => exact Eq.symm h
  | onReject => exact Eq.symm h
  | allowList => exact Eq.symm h
  | _ => exact h.imp Eq.symm And.symm

theorem trans (h : s.Alike u v) (h' : s.Alike v w) : s.Alike u w := by
  cases s with
  | n => exact Eq.trans h h'
  | onAccept => exact Eq.trans h h'
  | onReject => exact Eq.trans h h'
  | allowList => exact Eq.trans h h'
  | _ =>
    rcases h with rfl | ⟨hu, hv⟩
    · exact h'
    · rcases h' with rfl | ⟨-, hw⟩
      · exact .inr ⟨hu, hv⟩
      · exact .inr ⟨hu, hw⟩

/-- A value equal to its default is not told apart from it. -/
theorem of_same_default (h : v.same s.default = true) : s.Alike v s.default := by
  cases s with
  | n => exact Value.eq_null_of_same h
  | onAccept => exact congrArg hookEntries (Value.eq_nil_of_same h)
  | onReject => exact congrArg hookEntries (Value.eq_nil_of_same h)
  | allowList => exact congrArg allowedSet? (Value.eq_nil_of_same h)
  | _ => exact .inr ⟨h, rfl⟩

/-- Messages that are not told apart are the same. -/
theorem message (h : SettingName.errorMessage.Alike v w) : v = w := by
  rcases h with rfl | ⟨hv, hw⟩
  · rfl
  · exact (Value.eq_text_of_same hv).trans (Value.eq_text_of_same hw).symm

/-- Of values that are not told apart a setting accepts both or neither. -/
theorem accepts_iff (h : s.Alike v w) : s.Accepts v ↔ s.Accepts w := by
  cases s with
  | n =>
    obtain rfl : v = w := h
    exact Iff.rfl
  | onAccept =>
    change v.GivesHooks ↔ w.GivesHooks
    have hentries : hookEntries v = hookEntries w := h
    rw [givesHooks_iff, givesHooks_iff, hentries]
  | onReject =>
    change v.GivesHooks ↔ w.GivesHooks
    have hentries : hookEntries v = hookEntries w := h
    rw [givesHooks_iff, givesHooks_iff, hentries]
  | allowList =>
    have hnames (u : Value) : u.GivesNames ↔ ∃ names, allowedSet? u = some names ∧
        ∀ item ∈ names, ∃ text, item = .text text := by
      rw [givesNames_iff, allowedSet?]
      simp
    change v.GivesNames ↔ w.GivesNames
    have hset : allowedSet? v = allowedSet? w := h
    rw [hnames, hnames, hset]
  | _ => exact Iff.rfl

end SettingName.Alike

theorem LimitKind.Names.unique {kind : LimitKind} {text : String} {s t : SettingName}
    (hs : kind.Names text s) (ht : kind.Names text t) : s = t :=
  Option.some.inj
    ((LimitKind.setting?_eq_some_iff.2 hs).symm.trans (LimitKind.setting?_eq_some_iff.2 ht))

namespace Settings

variable {kind : LimitKind} {xs ys before after : Settings} {key other : String} {v w : Value}
  {s : SettingName}

theorem inForce_of_other (hkey : ¬ kind.Names key s) :
    inForce kind (before ++ (key, v) :: after) s = inForce kind (before ++ after) s := by
  have hthis : ¬ (kind.setting? key == some s) = true := fun hnamed =>
    hkey (LimitKind.setting?_eq_some_iff.1 (beq_iff_eq.1 hnamed))
  rw [inForce, inForce, List.filter_append, List.filter_append, List.filter_cons, if_neg hthis]

/-- Among options that name no setting twice, one option and the others. -/
theorem namesOnce_middle (hkey : kind.Names key s) :
    NamesOnce kind (before ++ (key, v) :: after) ↔
      (∀ e ∈ before ++ after, ¬ kind.Names e.1 s) ∧ NamesOnce kind (before ++ after) := by
  have hnew : kind.setting? key ∉ (before ++ after).map (fun e => kind.setting? e.1) ↔
      ∀ e ∈ before ++ after, ¬ kind.Names e.1 s := by
    rw [LimitKind.setting?_eq_some_iff.2 hkey]
    simp only [List.mem_map, not_exists, not_and, LimitKind.setting?_eq_some_iff]
  have honce : ((before ++ (key, v) :: after).map fun e => kind.setting? e.1).Nodup ↔
      (∀ e ∈ before ++ after, ¬ kind.Names e.1 s) ∧
        ((before ++ after).map fun e => kind.setting? e.1).Nodup := by
    rw [List.map_append, List.map_cons, List.nodup_middle, List.nodup_cons, ← List.map_append, hnew]
  have hknown : (∀ e ∈ before ++ (key, v) :: after, kind.Knows e.1) ↔
      ∀ e ∈ before ++ after, kind.Knows e.1 := by
    rw [List.forall_mem_append, List.forall_mem_cons, List.forall_mem_append]
    exact and_congr_right fun _ => and_iff_right ⟨s, hkey⟩
  constructor
  · intro h
    exact ⟨(honce.1 h.once).1, hknown.1 h.known, (honce.1 h.once).2⟩
  · rintro ⟨hothers, h⟩
    exact ⟨hknown.2 h.known, honce.2 ⟨hothers, h.once⟩⟩

theorem NamesOnce.inForce_middle (h : NamesOnce kind (before ++ (key, v) :: after))
    (hkey : kind.Names key s) : inForce kind (before ++ (key, v) :: after) s = v :=
  inForce_of_last hkey fun e he => ((namesOnce_middle hkey).1 h).1 e (List.mem_append_right _ he)

/-- One option may stand in the place of another that names the same setting. -/
theorem namesOnce_replace (hkey : kind.Names key s) (hother : kind.Names other s) :
    NamesOnce kind (before ++ (key, v) :: after) ↔
      NamesOnce kind (before ++ (other, w) :: after) :=
  (namesOnce_middle hkey).trans (namesOnce_middle hother).symm

theorem NamesOnce.alike_replace (h : NamesOnce kind (before ++ (key, v) :: after))
    (hkey : kind.Names key s) (hother : kind.Names other s) (hvw : s.Alike v w) (t : SettingName) :
    t.Alike (inForce kind (before ++ (key, v) :: after) t)
      (inForce kind (before ++ (other, w) :: after) t) := by
  -- No other option names this setting, and neither of the two names another one.
  by_cases ht : t = s
  · subst ht
    have h' : NamesOnce kind (before ++ (other, w) :: after) := (namesOnce_replace hkey hother).1 h
    rw [h.inForce_middle hkey, h'.inForce_middle hother]
    exact hvw
  · have hkeyt : ¬ kind.Names key t := fun hnamed => ht (hnamed.unique hkey)
    have hothert : ¬ kind.Names other t := fun hnamed => ht (hnamed.unique hother)
    rw [inForce_of_other hkeyt, inForce_of_other hothert]
    exact .refl t _

theorem NamesOnce.alike_drop (h : NamesOnce kind (before ++ (key, v) :: after))
    (hkey : kind.Names key s) (hv : v.same s.default = true) (t : SettingName) :
    t.Alike (inForce kind (before ++ (key, v) :: after) t) (inForce kind (before ++ after) t) := by
  by_cases ht : t = s
  · subst ht
    rw [h.inForce_middle hkey, inForce_of_unnamed ((namesOnce_middle hkey).1 h).1]
    exact .of_same_default hv
  · have hkeyt : ¬ kind.Names key t := fun hnamed => ht (hnamed.unique hkey)
    rw [inForce_of_other hkeyt]
    exact .refl t _

theorem namesOnce_perm (h : xs.Perm ys) : xs.NamesOnce kind ↔ ys.NamesOnce kind := by
  constructor
  · rintro ⟨hknown, honce⟩
    exact ⟨fun e he => hknown e (h.mem_iff.2 he), (h.map _).nodup_iff.1 honce⟩
  · rintro ⟨hknown, honce⟩
    exact ⟨fun e he => hknown e (h.mem_iff.1 he), (h.map _).nodup_iff.2 honce⟩

/-- The order of options that name no setting twice makes no difference. -/
theorem NamesOnce.inForce_perm (hx : xs.NamesOnce kind) (h : xs.Perm ys) (s : SettingName) :
    xs.inForce kind s = ys.inForce kind s := by
  by_cases hnamed : ∃ e ∈ xs, kind.Names e.1 s
  · obtain ⟨⟨key, v⟩, he, hkey⟩ := hnamed
    have hy := (namesOnce_perm h).1 hx
    obtain ⟨before, after, rfl⟩ := List.append_of_mem he
    obtain ⟨before', after', rfl⟩ := List.append_of_mem (h.mem_iff.1 he)
    rw [hx.inForce_middle hkey, hy.inForce_middle hkey]
  · have hx' : ∀ e ∈ xs, ¬ kind.Names e.1 s := fun e he hkey => hnamed ⟨e, he, hkey⟩
    have hy' : ∀ e ∈ ys, ¬ kind.Names e.1 s := fun e he => hx' e (h.mem_iff.2 he)
    rw [inForce_of_unnamed hx', inForce_of_unnamed hy']

/-- A rewriting keeps the settings named once, and no setting tells the values in force apart. -/
theorem Rewrites.keeps (h : Rewrites kind xs ys) : (xs.NamesOnce kind ↔ ys.NamesOnce kind) ∧
    (xs.NamesOnce kind → ∀ s : SettingName, s.Alike (xs.inForce kind s) (ys.inForce kind s)) := by
  cases h with
  | respelled hkey hother =>
    exact ⟨namesOnce_replace hkey hother, fun hx => hx.alike_replace hkey hother (.refl _ _)⟩
  | reordered h =>
    exact ⟨namesOnce_perm h, fun hx s => hx.inForce_perm h s ▸ .refl s _⟩
  | dropped hkey hv hnew =>
    refine ⟨(namesOnce_middle hkey).trans (and_iff_right hnew), fun hx => hx.alike_drop hkey hv⟩
  | wrapped hkey hs =>
    refine ⟨namesOnce_replace hkey hkey, fun hx => hx.alike_replace hkey hkey ?_⟩
    rcases hs with rfl | rfl <;> exact rfl
  | relisted hkey hv hw h =>
    refine ⟨namesOnce_replace hkey hkey, fun hx => hx.alike_replace hkey hkey ?_⟩
    change allowedSet? _ = allowedSet? _
    rw [allowedSet?, allowedSet?, hv, hw]
    exact congrArg some (Set.ext h)

/-- So does any combination of rewritings. -/
theorem Equivalent.keeps (h : Equivalent kind xs ys) : (xs.NamesOnce kind ↔ ys.NamesOnce kind) ∧
    (xs.NamesOnce kind → ∀ s : SettingName, s.Alike (xs.inForce kind s) (ys.inForce kind s)) := by
  induction h with
  | rel xs ys h => exact h.keeps
  | refl xs => exact ⟨Iff.rfl, fun _ s => .refl s _⟩
  | symm xs ys _ ih => exact ⟨ih.1.symm, fun hy s => (ih.2 (ih.1.2 hy) s).symm⟩
  | trans xs ys zs _ _ ihxy ihyz =>
    exact ⟨ihxy.1.trans ihyz.1, fun hx s => (ihxy.2 hx s).trans (ihyz.2 (ihxy.1.1 hx) s)⟩

end Settings
end QueryBounds
