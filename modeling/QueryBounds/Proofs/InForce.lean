import QueryBounds.Limit.Options

/-!
# What a limit reads from its options

Of a list of options a limit takes in no more than two things: the first name that it does not know,
which is to blame whatever the values are, and otherwise the value in force for each of its
settings, that of the last option which names it in either spelling. Two lists that agree in these
make the same limit or fail alike, however they are spelled and ordered.
-/
namespace QueryBounds

namespace LimitKind

/-- A text that names a setting is one of its two spellings. -/
theorem spelling_of_setting? {kind : LimitKind} {text : String} {s : SettingName}
    (h : kind.setting? text = some s) : text = s.key ∨ s.camelKey? = some text := by
  have hspelled := List.find?_some h
  simp only [SettingName.isSpelled, Bool.or_eq_true, beq_iff_eq] at hspelled
  exact hspelled.imp Eq.symm id

end LimitKind

namespace Settings

/-- The first name that is no setting of the limit. -/
def firstUnknown? (kind : LimitKind) (options : Settings) : Option String :=
  (options.find? fun e => (kind.setting? e.1).isNone).map (·.1)

/-- The value of a setting after all options: that of the last one which names it, or its default. -/
def inForce (kind : LimitKind) (options : Settings) (s : SettingName) : Value :=
  ((options.filter fun e => kind.setting? e.1 == some s).getLast?.map (·.2)).getD s.default

/-- Two lists of options that a limit cannot tell apart. -/
structure ReadAlike (kind : LimitKind) (xs ys : Settings) : Prop where
  unknown : xs.firstUnknown? kind = ys.firstUnknown? kind
  value : ∀ s, xs.inForce kind s = ys.inForce kind s

/-- What options assign, those with an unknown name left out. -/
def assigned (kind : LimitKind) (options : Settings) : Assignment :=
  options.filterMap fun e => (kind.setting? e.1).map (·, e.2)

variable {kind : LimitKind} {xs ys : Settings} {key : String} {v : Value} {s : SettingName}

theorem firstUnknown?_cons_unknown (h : kind.setting? key = none) :
    firstUnknown? kind ((key, v) :: xs) = some key := by
  simp [firstUnknown?, h]

theorem firstUnknown?_cons_known (h : kind.setting? key = some s) :
    firstUnknown? kind ((key, v) :: xs) = xs.firstUnknown? kind := by
  simp [firstUnknown?, h]

theorem firstUnknown?_eq_none (h : ∀ e ∈ xs, kind.setting? e.1 ≠ none) :
    xs.firstUnknown? kind = none := by
  rw [firstUnknown?, Option.map_eq_none_iff, List.find?_eq_none]
  intro e he
  simpa using h e he

theorem firstUnknown?_append :
    firstUnknown? kind (xs ++ ys) = (xs.firstUnknown? kind).or (ys.firstUnknown? kind) := by
  rw [firstUnknown?, List.find?_append]
  cases h : List.find? (fun e => (kind.setting? e.1).isNone) xs <;> simp [firstUnknown?, h]

/-- Names that the limit knows can be left out without a difference to which unknown one is first. -/
theorem firstUnknown?_filter {keep : String × Value → Bool}
    (h : ∀ e, kind.setting? e.1 = none → keep e = true) :
    firstUnknown? kind (xs.filter keep) = xs.firstUnknown? kind := by
  induction xs with
  | nil => rfl
  | cons e xs ih =>
    rw [List.filter_cons]
    cases hs : kind.setting? e.1 with
    | none => rw [if_pos (h e hs), firstUnknown?_cons_unknown hs, firstUnknown?_cons_unknown hs]
    | some s =>
      rw [firstUnknown?_cons_known hs]
      split
      · rw [firstUnknown?_cons_known hs, ih]
      · exact ih

theorem value_assigned (s : SettingName) : (xs.assigned kind).value s = xs.inForce kind s := by
  have hfilter : (xs.assigned kind).filter (·.1 == s) =
      (xs.filter fun e => kind.setting? e.1 == some s).map fun e => (s, e.2) := by
    induction xs with
    | nil => rfl
    | cons e xs ih =>
      unfold assigned at ih ⊢
      cases hs : kind.setting? e.1 with
      | none => simpa [List.filterMap_cons, List.filter_cons, hs] using ih
      | some t =>
        by_cases ht : t = s
        · simpa [List.filterMap_cons, List.filter_cons, hs, ht] using ih
        · simpa [List.filterMap_cons, List.filter_cons, hs, ht] using ih
  rw [Assignment.value, hfilter, List.getLast?_map, Option.map_map, inForce]
  rfl

end Settings

/-- Options make an assignment unless one of them has an unknown name; then the first such name is
to blame. -/
theorem Assignment.ofOptions_eq (kind : LimitKind) (options : Settings) :
    Assignment.ofOptions kind options =
      match options.firstUnknown? kind with
      | some key => .error (.configuration (.unknownOption key kind))
      | none => .ok (options.assigned kind) := by
  induction options with
  | nil => rfl
  | cons e options ih =>
    obtain ⟨key, v⟩ := e
    unfold Assignment.ofOptions at ih ⊢
    rw [List.mapM_cons, ih]
    cases hs : kind.setting? key with
    | none =>
      simp only [Settings.firstUnknown?_cons_unknown hs, hs]
      rfl
    | some s =>
      have hassigned : Settings.assigned kind ((key, v) :: options) =
          (s, v) :: Settings.assigned kind options := by
        simp [Settings.assigned, hs]
      simp only [Settings.firstUnknown?_cons_known hs, hassigned, hs]
      cases Settings.firstUnknown? kind options <;> rfl

/-! ## Options that are read alike make the same limit -/

section Alike

variable {xs ys : Settings} {a b : Assignment}

theorem Limit.ofAssignment_congr (h : ∀ s, a.value s = b.value s) :
    Limit.ofAssignment a = Limit.ofAssignment b := by
  simp only [Limit.ofAssignment, h]

theorem AliasLimit.ofAssignment_congr (h : ∀ s, a.value s = b.value s) :
    AliasLimit.ofAssignment a = AliasLimit.ofAssignment b := by
  simp only [AliasLimit.ofAssignment, Limit.ofAssignment_congr h, h]

theorem DepthLimit.ofAssignment_congr (h : ∀ s, a.value s = b.value s) :
    DepthLimit.ofAssignment a = DepthLimit.ofAssignment b := by
  simp only [DepthLimit.ofAssignment, Limit.ofAssignment_congr h, h]

/-- What is made of the values of an assignment does not tell apart options that are read alike. -/
theorem Assignment.ofOptions_bind_congr {kind : LimitKind} {α : Type}
    {make : Assignment → Except Failure α}
    (hmake : ∀ a b : Assignment, (∀ s, a.value s = b.value s) → make a = make b)
    (h : xs.ReadAlike kind ys) :
    (Assignment.ofOptions kind xs >>= make) = Assignment.ofOptions kind ys >>= make := by
  rw [Assignment.ofOptions_eq, Assignment.ofOptions_eq, h.unknown]
  cases ys.firstUnknown? kind with
  | some key => rfl
  | none =>
    refine hmake _ _ fun s => ?_
    rw [Settings.value_assigned, Settings.value_assigned, h.value]

theorem AliasLimit.ofOptions_congr (h : xs.ReadAlike .aliases ys) :
    AliasLimit.ofOptions xs = AliasLimit.ofOptions ys :=
  Assignment.ofOptions_bind_congr (fun _ _ => AliasLimit.ofAssignment_congr) h

theorem DepthLimit.ofOptions_congr (h : xs.ReadAlike .depth ys) :
    DepthLimit.ofOptions xs = DepthLimit.ofOptions ys :=
  Assignment.ofOptions_bind_congr (fun _ _ => DepthLimit.ofAssignment_congr) h

end Alike
end QueryBounds
