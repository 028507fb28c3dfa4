import QueryBounds.Proofs.DepthRejection

/-!
# Limits behind a message

A limit that is not exposed is told to a client by its message alone: whatever the bound and whatever
was found, two rejections cannot be told apart. That takes a message with something in it. An empty
one keeps the bound and the found value out of the entries beside the message, but the message that
stands in for it tells both.
-/
namespace QueryBounds

open Fragment (Index)

namespace Violation

/-- What a client is told of a violation beside its places. -/
def told (v : Violation) : Value × Settings := (v.formattedMessage, v.extensions)

variable (kind : LimitKind) (limit found : Value) (message : String) (nodes : List Node)

theorem extensions_ofLimit_text :
    (ofLimit kind limit found (.text message) nodes).extensions =
      [("code", .text (ViolationKind.limit kind).code)] := rfl

theorem message_ofLimit_empty :
    (ofLimit kind limit found (.text "") nodes).message =
      .text (kind.exceededMessage limit found) := rfl

variable {message}

theorem holds_text (h : message ≠ "") : (Value.text message).holds = true := by
  simpa [Value.holds] using h

theorem message_ofLimit_text (h : message ≠ "") :
    (ofLimit kind limit found (.text message) nodes).message = .text message :=
  if_pos (holds_text h)

theorem told_ofLimit_text (h : message ≠ "") :
    (ofLimit kind limit found (.text message) nodes).told =
      (.text message, [("code", .text (ViolationKind.limit kind).code)]) := by
  rw [told, extensions_ofLimit_text, formattedMessage, message_ofLimit_text _ _ _ _ h,
    if_pos (holds_text h)]

end Violation

/-! ## The violations of a check -/

namespace Limit

/-- At most one violation, with the message that the limit has for hiding behind. -/
def Words (l : Limit) (kind : LimitKind) (vs : List Violation) : Prop :=
  vs = [] ∨ ∃ limit found nodes, vs = [Violation.ofLimit kind limit found l.hiddenMessage nodes]

end Limit

namespace EitherLimit

/-- A check that ends passes on all violations or none. -/
theorem settle_eq_ok {l : EitherLimit} {d : Document} {vs ws : List Violation}
    (h : (l.settle d vs).result = .ok ws) : ws = vs ∨ ws = [] := by
  unfold settle at h
  cases vs with
  | nil =>
    simp only [List.isEmpty_nil, if_true, Run.result_bind] at h
    cases hcall : (Run.callAll (l.callsOf l.shared.onAccept (.document d))).result with
    | error f =>
      rw [hcall] at h
      cases h
    | ok u =>
      rw [hcall] at h
      cases h
      exact .inl rfl
  | cons v vs =>
    simp only [List.isEmpty_cons, Bool.false_eq_true, if_false, Run.result_bind] at h
    cases hreject : (l.reject (v :: vs)).result with
    | error f =>
      rw [hreject] at h
      cases h
    | ok u =>
      rw [hreject] at h
      change (if l.shared.propagate.holds = true then _ else _ : Run (List Violation)).result = _ at h
      split at h
      · cases h
        exact .inl rfl
      · cases h
        exact .inr rfl

end EitherLimit

theorem Limit.Words.settle {l : EitherLimit} {d : Document} {vs ws : List Violation}
    (hv : l.shared.Words l.kind vs) (h : (l.settle d vs).result = .ok ws) :
    l.shared.Words l.kind ws := by
  rcases EitherLimit.settle_eq_ok h with rfl | rfl
  · exact hv
  · exact .inl rfl

theorem AliasLimit.words_of_validate {l : AliasLimit} {d : Document} {vs : List Violation}
    (h : (l.validate d).result = .ok vs) : l.toLimit.Words .aliases vs := by
  have hmeasure : ∃ ws, (l.measure d).result = .ok ws ∧ l.toLimit.Words .aliases ws := by
    unfold measure
    cases hn : l.n with
    | none => exact ⟨[], rfl, .inl rfl⟩
    | some n =>
      refine ⟨_, rfl, ?_⟩
      unfold violation?
      cases (Alias.count d l.allowed (some n)).exceededAt with
      | none => exact .inl rfl
      | some f => exact .inr ⟨_, _, _, rfl⟩
  obtain ⟨ws, hws, hwords⟩ := hmeasure
  rw [validate, Run.result_bind_of_ok hws] at h
  exact Limit.Words.settle (l := .aliases l) hwords h

theorem DepthLimit.words_of_validate {l : DepthLimit} {d : Document} {vs : List Violation}
    (h : (l.validate d).result = .ok vs) : l.toLimit.Words .depth vs := by
  have hmeasure : ∃ ws, (l.measure d).result = .ok ws ∧ l.toLimit.Words .depth ws := by
    unfold measure
    cases hn : l.n with
    | none => exact ⟨[], rfl, .inl rfl⟩
    | some n =>
      refine ⟨_, measureOperations_result l n _ d.operations .start
        Depth.Measurer.soundMemo_start, ?_⟩
      cases d.operations.find? (l.tooDeep (Index.ofDocument d) n) with
      | none => exact .inl rfl
      | some o => exact .inr ⟨_, _, _, rfl⟩
  obtain ⟨ws, hws, hwords⟩ := hmeasure
  rw [validate, Run.result_bind_of_ok hws] at h
  exact Limit.Words.settle (l := .depth l) hwords h

/-! ## What a hidden limit gives away -/

/-- A check, for any bound, hides that bound behind a message: no violation shows numbers beside the
message, and when there is anything in the message it is told as it is, so two rejections are told
alike whatever their bounds and documents are. An empty message gives way to one with the numbers. -/
structure HidesBehind (message : String) (kind : LimitKind)
    (check : Option Nat → Document → Run (List Violation)) : Prop where
  extensions : ∀ n d vs, (check n d).result = .ok vs →
    ∀ v ∈ vs, v.extensions = [("code", .text (ViolationKind.limit kind).code)]
  message_eq : message ≠ "" → ∀ n d vs, (check n d).result = .ok vs →
    ∀ v ∈ vs, v.message = .text message
  told_alike : message ≠ "" → ∀ n n' d d' vs vs', (check n d).result = .ok vs →
    (check n' d').result = .ok vs' → vs ≠ [] → vs' ≠ [] →
    vs.map Violation.told = vs'.map Violation.told
  empty : message = "" → ∀ n d vs, (check n d).result = .ok vs →
    ∀ v ∈ vs, v.message = .text (kind.exceededMessage v.limit v.found)

/-- A limit that is not exposed hides behind its message, even if that is empty. -/
theorem Limit.hiddenMessage_eq {l : Limit} {message : String} (he : l.exposeLimits.holds = false)
    (hm : l.errorMessage = .text message) : l.hiddenMessage = .text message := by
  rw [hiddenMessage, he, hm]
  rfl

/-- A check that words its violations as a limit that is not exposed hides behind its message. -/
theorem Limit.hidesBehind_of_words {l : Limit} {message : String} {kind : LimitKind}
    {check : Option Nat → Document → Run (List Violation)} (he : l.exposeLimits.holds = false)
    (hm : l.errorMessage = .text message)
    (hwords : ∀ n d vs, (check n d).result = .ok vs → { l with n := n }.Words kind vs) :
    HidesBehind message kind check := by
  have h (n : Option Nat) (d : Document) (vs : List Violation) (hvs : (check n d).result = .ok vs) :
      vs = [] ∨ ∃ limit found nodes,
        vs = [Violation.ofLimit kind limit found (.text message) nodes] := by
    have hhidden : { l with n := n }.hiddenMessage = .text message := Limit.hiddenMessage_eq he hm
    have hvwords := hwords n d vs hvs
    rwa [Words, hhidden] at hvwords
  constructor
  case extensions =>
    intro n d vs hvs v hv
    rcases h n d vs hvs with rfl | ⟨limit, found, nodes, rfl⟩
    · cases hv
    · cases List.mem_singleton.1 hv
      exact Violation.extensions_ofLimit_text kind limit found message nodes
  case message_eq =>
    intro hne n d vs hvs v hv
    rcases h n d vs hvs with rfl | ⟨limit, found, nodes, rfl⟩
    · cases hv
    · cases List.mem_singleton.1 hv
      exact Violation.message_ofLimit_text kind limit found nodes hne
  case told_alike =>
    intro hne n n' d d' vs vs' hvs hvs' hsome hsome'
    obtain ⟨limit, found, nodes, rfl⟩ := (h n d vs hvs).resolve_left hsome
    obtain ⟨limit', found', nodes', rfl⟩ := (h n' d' vs' hvs').resolve_left hsome'
    simp only [List.map_cons, List.map_nil, Violation.told_ofLimit_text _ _ _ _ hne]
  case empty =>
    intro hempty n d vs hvs v hv
    subst hempty
    rcases h n d vs hvs with rfl | ⟨limit, found, nodes, rfl⟩
    · cases hv
    · cases List.mem_singleton.1 hv
      exact Violation.message_ofLimit_empty kind limit found nodes

/-- Limits that are not exposed hide their bounds and what they found behind their message. -/
theorem unexposed_limits_hide (message : String) :
    (∀ l : AliasLimit, l.exposeLimits.holds = false → l.errorMessage = .text message →
      HidesBehind message .aliases fun n d => { l with n := n }.validate d) ∧
    ∀ l : DepthLimit, l.exposeLimits.holds = false → l.errorMessage = .text message →
      HidesBehind message .depth fun n d => { l with n := n }.validate d := by
  constructor
  · intro l he hm
    exact Limit.hidesBehind_of_words (l := l.toLimit) he hm fun n d vs hvs =>
      AliasLimit.words_of_validate (l := { l with n := n }) hvs
  · intro l he hm
    exact Limit.hidesBehind_of_words (l := l.toLimit) he hm fun n d vs hvs =>
      DepthLimit.words_of_validate (l := { l with n := n }) hvs

namespace DepthLimit

/-- A limit that is not exposed, without a bound so far. -/
def unexposed (message : String) : DepthLimit :=
  { unlimited with exposeLimits := .bool false, errorMessage := .text message }

theorem looped_refusals_told_alike :
    ∃ v w, ({ unexposed "Refused." with n := some 3 }.validate looped).result = .ok [v] ∧
      ({ unexposed "Refused." with n := some 4 }.validate looped).result = .ok [w] ∧
      v.found = .int 4 ∧ w.found = .int 5 ∧ v.told = w.told := by
  have hhide := (unexposed_limits_hide "Refused.").2 (unexposed "Refused.") rfl rfl
  have hv : ({ unexposed "Refused." with n := some 3 }.validate looped).result =
      .ok [Violation.ofLimit .depth (.int 3) (.int 4) (.text "Refused.")
        [.field ⟨none, "__schema", none⟩]] := by cbv
  have hw : ({ unexposed "Refused." with n := some 4 }.validate looped).result =
      .ok [Violation.ofLimit .depth (.int 4) (.int 5) (.text "Refused.")
        [.spread ⟨"F", none⟩]] := by cbv
  have htold := hhide.told_alike (by decide) (some 3) (some 4) looped looped _ _ hv hw
    (List.cons_ne_nil _ _) (List.cons_ne_nil _ _)
  exact ⟨_, _, hv, hw, rfl, rfl, List.head_eq_of_cons_eq htold⟩

/-- Behind an empty message the bound and the found value are told after all. -/
theorem empty_message_hides_nothing :
    ∃ v, ({ unexposed "" with n := some 3 }.validate looped).result = .ok [v] ∧
      v.message = .text "Query depth limit of 3 exceeded, found 4." := by
  have hdepth : Depth.ofOperation (Index.ofDocument looped) false schemaQuery = 4 := by cbv
  have hdeep : { unexposed "" with n := some 3 }.tooDeep (Index.ofDocument looped) 3 schemaQuery =
      true := by cbv
  have hfind : looped.operations.find?
      ({ unexposed "" with n := some 3 }.tooDeep (Index.ofDocument looped) 3) = some schemaQuery :=
    List.find?_cons_of_pos hdeep
  have hresult := validate_result looped (l := { unexposed "" with n := some 3 }) rfl rfl
    (Limit.quiet_of_no_hooks rfl rfl _)
  -- The check is evaluated no further than to its violation: its message is a text with numbers, which
  -- the general lemma on empty messages gives at less cost.
  rw [hfind] at hresult
  refine ⟨_, hresult, ?_⟩
  calc (tooDeepViolation { unexposed "" with n := some 3 } (Index.ofDocument looped) 3
          schemaQuery).message
      = .text (LimitKind.depth.exceededMessage (.int 3)
          (.int (Depth.ofOperation (Index.ofDocument looped) false schemaQuery))) :=
        Violation.message_ofLimit_empty .depth _ _ _
    _ = .text "Query depth limit of 3 exceeded, found 4." := by
        rw [hdepth]
        rfl

end DepthLimit
end QueryBounds
