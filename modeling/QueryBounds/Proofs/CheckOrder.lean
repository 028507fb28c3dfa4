import QueryBounds.Proofs.CallOrder
import QueryBounds.Proofs.Recording

/-!
# One limit after the other

A check settles the alias limit and then the depth limit. Each has calls to make and violations to
pass on that depend on itself and the document alone. The first failure among all these calls ends
the check; without one it returns the one part followed by the other. Whether violations are passed
on and how they are worded changes neither the calls nor what they are told in numbers and nodes.
-/
namespace QueryBounds

namespace EitherLimit

/-- What a limit does about a document: the calls it has to make and the violations it passes on. -/
inductive Settles (l : EitherLimit) (d : Document) : List Call → List Violation → Prop where
  | accepted (h : ¬ l.Exceeded d) : Settles l d (l.callsOf l.shared.onAccept (.document d)) []
  | rejected (v : Violation) (h : l.Exceeded d) (hv : l.violation? d = some v) :
      Settles l d (l.callsOf l.shared.onReject (.violation v))
        (if l.shared.propagate.holds then [v] else [])

theorem settles (l : EitherLimit) (d : Document) : l.Settles d (l.due d) (l.passedOn d) := by
  unfold due passedOn
  have hsome := l.isSome_violation? d
  cases hv : l.violation? d with
  | none =>
    simp only [Option.toList_none, ite_self]
    exact .accepted (by simpa [hv] using hsome)
  | some v => exact .rejected v (hsome.1 (by simp [hv])) hv

end EitherLimit

/-! ## Wordings -/

/-- The settings that decide what a client is told of violations. -/
structure Wording where
  propagate : Value
  exposeLimits : Value
  errorMessage : Value

/-- A violation without its words. -/
def Violation.unworded (v : Violation) : Violation := { v with message := .null, exposed := false }

def Subject.unworded : Subject → Subject
  | .document d => .document d
  | .violation v => .violation v.unworded

/-- A call without what wording decides: the hook, which limit it is called for, and what it is told
about. -/
def Call.outline (c : Call) : Hook × LimitKind × Subject := (c.hook, c.limit.kind, c.subject.unworded)

def AliasLimit.reworded (l : AliasLimit) (w : Wording) : AliasLimit := { l with
  propagate := w.propagate, exposeLimits := w.exposeLimits, errorMessage := w.errorMessage }

def DepthLimit.reworded (l : DepthLimit) (w : Wording) : DepthLimit := { l with
  propagate := w.propagate, exposeLimits := w.exposeLimits, errorMessage := w.errorMessage }

/-- A guard whose limits are worded in another way, each in its own. -/
def Guard.reworded (g : Guard) (aliases depth : Wording) : Guard :=
  { g with aliases := g.aliases.reworded aliases, depth := g.depth.reworded depth }

namespace Call

theorem failure?_outline {c e : Call} (h : c.outline = e.outline) : c.failure? = e.failure? := by
  have hhook : c.hook = e.hook := congrArg Prod.fst h
  rw [failure?, failure?, hhook]

/-- Calls of the same hooks are made up to the same one. -/
theorem made_outline {cs es : List Call} (h : cs.map outline = es.map outline) :
    (made cs).map outline = (made es).map outline := by
  induction cs generalizing es with
  | nil =>
    cases es with
    | nil => rfl
    | cons e es => cases h
  | cons c cs ih =>
    cases es with
    | nil => cases h
    | cons e es =>
      obtain ⟨hc, hcs⟩ := List.cons_eq_cons.1 h
      have hfailure := failure?_outline hc
      cases hf : c.failure? with
      | none =>
        rw [made_cons_of_quiet hf, made_cons_of_quiet (hfailure ▸ hf), List.map_cons, List.map_cons,
          hc, ih hcs]
      | some f =>
        rw [made_cons_of_raised hf, made_cons_of_raised (hfailure ▸ hf), List.map_singleton,
          List.map_singleton, hc]

end Call

namespace EitherLimit

variable {l m : EitherLimit} {d : Document}

/-- Two limits of a kind that have the same hooks and find the same but for the words. -/
structure SameApartFromWords (l m : EitherLimit) (d : Document) : Prop where
  kind : l.kind = m.kind
  onAccept : l.shared.onAccept = m.shared.onAccept
  onReject : l.shared.onReject = m.shared.onReject
  violation : (l.violation? d).map Violation.unworded = (m.violation? d).map Violation.unworded

theorem outline_callsOf (l : EitherLimit) (hooks : List Hook) (subject : Subject) :
    (l.callsOf hooks subject).map Call.outline =
      hooks.map fun h => (h, l.kind, subject.unworded) := by
  rw [callsOf, List.map_map]
  rfl

theorem SameApartFromWords.due (h : SameApartFromWords l m d) :
    (l.due d).map Call.outline = (m.due d).map Call.outline := by
  have hviolation := h.violation
  unfold EitherLimit.due
  cases hl : l.violation? d with
  | none =>
    cases hm : m.violation? d with
    | none => rw [outline_callsOf, outline_callsOf, h.kind, h.onAccept]
    | some w => simp [hl, hm] at hviolation
  | some v =>
    cases hm : m.violation? d with
    | none => simp [hl, hm] at hviolation
    | some w =>
      have hwords : v.unworded = w.unworded := by simpa [hl, hm] using hviolation
      simp only [outline_callsOf, h.kind, h.onReject, Subject.unworded, hwords]

theorem sameApartFromWords_aliases (l : AliasLimit) (w : Wording) (d : Document) :
    SameApartFromWords (.aliases (l.reworded w)) (.aliases l) d where
  kind := rfl
  onAccept := rfl
  onReject := rfl
  violation := by
    simp only [violation?, Option.map_bind, Function.comp_def, Option.map_map]
    rfl

theorem sameApartFromWords_depth (l : DepthLimit) (w : Wording) (d : Document) :
    SameApartFromWords (.depth (l.reworded w)) (.depth l) d where
  kind := rfl
  onAccept := rfl
  onReject := rfl
  violation := by
    simp only [violation?, Option.map_bind, Function.comp_def, Option.map_map]
    rfl

end EitherLimit

/-! ## Both limits -/

theorem makes_bothLimits (a : AliasLimit) (l : DepthLimit) (d : Document) :
    (bothLimits a l d).Makes ((EitherLimit.aliases a).due d ++ (EitherLimit.depth l).due d)
      ((EitherLimit.aliases a).passedOn d ++ (EitherLimit.depth l).passedOn d) :=
  (a.makes_validate d).bind ((l.makes_validate d).bind_quiet (Run.makes_pure _))

namespace Guard

theorem check_run (g : Guard) (q : Query) : (g.check q).1 = g.checkRun q := by
  rw [check, call_of_records (g.checking_records q)]

theorem makes_check (g : Guard) (d : Document) :
    (g.check (.document d)).1.Makes
      ((EitherLimit.aliases g.aliases).due d ++ (EitherLimit.depth g.depth).due d)
      ((EitherLimit.aliases g.aliases).passedOn d ++ (EitherLimit.depth g.depth).passedOn d) := by
  rw [check_run]
  exact makes_bothLimits g.aliases g.depth d

theorem check_of_load (g : Guard) (q : Query) : g.check q =
    match q.load with
    | .ok d => g.check (.document d)
    | .error f => (.fail f, g) := by
  cases q with
  | document d => rfl
  | text source =>
    unfold check checking
    cases (Query.text source).load <;> rfl

end Guard
end QueryBounds
