import QueryBounds.Proofs.Visiting

/-!
# Programs built of scopes

A scope enters a name, hands its body the answer, and leaves the name again in whichever way the body
comes to its end: behind its last statement, by an early return or by an exception. A scope that the
path refused leaves nothing. Programs are built of scopes by sequence and nesting; a body may look at
the path at any point and go on by what it sees. Whatever the shape of a program, the path is restored
and no cleanup fails, so that a program ends as its text alone says. The path that it starts with may
have come about by any actions, and scopes may still be open on it.
-/
namespace QueryBounds.Path

namespace Scoped

/-- The state after a list of actions. -/
def after (s : Scoped) (actions : List Action) : Scoped :=
  actions.foldl (fun s a => (s.step a).2) s

end Scoped

/-! ## Programs and their runs -/

/-- How a program comes to its end. The last way is that of a cleanup which does not find its name. -/
inductive Exit where
  | passed
  | returned
  | raised (message : String)
  | absent (name : String)
  deriving DecidableEq, Repr

namespace Exit

/-- The action that closes a scope whose body has ended. -/
def closing : Exit → Action
  | passed => .closeScope
  | returned => .closeScope
  | raised message => .raise message
  | absent name => .raise name

/-- What comes out of a scope, from how its body ended and what the cleanup came to. -/
def behind (e : Exit) : Outcome → Exit
  | .absent name => .absent name
  | .raised message =>
    match e with
    | .absent _ => .absent message
    | _ => .raised message
  | _ => e

end Exit

/-- Programs built of scopes. A body goes on by what its scope has yielded. -/
inductive Program where
  | pass
  | stop
  | raise (message : String)
  | look (next : Path → Program)
  | seq (first second : Program)
  | scope (name : String) (body : Bool → Program)

/-- A moment of a run: the scopes around the place that it has reached, outermost first and each with
what it has yielded, and the path. -/
structure Moment where
  around : List (String × Bool)
  path : Path

/-- What a run comes to: how it ends, the state it leaves, and its moments in order. -/
structure Execution where
  exit : Exit
  state : Scoped
  moments : List Moment

namespace Program

/-- Runs a program in the middle of scopes. -/
def run (around : List (String × Bool)) : Program → Scoped → Execution
  | pass, s => ⟨.passed, s, [⟨around, s.path⟩]⟩
  | stop, s => ⟨.returned, s, [⟨around, s.path⟩]⟩
  | raise message, s => ⟨.raised message, s, [⟨around, s.path⟩]⟩
  | look next, s => (next s.path).run around s
  | seq first second, s =>
    let r := first.run around s
    if r.exit = .passed then
      let q := second.run around r.state
      ⟨q.exit, q.state, r.moments ++ q.moments⟩
    else r
  | scope name body, s =>
    let (answer, opened) := s.step (.openScope name)
    let entered := answer == .answer true
    let inside := around ++ [(name, entered)]
    let r := (body entered).run inside opened
    let (outcome, closed) := r.state.step r.exit.closing
    ⟨r.exit.behind outcome, closed,
      ⟨inside, opened.path⟩ :: r.moments ++ [⟨around, closed.path⟩]⟩

/-- How a program ends by its text alone, given the names in force: nothing is cleaned up, and what
ends a body ends all that is around it. -/
def exit (names : List String) : Program → Exit
  | pass => .passed
  | stop => .returned
  | raise message => .raised message
  | look next => (next ⟨names⟩).exit names
  | seq first second =>
    if first.exit names = .passed then second.exit names else first.exit names
  | scope name body =>
    if name ∈ names then (body false).exit names else (body true).exit (names ++ [name])

end Program

/-! ## What scopes yield -/

/-- The names of the scopes that have entered theirs, in order. -/
def entered (scopes : List (String × Bool)) : List String :=
  (scopes.filter (·.2)).map (·.1)

/-- Of scopes inside each other, outermost first, each has yielded whether its name was new: neither
one of the names in force at the outermost nor that of a scope further out which entered it. -/
def YieldsOver (names : List String) : List (String × Bool) → Prop
  | [] => True
  | (name, yielded) :: inner =>
    (yielded = true ↔ name ∉ names) ∧
      YieldsOver (names ++ entered [(name, yielded)]) inner

theorem nodup_concat (names : List String) (name : String) :
    (names ++ [name]).Nodup ↔ name ∉ names ∧ names.Nodup := by
  rw [← List.concat_eq_append, List.nodup_concat]

section Yields

variable {names : List String} {name : String} {scopes : List (String × Bool)}

@[simp] theorem entered_nil : entered [] = [] := rfl

@[simp] theorem entered_cons_true : entered ((name, true) :: scopes) = name :: entered scopes := rfl

@[simp] theorem entered_cons_false : entered ((name, false) :: scopes) = entered scopes := rfl

theorem mem_entered : name ∈ entered scopes ↔ (name, true) ∈ scopes := by
  simp [entered]

theorem entered_cons (scope : String × Bool) (scopes : List (String × Bool)) :
    entered (scope :: scopes) = entered [scope] ++ entered scopes := by
  obtain ⟨name, yielded⟩ := scope
  cases yielded <;> rfl

/-- What a scope yields, told from the scopes around it. -/
theorem YieldsOver.at_scope (h : YieldsOver names scopes) :
    ∀ outer name yielded inner, scopes = outer ++ (name, yielded) :: inner →
      (yielded = true ↔ name ∉ names ∧ (name, true) ∉ outer) := by
  induction scopes generalizing names with
  | nil => simp
  | cons scope scopes ih =>
    intro outer name yielded inner hsplit
    obtain ⟨first, entersFirst⟩ := scope
    obtain ⟨hfirst, hrest⟩ := h
    cases outer with
    | nil =>
      cases hsplit
      simpa using hfirst
    | cons next outer =>
      cases hsplit
      rw [ih hrest outer name yielded inner rfl, List.mem_append, mem_entered]
      simp [and_assoc]

/-- Names that differ, followed by those that scopes have entered, differ. -/
theorem YieldsOver.nodup (h : YieldsOver names scopes) (hn : names.Nodup) :
    (names ++ entered scopes).Nodup := by
  induction scopes generalizing names with
  | nil => simpa using hn
  | cons scope scopes ih =>
    obtain ⟨name, yielded⟩ := scope
    obtain ⟨hfirst, hrest⟩ := h
    rw [entered_cons, ← List.append_assoc]
    apply ih hrest
    cases yielded with
    | false => simpa using hn
    | true =>
      have hnew : name ∉ names := hfirst.1 rfl
      exact (nodup_concat names name).2 ⟨hnew, hn⟩

end Yields

/-! ## Opening and closing -/

namespace Scoped

variable {s : Scoped} {p : Path} {name : String}

theorem step_openScope_entered (h : s.path.enter? name = some p) :
    s.step (.openScope name) = (.answer true, ⟨p, (name, true) :: s.scopes⟩) := by
  simp only [step, h]

theorem step_openScope_refused (h : s.path.enter? name = none) :
    s.step (.openScope name) = (.answer false, ⟨s.path, (name, false) :: s.scopes⟩) := by
  simp only [step, h]

/-- What closes a scope after a body that came out in some way ends the scope. -/
theorem step_closing (s : Scoped) (e : Exit) :
    ∃ o, s.step e.closing = s.finish o ∧ e.behind o = e := by
  cases e with
  | passed => exact ⟨.done, rfl, rfl⟩
  | returned => exact ⟨.done, rfl, rfl⟩
  | raised message => exact ⟨.raised message, rfl, rfl⟩
  | absent name => exact ⟨.raised name, rfl, rfl⟩

/-- A scope that has entered its name leaves it and nothing else. -/
theorem close_entered (h : s.path.enter? name = some p) (e : Exit) :
    ∃ o, (⟨p, (name, true) :: s.scopes⟩ : Scoped).step e.closing = (o, s) ∧ e.behind o = e := by
  obtain ⟨o, hstep, hexit⟩ := step_closing ⟨p, (name, true) :: s.scopes⟩ e
  refine ⟨o, ?_, hexit⟩
  rw [hstep]
  simp only [finish, leave, Path.exit?_of_enter? h]

/-- A scope that was refused leaves nothing. -/
theorem close_refused (s : Scoped) (name : String) (e : Exit) :
    ∃ o, (⟨s.path, (name, false) :: s.scopes⟩ : Scoped).step e.closing = (o, s) ∧
      e.behind o = e := by
  obtain ⟨o, hstep, hexit⟩ := step_closing ⟨s.path, (name, false) :: s.scopes⟩ e
  exact ⟨o, hstep, hexit⟩

end Scoped

/-! ## Runs restore the path -/

/-- A moment of a run over names in force, in the middle of scopes: on the path there are those names,
followed by the ones that the scopes in between have entered. -/
def Moment.Within (m : Moment) (names : List String) (around : List (String × Bool)) : Prop :=
  ∃ between, m.around = around ++ between ∧ YieldsOver names between ∧
    m.path.names = names ++ entered between

/-- A run that ends in a given way and leaves the state as it was, and whose moments lie between. -/
structure Execution.Restores (r : Execution) (e : Exit) (around : List (String × Bool))
    (s : Scoped) : Prop where
  exit : r.exit = e
  state : r.state = s
  moments : ∀ m ∈ r.moments, m.Within s.path.names around

variable {around : List (String × Bool)} {s : Scoped} {name : String}

theorem Moment.within_here (around : List (String × Bool)) (p : Path) :
    (⟨around, p⟩ : Moment).Within p.names around :=
  ⟨[], by simp, trivial, by simp⟩

/-- A moment inside one more scope, which has yielded what it should. -/
theorem Moment.Within.from_inside {m : Moment} {names : List String} {yielded : Bool}
    (h : m.Within (names ++ entered [(name, yielded)]) (around ++ [(name, yielded)]))
    (hyield : yielded = true ↔ name ∉ names) : m.Within names around := by
  obtain ⟨between, haround, hyields, hnames⟩ := h
  refine ⟨(name, yielded) :: between, ?_, ⟨hyield, hyields⟩, ?_⟩
  · rw [haround, List.append_assoc, List.singleton_append]
  · rw [hnames, List.append_assoc, ← entered_cons]

namespace Program

variable {body : Bool → Program}

theorem restores_at_once (e : Exit) (around : List (String × Bool)) (s : Scoped) :
    (⟨e, s, [⟨around, s.path⟩]⟩ : Execution).Restores e around s := by
  refine ⟨rfl, rfl, fun m hm => ?_⟩
  obtain rfl := List.mem_singleton.1 hm
  exact Moment.within_here around s.path

/-- A scope restores the state if its body does, in whichever way the body ends. -/
theorem restores_scope {p : Path} {yielded : Bool} {e : Exit}
    (hopen : s.step (.openScope name) = (.answer yielded, ⟨p, (name, yielded) :: s.scopes⟩))
    (hyield : yielded = true ↔ name ∉ s.path.names)
    (hp : p.names = s.path.names ++ entered [(name, yielded)])
    (hbody : ((body yielded).run (around ++ [(name, yielded)])
      ⟨p, (name, yielded) :: s.scopes⟩).Restores e (around ++ [(name, yielded)])
        ⟨p, (name, yielded) :: s.scopes⟩)
    (hclose : ∃ o, (⟨p, (name, yielded) :: s.scopes⟩ : Scoped).step e.closing = (o, s) ∧
      e.behind o = e) :
    ((scope name body).run around s).Restores e around s := by
  obtain ⟨o, hclose, hexit⟩ := hclose
  have hyielded : (Outcome.answer yielded == .answer true) = yielded := by
    cases yielded <;> rfl
  simp only [run, hopen, hyielded, hbody.exit, hbody.state, hclose, hexit]
  refine ⟨rfl, rfl, fun m hm => ?_⟩
  have hinside (m : Moment) (h : m.Within p.names (around ++ [(name, yielded)])) :
      m.Within s.path.names around :=
    Moment.Within.from_inside (hp ▸ h) hyield
  simp only [List.cons_append, List.mem_cons, List.mem_append, List.not_mem_nil, or_false] at hm
  rcases hm with rfl | hm | rfl
  · exact hinside _ (Moment.within_here _ p)
  · exact hinside m (hbody.moments m hm)
  · exact Moment.within_here around s.path

/-- Every program restores the state it starts in, and ends as its text says. -/
theorem run_restores (c : Program) (around : List (String × Bool)) (s : Scoped) :
    (c.run around s).Restores (c.exit s.path.names) around s := by
  -- The state is general, since the body of a scope starts with one more scope open than the scope.
  induction c generalizing around s with
  | pass => exact restores_at_once .passed around s
  | stop => exact restores_at_once .returned around s
  | raise message => exact restores_at_once (.raised message) around s
  | look next ih => exact ih s.path around s
  | seq first second ihf ihs =>
    have hfirst := ihf around s
    have hsecond := ihs around s
    simp only [run, exit, hfirst.exit, hfirst.state]
    by_cases hpassed : first.exit s.path.names = .passed
    · rw [if_pos hpassed, if_pos hpassed]
      refine ⟨hsecond.exit, hsecond.state, fun m hm => ?_⟩
      rcases List.mem_append.1 hm with hm | hm
      · exact hfirst.moments m hm
      · exact hsecond.moments m hm
    · rw [if_neg hpassed, if_neg hpassed]
      exact hfirst
  | scope name body ih =>
    cases he : s.path.enter? name with
    | none =>
      have hmem : name ∈ s.path.names := enter?_eq_none.1 he
      simp only [exit, if_pos hmem]
      exact restores_scope (Scoped.step_openScope_refused he) (by simp [hmem]) (by simp)
        (ih false _ _) (Scoped.close_refused s name _)
    | some p =>
      obtain ⟨hnew, hp⟩ := enter?_eq_some he
      simp only [exit, if_neg hnew, ← hp]
      exact restores_scope (Scoped.step_openScope_entered he) (by simp [hnew]) hp
        (ih true _ _) (Scoped.close_entered he _)

/-- By its text alone a program misses no name. -/
theorem exit_ne_absent (c : Program) (names : List String) (name : String) :
    c.exit names ≠ .absent name := by
  induction c generalizing names with
  | pass => simp [exit]
  | stop => simp [exit]
  | raise message => simp [exit]
  | look next ih => exact ih ⟨names⟩ names
  | seq first second ihf ihs =>
    simp only [exit]
    split
    · exact ihs names
    · exact ihf names
  | scope other body ih =>
    simp only [exit]
    split
    · exact ih false names
    · exact ih true (names ++ [other])

/-- What comes out of a scope is what has come out of its body. -/
theorem exit_scope (s : Scoped) (name : String) (body : Bool → Program) :
    ∃ yielded opened, s.step (.openScope name) = (.answer yielded, opened) ∧
      ((scope name body).run around s).exit =
        ((body yielded).run (around ++ [(name, yielded)]) opened).exit := by
  have hscope := (scope name body).run_restores around s
  cases he : s.path.enter? name with
  | none =>
    refine ⟨false, _, Scoped.step_openScope_refused he, ?_⟩
    rw [hscope.exit, ((body false).run_restores _ _).exit, exit, if_pos (enter?_eq_none.1 he)]
  | some p =>
    obtain ⟨hnew, hp⟩ := enter?_eq_some he
    refine ⟨true, _, Scoped.step_openScope_entered he, ?_⟩
    rw [hscope.exit, ((body true).run_restores _ _).exit, exit, if_neg hnew, hp]

end Program

/-! ## Any actions -/

namespace Scoped

variable {s : Scoped}

theorem leave_names (s : Scoped) (name : String) (o : Outcome) :
    (s.leave name o).2.path = s.path ∨
      (s.leave name o).2.path.names = s.path.names.erase name := by
  unfold leave Path.exit?
  by_cases hmem : name ∈ s.path.names
  · exact .inr (by simp [hmem])
  · exact .inl (by simp [hmem])

theorem finish_names (s : Scoped) (o : Outcome) :
    (s.finish o).2.path = s.path ∨
      ∃ name, (s.finish o).2.path.names = s.path.names.erase name := by
  unfold finish
  split
  · exact .inl rfl
  · next name outer _ => exact (leave_names ⟨s.path, outer⟩ name o).imp id fun h => ⟨name, h⟩
  · exact .inl rfl

/-- To the names on the path an action adds a new one at the end, takes one away, or does nothing. -/
theorem step_names (s : Scoped) (a : Action) :
    (s.step a).2.path = s.path ∨
      (∃ name, name ∉ s.path.names ∧ (s.step a).2.path.names = s.path.names ++ [name]) ∨
      ∃ name, (s.step a).2.path.names = s.path.names.erase name := by
  cases a with
  | enter name =>
    cases he : s.path.enter? name with
    | none => exact .inl (by simp only [step, he])
    | some p =>
      obtain ⟨hnew, hp⟩ := Path.enter?_eq_some he
      exact .inr (.inl ⟨name, hnew, by simp only [step, he, hp]⟩)
  | exit name => exact (leave_names s name .done).imp id fun h => .inr ⟨name, h⟩
  | contains name => exact .inl rfl
  | openScope name =>
    cases he : s.path.enter? name with
    | none => exact .inl (by rw [step_openScope_refused he])
    | some p =>
      obtain ⟨hnew, hp⟩ := Path.enter?_eq_some he
      exact .inr (.inl ⟨name, hnew, by rw [step_openScope_entered he, hp]⟩)
  | closeScope => exact (finish_names s .done).imp id .inr
  | raise message => exact (finish_names s (.raised message)).imp id .inr

theorem nodup_step (h : s.path.names.Nodup) (a : Action) : (s.step a).2.path.names.Nodup := by
  rcases s.step_names a with hsame | ⟨name, hnew, hnames⟩ | ⟨name, hnames⟩
  · rw [hsame]
    exact h
  · rw [hnames]
    exact (nodup_concat _ name).2 ⟨hnew, h⟩
  · rw [hnames]
    exact h.erase name

/-- However entering, leaving and scopes follow one another, no name comes twice. -/
theorem nodup_after (h : s.path.names.Nodup) (actions : List Action) :
    (s.after actions).path.names.Nodup := by
  induction actions generalizing s with
  | nil => exact h
  | cons a actions ih => exact ih (nodup_step h a)

end Scoped

/-- After any actions at all the names on the path differ, and neither a name that is refused, nor one
that is not there to be left, nor the end of a scope that was refused changes the path. A program of
scopes that runs then restores the state, and ends as its text says: what comes out of a scope is what
has come out of its body, and no cleanup misses its name. At every moment of the run the path holds the
names of before, followed by those that the scopes around have entered, no name twice; and a scope has
entered its name just if that was neither one of those before nor one that a scope around it entered. -/
theorem scopes_restore_path (before : List Action) (c : Program) :
    let s := Scoped.start.after before
    let r := c.run [] s
    (r.state = s ∧ r.exit = c.exit s.path.names ∧ (∀ name, r.exit ≠ .absent name) ∧
      ∀ m ∈ r.moments, m.path.names = s.path.names ++ entered m.around ∧ m.path.names.Nodup ∧
        ∀ outer name yielded inner, m.around = outer ++ (name, yielded) :: inner →
          (yielded = true ↔ name ∉ s.path.names ∧ (name, true) ∉ outer)) ∧
    (∀ name body, ∃ yielded opened, s.step (.openScope name) = (.answer yielded, opened) ∧
      ((Program.scope name body).run [] s).exit = ((body yielded).run [(name, yielded)] opened).exit) ∧
    s.path.names.Nodup ∧
    (∀ name ∈ s.path.names, s.step (.enter name) = (.answer false, s)) ∧
    (∀ name, name ∉ s.path.names → s.step (.exit name) = (.absent name, s)) ∧
    ∀ name outer, s.scopes = (name, false) :: outer →
      s.step .closeScope = (.done, ⟨s.path, outer⟩) ∧
      ∀ message, s.step (.raise message) = (.raised message, ⟨s.path, outer⟩) := by
  intro s r
  have hnodup : s.path.names.Nodup := Scoped.nodup_after List.nodup_nil before
  have hrun := c.run_restores [] s
  refine ⟨⟨hrun.state, hrun.exit, fun name => ?_, fun m hm => ?_⟩,
    fun name body => Program.exit_scope s name body, hnodup, fun name hmem => ?_, fun name hout => ?_,
    fun name outer hscopes => ?_⟩
  · rw [hrun.exit]
    exact c.exit_ne_absent s.path.names name
  · obtain ⟨between, haround, hyields, hnames⟩ := hrun.moments m hm
    obtain rfl : m.around = between := by simpa using haround
    exact ⟨hnames, hnames ▸ hyields.nodup hnodup, hyields.at_scope⟩
  · simp only [Scoped.step, enter?_eq_none.2 hmem]
  · simp only [Scoped.step, Scoped.leave, exit?, if_neg hout]
  · simp only [Scoped.step, Scoped.finish, hscopes, implies_true, and_self]

/-- A path with a name entered by hand and a scope still open on it. -/
def halfway : List Action := [.enter "A", .openScope "B", .exit "C"]

/-- A scope inside one that has its name, which raises out of both, and what is never come to. -/
def raisesOut : Program :=
  .seq (.scope "C" fun _ => .scope "B" fun _ => .scope "C" fun entered =>
    if entered then .pass else .raise "refused") .stop

theorem raisesOut_restores_halfway :
    (raisesOut.run [] (Scoped.start.after halfway)).state = ⟨⟨["A", "B"]⟩, [("B", true)]⟩ ∧
      (raisesOut.run [] (Scoped.start.after halfway)).exit = .raised "refused" := by
  obtain ⟨⟨hstate, hexit, -⟩, -⟩ := scopes_restore_path halfway raisesOut
  exact ⟨hstate.trans (by decide), hexit.trans (by decide)⟩

end QueryBounds.Path
