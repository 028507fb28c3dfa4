import QueryBounds.Proofs.CheckOrder
import QueryBounds.Proofs.Inlining

/-!
# Definitions without influence

A fragment definition is live when it is the first of its name and some operation leads to it. All
others are dead weight: two documents with the same operations and the same live definitions expand
alike, so every measure, every limit and every guard says the same of both, whatever else they hold.
-/
namespace QueryBounds

open Fragment (Index)

/-! ## Indexes that agree where a walk comes -/

namespace Fragment.Index

/-- Two indexes with the same fragments under a choice of names, and with the same names missing,
where no fragment of these names spreads a name outside. -/
structure AgreeOn (i j : Index) (names : String → Prop) : Prop where
  find? : ∀ name, names name → i.find? name = j.find? name
  closed : ∀ a b, names a → i.Spreads a b → names b

/-- Selections with all spreads among the names that two indexes agree on expand to the same. -/
theorem AgreeOn.expand {i j : Index} {names : String → Prop} (h : i.AgreeOn j names) (p : Path)
    (sels : List Selection) (hsels : ∀ name ∈ spreadNames sels, names name) :
    i.expand p sels = j.expand p sels := by
  induction p, sels using i.walk_induction with
  | nil p => simp only [Index.expand]
  | field p head body rest ihb ihr =>
    simp only [spreadNames, List.forall_mem_append] at hsels
    simp only [Index.expand, ihb hsels.1, ihr hsels.2]
  | inline p head body rest ihb ihr =>
    simp only [spreadNames, List.forall_mem_append] at hsels
    simp only [Index.expand, ihb hsels.1, ihr hsels.2]
  | refused p s rest he ih =>
    simp only [spreadNames, List.forall_mem_cons] at hsels
    simp only [expand_spread, he, ih hsels.2]
  | undefined p inner s rest he hf ih =>
    simp only [spreadNames, List.forall_mem_cons] at hsels
    simp only [expand_spread, he, ← h.find? s.name hsels.1, hf, ih hsels.2]
  | defined p inner s f rest he hf ihf ihr =>
    simp only [spreadNames, List.forall_mem_cons] at hsels
    -- the walk goes on in the body of the fragment, which spreads no name outside
    have hbody : ∀ name ∈ spreadNames f.selections, names name := fun name hname =>
      h.closed s.name name hsels.1 ⟨f, hf, hname⟩
    simp only [expand_spread, he, ← h.find? s.name hsels.1, hf, ihf hbody, ihr hsels.2]
  | unknown p rest ih =>
    simp only [spreadNames] at hsels
    simp only [Index.expand, ih hsels]

end Fragment.Index

/-- One operation over two indexes, with the same counted fields, the same depth and culprit and the
same answer on introspection. -/
structure Operation.ReadAlike (i j : Index) (o : Operation) : Prop where
  occurrences : ∀ allowed,
    Alias.occurrences i allowed .empty o.selections = Alias.occurrences j allowed .empty o.selections
  measure : ∀ flatten,
    (Depth.Measurer.measure ⟨i, flatten⟩ o .start).1 = (Depth.Measurer.measure ⟨j, flatten⟩ o .start).1
  introspection : Depth.isIntrospection i o = Depth.isIntrospection j o

namespace Fragment.Index.AgreeOn

variable {i j : Index} {names : String → Prop} {sels : List Selection}

theorem occurrences (h : i.AgreeOn j names) (hsels : ∀ name ∈ spreadNames sels, names name)
    (allowed : List String) :
    Alias.occurrences i allowed .empty sels = Alias.occurrences j allowed .empty sels := by
  rw [← Alias.occurrences_expand i .empty allowed .empty .empty, h.expand .empty sels hsels,
    Alias.occurrences_expand]

theorem nesting (h : i.AgreeOn j names) (hsels : ∀ name ∈ spreadNames sels, names name)
    (step : Nat) : Depth.nesting i step .empty sels = Depth.nesting j step .empty sels := by
  rw [← Depth.nesting_expand i .empty step .empty .empty, h.expand .empty sels hsels,
    Depth.nesting_expand]

theorem rootFieldNames (h : i.AgreeOn j names) (hsels : ∀ name ∈ spreadNames sels, names name) :
    Depth.rootFieldNames i .empty sels = Depth.rootFieldNames j .empty sels := by
  rw [← Depth.rootFieldNames_expand i .empty .empty .empty, h.expand .empty sels hsels,
    Depth.rootFieldNames_expand]

/-- The deepest selection stays the first of its depth, since each on its own is as deep. -/
theorem foldl_deeper (h : i.AgreeOn j names) (hsels : ∀ name ∈ spreadNames sels, names name)
    (step : Nat) (best : Nat × Option Selection) :
    sels.foldl (Depth.deeper (Depth.selectionDepth i step)) best =
      sels.foldl (Depth.deeper (Depth.selectionDepth j step)) best := by
  refine List.foldl_ext _ _ best fun best sel hsel => ?_
  have hdepth : Depth.selectionDepth i step sel = Depth.selectionDepth j step sel :=
    h.nesting (fun name hname => hsels name (mem_spreadNames_of_mem hsel hname)) step
  rw [Depth.deeper, Depth.deeper, hdepth]

theorem readAlike (h : i.AgreeOn j names) {o : Operation}
    (ho : ∀ name ∈ spreadNames o.selections, names name) : o.ReadAlike i j where
  occurrences := h.occurrences ho
  measure flatten := by
    rw [(Depth.Measurer.measure_spec o Depth.Measurer.soundMemo_start).1,
      (Depth.Measurer.measure_spec o Depth.Measurer.soundMemo_start).1]
    exact h.foldl_deeper ho _ _
  introspection := by
    unfold Depth.isIntrospection
    rw [h.rootFieldNames ho]

end Fragment.Index.AgreeOn

/-! ## Live definitions -/

namespace Document

/-- The names that the operations of a document lead to: those that they spread, however deep, and
with each of these the names that its first definition spreads. -/
inductive Reaches (d : Document) : String → Prop
  | operation {o : Operation} {name : String} (ho : o ∈ d.operations)
      (h : name ∈ spreadNames o.selections) : Reaches d name
  | fragment {f : Fragment} {name : String} (hf : Reaches d f.name)
      (hfirst : d.fragments.find? (·.name == f.name) = some f)
      (h : name ∈ spreadNames f.selections) : Reaches d name

/-- A fragment definition that has a say: the first of a name that the operations lead to. -/
structure Live (d : Document) (f : Fragment) : Prop where
  first : d.fragments.find? (·.name == f.name) = some f
  reached : d.Reaches f.name

/-- Two documents with the same operations in the same order and the same live definitions. Nothing
is said of their other definitions. -/
structure SameLive (d d' : Document) : Prop where
  operations : d.operations = d'.operations
  live : ∀ f, d.Live f ↔ d'.Live f

variable {d d' : Document} {name : String}

theorem live_of_find? {f : Fragment} (hr : d.Reaches name)
    (hf : d.fragments.find? (·.name == name) = some f) : d.Live f ∧ f.name = name := by
  have hname : f.name = name := by simpa using List.find?_some hf
  exact ⟨⟨by rw [hname, hf], hname.symm ▸ hr⟩, hname⟩

theorem Reaches.spreads {a b : String} (ha : d.Reaches a) (h : (Index.ofDocument d).Spreads a b) :
    d.Reaches b := by
  obtain ⟨f, hf, hb⟩ := h
  rw [Index.find?_ofDocument] at hf
  obtain ⟨⟨hfirst, hreached⟩, -⟩ := live_of_find? ha hf
  exact .fragment hreached hfirst hb

/-- What is reached is reached in any document with the same operations that has the same first
definitions of the names on the way. -/
theorem Reaches.transfer (hops : d.operations = d'.operations)
    (hfirst : ∀ f, d.Live f → d'.fragments.find? (·.name == f.name) = some f)
    (hr : d.Reaches name) : d'.Reaches name := by
  induction hr with
  | operation ho h => exact .operation (hops ▸ ho) h
  | fragment hf hf' h ih => exact .fragment ih (hfirst _ ⟨hf', hf⟩) h

/-- The names hold all that the operations of a document spread, and all that the first definitions
of these names do. -/
structure Encloses (names : List String) (d : Document) : Prop where
  operation : ∀ o ∈ d.operations, ∀ name ∈ spreadNames o.selections, name ∈ names
  fragment : ∀ name ∈ names, ∀ f, d.fragments.find? (·.name == name) = some f →
    ∀ inner ∈ spreadNames f.selections, inner ∈ names

theorem Encloses.mem_of_reaches {names : List String} (h : Encloses names d)
    (hr : d.Reaches name) : name ∈ names := by
  induction hr with
  | operation ho hname => exact h.operation _ ho _ hname
  | fragment _ hfirst hname ih => exact h.fragment _ ih _ hfirst _ hname

theorem Encloses.live {names : List String} (h : Encloses names d)
    (hops : d.operations = d'.operations)
    (hsame : ∀ name ∈ names, d.fragments.find? (·.name == name) =
      d'.fragments.find? (·.name == name)) {f : Fragment} (hf : d.Live f) : d'.Live f := by
  have hfirst (f : Fragment) (hf : d.Live f) : d'.fragments.find? (·.name == f.name) = some f :=
    (hsame f.name (h.mem_of_reaches hf.reached)).symm.trans hf.first
  exact ⟨hfirst f hf, hf.reached.transfer hops hfirst⟩

/-- To have the same live definitions it is enough to have the same first definitions of enclosing
names. -/
theorem Encloses.sameLive {names : List String} (h : Encloses names d)
    (hops : d.operations = d'.operations)
    (hsame : ∀ name ∈ names, d.fragments.find? (·.name == name) =
      d'.fragments.find? (·.name == name)) : d.SameLive d' := by
  have h' : Encloses names d' := ⟨hops ▸ h.operation, fun name hname f hf =>
    h.fragment name hname f ((hsame name hname).trans hf)⟩
  exact ⟨hops, fun f => ⟨h.live hops hsame, h'.live hops.symm fun name hname =>
    (hsame name hname).symm⟩⟩

namespace SameLive

theorem reaches (h : d.SameLive d') (hr : d.Reaches name) : d'.Reaches name :=
  hr.transfer h.operations fun f hf => ((h.live f).1 hf).first

/-- A name that is reached has the same first definition in both, or in neither: a definition that
only one of them had would be live there. -/
theorem find?_eq (h : d.SameLive d') (hr : d.Reaches name) :
    d.fragments.find? (·.name == name) = d'.fragments.find? (·.name == name) := by
  cases hf : d.fragments.find? (·.name == name) with
  | some f =>
    obtain ⟨hlive, rfl⟩ := live_of_find? hr hf
    exact ((h.live f).1 hlive).first.symm
  | none =>
    cases hf' : d'.fragments.find? (·.name == name) with
    | none => rfl
    | some f =>
      obtain ⟨hlive, rfl⟩ := live_of_find? (h.reaches hr) hf'
      rw [((h.live f).2 hlive).first] at hf
      cases hf

theorem agreeOn (h : d.SameLive d') :
    (Index.ofDocument d).AgreeOn (Index.ofDocument d') d.Reaches where
  find? name hr := by rw [Index.find?_ofDocument, Index.find?_ofDocument, h.find?_eq hr]
  closed _ _ hr hs := hr.spreads hs

theorem readAlike (h : d.SameLive d') {o : Operation} (ho : o ∈ d.operations) :
    o.ReadAlike (Index.ofDocument d) (Index.ofDocument d') :=
  h.agreeOn.readAlike fun _ hname => .operation ho hname

theorem documentOccurrences (h : d.SameLive d') (allowed : List String) :
    Alias.documentOccurrences allowed d = Alias.documentOccurrences allowed d' := by
  unfold Alias.documentOccurrences
  rw [← h.operations]
  exact List.flatMap_congr fun o ho => (h.readAlike ho).occurrences allowed

/-- A limit finds the same violation, in the numbers and in the node that it tells. -/
theorem violation? (h : d.SameLive d') (l : EitherLimit) : l.violation? d = l.violation? d' := by
  cases l with
  | aliases l => rw [EitherLimit.violation?, EitherLimit.violation?, h.documentOccurrences]
  | depth l =>
    have hdepth {o : Operation} (ho : o ∈ d.operations) :
        Depth.ofOperation (Index.ofDocument d) l.flattenFragments.holds o =
          Depth.ofOperation (Index.ofDocument d') l.flattenFragments.holds o :=
      congrArg Prod.fst ((h.readAlike ho).measure _)
    have hdeep (k : Nat) : d.operations.find? (l.tooDeep (Index.ofDocument d) k) =
        d.operations.find? (l.tooDeep (Index.ofDocument d') k) := by
      refine List.find?_congr fun o ho => ?_
      rw [DepthLimit.tooDeep, DepthLimit.tooDeep, DepthLimit.skips, DepthLimit.skips, hdepth ho,
        (h.readAlike ho).introspection]
    rw [EitherLimit.violation?, EitherLimit.violation?, ← h.operations]
    refine Option.bind_congr fun k _ => ?_
    rw [hdeep]
    refine Option.map_congr fun o ho => ?_
    have hmem := List.mem_of_find?_eq_some ho
    rw [DepthLimit.tooDeepViolation, DepthLimit.tooDeepViolation, hdepth hmem,
      (h.readAlike hmem).measure]

theorem result_validate_aliases (h : d.SameLive d') (l : AliasLimit) :
    (l.validate d).result = (l.validate d').result := by
  rw [l.result_validate, l.result_validate, h.violation?]

theorem result_validate_depth (h : d.SameLive d') (l : DepthLimit) :
    (l.validate d).result = (l.validate d').result := by
  rw [l.result_validate, l.result_validate, h.violation?]

theorem result_bothLimits (h : d.SameLive d') (a : AliasLimit) (l : DepthLimit) :
    (bothLimits a l d).result = (bothLimits a l d').result := by
  simp only [bothLimits, Run.result_bind, h.result_validate_aliases, h.result_validate_depth]

/-- A guard ends alike on both, and has counted the same after it. -/
theorem check (h : d.SameLive d') (g : Guard) :
    (g.check (.document d)).1.result = (g.check (.document d')).1.result ∧
      (g.check (.document d)).2 = (g.check (.document d')).2 := by
  have hresult : (g.checkRun (.document d)).result = (g.checkRun (.document d')).result :=
    h.result_bothLimits g.aliases g.depth
  refine ⟨by rw [g.check_run, g.check_run, hresult], ?_⟩
  rw [Guard.check, Guard.check, Guard.call_of_records (g.checking_records _),
    Guard.call_of_records (g.checking_records _)]
  simp only [hresult]

/-- Definitions that are not live have no influence. Whatever else two documents with the same
operations and the same live definitions hold, under any limit a count of aliases comes to the same
number and crosses at the same field, each operation has the same depth, culprit and answer on
introspection, and a check against either limit or by a guard ends with the same violations. -/
theorem answers_same (h : d.SameLive d') :
    (∀ allowed limit,
      (Alias.count d allowed limit).count = (Alias.count d' allowed limit).count ∧
      (Alias.count d allowed limit).exceededAt = (Alias.count d' allowed limit).exceededAt) ∧
    (∀ o ∈ d.operations,
      (∀ flatten, (Depth.Measurer.measure ⟨Index.ofDocument d, flatten⟩ o .start).1 =
        (Depth.Measurer.measure ⟨Index.ofDocument d', flatten⟩ o .start).1) ∧
      Depth.isIntrospection (Index.ofDocument d) o =
        Depth.isIntrospection (Index.ofDocument d') o) ∧
    (∀ l : AliasLimit, (l.validate d).result = (l.validate d').result) ∧
    (∀ l : DepthLimit, (l.validate d).result = (l.validate d').result) ∧
    ∀ g : Guard, (g.check (.document d)).1.result = (g.check (.document d')).1.result ∧
      (g.check (.document d)).2 = (g.check (.document d')).2 := by
  refine ⟨fun allowed limit => ?_, fun o ho => ?_, h.result_validate_aliases,
    h.result_validate_depth, h.check⟩
  · have htally : (Alias.count d allowed limit).tally = (Alias.count d' allowed limit).tally := by
      rw [Alias.count_tally, Alias.count_tally, h.documentOccurrences]
    exact ⟨congrArg Alias.Tally.count htally, congrArg Alias.Tally.exceededAt htally⟩
  · exact ⟨(h.readAlike ho).measure, (h.readAlike ho).introspection⟩

open AliasLimit (aliased)

/-- A query on two fragments that lead to each other, and to a missing one. -/
def tidy : Document := ⟨[
  .operation ⟨.query, none, [.field (aliased "a") (some [.spread ⟨"F", none⟩])], none⟩,
  .fragment ⟨"F", "T", some [.field (aliased "b") none, .spread ⟨"G", none⟩], none⟩,
  .fragment ⟨"G", "T", some [.spread ⟨"F", none⟩, .spread ⟨"H", none⟩], none⟩]⟩

/-- The same query among other definitions, one that spreads a live fragment and one that comes too
late for its name. -/
def littered : Document := ⟨[
  .other,
  .fragment ⟨"Unused", "T", some [.field (aliased "c") none, .spread ⟨"F", none⟩], none⟩,
  .fragment ⟨"G", "T", some [.spread ⟨"F", none⟩, .spread ⟨"H", none⟩], none⟩,
  .operation ⟨.query, none, [.field (aliased "a") (some [.spread ⟨"F", none⟩])], none⟩,
  .fragment ⟨"F", "T", some [.field (aliased "b") none, .spread ⟨"G", none⟩], none⟩,
  .fragment ⟨"F", "T", some [.field (aliased "d") none, .spread ⟨"Unused", none⟩], none⟩]⟩

theorem encloses_tidy : Encloses ["F", "G", "H"] tidy where
  operation o ho name hname := by
    obtain rfl := List.mem_singleton.1 ho
    simp_all [spreadNames]
  fragment name hname f hf inner hinner := by
    simp only [List.mem_cons, List.not_mem_nil, or_false] at hname
    rcases hname with rfl | rfl | rfl <;> cases hf
    · have hG : inner = "G" := by simpa [Fragment.selections, spreadNames] using hinner
      simp [hG]
    · have hFH : inner = "F" ∨ inner = "H" := by
        simpa [Fragment.selections, spreadNames] using hinner
      rcases hFH with rfl | rfl <;> simp

theorem tidy_sameLive : tidy.SameLive littered := by
  refine encloses_tidy.sameLive rfl fun name hname => ?_
  simp only [List.mem_cons, List.not_mem_nil, or_false] at hname
  rcases hname with rfl | rfl | rfl <;> rfl

theorem littered_rejected_as_tidy :
    tidy.SameLive littered ∧
      ({ AliasLimit.unlimited with n := some 1 }.validate littered).result =
        .ok [Violation.ofLimit .aliases (.int 1) (.int 2) .null [.field (aliased "b")]] := by
  have hoccurrences : Alias.documentOccurrences AliasLimit.unlimited.allowed tidy =
      ["a", "b"].map aliased := by cbv
  have htidy := AliasLimit.validate_result (l := { AliasLimit.unlimited with n := some 1 }) tidy
    rfl rfl (Limit.quiet_of_no_hooks rfl rfl _)
  simp only [hoccurrences] at htidy
  refine ⟨tidy_sameLive, ?_⟩
  rw [← tidy_sameLive.answers_same.2.2.1, htidy]
  rfl

end SameLive
end Document
end QueryBounds
