import TemplateLint.Proofs.Analysis
import TemplateLint.Proofs.Builder.Offsets
import TemplateLint.Proofs.Schema.Relaxation

/-!
# Segments of an analysis

An analysis reports what is wrong with the schema, then the problems of the
template as a whole, then a block for each property of the resources. A block
is made of its property and of the schema's definitions alone, and what it
reports lies within the property; so blocks follow each other as the properties
do in the source.
-/

namespace TemplateLint

/-- Every diagnostic has a location, and none starts before those in front of it. -/
def InDocumentOrder (ds : List Diagnostic) : Prop :=
  ∃ spans : List Span, ds.map Diagnostic.location = spans.map some ∧
    spans.Pairwise fun a b => a.start ≤ b.start

/-- Problems none of which starts before those in front of it. -/
def Problem.Sorted (ps : List Problem) : Prop := ps.Pairwise fun p q => p.span.start ≤ q.span.start

theorem Problem.Sorted.inDocumentOrder {ps : List Problem} (h : Sorted ps) :
    InDocumentOrder (ps.map diagnostic) := by
  refine ⟨ps.map Problem.span, ?_, List.pairwise_map.mpr h⟩
  simp only [List.map_map]
  rfl

/-! ## Order in the tree -/

namespace Node.InOrder

variable {n m : Node}

/-- What is below a node starts and stops within its span. -/
theorem between_mem (h : n.InOrder) (hm : m ∈ n.nodes) :
    (n.span.start ≤ m.span.start ∧ m.span.start ≤ n.span.stop) ∧
      (n.span.start ≤ m.span.stop ∧ m.span.stop ≤ n.span.stop) := by
  have aligned := (h.of_mem hm).first_aligned
  have inside := ((events_inside hm).flatMap Event.offsets).subset
  exact ⟨h.between (inside (start_mem_offsets aligned)),
    h.between (inside (stop_mem_offsets aligned))⟩

theorem encloses_mem (h : n.InOrder) (hm : m ∈ n.nodes) : n.span.encloses m.span = true := by
  obtain ⟨⟨hstart, -⟩, -, hstop⟩ := h.between_mem hm
  exact Span.encloses_iff.mpr ⟨hstart, hstop⟩

end Node.InOrder

/-- The values below a value stand side by side, as the nodes below it do. -/
theorem Value.parts_side_by_side {v : Value} (h : (Node.value v).InOrder) :
    v.parts.Pairwise fun a b => a.2.span.stop ≤ b.2.span.start := by
  have steps := h.side_by_side
  rcases v with ⟨id, span, ps⟩ | ⟨id, span, vs⟩ | ⟨id, span, content⟩
  · have enclosed : ∀ p ∈ ps, ∀ x, (p.value.map fun v => (Segment.key p.key, v)) = some x →
        p.span.encloses x.2.span = true := by
      intro p hp x hx
      obtain ⟨v, hv, rfl⟩ := Option.map_eq_some_iff.mp hx
      have outer : (Segment.key p.key, Node.property p) ∈ (Node.value (.object id span ps)).steps :=
        List.mem_map_of_mem hp
      have inner : (Segment.key p.key, Node.value v) ∈ (Node.property p).steps := by
        simp [Node.steps, hv]
      exact (h.step outer).encloses inner
    refine List.pairwise_filterMap.mpr ?_
    refine (List.pairwise_map.mp steps).imp_of_mem fun {p q} hp hq hpq x hx y hy => ?_
    have before : p.span.stop ≤ q.span.start := hpq
    have hx := (Span.encloses_iff.mp (enclosed p hp x hx)).2
    have hy := (Span.encloses_iff.mp (enclosed q hq y hy)).1
    omega
  · exact List.pairwise_map.mpr (List.pairwise_map.mp steps)
  · exact List.Pairwise.nil

namespace Conformance

variable {included : Nat → Bool} {s : Schema} {v : Value}

/-- A problem of a value starts within the value. -/
theorem problem_start (h : (Node.value v).InOrder) {p : Problem}
    (hp : p ∈ problems included s v) :
    v.span.start ≤ p.span.start ∧ p.span.start ≤ v.span.stop := by
  obtain ⟨m, hm, -, hspan⟩ := exists_node hp
  rw [hspan]
  exact (h.between_mem hm).1

/-- The problems of a tree come in the order of the source. -/
theorem problems_sorted (h : (Node.value v).InOrder) : Problem.Sorted (problems included s v) := by
  induction v using Value.parts_induction generalizing s with
  | value v ih =>
    cases hi : included v.id with
    | false =>
      rw [problems_excluded hi]
      exact List.Pairwise.nil
    | true =>
      have part : ∀ x ∈ v.parts, (Node.value x.2).InOrder := fun x hx =>
        h.of_mem (Value.mem_nodes_part hx)
      have under : ∀ x ∈ v.parts, ∀ p ∈ problemsUnder included (s.below? x.1) x.2,
          x.2.span.start ≤ p.span.start ∧ p.span.start ≤ x.2.span.stop := by
        intro x hx p hp
        cases hs : s.below? x.1 with
        | none => simp [problemsUnder, hs] at hp
        | some t =>
          rw [hs] at hp
          exact problem_start (part x hx) hp
      rw [problems_eq hi]
      refine List.pairwise_append.mpr ⟨?_, List.pairwise_flatMap.mpr ⟨?_, ?_⟩, ?_⟩
      · exact List.pairwise_map.mpr (List.pairwise_of_forall fun _ _ => Nat.le_refl _)
      · intro x hx
        cases hs : s.below? x.1 with
        | none => exact List.Pairwise.nil
        | some t => exact ih x.1 x.2 hx (part x hx)
      · refine (Value.parts_side_by_side h).imp_of_mem fun {x y} hx hy hxy p hp q hq => ?_
        have hp := (under x hx p hp).2
        have hq := (under y hy q hq).1
        omega
      · intro p hp q hq
        obtain ⟨cause, -, rfl⟩ := List.mem_map.mp hp
        obtain ⟨x, hx, hq⟩ := List.mem_flatMap.mp hq
        have outer : v.span.start ≤ x.2.span.start :=
          (h.between_mem (Value.mem_nodes_part hx)).1.1
        exact Nat.le_trans outer (under x hx q hq).1

end Conformance

/-! ## Segments -/

namespace Analysis

/-- The properties that declare resources. Where the section stands more than once, the last
counts. -/
def resourceProperties (root : Value) : List Property :=
  ((root.member? resourcesKey).bind Value.properties?).getD []

/-- The resource that a property declares, the place where its type is named, and the name. -/
def typed? (p : Property) : Option (Value × Span × String) := do
  let resource ← p.value
  let typeValue ← resource.member? resourceTypeKey
  let name ← typeValue.text?
  pure (resource, typeValue.span, name)

def resolutionWarning (span : Span) (reason : String) : Diagnostic :=
  ⟨.warning, some "schema-resolution", "Problems loading reference: " ++ reason, [⟨"", span⟩]⟩

def unknownTypeHint (span : Span) (name : String) : Diagnostic :=
  ⟨.hint, some "unknown-resource-type",
    "No schema definition for resource type \"" ++ name ++ "\"; its properties are not checked.",
    [⟨"", span⟩]⟩

/-- What is reported about one resource: its problems with the definition of its type, or a hint
that there are definitions but none of its type. -/
def block (definitions : Option (List (String × Schema))) (p : Property) : List Diagnostic :=
  match typed? p, definitions with
  | some (resource, span, name), some definitions =>
    match Members.get? definitions name with
    | some definition =>
      (Conformance.problems Conformance.everyNode definition resource).map Problem.diagnostic
    | none => [unknownTypeHint span name]
  | _, _ => []

/-- The problems of the resource that a property declares. -/
def propertyProblems (s : Schema) (p : Property) : List Problem :=
  (p.value.map (resourceProblems s)).getD []

theorem block_eq (s : Schema) (p : Property) :
    block s.definitions p = (propertyProblems s p).map Problem.diagnostic := by
  unfold block typed? propertyProblems resourceProblems Schema.definition?
  cases hv : p.value with
  | none => rfl
  | some resource =>
    cases ht : resource.member? resourceTypeKey with
    | none => simp [ht]
    | some typeValue =>
      cases hn : typeValue.text? with
      | none => simp [ht, hn]
      | some name =>
        cases hd : s.definitions with
        | none => simp [ht, hn]
        | some definitions =>
          cases hg : Members.get? definitions name with
          | none =>
            simp [ht, hn, hg]
            rfl
          | some definition => simp [ht, hn, hg]

theorem resources_eq (s : Schema) (root : Value) :
    (resources root).flatMap (resourceProblems s) =
      (resourceProperties root).flatMap (propertyProblems s) := by
  change ((resourceProperties root).filterMap (·.value)).flatMap (resourceProblems s) = _
  induction resourceProperties root with
  | nil => rfl
  | cons p rest ih =>
    cases hv : p.value with
    | none => simpa [hv, propertyProblems] using ih
    | some resource => simp [hv, propertyProblems, ih]

theorem propertyProblems_within {s : Schema} {p : Property} (h : (Node.property p).InOrder)
    {x : Problem} (hx : x ∈ propertyProblems s p) :
    p.span.encloses x.span = true ∧ x.span.start ≤ x.span.stop := by
  unfold propertyProblems at hx
  cases hv : p.value with
  | none => simp [hv] at hx
  | some resource =>
    have hx : x ∈ resourceProblems s resource := by simpa [hv] using hx
    obtain ⟨m, hm, -, hspan⟩ := exists_resource_node hx
    have step : (Segment.key p.key, Node.value resource) ∈ (Node.property p).steps := by
      simp [Node.steps, hv]
    have below := (Node.nodes_step_inside step).subset hm
    have forward := ((h.of_mem below).between_mem m.self_mem_nodes).1.2
    rw [hspan]
    exact ⟨h.encloses_mem below, forward⟩

theorem propertyProblems_sorted {s : Schema} {p : Property} (h : (Node.property p).InOrder) :
    Problem.Sorted (propertyProblems s p) := by
  unfold propertyProblems
  cases hv : p.value with
  | none => exact List.Pairwise.nil
  | some resource =>
    have step : (Segment.key p.key, Node.value resource) ∈ (Node.property p).steps := by
      simp [Node.steps, hv]
    change Problem.Sorted (resourceProblems s resource)
    unfold resourceProblems
    split
    · exact List.Pairwise.nil
    · split
      · exact List.Pairwise.nil
      · split
        · exact Conformance.problems_sorted (h.step step)
        · split
          · exact List.pairwise_singleton _ _
          · exact List.Pairwise.nil

/-- The declared resources stand side by side in the source. -/
theorem resourceProperties_inOrder {root : Value} (h : (Node.value root).InOrder) :
    (∀ p ∈ resourceProperties root, (Node.property p).InOrder) ∧
      (resourceProperties root).Pairwise fun p q => p.span.stop ≤ q.span.start := by
  unfold resourceProperties
  cases hm : root.member? resourcesKey with
  | none => exact ⟨fun p hp => (List.not_mem_nil hp).elim, List.Pairwise.nil⟩
  | some declared =>
    have inner := h.of_mem (Value.mem_nodes_member hm)
    rcases declared with ⟨id, span, ps⟩ | ⟨id, span, items⟩ | ⟨id, span, content⟩
    · refine ⟨fun p hp => ?_, List.pairwise_map.mp inner.side_by_side⟩
      have step : (Segment.key p.key, Node.property p) ∈ (Node.value (.object id span ps)).steps :=
        List.mem_map_of_mem hp
      exact inner.step step
    · exact ⟨fun p hp => (List.not_mem_nil hp).elim, List.Pairwise.nil⟩
    · exact ⟨fun p hp => (List.not_mem_nil hp).elim, List.Pairwise.nil⟩

/-- The problems of all resources come in the order of the source. -/
theorem resources_sorted {s : Schema} {root : Value} (h : (Node.value root).InOrder) :
    Problem.Sorted ((resourceProperties root).flatMap (propertyProblems s)) := by
  obtain ⟨inOrder, side_by_side⟩ := resourceProperties_inOrder h
  refine List.pairwise_flatMap.mpr ⟨fun p hp => propertyProblems_sorted (inOrder p hp), ?_⟩
  refine side_by_side.imp_of_mem fun {p q} hp hq hpq x hx y hy => ?_
  obtain ⟨hx, forward⟩ := propertyProblems_within (inOrder p hp) hx
  have hx := (Span.encloses_iff.mp hx).2
  have hy := (Span.encloses_iff.mp (propertyProblems_within (inOrder q hq) hy).1).1
  omega

/-- The problems of the schema come in front of those of the template, which they are shown at the
start of. -/
theorem whole_sorted {s : ResolvedSchema} {root : Value} (h : (Node.value root).InOrder) :
    Problem.Sorted (resolutionProblems s root ++
      Conformance.problems Conformance.everyNode s.schema root) := by
  have shown : ∀ p ∈ resolutionProblems s root, p.span.start = root.span.start := by
    intro p hp
    obtain ⟨reason, -, rfl⟩ := List.mem_map.mp hp
    rfl
  refine List.pairwise_append.mpr ⟨?_, Conformance.problems_sorted h, fun p hp q hq => ?_⟩
  · refine List.pairwise_of_forall_mem_list fun p hp q hq => ?_
    rw [shown p hp, shown q hq]
  · rw [shown p hp]
    exact (Conformance.problem_start h hq).1

end Analysis

namespace Document

open Analysis Conformance

/-- An analysis of the tree of a text reports its segments one after the other: a warning for each
reason why the schema is not resolved, the problems of the template as a whole, and a block for
each declared resource. Blocks lie within the properties they belong to, which stand side by side,
and both the whole and the blocks come in the order of the source. -/
theorem analyze_segments {source : List Char} {root : Value}
    (hroot : (parse source).1.root = some root) (type : DocumentType) (globals : Globals)
    (o : Options) (s : ResolvedSchema) :
    let d : Document := { (parse source).1 with type := type, globals := globals }
    let g := ({ d with type := o.documentType.getD type } : Document).collectGlobals
    let t := if o.applyGlobals then s.relax g else s
    let warnings := s.errors.map (resolutionWarning (resolutionSpan root))
    let whole := (problems everyNode t.schema root).map Problem.diagnostic
    let blocks := (resourceProperties root).map (block t.schema.definitions)
    (d.analyze o (some s)).2.map Problem.diagnostic =
        warnings ++ whole ++ (if o.validateResources then blocks.flatten else []) ∧
      InDocumentOrder (warnings ++ whole) ∧ InDocumentOrder blocks.flatten ∧
      (resourceProperties root).Pairwise (fun p q => p.span.stop ≤ q.span.start) ∧
      ∀ p ∈ resourceProperties root, ∀ x ∈ block t.schema.definitions p,
        ∃ span, x.location = some span ∧ p.span.encloses span = true := by
  intro d g t warnings whole blocks
  have ordered := (Builder.build_inOrder hroot).1
  obtain ⟨inOrder, side_by_side⟩ := resourceProperties_inOrder ordered
  have errors : t.errors = s.errors := by
    by_cases h : o.applyGlobals = true
    · simp only [t, h, if_true]
      exact (s.relaxes _).2
    · simp only [t, h, Bool.false_eq_true, if_false]
  have hwarnings : warnings = (resolutionProblems t root).map Problem.diagnostic := by
    simp only [warnings, resolutionProblems, List.map_map, errors]
    rfl
  have hblocks : blocks.flatten =
      ((resourceProperties root).flatMap (propertyProblems t.schema)).map Problem.diagnostic := by
    rw [List.map_flatMap, ← List.flatMap_def]
    exact List.flatMap_congr fun p _ => block_eq t.schema p
  refine ⟨?_, ?_, ?_, side_by_side, ?_⟩
  · have found : (d.analyze o (some s)).2 = rootProblems o.validateResources t root := by
      change Analysis.problems o (prepare o d) (some s) = _
      have prepared : (prepare o d).root = some root := hroot
      simp only [Analysis.problems, prepared]
      rfl
    rw [found, hwarnings, hblocks, rootProblems, resources_eq]
    cases o.validateResources with
    | false => simp [whole]
    | true => simp [whole]
  · rw [hwarnings, ← List.map_append]
    exact (whole_sorted ordered).inDocumentOrder
  · rw [hblocks]
    exact (resources_sorted ordered).inDocumentOrder
  · intro p hp x hx
    rw [block_eq] at hx
    obtain ⟨y, hy, rfl⟩ := List.mem_map.mp hx
    exact ⟨y.span, rfl, (propertyProblems_within (inOrder p hp) hy).1⟩

/-- Two resources: one does not conform to the definition of its type, the other has a type without
a definition. -/
theorem analyze_segments_two :
    let source := ("\x7b\"Resources\":\x7b\"a\":\x7b\"Type\":\"T\"\x7d,\"b\":" ++
      "\x7b\"Type\":\"U\"\x7d\x7d\x7d").toList
    let definition : Schema := { Schema.empty with required := some ["Properties"] }
    let s : ResolvedSchema :=
      ⟨{ Schema.empty with required := some ["Outputs"], definitions := some [("T", definition)] },
        ["no such file"]⟩
    let o : Options := ⟨false, none, true⟩
    let d : Document := { (parse source).1 with type := .sam, globals := .empty }
    ∃ root, (parse source).1.root = some root ∧
      (d.analyze o (some s)).2.map Problem.diagnostic =
        s.errors.map (resolutionWarning (resolutionSpan root)) ++
          (problems everyNode s.schema root).map Problem.diagnostic ++
          ((resourceProperties root).map (block s.schema.definitions)).flatten ∧
      InDocumentOrder ((resourceProperties root).map (block s.schema.definitions)).flatten ∧
      (resourceProperties root).length = 2 ∧
      (d.analyze o (some s)).2.map Problem.diagnostic =
        [⟨.warning, some "schema-resolution", "Problems loading reference: no such file",
            [⟨"", ⟨0, 1⟩⟩]⟩,
          ⟨.error, some "required", "Missing property \"Outputs\".", [⟨"", ⟨0, 49⟩⟩]⟩,
          ⟨.error, some "required", "Missing property \"Properties\".", [⟨"", ⟨18, 30⟩⟩]⟩,
          unknownTypeHint ⟨43, 46⟩ "U"] := by
  intro source definition s o d
  obtain ⟨root, hroot⟩ := Option.isSome_iff_exists.mp
    (by decide +kernel : ((parse source).1.root).isSome = true)
  have h := analyze_segments hroot .sam .empty o s
  have count : ((parse source).1.root.map fun root => (resourceProperties root).length) =
      some 2 := by decide +kernel
  rw [hroot] at count
  exact ⟨root, hroot, h.1, h.2.2.1, Option.some.inj count, by decide +kernel⟩

end Document

end TemplateLint
