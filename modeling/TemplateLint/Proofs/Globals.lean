import TemplateLint.Proofs.Builder.Numbering
import TemplateLint.Proofs.Causes
import TemplateLint.Proofs.Tree.Parts

/-!
# Problems that globals excuse

With globals applied, the problems of a template are those without, save some
that are excused: a resource does not state a property that its type is given.
A problem is excused by what it says and by the node it belongs to, so the rest
of the analysis stays as it is, in its order.
-/

namespace TemplateLint

/-- Whether a cause is that one of the given names is missing. -/
def Problem.Cause.misses (names : List String) : Problem.Cause → Bool
  | missingProperty name => names.contains name
  | _ => false

/-! ## Problems without requirements -/

namespace Conformance

open Schema (dropRequired relaxDefinition)

variable {names : List String} {s : Schema} {v : Value}

theorem commonCauses_misses (typeName : String) (n : Node) :
    ∀ c ∈ commonCauses s typeName n, c.misses names = false := by
  intro c hc
  rcases mem_commonCauses hc with ⟨_, _, rfl⟩ | ⟨_, _, rfl⟩ | ⟨_, _, rfl⟩ <;> rfl

theorem sizeCauses_misses (x : Double) : ∀ c ∈ sizeCauses s x, c.misses names = false := by
  intro c hc
  rcases mem_sizeCauses hc with ⟨_, rfl⟩ | ⟨_, rfl | rfl⟩ | ⟨_, rfl | rfl⟩ <;> rfl

/-- Values that are no objects have no requirements. -/
theorem ownCauses_misses (hv : v.isObject = false) :
    ∀ c ∈ ownCauses s v, c.misses names = false := by
  intro c hc
  rcases v with ⟨id, span, ps⟩ | ⟨id, span, vs⟩ | ⟨id, span, text | ⟨x, isInteger⟩ | value | _⟩
  · cases hv
  · exact commonCauses_misses _ _ c hc
  · exact commonCauses_misses _ _ c hc
  · exact (List.mem_append.mp hc).elim (commonCauses_misses _ _ c) (sizeCauses_misses x c)
  · exact commonCauses_misses _ _ c hc
  · exact commonCauses_misses _ _ c hc

theorem missingCauses_dropRequired (properties : List Property) :
    missingCauses (dropRequired names s) properties =
      (missingCauses s properties).filter fun c => !c.misses names := by
  obtain ⟨type, definitions, schemas, required, items⟩ := s
  cases required with
  | none => rfl
  | some required =>
    simp only [missingCauses, dropRequired, Option.map_some, Option.getD_some, List.filter_filter,
      List.filter_map]
    congr 1
    refine List.filter_congr fun name _ => ?_
    simp [Problem.Cause.misses, Bool.and_comm]

theorem ownCauses_dropRequired (v : Value) :
    ownCauses (dropRequired names s) v = (ownCauses s v).filter fun c => !c.misses names := by
  cases hv : v.isObject with
  | false =>
    have same : ownCauses (dropRequired names s) v = ownCauses s v := by
      rcases v with ⟨id, span, ps⟩ | ⟨id, span, vs⟩ | ⟨id, span, content⟩
      · cases hv
      · rfl
      · cases content <;> rfl
    rw [same, List.filter_eq_self.mpr]
    intro c hc
    simp [ownCauses_misses hv c hc]
  | true =>
    rcases v with ⟨id, span, ps⟩ | ⟨id, span, vs⟩ | ⟨id, span, content⟩
    · have common : (commonCauses s "object" (.value (.object id span ps))).filter
          (fun c => !c.misses names) = commonCauses s "object" (.value (.object id span ps)) := by
        refine List.filter_eq_self.mpr fun c hc => ?_
        simp [commonCauses_misses _ _ c hc]
      simp only [ownCauses, List.filter_append, common, missingCauses_dropRequired]
      rfl
    · cases hv
    · cases hv

theorem ownProblems_dropRequired (v : Value) :
    ownProblems (dropRequired names s) v =
      (ownProblems s v).filter fun p => !p.cause.misses names := by
  unfold ownProblems problemsAt
  rw [ownCauses_dropRequired, List.filter_map]
  rfl

/-- What is required of a value itself makes no difference to the values below. -/
theorem problems_dropRequired (v : Value) :
    problems everyNode (dropRequired names s) v =
      (ownProblems s v).filter (fun p => !p.cause.misses names) ++
        v.parts.flatMap fun x => problemsUnder everyNode (s.below? x.1) x.2 := by
  rw [problems_eq rfl, ownProblems_dropRequired]
  rfl

/-- Definitions take no part in the problems of a value. -/
theorem problems_definitions (definitions : Option (List (String × Schema))) (v : Value) :
    problems everyNode { s with definitions := definitions } v = problems everyNode s v := by
  rw [problems_eq rfl, problems_eq rfl]
  rcases v with ⟨id, span, ps⟩ | ⟨id, span, vs⟩ | ⟨id, span, content⟩
  · rfl
  · rfl
  · cases content <;> rfl

end Conformance

/-! ## Resources -/

namespace Analysis

open Conformance (everyNode)
open Schema (dropRequired relaxDefinition)

def resourceType? (resource : Value) : Option String :=
  (resource.member? resourceTypeKey).bind Value.text?

/-- The objects that hold a resource's own properties; the key may be repeated. -/
def propertyObjects (resource : Value) : List Value :=
  ((resource.properties?.getD []).filter (·.key = resourcePropertiesKey)).filterMap
    fun p => p.value.filter Value.isObject

/-- Whether a problem is that an object of a resource's own properties lacks one of the names. -/
def lacks (names : List String) (resource : Value) (p : Problem) : Bool :=
  p.cause.misses names && (propertyObjects resource).any (·.id == p.node)

/-- Whether a problem of a resource is excused: the globals list the missing name for the
resource's type. -/
def excused (g : Globals) (resource : Value) (p : Problem) : Bool :=
  match resourceType? resource with
  | some name => lacks (g.namesFor name) resource p
  | none => false

theorem misses_iff {names : List String} {cause : Problem.Cause} :
    cause.misses names = true ↔ ∃ name ∈ names, cause = .missingProperty name := by
  cases cause <;> simp [Problem.Cause.misses]

theorem excused_iff {g : Globals} {resource : Value} {p : Problem} :
    excused g resource p = true ↔
      ∃ (type : String) (key : GlobalKey) (name : String) (v : Value),
        resourceType? resource = some type ∧ type ∈ key.resourceTypes ∧ name ∈ g.names key ∧
          p.cause = .missingProperty name ∧ v ∈ propertyObjects resource ∧ p.node = v.id := by
  unfold excused
  cases ht : resourceType? resource with
  | none => simp
  | some type =>
    simp only [lacks, Bool.and_eq_true, misses_iff, List.any_eq_true, beq_iff_eq]
    constructor
    · rintro ⟨⟨name, hname, hcause⟩, v, hv, hnode⟩
      obtain ⟨key, hkey, hn⟩ := List.mem_flatMap.mp hname
      have happlies := List.contains_iff_mem.mp (List.mem_filter.mp hkey).2
      exact ⟨type, key, name, v, rfl, happlies, hn, hcause, hv, hnode.symm⟩
    · rintro ⟨_, key, name, v, htype, hkey, hn, hcause, hv, hnode⟩
      cases htype
      have hall : key ∈ GlobalKey.all := by cases key <;> decide
      have happlies : key.appliesTo type = true := List.contains_iff_mem.mpr hkey
      refine ⟨⟨name, ?_, hcause⟩, v, hv, hnode.symm⟩
      exact List.mem_flatMap.mpr ⟨key, List.mem_filter.mpr ⟨hall, happlies⟩, hn⟩

section Resource

variable {names : List String} {s : Schema} {resource : Value}

theorem mem_propertyObjects {v : Value} : v ∈ propertyObjects resource ↔
    (Segment.key resourcePropertiesKey, v) ∈ resource.parts ∧ v.isObject = true := by
  rcases resource with ⟨id, span, ps⟩ | ⟨id, span, vs⟩ | ⟨id, span, content⟩
  · simp only [propertyObjects, Value.properties?, Option.getD_some, Value.parts,
      List.mem_filterMap, List.mem_filter, decide_eq_true_eq, Option.filter_eq_some_iff,
      Option.map_eq_some_iff]
    constructor
    · rintro ⟨p, ⟨hp, hkey⟩, hv, ho⟩
      exact ⟨⟨p, hp, v, hv, by rw [hkey]⟩, ho⟩
    · rintro ⟨⟨p, hp, w, hw, he⟩, ho⟩
      obtain ⟨hsegment, rfl⟩ := Prod.mk.inj he
      exact ⟨p, ⟨hp, Segment.key.inj hsegment⟩, hw, ho⟩
  · simp [propertyObjects, Value.properties?, Value.parts]
  · simp [propertyObjects, Value.properties?, Value.parts]

/-- A problem lacks nothing when its node is none of the objects. -/
theorem lacks_eq_false {p : Problem}
    (h : ∀ v ∈ propertyObjects resource, v.id ≠ p.node) : lacks names resource p = false := by
  have hany : (propertyObjects resource).any (·.id == p.node) = false := by
    rw [List.any_eq_false]
    intro v hv
    simpa using h v hv
  simp [lacks, hany]

theorem filter_eq_of_lacks {ps : List Problem} (h : ∀ p ∈ ps, lacks names resource p = false) :
    ps.filter (fun p => !lacks names resource p) = ps := by
  refine List.filter_eq_self.mpr fun p hp => ?_
  simp [h p hp]

/-- A problem of a value belongs to one of the value's numbers. -/
theorem node_mem_ids {v : Value} {s : Option Schema} {p : Problem}
    (h : p ∈ Conformance.problemsUnder everyNode s v) : p.node ∈ (Node.value v).ids := by
  cases s with
  | none => cases h
  | some s => exact Conformance.node_mem_ids h

/-- The own problems of one of the objects. -/
theorem ownProblems_lacks {v : Value} (hv : v ∈ propertyObjects resource) :
    (Conformance.ownProblems s v).filter (fun p => !p.cause.misses names) =
      (Conformance.ownProblems s v).filter fun p => !lacks names resource p := by
  refine List.filter_congr fun p hp => ?_
  obtain ⟨cause, -, rfl⟩ := List.mem_map.mp hp
  have hany : (propertyObjects resource).any (·.id == v.id) = true :=
    List.any_eq_true.mpr ⟨v, hv, by simp⟩
  change _ = !(cause.misses names && (propertyObjects resource).any (·.id == v.id))
  rw [hany, Bool.and_true]

theorem ownProblems_misses_of_not_object {v : Value} (hv : v.isObject = false) :
    (Conformance.ownProblems s v).filter (fun p => !p.cause.misses names) =
      Conformance.ownProblems s v := by
  refine List.filter_eq_self.mpr fun p hp => ?_
  obtain ⟨cause, hc, rfl⟩ := List.mem_map.mp hp
  simp [Conformance.ownCauses_misses hv cause hc]

variable (nodup : (Node.value resource).ids.Nodup)

include nodup

/-- The value of a property under the relaxed key. -/
theorem problems_propertyObject {v : Value}
    (hv : (Segment.key resourcePropertiesKey, v) ∈ resource.parts) :
    Conformance.problems everyNode (dropRequired names s) v =
      (Conformance.problems everyNode s v).filter fun p => !lacks names resource p := by
  have hnodup := Value.nodup_part nodup hv
  have below : ∀ p ∈ v.parts.flatMap fun x =>
      Conformance.problemsUnder everyNode (s.below? x.1) x.2, lacks names resource p = false := by
    intro p hp
    obtain ⟨x, hx, hp⟩ := List.mem_flatMap.mp hp
    have hids := node_mem_ids hp
    refine lacks_eq_false fun w hw hid => ?_
    -- a problem below `v` would belong to `v` itself
    have hwp := (mem_propertyObjects.mp hw).1
    have hwk : p.node ∈ (Node.value w).ids := hid ▸ List.mem_map_of_mem (Node.self_mem_nodes _)
    have hvk : p.node ∈ (Node.value v).ids :=
      ((Node.nodes_inside (Value.mem_nodes_part hx)).map Node.id).subset hids
    cases Value.part_eq_of_id nodup hwp hv hwk hvk
    exact Value.id_not_mem_part hnodup hx (hid ▸ hids)
  rw [Conformance.problems_dropRequired, Conformance.problems_eq rfl, List.filter_append,
    filter_eq_of_lacks below]
  congr 1
  cases ho : v.isObject with
  | true => exact ownProblems_lacks (mem_propertyObjects.mpr ⟨hv, ho⟩)
  | false =>
    rw [ownProblems_misses_of_not_object ho, filter_eq_of_lacks]
    intro p hp
    obtain ⟨cause, hc, rfl⟩ := List.mem_map.mp hp
    simp [lacks, Conformance.ownCauses_misses ho cause hc]

/-- A relaxed definition finds what the definition finds, save what is missing from the objects
of the resource's own properties. -/
theorem problems_relaxDefinition :
    Conformance.problems everyNode (relaxDefinition names s) resource =
      (Conformance.problems everyNode s resource).filter fun p => !lacks names resource p := by
  have own : Conformance.ownProblems (relaxDefinition names s) resource =
      (Conformance.ownProblems s resource).filter fun p => !lacks names resource p := by
    rw [filter_eq_of_lacks]
    · rcases resource with ⟨id, span, ps⟩ | ⟨id, span, vs⟩ | ⟨id, span, content⟩
      · rfl
      · rfl
      · cases content <;> rfl
    · intro p hp
      obtain ⟨cause, -, rfl⟩ := List.mem_map.mp hp
      refine lacks_eq_false fun v hv hid => ?_
      have hpart := (mem_propertyObjects.mp hv).1
      refine Value.id_not_mem_part nodup hpart ?_
      exact (show v.id = resource.id from hid) ▸ List.mem_map_of_mem (Node.self_mem_nodes _)
  rw [Conformance.problems_eq rfl, Conformance.problems_eq rfl, List.filter_append, own,
    List.filter_flatMap]
  congr 1
  refine List.flatMap_congr fun x hx => ?_
  obtain ⟨segment, v⟩ := x
  by_cases hkey : segment = .key resourcePropertiesKey
  · subst hkey
    have hbelow : (relaxDefinition names s).below? (.key resourcePropertiesKey) =
        (s.below? (.key resourcePropertiesKey)).map (dropRequired names) := by
      simp [Schema.below?, Schema.property?_relaxDefinition]
    simp only [hbelow]
    cases s.below? (.key resourcePropertiesKey) with
    | none => rfl
    | some t => exact problems_propertyObject nodup hx
  · have hbelow : (relaxDefinition names s).below? segment = s.below? segment := by
      cases segment with
      | index position => rfl
      | key name =>
        have hname : resourcePropertiesKey ≠ name := fun h => hkey (h ▸ rfl)
        simp [Schema.below?, Schema.property?_relaxDefinition, hname]
    rw [hbelow, filter_eq_of_lacks]
    intro p hp
    refine lacks_eq_false fun w hw hid => ?_
    have hwp := (mem_propertyObjects.mp hw).1
    have hwk : p.node ∈ (Node.value w).ids := hid ▸ List.mem_map_of_mem (Node.self_mem_nodes _)
    exact hkey (congrArg Prod.fst (Value.part_eq_of_id nodup hwp hx hwk (node_mem_ids hp))).symm

theorem resourceProblems_relaxes {g : Globals} {t : Schema}
    (h : Schema.Relaxes g.namesFor s t) :
    resourceProblems t resource =
      (resourceProblems s resource).filter fun p => !excused g resource p := by
  unfold resourceProblems excused resourceType?
  cases hm : resource.member? resourceTypeKey with
  | none => rfl
  | some typeValue =>
    cases ht : typeValue.text? with
    | none => simp [ht]
    | some name =>
      simp only [Option.bind_some, ht, h.definition, h.defined]
      cases s.definition? name with
      | some definition => exact problems_relaxDefinition nodup
      | none =>
        simp only [Option.map_none]
        split
        · rfl
        · rfl

end Resource

/-- The problems of a template with the schema and as a whole, without those of its resources. -/
def generalProblems (s : ResolvedSchema) (d : Document) : List Problem :=
  match d.root with
  | some root =>
    resolutionProblems s root ++ Conformance.problems everyNode s.schema root
  | none => []

/-- The resources that are checked one by one. -/
def checkedResources (o : Options) (d : Document) : List Value :=
  match d.root with
  | some root => if o.validateResources then resources root else []
  | none => []

/-- What an analysis with a schema finds: problems in general, then those of the resources. -/
theorem problems_some (o : Options) (d : Document) (s : ResolvedSchema) :
    problems o d (some s) =
      generalProblems (if o.applyGlobals then s.relax d.globals else s) d ++
        (checkedResources o d).flatMap
          (resourceProblems (if o.applyGlobals then s.relax d.globals else s).schema) := by
  unfold problems generalProblems checkedResources rootProblems
  cases d.root with
  | none => rfl
  | some root => cases o.validateResources <;> simp

theorem generalProblems_relax (g : Globals) (s : ResolvedSchema) (d : Document) :
    generalProblems (s.relax g) d = generalProblems s d := by
  obtain ⟨⟨⟨definitions, hframe⟩, -, -⟩, herrors⟩ := s.relaxes g
  unfold generalProblems resolutionProblems
  rw [herrors, hframe]
  simp only [Conformance.problems_definitions]

/-- In a tree whose nodes have numbers of their own, relaxing a schema excuses problems of
resources and makes no other difference. -/
theorem resources_relax {o : Options} {d : Document} {s : ResolvedSchema} (g : Globals)
    (nodup : (d.entries.map (·.node.id)).Nodup) :
    (checkedResources o d).flatMap (resourceProblems (s.relax g).schema) =
      (checkedResources o d).flatMap fun resource =>
        (resourceProblems s.schema resource).filter fun p => !excused g resource p := by
  refine List.flatMap_congr fun resource hr => ?_
  refine resourceProblems_relaxes ?_ (s.relaxes g).1
  unfold checkedResources at hr
  unfold Document.entries at nodup
  cases hroot : d.root with
  | none => simp [hroot] at hr
  | some root =>
    simp only [hroot] at hr nodup
    have hmem : resource ∈ resources root := by
      split at hr
      · exact hr
      · cases hr
    have hids : (root.entries none none).map (·.node.id) = (Node.value root).ids :=
      Node.map_id_entries none none (.value root)
    rw [hids] at nodup
    exact nodup.sublist ((Node.nodes_inside (mem_nodes_resource hmem)).map Node.id).sublist

end Analysis

namespace Document

/-- Applying the globals of a template takes excused problems of its resources away; the others
stay as they are, in their order. Excused is what an object of a resource's own properties lacks
and the globals list under a key for the resource's type; the globals are those of the document
with the type that the options force. The number by which that object is known is the number of no
other node. -/
theorem analyze_applyGlobals (source : List Char) (type : DocumentType) (stored : Globals)
    (o : Options) (s : ResolvedSchema) :
    let d : Document := { (parse source).1 with type := type, globals := stored }
    let g := ({ d with type := o.documentType.getD type } : Document).collectGlobals
    (d.entries.map (·.node.id)).Nodup ∧
      (d.analyze { o with applyGlobals := false } (some s)).2 =
        Analysis.generalProblems s d ++
          (Analysis.checkedResources o d).flatMap (Analysis.resourceProblems s.schema) ∧
      (d.analyze { o with applyGlobals := true } (some s)).2 =
        Analysis.generalProblems s d ++
          ((Analysis.checkedResources o d).flatMap fun resource =>
            (Analysis.resourceProblems s.schema resource).filter
              fun p => !Analysis.excused g resource p) ∧
      ∀ (resource : Value) (p : Problem), Analysis.excused g resource p = true ↔
        ∃ (typeName : String) (key : GlobalKey) (name : String) (v : Value),
          Analysis.resourceType? resource = some typeName ∧ typeName ∈ key.resourceTypes ∧
            name ∈ g.names key ∧ p.cause = .missingProperty name ∧
            v ∈ Analysis.propertyObjects resource ∧ p.node = v.id := by
  intro d g
  have nodup : (d.entries.map (·.node.id)).Nodup := nodup_parse source
  refine ⟨nodup, ?_, ?_, fun resource p => Analysis.excused_iff⟩
  · exact Analysis.problems_some _ (Analysis.prepare o d) s
  · refine (Analysis.problems_some _ (Analysis.prepare o d) s).trans ?_
    have general := Analysis.generalProblems_relax g s d
    have resources := Analysis.resources_relax (o := o) (s := s) g nodup
    exact congrArg₂ (· ++ ·) general resources

end Document

end TemplateLint
