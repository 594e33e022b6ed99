import TemplateLint.Document
import TemplateLint.Proofs.Tree.Nodes

/-!
# Moved trees

Moving a tree changes where its spans lie and nothing else. What a tree is
asked for, by a path, by a key or as a value, is found at the same node of the
moved tree, so neither the type of a document nor its globals depend on places.
-/

namespace TemplateLint

variable (f : Nat → Nat)

def Span.move (s : Span) : Span := ⟨f s.start, f s.stop⟩

mutual

/-- The tree with every offset of its spans replaced. -/
def Value.move : Value → Value
  | .object id span properties => .object id (span.move f) (moveProperties properties)
  | .array id span items => .array id (span.move f) (moveItems items)
  | .scalar id span content => .scalar id (span.move f) content

def moveProperties : List (PropertyOf Value) → List (PropertyOf Value)
  | [] => []
  | ⟨id, span, key, keySpan, none⟩ :: rest =>
    ⟨id, span.move f, key, keySpan.move f, none⟩ :: moveProperties rest
  | ⟨id, span, key, keySpan, some v⟩ :: rest =>
    ⟨id, span.move f, key, keySpan.move f, some v.move⟩ :: moveProperties rest

def moveItems : List Value → List Value
  | [] => []
  | v :: rest => v.move :: moveItems rest

end

def PropertyOf.move (p : PropertyOf Value) : PropertyOf Value :=
  ⟨p.id, p.span.move f, p.key, p.keySpan.move f, p.value.map (Value.move f)⟩

def Node.move : Node → Node
  | value v => value (v.move f)
  | property p => property (p.move f)

def Entry.move (e : Entry) : Entry := { e with node := e.node.move f }

variable {f}

theorem moveProperties_eq (ps : List (PropertyOf Value)) :
    moveProperties f ps = ps.map (PropertyOf.move f) := by
  induction ps with
  | nil => rfl
  | cons p rest ih =>
    obtain ⟨id, span, key, keySpan, _ | v⟩ := p <;> simp [moveProperties, PropertyOf.move, ih]

theorem moveItems_eq (vs : List Value) : moveItems f vs = vs.map (Value.move f) := by
  induction vs with
  | nil => rfl
  | cons v rest ih => simp [moveItems, ih]

@[simp] theorem Value.move_object (id : Nat) (span : Span) (ps : List (PropertyOf Value)) :
    (object id span ps).move f = .object id (span.move f) (ps.map (PropertyOf.move f)) := by
  rw [move, moveProperties_eq]

@[simp] theorem Value.move_array (id : Nat) (span : Span) (vs : List Value) :
    (array id span vs).move f = .array id (span.move f) (vs.map (Value.move f)) := by
  rw [move, moveItems_eq]

@[simp] theorem Value.move_scalar (id : Nat) (span : Span) (content : Scalar) :
    (scalar id span content).move f = .scalar id (span.move f) content := by
  rw [move]

@[simp] theorem PropertyOf.key_move (p : PropertyOf Value) : (p.move f).key = p.key := rfl

@[simp] theorem PropertyOf.value_move (p : PropertyOf Value) :
    (p.move f).value = p.value.map (Value.move f) := rfl

/-! ## What a tree is asked for -/

theorem find?_move (ps : List Property) (name : String) :
    (ps.map (PropertyOf.move f)).find? (·.key = name) =
      (ps.find? (·.key = name)).map (PropertyOf.move f) :=
  List.find?_map

namespace Value

@[simp] theorem id_move (v : Value) : (v.move f).id = v.id := by
  cases v <;> simp [id]

@[simp] theorem properties?_move (v : Value) :
    (v.move f).properties? = v.properties?.map (List.map (PropertyOf.move f)) := by
  cases v <;> simp [properties?]

@[simp] theorem items?_move (v : Value) :
    (v.move f).items? = v.items?.map (List.map (Value.move f)) := by
  cases v <;> simp [items?]

@[simp] theorem text?_move (v : Value) : (v.move f).text? = v.text? := by
  rcases v with _ | _ | ⟨id, span, content⟩
  · simp [text?]
  · simp [text?]
  · cases content <;> simp [text?]

@[simp] theorem member?_move (v : Value) (key : String) :
    (v.move f).member? key = (v.member? key).map (Value.move f) := by
  simp only [member?, properties?_move]
  cases v.properties? with
  | none => rfl
  | some ps =>
    simp only [Option.map_some, Option.bind_eq_bind, Option.bind_some, ← List.map_reverse,
      find?_move]
    cases ps.reverse.find? (·.key = key) <;> rfl

theorem step?_move (v : Value) (s : Segment) :
    (v.move f).step? s = (v.step? s).map (Node.move f) := by
  rcases v with ⟨id, span, ps⟩ | ⟨id, span, vs⟩ | ⟨id, span, content⟩
  · cases s with
    | key name =>
      rw [move_object, step?, step?, find?_move, Option.map_map, Option.map_map]
      rfl
    | index position => simp [step?]
  · cases s with
    | key name => simp [step?]
    | index position =>
      rw [move_array, step?, step?, List.getElem?_map, Option.map_map, Option.map_map]
      rfl
  · simp [step?]

theorem toJson?_move (v : Value) : (v.move f).toJson? = v.toJson? := by
  induction v using value_induction with
  | object id span ps ih =>
    have members : propertiesJson (ps.map (PropertyOf.move f)) = propertiesJson ps := by
      induction ps with
      | nil => rfl
      | cons p rest ihs =>
        have hrest := ihs fun q hq => ih q (List.mem_cons_of_mem p hq)
        obtain ⟨id, span, key, keySpan, _ | v⟩ := p
        · simpa [propertiesJson, PropertyOf.move] using hrest
        · have hv := ih _ List.mem_cons_self v rfl
          simp [propertiesJson, PropertyOf.move, hv, hrest]
    rw [move_object, toJson?, toJson?, members]
  | array id span vs ih =>
    have items : itemsJson (vs.map (Value.move f)) = itemsJson vs := by
      induction vs with
      | nil => rfl
      | cons v rest ihs =>
        have hrest := ihs fun w hw => ih w (List.mem_cons_of_mem v hw)
        simp [itemsJson, ih v List.mem_cons_self, hrest]
    rw [move_array, toJson?, toJson?, items]
  | scalar id span content => rw [move_scalar, toJson?, toJson?]

end Value

namespace Node

@[simp] theorem id_move (n : Node) : (n.move f).id = n.id := by
  cases n <;> simp [move, id, PropertyOf.move]

@[simp] theorem value?_move (n : Node) : (n.move f).value? = n.value?.map (Value.move f) := by
  cases n <;> simp [move, value?]

theorem follow?_move (path : List Segment) (n : Node) :
    (n.move f).follow? path = (n.follow? path).map (Node.move f) := by
  induction path generalizing n with
  | nil => rfl
  | cons s rest ih =>
    simp only [follow?, value?_move]
    cases n.value? with
    | none => rfl
    | some v =>
      simp only [Option.map_some, Option.bind_eq_bind, Option.bind_some, Value.step?_move]
      cases v.step? s with
      | none => rfl
      | some m => exact ih m

theorem steps_move (n : Node) :
    (n.move f).steps = n.steps.map fun (s, m) => (s, m.move f) := by
  rcases n with (⟨id, span, ps⟩ | ⟨id, span, vs⟩ | ⟨id, span, content⟩) | p
  · simp [move, steps, Function.comp_def]
  · simp [move, steps, Function.comp_def, List.zipIdx_map]
  · simp [move, steps]
  · cases h : p.value <;> simp [move, steps, h]

/-- A moved tree has the entries of the tree, with their nodes moved. -/
theorem entries_move (parent : Option Nat) (segment : Option Segment) (n : Node) :
    (n.move f).entries parent segment = (n.entries parent segment).map (Entry.move f) := by
  induction n using Node.induction generalizing parent segment with
  | node n ih =>
    rw [entries_eq, entries_eq, steps_move, id_move, List.map_cons, List.map_flatMap,
      List.flatMap_map]
    exact congrArg _ (List.flatMap_congr fun (s, m) hm => ih s m hm _ _)

end Node

/-! ## Documents -/

namespace Globals

theorem addProperty_move (g : Globals) (p : Property) :
    g.addProperty (p.move f) = g.addProperty p := by
  unfold addProperty
  rw [PropertyOf.key_move, PropertyOf.value_move]
  cases GlobalKey.ofName? p.key with
  | none => rfl
  | some key =>
    cases p.value with
    | none => rfl
    | some v =>
      simp only [Option.map_some, Option.bind_some, Value.properties?_move]
      cases v.properties? with
      | none => rfl
      | some declared =>
        simp only [Option.map_some, List.map_map]
        rfl

theorem ofSection_move (v : Value) : ofSection (v.move f) = ofSection v := by
  unfold ofSection
  rw [Value.properties?_move]
  cases v.properties? with
  | none => rfl
  | some ps =>
    simp only [Option.map_some, Option.getD_some, List.foldl_map, addProperty_move]

end Globals

namespace Document

def move (f : Nat → Nat) (d : Document) : Document := { d with root := d.root.map (Value.move f) }

variable (d : Document)

theorem find?_move (path : List Segment) :
    (d.move f).find? path = (d.find? path).map (Node.move f) := by
  unfold find? move
  cases d.root with
  | none => rfl
  | some root => exact Node.follow?_move path (.value root)

theorem value?_move (path : List Segment) :
    (d.move f).value? path = (d.value? path).map (Value.move f) := by
  unfold value?
  rw [find?_move]
  cases d.find? path <;> simp

theorem entries_move : (d.move f).entries = d.entries.map (Entry.move f) := by
  unfold entries move
  cases d.root with
  | none => rfl
  | some root => exact Node.entries_move none none (.value root)

theorem collectGlobals_move : (d.move f).collectGlobals = d.collectGlobals := by
  unfold collectGlobals
  rw [value?_move, show (d.move f).type = d.type from rfl]
  cases d.value? [.key "Globals"] with
  | none => rfl
  | some v => simp only [Option.map_some, Globals.ofSection_move]

theorem transforms_move (v : Value) : (DocumentType.transforms (v.move f)).any
    DocumentType.isServerlessTransform =
      (DocumentType.transforms v).any DocumentType.isServerlessTransform := by
  have same : ∀ w : Value, DocumentType.isServerlessTransform (w.move f) =
      DocumentType.isServerlessTransform w := by
    intro w
    simp [DocumentType.isServerlessTransform]
  cases h : v.items? <;> simp [DocumentType.transforms, h, same, Function.comp_def]

theorem detectType_move : (d.move f).detectType = d.detectType := by
  have named : ((((d.move f).value? [.key "Transform"]).map DocumentType.transforms).getD []).any
        DocumentType.isServerlessTransform =
      (((d.value? [.key "Transform"]).map DocumentType.transforms).getD []).any
        DocumentType.isServerlessTransform := by
    rw [value?_move]
    cases d.value? [.key "Transform"] with
    | none => rfl
    | some v => exact transforms_move v
  simp only [detectType, named, find?_move, Option.isSome_map]

end Document

end TemplateLint
