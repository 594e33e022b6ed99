import Mathlib.Data.List.Infix
import TemplateLint.Proofs.Tree.Nodes

/-!
# Trees as events

A walk through a tree meets each node once and leaves each container and each
property once. The events of the walk hold the numbers of the nodes in the
order in which they were given out, and the offsets at which the nodes begin
and end in the order in which they stand in the source. A tree that is still
being read has events too, so what holds of all trees is shown of its events.
-/

namespace TemplateLint

inductive Event where
  | objectStart (id start : Nat)
  | arrayStart (id start : Nat)
  | scalar (id : Nat) (span : Span) (content : Scalar)
  /-- A property begins at an offset of its own, with a key that has a span. -/
  | key (id start : Nat) (name : String) (span : Span)
  | propertyEnd (hasValue : Bool) (stop : Nat)
  | objectEnd (stop : Nat)
  | arrayEnd (stop : Nat)

namespace Event

/-- The number of the node that is met. -/
def id? : Event → Option Nat
  | objectStart id _ => some id
  | arrayStart id _ => some id
  | scalar id _ _ => some id
  | key id _ _ _ => some id
  | propertyEnd _ _ => none
  | objectEnd _ => none
  | arrayEnd _ => none

/-- The offsets that are passed. -/
def offsets : Event → List Nat
  | objectStart _ start => [start]
  | arrayStart _ start => [start]
  | scalar _ span _ => [span.start, span.stop]
  | key _ _ _ span => [span.start, span.stop]
  | propertyEnd _ stop => [stop]
  | objectEnd stop => [stop]
  | arrayEnd stop => [stop]

/-- The offset at which a node begins. -/
def start? : Event → Option Nat
  | objectStart _ start => some start
  | arrayStart _ start => some start
  | scalar _ span _ => some span.start
  | key _ start _ _ => some start
  | propertyEnd _ _ => none
  | objectEnd _ => none
  | arrayEnd _ => none

/-- A property begins with its key. -/
def Aligned : Event → Prop
  | key _ start _ span => start = span.start
  | _ => True

end Event

mutual

def Value.events : Value → List Event
  | .object id span properties =>
    .objectStart id span.start :: (propertyEvents properties ++ [.objectEnd span.stop])
  | .array id span items => .arrayStart id span.start :: (itemEvents items ++ [.arrayEnd span.stop])
  | .scalar id span content => [.scalar id span content]

def propertyEvents : List (PropertyOf Value) → List Event
  | [] => []
  | ⟨id, span, key, keySpan, none⟩ :: rest =>
    .key id span.start key keySpan :: .propertyEnd false span.stop :: propertyEvents rest
  | ⟨id, span, key, keySpan, some v⟩ :: rest =>
    .key id span.start key keySpan ::
      (v.events ++ .propertyEnd true span.stop :: propertyEvents rest)

def itemEvents : List Value → List Event
  | [] => []
  | v :: rest => v.events ++ itemEvents rest

end

/-- The events of a value that may be missing. -/
def valueEvents (v : Option Value) : List Event := (v.map Value.events).getD []

@[simp] theorem valueEvents_none : valueEvents none = [] := rfl

@[simp] theorem valueEvents_some (v : Value) : valueEvents (some v) = v.events := rfl

namespace Node

/-- The event with which a node is met. -/
def first : Node → Event
  | value (.object id span _) => .objectStart id span.start
  | value (.array id span _) => .arrayStart id span.start
  | value (.scalar id span content) => .scalar id span content
  | property p => .key p.id p.span.start p.key p.keySpan

/-- The event with which a node is left, if it can hold others. -/
def last : Node → List Event
  | value (.object _ span _) => [.objectEnd span.stop]
  | value (.array _ span _) => [.arrayEnd span.stop]
  | value (.scalar _ _ _) => []
  | property p => [.propertyEnd p.value.isSome p.span.stop]

def events : Node → List Event
  | value v => v.events
  | property p => (property p).first :: (valueEvents p.value ++ (property p).last)

theorem propertyEvents_eq (ps : List (PropertyOf Value)) :
    propertyEvents ps = ps.flatMap fun p => (property p).events := by
  induction ps with
  | nil => rfl
  | cons p rest ih =>
    obtain ⟨id, span, key, keySpan, _ | v⟩ := p <;>
      simp [propertyEvents, events, first, last, ih]

theorem itemEvents_eq (vs : List Value) : itemEvents vs = vs.flatMap Value.events := by
  induction vs with
  | nil => rfl
  | cons v rest ih => simp [itemEvents, ih]

theorem events_eq (n : Node) :
    n.events = n.first :: ((n.steps.flatMap fun x => x.2.events) ++ n.last) := by
  rcases n with (⟨id, span, ps⟩ | ⟨id, span, vs⟩ | ⟨id, span, content⟩) | p
  · simp [events, Value.events, first, last, steps, propertyEvents_eq, List.flatMap_map]
  · have h : vs.zipIdx.map Prod.fst = vs := List.zipIdx_map_fst 0 vs
    have hv : vs.flatMap Value.events = vs.zipIdx.flatMap fun x => x.1.events := by
      calc vs.flatMap Value.events = (vs.zipIdx.map Prod.fst).flatMap Value.events := by rw [h]
        _ = vs.zipIdx.flatMap fun x => x.1.events := List.flatMap_map ..
    simp only [events, Value.events, first, last, steps, itemEvents_eq, List.flatMap_map, hv]
  · simp [events, Value.events, first, last, steps]
  · cases h : p.value <;> simp [events, first, last, steps, h, valueEvents]

theorem first_mem_events (n : Node) : n.first ∈ n.events := by
  rw [events_eq]
  exact List.mem_cons_self

theorem events_step_inside {n m : Node} {s : Segment} (h : (s, m) ∈ n.steps) :
    m.events <:+: n.events := by
  rw [events_eq n]
  refine List.IsInfix.trans ?_ (List.suffix_cons n.first _).isInfix
  obtain ⟨before, after, hs⟩ := List.append_of_mem h
  rw [hs]
  exact ⟨before.flatMap fun x => x.2.events, (after.flatMap fun x => x.2.events) ++ n.last, by simp⟩

theorem events_inside {n m : Node} (h : m ∈ n.nodes) : m.events <:+: n.events :=
  of_mem_nodes (P := fun k => k.events <:+: n.events)
    (fun _ _ _ hs hk => (events_step_inside hs).trans hk) h List.infix_rfl

/-! ## Numbers -/

/-- The numbers of a node and of all that is below it. -/
def ids (n : Node) : List Nat := n.nodes.map Node.id

theorem ids_eq (n : Node) : n.ids = n.id :: n.steps.flatMap fun x => x.2.ids := by
  unfold ids
  rw [nodes_eq]
  simp [List.map_flatMap]

theorem first_id (n : Node) : n.first.id? = some n.id := by
  rcases n with (⟨_, _, _⟩ | ⟨_, _, _⟩ | ⟨_, _, _⟩) | p <;> rfl

theorem first_start (n : Node) : n.first.start? = some n.span.start := by
  rcases n with (⟨_, _, _⟩ | ⟨_, _, _⟩ | ⟨_, _, _⟩) | p <;> rfl

theorem last_ids (n : Node) : n.last.filterMap Event.id? = [] := by
  rcases n with (⟨_, _, _⟩ | ⟨_, _, _⟩ | ⟨_, _, _⟩) | p <;> rfl

/-- The walk meets every node once. -/
theorem filterMap_id_events (n : Node) : n.events.filterMap Event.id? = n.ids := by
  induction n using Node.induction with
  | node n ih =>
    rw [events_eq, ids_eq, List.filterMap_cons_some (first_id n), List.filterMap_append, last_ids,
      List.append_nil, List.filterMap_flatMap]
    congr 1
    exact List.flatMap_congr fun x hx => ih x.1 x.2 hx

/-! ## Offsets -/

/-- The offsets at which a node and all that is below it begin and end. -/
def offsets (n : Node) : List Nat := n.events.flatMap Event.offsets

theorem offsets_eq (n : Node) : n.offsets = n.first.offsets ++
    ((n.steps.flatMap fun x => x.2.offsets) ++ n.last.flatMap Event.offsets) := by
  unfold offsets
  rw [events_eq]
  simp [List.flatMap_assoc]

/-- A node whose offsets stand in the order of the source, and whose properties begin with their
keys. -/
structure InOrder (n : Node) : Prop where
  sorted : n.offsets.Pairwise (· ≤ ·)
  aligned : ∀ e ∈ n.events, e.Aligned

theorem InOrder.step {n m : Node} {s : Segment} (h : n.InOrder) (hm : (s, m) ∈ n.steps) :
    m.InOrder where
  sorted := h.sorted.sublist ((events_step_inside hm).flatMap Event.offsets).sublist
  aligned := fun e he => h.aligned e ((events_step_inside hm).subset he)

theorem InOrder.of_mem {n m : Node} (h : n.InOrder) (hm : m ∈ n.nodes) : m.InOrder :=
  of_mem_nodes (P := InOrder) (fun _ _ _ hs hk => hk.step hs) hm h

theorem between_ends {a b : Nat} {inner : List Nat}
    (sorted : (a :: (inner ++ [b])).Pairwise (· ≤ ·)) :
    ∀ x ∈ a :: (inner ++ [b]), a ≤ x ∧ x ≤ b := by
  have hab : a ≤ b := List.rel_of_pairwise_cons sorted (by simp)
  have hb := (List.pairwise_append.mp (List.pairwise_cons.mp sorted).2).2.2
  intro x hx
  rcases List.mem_cons.mp hx with rfl | hx
  · exact ⟨Nat.le_refl _, hab⟩
  refine ⟨List.rel_of_pairwise_cons sorted hx, ?_⟩
  rcases List.mem_append.mp hx with hx | hx
  · exact hb x hx b (List.mem_singleton_self b)
  · exact Nat.le_of_eq (List.mem_singleton.mp hx)

/-- The offsets of a node begin and end with those of its span. -/
theorem offsets_ends {n : Node} (aligned : n.first.Aligned) :
    ∃ inner, n.offsets = n.span.start :: (inner ++ [n.span.stop]) := by
  rw [offsets_eq]
  rcases n with (⟨id, span, ps⟩ | ⟨id, span, vs⟩ | ⟨id, span, content⟩) | p
  · exact ⟨_, rfl⟩
  · exact ⟨_, rfl⟩
  · exact ⟨[], rfl⟩
  · refine ⟨p.keySpan.stop :: (property p).steps.flatMap fun x => x.2.offsets, ?_⟩
    have hp : p.span.start = p.keySpan.start := aligned
    simp [first, last, Event.offsets, Node.span, hp]

theorem start_mem_offsets {n : Node} (aligned : n.first.Aligned) : n.span.start ∈ n.offsets := by
  obtain ⟨inner, h⟩ := offsets_ends aligned
  rw [h]
  exact List.mem_cons_self

theorem stop_mem_offsets {n : Node} (aligned : n.first.Aligned) : n.span.stop ∈ n.offsets := by
  obtain ⟨inner, h⟩ := offsets_ends aligned
  simp [h]

namespace InOrder

variable {n : Node}

theorem first_aligned (h : n.InOrder) : n.first.Aligned := h.aligned _ n.first_mem_events

theorem between (h : n.InOrder) {x : Nat} (hx : x ∈ n.offsets) :
    n.span.start ≤ x ∧ x ≤ n.span.stop := by
  obtain ⟨inner, he⟩ := offsets_ends h.first_aligned
  have sorted := h.sorted
  rw [he] at sorted hx
  exact between_ends sorted x hx

/-- A node encloses what is one step below it. -/
theorem encloses (h : n.InOrder) {s : Segment} {m : Node} (hm : (s, m) ∈ n.steps) :
    n.span.encloses m.span = true := by
  have aligned := (h.step hm).first_aligned
  have inside := ((events_step_inside hm).flatMap Event.offsets).subset
  rw [Span.encloses_iff]
  exact ⟨(h.between (inside (start_mem_offsets aligned))).1,
    (h.between (inside (stop_mem_offsets aligned))).2⟩

/-- What stands one step below a node stands side by side. -/
theorem side_by_side (h : n.InOrder) :
    n.steps.Pairwise fun a b => a.2.span.stop ≤ b.2.span.start := by
  have sorted := h.sorted
  rw [offsets_eq] at sorted
  have inner := (List.pairwise_append.mp (List.pairwise_append.mp sorted).2.1).1
  refine (List.pairwise_flatMap.mp inner).2.imp_of_mem fun ha hb hab => ?_
  exact hab _ (stop_mem_offsets (h.step ha).first_aligned) _
    (start_mem_offsets (h.step hb).first_aligned)

/-- A property's key ends before what comes with it begins. -/
theorem key_stop_le {p : Property} (h : (property p).InOrder) :
    p.keySpan.start = p.span.start ∧ p.keySpan.start ≤ p.keySpan.stop ∧
      p.keySpan.stop ≤ p.span.stop ∧ ∀ v, p.value = some v → p.keySpan.stop ≤ v.span.start := by
  have aligned : p.span.start = p.keySpan.start := h.first_aligned
  have sorted := h.sorted
  rw [offsets_eq] at sorted
  obtain ⟨hstart, hstop⟩ := List.pairwise_cons.mp sorted
  have hstop := (List.pairwise_cons.mp hstop).1
  refine ⟨aligned.symm, hstart _ (by simp), hstop _ (by simp [last, Event.offsets]), ?_⟩
  intro v hv
  have hm : (Segment.key p.key, value v) ∈ (property p).steps := by simp [steps, hv]
  have inside : v.span.start ∈ (property p).steps.flatMap fun x => x.2.offsets :=
    List.mem_flatMap.mpr ⟨_, hm, start_mem_offsets (h.step hm).first_aligned⟩
  exact hstop _ (by simp [inside])

end InOrder

end Node

end TemplateLint
