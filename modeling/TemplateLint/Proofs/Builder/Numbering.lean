import TemplateLint.Document
import TemplateLint.Proofs.Builder.Runs
import TemplateLint.Proofs.Tree.Listing

/-!
# Numbers of nodes

A node is given the next number when its first token is read, and no node that
has been given a number is dropped. So the numbers stand in the tree as they
were given out, whatever the faults of the text, and the nodes of a document
form a well-formed list with a place for every number.
-/

namespace TemplateLint

namespace Builder

variable {t : Lexeme Token} {lastEnd id : Nat}

theorem Stands.id? {e : Event} (h : Stands t id e) : e.id? = some id ∨ e.id? = none := by
  cases h with
  | objectStart => exact Or.inl rfl
  | arrayStart => exact Or.inl rfl
  | scalar _ => exact Or.inl rfl
  | key => exact Or.inl rfl
  | objectEnd => exact Or.inr rfl
  | arrayEnd => exact Or.inr rfl

/-- A token gives out at most one number, and it is the next one. -/
theorem Adds.ids {es : List Event} (h : Adds t lastEnd id es) :
    es.filterMap Event.id? = List.range' id (es.filterMap Event.id?).length := by
  have one : ∀ {e : Event} (rest : List Event), rest.filterMap Event.id? = [] → Stands t id e →
      (e :: rest).filterMap Event.id? =
        List.range' id ((e :: rest).filterMap Event.id?).length := by
    intro e rest hrest he
    rcases he.id? with hid | hid
    · rw [List.filterMap_cons_some hid, hrest]
      rfl
    · rw [List.filterMap_cons_none hid, hrest]
      rfl
  induction h with
  | nothing => rfl
  | ends hasValue => rfl
  | stands he => exact one [] rfl he
  | completes hasValue he => exact one _ rfl he
  | leaves _ ih =>
    rw [List.filterMap_cons_none rfl]
    exact ih

theorem Adds.length_ids_le {es : List Event} (h : Adds t lastEnd id es) :
    (es.filterMap Event.id?).length ≤ 1 := by
  have single : ∀ e : Event, ([e].filterMap Event.id?).length ≤ 1 :=
    fun e => List.length_filterMap_le _ [e]
  induction h with
  | nothing => exact Nat.zero_le 1
  | ends hasValue => exact Nat.zero_le 1
  | stands he => exact single _
  | completes hasValue he =>
    rw [List.filterMap_cons, List.filterMap_cons_none rfl]
    exact single _
  | leaves _ ih =>
    rw [List.filterMap_cons_none rfl]
    exact ih

/-- The nodes met so far have the numbers given out so far, in order. -/
structure State.Numbered (s : State) : Prop where
  rooted : s.Rooted
  ids : s.events.filterMap Event.id? = List.range s.nextId

theorem step_numbered {s : State} (h : s.Numbered) : (step s t).Numbered := by
  obtain ⟨hrooted, es, fs, hadds, hevents, -, hnext, -⟩ := step_advance (t := t) h.rooted
  refine ⟨hrooted, ?_⟩
  rw [hevents, List.filterMap_append, h.ids, hadds.ids, hnext, List.range_eq_range',
    List.range_eq_range', ← List.range'_append_1, Nat.zero_add]

theorem run_numbered (ts : List (Lexeme Token)) : (run ts).Numbered := by
  induction ts using List.reverseRecOn with
  | nil => exact ⟨rfl, rfl⟩
  | append_singleton ts t ih =>
    rw [run_snoc]
    exact step_numbered ih

/-- No more numbers are given out than there are tokens. -/
theorem run_nextId_le (ts : List (Lexeme Token)) : (run ts).nextId ≤ ts.length := by
  induction ts using List.reverseRecOn with
  | nil => exact Nat.le_refl 0
  | append_singleton ts t ih =>
    obtain ⟨es, -, hadds, -, -, hnext, -⟩ := (step_advance (t := t) (run_rooted ts)).adds
    have hone := hadds.length_ids_le
    rw [run_snoc, hnext, List.length_append, List.length_singleton]
    omega

/-- The tree of a text has all the numbers that were given out while it was read. -/
theorem build_ids (source : List Char) :
    (valueEvents (build source).1).filterMap Event.id? =
      List.range (run (Lexeme.tokens source)).nextId := by
  obtain ⟨es, he, hcloses, -⟩ := build_events source
  have hnone : es.filterMap Event.id? = [] := by
    refine List.filterMap_eq_nil_iff.mpr fun e hm => ?_
    cases hcloses e hm with
    | propertyEnd hasValue => rfl
    | objectEnd => rfl
    | arrayEnd => rfl
  rw [he, List.filterMap_append, hnone, List.append_nil, (run_numbered _).ids]

end Builder

namespace Document

theorem root_parse (source : List Char) : (parse source).1.root = (Builder.build source).1 := rfl

/-- The numbers of a parsed document's nodes are their places. -/
theorem ids_parse (source : List Char) :
    (parse source).1.entries.map (·.node.id) =
      List.range (Builder.run (Lexeme.tokens source)).nextId := by
  have hids := Builder.build_ids source
  rw [← root_parse] at hids
  unfold entries
  cases hroot : (parse source).1.root with
  | none =>
    rw [hroot] at hids
    exact hids
  | some root =>
    rw [hroot] at hids
    rw [← hids]
    exact (Node.map_id_entries none none (.value root)).trans
      (Node.filterMap_id_events (.value root)).symm

theorem nodup_parse (source : List Char) :
    ((parse source).1.entries.map (·.node.id)).Nodup := by
  rw [ids_parse]
  exact List.nodup_range

theorem entries_of_root {d : Document} {root : Value} (h : d.root = some root) :
    d.entries = (Node.value root).entries none none := by
  rw [entries, h]
  rfl

theorem root_mem_entries {d : Document} {root : Value} (h : d.root = some root) :
    ⟨none, none, .value root⟩ ∈ d.entries := by
  rw [entries_of_root h]
  exact Node.mem_entries_self none none (.value root)

/-- A document that has nodes has a root, and they are the nodes of the root. -/
theorem exists_root_of_mem {d : Document} {e : Entry} (he : e ∈ d.entries) :
    ∃ root, d.root = some root ∧ d.entries = (Node.value root).entries none none := by
  unfold entries at he ⊢
  cases hroot : d.root with
  | none =>
    rw [hroot] at he
    cases he
  | some root => exact ⟨root, rfl, rfl⟩

/-- What is below a node of a document is listed with it. -/
theorem entries_subset_of_mem {d : Document} {e : Entry} (he : e ∈ d.entries) :
    e.node.entries e.parent e.segment ⊆ d.entries := by
  obtain ⟨root, -, hentries⟩ := exists_root_of_mem he
  rw [hentries] at he ⊢
  exact (Node.entries_inside he).subset

/-- The nodes of any text, with faults or without, form a single tree in which every number that
was given out has its place: no node is orphaned, shared or its own ancestor. -/
theorem wellListed_parse (source : List Char) :
    WellListed (parse source).1.root (parse source).1.entries ∧
      (parse source).1.entries.length = (Builder.run (Lexeme.tokens source)).nextId := by
  have hids := ids_parse source
  have hlen : (parse source).1.entries.length = (Builder.run (Lexeme.tokens source)).nextId := by
    simpa using congrArg List.length hids
  refine ⟨?_, hlen⟩
  rw [← hlen] at hids
  unfold entries at hids ⊢
  cases hroot : (parse source).1.root with
  | none => exact wellListed_none
  | some root =>
    rw [hroot] at hids
    refine wellListed_of_numbered root ?_
    rw [← hids]
    exact (Node.map_id_entries none none (.value root)).symm

/-- The nodes of a text's root are numbered in their order. -/
theorem numbered_of_root {source : List Char} {root : Value}
    (hn : (parse source).1.entries = (Node.value root).entries none none) :
    (Node.value root).ids = List.range (parse source).1.entries.length := by
  rw [(wellListed_parse source).2, ← ids_parse, hn, Node.map_id_entries]

end Document

end TemplateLint
