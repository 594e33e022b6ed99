import TemplateLint.Analysis
import TemplateLint.Proofs.Builder.Moving
import TemplateLint.Proofs.Conformance

/-!
# Spacing

Two texts are spaced differently if their lexemes are the same but for white
space. Their trees are moved into each other, lexeme by lexeme, so whatever is
read from them and whatever is found wrong with them is the same but for its
places, whether the texts are templates or not.
-/

namespace TemplateLint

/-- The lexemes of a text, without their places and without white space. -/
def Lexeme.contents (source : List Char) : List (Option Token × List Char) :=
  ((ofText source).filter (·.kind ≠ some .whitespace)).map fun l => (l.kind, l.text)

/-- What a diagnostic says, wherever it is shown. -/
def Diagnostic.unplaced (d : Diagnostic) : Severity × Option String × String × List String :=
  (d.severity, d.rule, d.message, d.labels.map Label.text)

/-- What is wrong with which node. -/
def Problem.unplaced (p : Problem) : Nat × Severity × Option String × String × List String :=
  (p.node, p.diagnostic.unplaced)

/-- An entry with every offset of its node left out. -/
def Entry.unplaced (e : Entry) : Entry := e.move fun _ => 0

theorem PlacedFault.unplaced_move (f : Nat → Nat) (p : PlacedFault) :
    (p.move f).diagnostic.unplaced = p.diagnostic.unplaced := by
  obtain ⟨fault, span⟩ := p
  cases fault <;> rfl

/-! ## The tree of a text -/

namespace Lexeme

variable (source : List Char)

/-- The token of an entry of the contents, at no place. -/
def token? : Option Token × List Char → Option (Lexeme Token)
  | (some token, text) => some ⟨token, text, ⟨0, 0⟩⟩
  | (none, _) => none

/-- The fault of an entry of the contents that belongs to no token, at no place. -/
def unknown? : Option Token × List Char → Option PlacedFault
  | (none, _) => some ⟨.unknownCharacter, ⟨0, 0⟩⟩
  | (some _, _) => none

theorem tokens_unplaced :
    ((ofText source).filterMap significant?).map (move fun _ => 0) =
      (contents source).filterMap token? := by
  unfold contents
  rw [List.map_filterMap, List.filterMap_map, List.filterMap_filter]
  refine List.filterMap_congr fun l _ => ?_
  obtain ⟨_ | token, text, span⟩ := l
  · rfl
  · cases token <;> rfl

theorem unknown_unplaced :
    ((ofText source).filterMap fun l =>
        if l.kind.isNone then some (⟨.unknownCharacter, l.span⟩ : PlacedFault) else none).map
        (PlacedFault.move fun _ => 0) =
      (contents source).filterMap unknown? := by
  unfold contents
  rw [List.map_filterMap, List.filterMap_map, List.filterMap_filter]
  refine List.filterMap_congr fun l _ => ?_
  obtain ⟨_ | token, text, span⟩ := l
  · rfl
  · cases token <;> rfl

end Lexeme

/-- With every offset left out, the tree and the faults of a text are those of its contents. -/
theorem Builder.build_unplaced {a b : List Char}
    (same : Lexeme.contents a = Lexeme.contents b) :
    (build a).1.map (Value.move fun _ => 0) = (build b).1.map (Value.move fun _ => 0) ∧
      (build a).2.map (PlacedFault.move fun _ => 0) =
        (build b).2.map (PlacedFault.move fun _ => 0) := by
  have finished : ∀ source : List Char,
      (((build source).1.map (Value.move fun _ => 0)),
        (build source).2.map (PlacedFault.move fun _ => 0)) =
      ((finish ⟨0, 0⟩ (run ((Lexeme.contents source).filterMap Lexeme.token?))).1,
        (Lexeme.contents source).filterMap Lexeme.unknown? ++
          (finish ⟨0, 0⟩ (run ((Lexeme.contents source).filterMap Lexeme.token?))).2.reverse) := by
    intro source
    have moved := finish_move (f := fun _ => 0) (.point (Lexeme.byteLength source))
      (run ((Lexeme.ofText source).filterMap Lexeme.significant?))
    have ran : State.move (fun _ => 0) (run ((Lexeme.ofText source).filterMap Lexeme.significant?)) =
        run ((Lexeme.contents source).filterMap Lexeme.token?) := by
      rw [run, foldl_step_move, Lexeme.tokens_unplaced]
      rfl
    rw [ran] at moved
    rw [← Lexeme.unknown_unplaced, show (⟨0, 0⟩ : Span) =
      Span.move (fun _ => 0) (.point (Lexeme.byteLength source)) from rfl, moved]
    simp [build]
  exact Prod.mk.inj ((finished a).trans ((same ▸ finished b).symm))

/-! ## The problems of a moved tree -/

namespace Conformance

variable {f : Nat → Nat}

theorem toJson?_move (v : Value) : (Node.value (v.move f)).toJson? = (Node.value v).toJson? :=
  Value.toJson?_move v

theorem ownCauses_move (s : Schema) (v : Value) : ownCauses s (v.move f) = ownCauses s v := by
  have common : ∀ name, commonCauses s name (.value (v.move f)) =
      commonCauses s name (.value v) := by
    intro name
    rw [commonCauses, commonCauses, toJson?_move]
  rcases v with ⟨id, span, ps⟩ | ⟨id, span, vs⟩ | ⟨id, span, content⟩
  · have missing : missingCauses s (ps.map (PropertyOf.move f)) = missingCauses s ps := by
      simp only [missingCauses, List.any_map]
      rfl
    rw [Value.move_object] at common ⊢
    rw [ownCauses, ownCauses, common, missing]
  · rw [Value.move_array] at common ⊢
    rw [ownCauses, ownCauses, common]
  · rw [Value.move_scalar] at common ⊢
    cases content <;> simp only [ownCauses, numberCauses, common]

theorem parts_move (v : Value) :
    (v.move f).parts = v.parts.map fun x => (x.1, x.2.move f) := by
  rcases v with ⟨id, span, ps⟩ | ⟨id, span, vs⟩ | ⟨id, span, content⟩
  · simp [Value.parts, List.filterMap_map, List.map_filterMap, Function.comp_def]
  · simp [Value.parts, List.zipIdx_map, Function.comp_def]
  · simp [Value.parts]

/-- The own problems of values with the same number and causes differ in their places only. -/
theorem ownProblems_move (s : Schema) (v : Value) :
    (ownProblems s (v.move f)).map Problem.unplaced = (ownProblems s v).map Problem.unplaced := by
  simp only [ownProblems, problemsAt, ownCauses_move, List.map_map]
  refine List.map_congr_left fun cause _ => ?_
  simp [Problem.unplaced, Problem.diagnostic, Diagnostic.unplaced, Node.id]

theorem problems_move (included : Nat → Bool) (s : Schema) (v : Value) :
    (problems included s (v.move f)).map Problem.unplaced =
      (problems included s v).map Problem.unplaced := by
  induction v using Value.parts_induction generalizing s with
  | value v ih =>
    cases hi : included v.id with
    | false => rw [problems_excluded hi, problems_excluded (by simpa using hi)]
    | true =>
      rw [problems_eq hi, problems_eq (by simpa using hi), parts_move]
      rw [List.map_append, List.map_append, ownProblems_move, List.flatMap_map, List.map_flatMap,
        List.map_flatMap]
      refine congrArg _ (List.flatMap_congr fun (segment, w) hw => ?_)
      cases s.below? segment with
      | none => rfl
      | some t => exact ih segment w hw t

end Conformance

namespace Analysis

variable {f : Nat → Nat}

theorem resources_move (root : Value) :
    resources (root.move f) = (resources root).map (Value.move f) := by
  unfold resources
  rw [Value.member?_move]
  cases root.member? resourcesKey with
  | none => rfl
  | some declared =>
    simp only [Option.map_some, Option.bind_some, Value.properties?_move]
    cases declared.properties? with
    | none => rfl
    | some ps =>
      simp only [Option.map_some, Option.getD_some, List.filterMap_map, List.map_filterMap]
      rfl

theorem resourceProblems_move (s : Schema) (resource : Value) :
    (resourceProblems s (resource.move f)).map Problem.unplaced =
      (resourceProblems s resource).map Problem.unplaced := by
  unfold resourceProblems
  rw [Value.member?_move]
  cases resource.member? resourceTypeKey with
  | none => rfl
  | some typeValue =>
    simp only [Option.map_some, Value.text?_move]
    cases typeValue.text? with
    | none => rfl
    | some name =>
      dsimp only
      cases s.definition? name with
      | some definition => exact Conformance.problems_move _ _ _
      | none =>
        cases s.definitions.isSome with
        | false => rfl
        | true => simp [Problem.unplaced, Problem.diagnostic, Diagnostic.unplaced]

theorem rootProblems_move (validateResources : Bool) (s : ResolvedSchema) (root : Value) :
    (rootProblems validateResources s (root.move f)).map Problem.unplaced =
      (rootProblems validateResources s root).map Problem.unplaced := by
  have resolution : (resolutionProblems s (root.move f)).map Problem.unplaced =
      (resolutionProblems s root).map Problem.unplaced := by
    simp [resolutionProblems, Problem.unplaced, Problem.diagnostic, Diagnostic.unplaced]
  have inResources : ((resources (root.move f)).flatMap (resourceProblems s.schema)).map
        Problem.unplaced =
      ((resources root).flatMap (resourceProblems s.schema)).map Problem.unplaced := by
    rw [resources_move, List.flatMap_map, List.map_flatMap, List.map_flatMap]
    exact List.flatMap_congr fun resource _ => resourceProblems_move s.schema resource
  unfold rootProblems
  simp only [List.map_append, resolution, Conformance.problems_move]
  cases validateResources with
  | false => rfl
  | true => exact congrArg _ inResources

theorem prepare_move (o : Options) (d : Document) :
    prepare o (d.move f) = (prepare o d).move f := by
  have globals := Document.collectGlobals_move (f := f) { d with type := o.documentType.getD d.type }
  exact congrArg (fun g => Document.mk (o.documentType.getD d.type) (d.root.map (Value.move f)) g)
    globals

theorem problems_move (o : Options) (d : Document) (schema : Option ResolvedSchema) :
    (problems o (d.move f) schema).map Problem.unplaced =
      (problems o d schema).map Problem.unplaced := by
  obtain ⟨type, _ | root, globals⟩ := d
  · rfl
  · cases schema with
    | none => rfl
    | some s => exact rootProblems_move o.validateResources _ root

end Analysis

/-! ## Whole analyses -/

/-- A parsed document with every offset left out, and what its parse reports, are those of the
contents of the text. -/
theorem parse_unplaced {a b : List Char} (same : Lexeme.contents a = Lexeme.contents b) :
    (Document.parse a).1.move (fun _ => 0) = (Document.parse b).1.move (fun _ => 0) ∧
      (Document.parse a).2.map Diagnostic.unplaced =
        (Document.parse b).2.map Diagnostic.unplaced := by
  obtain ⟨roots, faults⟩ := Builder.build_unplaced same
  have types : (Document.parse a).1.type = (Document.parse b).1.type := by
    have typeOf : ∀ source, (Document.parse source).1.type =
        (Document.mk .unknown ((Builder.build source).1.map (Value.move fun _ => 0))
          .empty).detectType := by
      intro source
      exact (Document.detectType_move (f := fun _ => 0) _).symm
    rw [typeOf, typeOf, roots]
  have reports : ∀ fs : List PlacedFault, (fs.map PlacedFault.diagnostic).map Diagnostic.unplaced =
      (fs.map (PlacedFault.move fun _ => 0)).map fun p => p.diagnostic.unplaced := by
    intro fs
    simp [Function.comp_def, PlacedFault.unplaced_move]
  refine ⟨?_, ?_⟩
  · exact congrArg₂ (fun type root => Document.mk type root .empty) types roots
  · exact (reports _).trans ((congrArg _ faults).trans (reports _).symm)

/-- Documents that are moved into each other share what is not in the tree. -/
theorem Document.agree_of_move {f : Nat → Nat} {d e : Document} (h : d.move f = e.move f) :
    d.type = e.type ∧ d.globals = e.globals :=
  ⟨(mk.inj h).1, (mk.inj h).2.2⟩

/-- Nothing but spans depends on the white space of a text. Texts of the same contents have the
same nodes, the same faults, the same type and globals, and under all options and any schema their
analyses find the same wrong with the same nodes. -/
theorem spacing_immaterial {a b : List Char} (same : Lexeme.contents a = Lexeme.contents b) :
    (Document.parse a).1.entries.map Entry.unplaced =
        (Document.parse b).1.entries.map Entry.unplaced ∧
      (Document.parse a).2.map Diagnostic.unplaced =
        (Document.parse b).2.map Diagnostic.unplaced ∧
      (Document.parse a).1.type = (Document.parse b).1.type ∧
      (Document.parse a).1.globals = (Document.parse b).1.globals ∧
      (Document.parse a).1.collectGlobals = (Document.parse b).1.collectGlobals ∧
      ∀ (o : Options) (schema : Option ResolvedSchema),
        ((Document.parse a).1.analyze o schema).2.map Problem.unplaced =
            ((Document.parse b).1.analyze o schema).2.map Problem.unplaced ∧
          ((Document.parse a).1.analyze o schema).1.type =
            ((Document.parse b).1.analyze o schema).1.type ∧
          ((Document.parse a).1.analyze o schema).1.globals =
            ((Document.parse b).1.analyze o schema).1.globals := by
  obtain ⟨documents, faults⟩ := parse_unplaced same
  generalize (Document.parse a).1 = d at documents ⊢
  generalize (Document.parse b).1 = e at documents ⊢
  have prepared : ∀ o, (Analysis.prepare o d).move (fun _ => 0) =
      (Analysis.prepare o e).move (fun _ => 0) := by
    intro o
    rw [← Analysis.prepare_move, documents, Analysis.prepare_move]
  obtain ⟨types, globals⟩ := Document.agree_of_move documents
  refine ⟨?_, faults, types, globals, ?_,
    fun o schema => ⟨?_, Document.agree_of_move (prepared o)⟩⟩
  · calc d.entries.map Entry.unplaced = (d.move fun _ => 0).entries := d.entries_move.symm
      _ = (e.move fun _ => 0).entries := by rw [documents]
      _ = e.entries.map Entry.unplaced := e.entries_move
  · rw [← d.collectGlobals_move (f := fun _ => 0), documents, e.collectGlobals_move]
  · calc (d.analyze o schema).2.map Problem.unplaced
        = (Analysis.problems o ((Analysis.prepare o d).move fun _ => 0) schema).map
            Problem.unplaced := (Analysis.problems_move o _ schema).symm
      _ = (Analysis.problems o ((Analysis.prepare o e).move fun _ => 0) schema).map
            Problem.unplaced := by rw [prepared o]
      _ = (e.analyze o schema).2.map Problem.unplaced := Analysis.problems_move o _ schema

/-- A template that breaks off, on one line and on two. -/
theorem spacing_immaterial_unclosed :
    Lexeme.contents "\x7b\"Resources\":[1,tru".toList =
        Lexeme.contents " \x7b \"Resources\":\n\t[1 , tru".toList ∧
      (Document.parse "\x7b\"Resources\":[1,tru".toList).1.entries.map Entry.unplaced =
        (Document.parse " \x7b \"Resources\":\n\t[1 , tru".toList).1.entries.map
          Entry.unplaced ∧
      (Document.parse "\x7b\"Resources\":[1,tru".toList).2.map Diagnostic.unplaced =
        (Document.parse " \x7b \"Resources\":\n\t[1 , tru".toList).2.map
          Diagnostic.unplaced := by
  have same : Lexeme.contents "\x7b\"Resources\":[1,tru".toList =
      Lexeme.contents " \x7b \"Resources\":\n\t[1 , tru".toList := by decide
  obtain ⟨entries, diagnostics, -⟩ := spacing_immaterial same
  exact ⟨same, entries, diagnostics⟩

end TemplateLint
