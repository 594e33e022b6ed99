import TemplateLint.Proofs.Builder.Prefixes
import TemplateLint.Proofs.Tree.Events
import TemplateLint.Proofs.Truncation

/-!
# Texts without faults

Where nothing is reported, nothing has been lost: every token is in the tree, in
the order of the text, or is a comma. And nothing is reported of just the blank
texts and those of a grammar that is a little wider than that of JSON, as it
allows a comma behind the last part of an array or object.
-/

namespace TemplateLint

/-! ## A tree as its tokens -/

/-- A token as a tree knows it: a tree does not say where its colons stand. -/
structure Mark where
  kind : Token
  span : Option Span
deriving DecidableEq

def Lexeme.mark (t : Lexeme Token) : Mark :=
  ⟨t.kind, if t.kind = .colon then none else some t.span⟩

def Scalar.token : Scalar → Token
  | .string _ => .string
  | .number _ _ => .number
  | .boolean true => .trueWord
  | .boolean false => .falseWord
  | .null => .nullWord

/-- The tokens that a walk through a tree passes. -/
def Event.marks : Event → List Mark
  | objectStart _ start => [⟨.openBrace, some ⟨start, start + 1⟩⟩]
  | arrayStart _ start => [⟨.openBracket, some ⟨start, start + 1⟩⟩]
  | scalar _ span content => [⟨content.token, some span⟩]
  | key _ _ _ span => [⟨.string, some span⟩, ⟨.colon, none⟩]
  | propertyEnd _ _ => []
  | objectEnd stop => [⟨.closeBrace, some ⟨stop - 1, stop⟩⟩]
  | arrayEnd stop => [⟨.closeBracket, some ⟨stop - 1, stop⟩⟩]

def Value.marks (v : Value) : List Mark := v.events.flatMap Event.marks

def PropertyOf.marks (p : PropertyOf Value) : List Mark :=
  ⟨.string, some p.keySpan⟩ :: ⟨.colon, none⟩ :: (p.value.map Value.marks).getD []

theorem Value.marks_object (id : Nat) (span : Span) (ps : List (PropertyOf Value)) :
    (object id span ps).marks = ⟨.openBrace, some ⟨span.start, span.start + 1⟩⟩ ::
      (ps.flatMap PropertyOf.marks ++ [⟨.closeBrace, some ⟨span.stop - 1, span.stop⟩⟩]) := by
  have hproperty : ∀ p : PropertyOf Value,
      (Node.property p).events.flatMap Event.marks = p.marks := by
    intro p
    cases h : p.value <;>
      simp [Node.events, Node.first, Node.last, PropertyOf.marks, Value.marks, Event.marks, h]
  simp [marks, events, Event.marks, Node.propertyEvents_eq, List.flatMap_assoc, hproperty]

theorem Value.marks_array (id : Nat) (span : Span) (vs : List Value) :
    (array id span vs).marks = ⟨.openBracket, some ⟨span.start, span.start + 1⟩⟩ ::
      (vs.flatMap marks ++ [⟨.closeBracket, some ⟨span.stop - 1, span.stop⟩⟩]) := by
  simp [marks, events, Event.marks, Node.itemEvents_eq, List.flatMap_assoc]
  rfl

theorem Value.marks_ne_nil (v : Value) : v.marks ≠ [] := by
  cases v with
  | object id span ps => simp [marks_object]
  | array id span vs => simp [marks_array]
  | scalar id span content => simp [marks, events, Event.marks]

/-- The tokens other than commas, as a tree knows them. -/
def marks (ts : List (Lexeme Token)) : List Mark :=
  (ts.filter fun t => t.kind ≠ .comma).map Lexeme.mark

theorem marks_nil : marks [] = [] := rfl

theorem marks_cons {t : Lexeme Token} (h : t.kind ≠ .comma) (ts : List (Lexeme Token)) :
    marks (t :: ts) = t.mark :: marks ts := by
  simp [marks, h]

theorem marks_append (ts us : List (Lexeme Token)) : marks (ts ++ us) = marks ts ++ marks us := by
  simp [marks]

theorem Listed.marks {trailing : Bool} {parts : List (List (Lexeme Token))}
    {body : List (Lexeme Token)} (h : Listed trailing parts body) :
    marks body = parts.flatMap TemplateLint.marks := by
  unfold TemplateLint.marks
  rw [h.filter (by simp), List.map_flatMap]

/-- A container as a tree knows it, if its brackets are a byte long each. -/
theorem marks_bracketed {opening closing : Lexeme Token} {body : List (Lexeme Token)}
    (hopening : opening.kind = .openBrace ∨ opening.kind = .openBracket)
    (hclosing : closing.kind = .closeBrace ∨ closing.kind = .closeBracket)
    (hstart : opening.span.stop = opening.span.start + 1)
    (hstop : closing.span.stop = closing.span.start + 1) :
    marks (opening :: (body ++ [closing])) =
      ⟨opening.kind, some ⟨opening.span.start, opening.span.start + 1⟩⟩ ::
        (marks body ++ [⟨closing.kind, some ⟨closing.span.stop - 1, closing.span.stop⟩⟩]) := by
  have hopens : opening.mark =
      ⟨opening.kind, some ⟨opening.span.start, opening.span.start + 1⟩⟩ := by
    rw [← hstart]
    rcases hopening with hk | hk <;> simp [Lexeme.mark, hk]
  have hcloses : closing.mark =
      ⟨closing.kind, some ⟨closing.span.stop - 1, closing.span.stop⟩⟩ := by
    rw [hstop, Nat.add_sub_cancel, ← hstop]
    rcases hclosing with hk | hk <;> simp [Lexeme.mark, hk]
  have hno : opening.kind ≠ .comma ∧ closing.kind ≠ .comma := by
    constructor
    · rcases hopening with hk | hk <;> simp [hk]
    · rcases hclosing with hk | hk <;> simp [hk]
  rw [marks_cons hno.1, marks_append, marks_cons hno.2, marks_nil, hopens, hcloses]

theorem Lexeme.Denotes.mark {t : Lexeme Token} {content : Scalar} (h : t.Denotes (some content)) :
    t.mark = ⟨content.token, some t.span⟩ := by
  generalize hsome : some content = found at h
  cases h with
  | string quotes =>
    obtain ⟨text, -, rfl⟩ := Option.map_eq_some_iff.mp hsome.symm
    simp [Lexeme.mark, quotes.1, Scalar.token]
  | number hkind _ =>
    split at hsome
    · cases hsome
      simp [Lexeme.mark, hkind, Scalar.token]
    · cases hsome
  | trueWord hkind => cases hsome; simp [Lexeme.mark, hkind, Scalar.token]
  | falseWord hkind => cases hsome; simp [Lexeme.mark, hkind, Scalar.token]
  | nullWord hkind => cases hsome; simp [Lexeme.mark, hkind, Scalar.token]

/-- A property as a tree knows it. -/
theorem Field.Leads.marks {f : Field} (h : f.Leads) {p : PropertyOf Value}
    (hp : f.outline = p.outline)
    (value : ∀ w : Value, w.outline = f.value.outline →
      TemplateLint.marks f.value.tokens = w.marks) :
    TemplateLint.marks f.tokens = p.marks := by
  have hkey : f.key.mark = ⟨.string, some f.key.span⟩ := by simp [Lexeme.mark, h.key.1]
  have hcolon : f.colon.mark = ⟨.colon, none⟩ := by simp [Lexeme.mark, h.colon]
  have hspan : f.key.span = p.keySpan := congrArg MemberOf.keySpan hp
  obtain ⟨w, hw, houtline⟩ : ∃ w, p.value = some w ∧ w.outline = f.value.outline :=
    Option.map_eq_some_iff.mp (congrArg MemberOf.value hp).symm
  rw [Field.tokens, marks_cons (by simp [h.key.1]), marks_cons (by simp [h.colon]), hkey, hcolon,
    value w houtline, PropertyOf.marks, hw, hspan]
  rfl

/-- The tokens that derive the outline of a value, commas apart, are those of the value. -/
theorem Derives.marks {trailing : Bool} {ts : List (Lexeme Token)} {o : Outline}
    (h : Derives trailing ts o)
    (length : ∀ t ∈ ts, ∀ text, t.kind.fixed? = some text →
      t.span.stop = t.span.start + Lexeme.byteLength text) {v : Value} (hv : v.outline = o) :
    TemplateLint.marks ts = v.marks := by
  induction h generalizing v with
  | scalar denotes =>
    cases v with
    | object id span ps => simp at hv
    | array id span vs => simp at hv
    | scalar id span content =>
      rw [Value.outline_scalar] at hv
      obtain ⟨rfl, rfl⟩ := Outline.scalar.inj hv
      rw [marks_cons denotes.kind.2, denotes.mark]
      rfl
  | @array opening closing items body hopening hclosing listed _ ih =>
    cases v with
    | object id span ps => simp at hv
    | scalar id span content => simp at hv
    | array id span vs =>
      rw [Value.outline_array] at hv
      obtain ⟨rfl, hitems⟩ := Outline.array.inj hv
      have hstart := length opening (by simp) _ (by rw [hopening]; rfl)
      have hstop := length closing (by simp) _ (by rw [hclosing]; rfl)
      have hbody : TemplateLint.marks body = vs.flatMap Value.marks := by
        rw [listed.marks, List.flatMap_map]
        refine flatMap_eq_of_map_eq hitems.symm fun i hi w _ hw => ?_
        have inside := listed.subset i.tokens (List.mem_map_of_mem hi)
        exact ih i hi (fun t ht => length t (by simp [inside ht])) hw.symm
      rw [marks_bracketed (Or.inr hopening) (Or.inr hclosing) hstart hstop, hbody,
        Value.marks_array, hopening, hclosing]
  | @object opening closing fields body hopening hclosing listed leads _ ih =>
    cases v with
    | array id span vs => simp at hv
    | scalar id span content => simp at hv
    | object id span ps =>
      rw [Value.outline_object] at hv
      obtain ⟨rfl, hfields⟩ := Outline.object.inj hv
      have hstart := length opening (by simp) _ (by rw [hopening]; rfl)
      have hstop := length closing (by simp) _ (by rw [hclosing]; rfl)
      have hbody : TemplateLint.marks body = ps.flatMap PropertyOf.marks := by
        rw [listed.marks, List.flatMap_map]
        refine flatMap_eq_of_map_eq hfields.symm fun f hf p _ hp => ?_
        have inside := listed.subset f.tokens (List.mem_map_of_mem hf)
        refine (leads f hf).marks hp fun w hw => ih f hf (fun t ht => length t ?_) hw
        simp [inside (show t ∈ f.tokens by simp [Field.tokens, ht])]
      rw [marks_bracketed (Or.inl hopening) (Or.inl hclosing) hstart hstop, hbody,
        Value.marks_object, hopening, hclosing]

/-! ## Blank texts -/

def Blank (source : List Char) : Prop := ∀ c ∈ source, Lexeme.isBlank c = true

theorem spelled_nil_iff {source : List Char} {offset : Nat} :
    Spelled offset source [] ↔ Blank source := by
  constructor
  · intro h
    generalize hts : ([] : List (Lexeme Token)) = ts at h
    induction h with
    | nil => exact fun c hc => by cases hc
    | blank hc _ ih => exact List.forall_mem_cons.mpr ⟨hc, ih hts⟩
    | token => cases hts
  · intro h
    rw [← List.append_nil source]
    exact .append_blanks h .nil

namespace Builder

variable {source : List Char}

/-- Just the blank texts have no tokens and no unknown characters. -/
theorem build_blank (h : Blank source) : build source = (none, []) := by
  obtain ⟨htokens, known⟩ := (spelled_nil_iff.mpr h : Spelled 0 source []).lexemes List.isChain_nil
  rw [build_of_known known, show Lexeme.tokens source = [] from htokens]
  rfl

/-- The two kinds of texts without faults. -/
theorem blank_or_isText (h : (build source).2 = []) :
    (Blank source ∧ Lexeme.tokens source = [] ∧ (build source).1 = none) ∨
      ∃ v, (build source).1 = some v ∧ Spelled 0 source (Lexeme.tokens source) ∧
        Derives true (Lexeme.tokens source) v.outline := by
  obtain ⟨known, ⟨htokens, hroot⟩ | ⟨v, hroot, derives⟩⟩ := build_silent h
  · have spelled : Spelled 0 source (Lexeme.tokens source) := by
      refine spelled_of_known known fun t ht => ?_
      rw [show (Lexeme.listFrom 0 0 source).filterMap Lexeme.significant? = [] from htokens] at ht
      cases ht
    rw [htokens] at spelled
    exact Or.inl ⟨spelled_nil_iff.mp spelled, htokens, hroot⟩
  · exact Or.inr ⟨v, hroot, spelled_of_known known derives.wellSpelled, derives⟩

end Builder

namespace Document

variable {source : List Char}

/-- If nothing is reported of a text, all of it consists of known lexemes, and its tokens other than
commas are those of its tree, one by one and in their order. Every property has a value, and only a
text without tokens has no root. -/
theorem marks_parse (h : (parse source).2 = []) :
    (∀ l ∈ Lexeme.ofText source, l.kind.isSome = true) ∧
      marks (Lexeme.tokens source) = (((parse source).1.root).map Value.marks).getD [] ∧
      (∀ e ∈ (parse source).1.entries, ∀ p, e.node = .property p → p.value.isSome = true) ∧
      (marks (Lexeme.tokens source) = [] → (parse source).1.root = none) := by
  have silent := silent_iff.mp h
  obtain ⟨known, -⟩ := Builder.build_silent silent
  refine ⟨known, ?_⟩
  rcases Builder.blank_or_isText silent with ⟨-, htokens, hroot⟩ | ⟨v, hroot, spelled, derives⟩
  · rw [← root_parse] at hroot
    refine ⟨by rw [htokens, hroot]; rfl, ?_, fun _ => hroot⟩
    intro e he
    rw [entries, hroot] at he
    cases he
  · have hmarks := derives.marks spelled.length rfl
    rw [← root_parse] at hroot
    refine ⟨by rw [hmarks, hroot]; rfl, ?_, fun hnone => ?_⟩
    · intro e he p hp
      rw [entries, hroot] at he
      have inside := Node.events_inside (List.mem_map_of_mem he : e.node ∈ (Node.value v).nodes)
      have hend : Event.propertyEnd p.value.isSome p.span.stop ∈ e.node.events := by
        rw [hp, Node.events_eq]
        simp [Node.last]
      have faultless := Builder.build_faultless silent
      rw [← root_parse, hroot] at faultless
      exact faultless _ (inside.subset hend)
    · exact (v.marks_ne_nil (hmarks.symm.trans hnone)).elim

/-- An object that holds an array with an object. -/
theorem marks_parse_nested :
    let source := "\x7b\"a\": [1, \x7b\"b\": null\x7d, true], \"c\": \"d\"\x7d".toList
    (parse source).2 = [] ∧
      (∀ l ∈ Lexeme.ofText source, l.kind.isSome = true) ∧
      marks (Lexeme.tokens source) = (((parse source).1.root).map Value.marks).getD [] ∧
      (∀ e ∈ (parse source).1.entries, ∀ p, e.node = .property p → p.value.isSome = true) ∧
      (marks (Lexeme.tokens source) = [] → (parse source).1.root = none) := by
  intro source
  have silent : (parse source).2 = [] := by decide +kernel
  exact ⟨silent, marks_parse silent⟩

/-- Nothing is reported of just the blank texts, and the texts of JSON that may have a comma behind
the last part of a container, whose literals all stand for something and whose containers are not
nested too deep. -/
theorem parse_silent_iff : (parse source).2 = [] ↔ Blank source ∨
    ∃ o, IsText true source o ∧ o.Meaningful ∧ o.containersAt maxDepth = [] := by
  rw [silent_iff]
  constructor
  · intro h
    rcases Builder.blank_or_isText h with ⟨blank, -, -⟩ | ⟨v, -, spelled, derives⟩
    · exact Or.inl blank
    · have text : IsText true source v.outline := ⟨_, spelled, derives⟩
      have meaningful := v.meaningful_outline
      have hfaults := (Builder.build_of_isText text meaningful).1
      rw [h] at hfaults
      exact Or.inr ⟨v.outline, text, meaningful, List.map_eq_nil_iff.mp hfaults.symm⟩
  · rintro (blank | ⟨o, text, meaningful, shallow⟩)
    · rw [Builder.build_blank blank]
    · rw [(Builder.build_of_isText text meaningful).1, shallow]
      rfl

/-- The grammar of JSON alone does not do: a comma in front of a closing bracket is not reported. -/
theorem silent_without_text :
    let source := "[1,]".toList
    (parse source).2 = [] ∧ ¬ Blank source ∧ ¬ ∃ o, IsText false source o := by
  intro source
  refine ⟨by decide +kernel, fun blank => ?_, ?_⟩
  · cases blank '[' (by decide)
  · rintro ⟨o, ts, spelled, derives⟩
    have chain := derives.framed.chain
    have htokens := (spelled.lexemes derives.framed.chain_number).1
    have kinds : ts.map (·.kind) = [.openBracket, .number, .comma, .closeBracket] := by
      rw [← htokens]
      decide +kernel
    have commas : (ts.map (·.kind)).IsChain fun a b => a = .comma → ¬ b.IsClosing :=
      (List.isChain_map _).mpr (chain.imp fun _ _ follows => follows.comma rfl)
    rw [kinds] at commas
    simp [Token.IsClosing] at commas

end Document

end TemplateLint
