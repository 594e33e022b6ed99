import TemplateLint.Proofs.Grammar.Printing
import TemplateLint.Proofs.Sources
import TemplateLint.Proofs.Truncation

/-!
# Texts of values

The text of a value is a text of JSON, and its outline leads back to the value:
a tree with this outline stands for it. So the text is parsed without a fault
into a tree that stands for the value, if the value is one that trees can stand
for: names are distinct, numbers are integers of at most 53 bits, and containers
are not nested too deep.
-/

namespace TemplateLint

namespace Json

/-- Values that can be read from their text, with containers nested at most as deep as a number
says. -/
inductive Readable : Nat → Json → Prop where
  | null {n : Nat} : Readable n .null
  | boolean {n : Nat} {value : Bool} : Readable n (.boolean value)
  | integer {n : Nat} {i : Int} : i.natAbs ≤ 2 ^ 53 → Readable n (.number (.integer i))
  | string {n : Nat} {text : String} : Readable n (.string text)
  | array {n : Nat} {items : List Json} : (∀ v ∈ items, Readable n v) →
      Readable (n + 1) (.array items)
  | object {n : Nat} {members : List (String × Json)} : (Members.names members).Nodup →
      (∀ m ∈ members, Readable n m.2) → Readable (n + 1) (.object members)

/-! ## Texts -/

def memberText (m : String × Json) : List Char := quote m.1 ++ ':' :: m.2.toText

theorem itemsText_eq (items : List Json) :
    itemsText items = [','].intercalate (items.map toText) := by
  induction items with
  | nil => simp [itemsText]
  | cons v rest ih =>
    cases rest with
    | nil => simp [itemsText]
    | cons w rest => simp [itemsText, ih]

theorem membersText_eq (members : List (String × Json)) :
    membersText members = [','].intercalate (members.map memberText) := by
  induction members with
  | nil => simp [membersText]
  | cons m rest ih =>
    obtain ⟨name, v⟩ := m
    cases rest with
    | nil => simp [membersText, memberText]
    | cons w rest => simp [membersText, memberText, ih]

end Json

/-- Parts are spelled one by one, with a comma between them. -/
theorem exists_listed {α β : Type} {text : α → List Char} (tokens : β → List (Lexeme Token))
    (R : α → β → Prop) (xs : List α)
    (part : ∀ x ∈ xs, ∀ offset, ∃ y, Spelled offset (text x) (tokens y) ∧ R x y) (offset : Nat) :
    ∃ (pairs : List (α × β)) (body : List (Lexeme Token)), pairs.map Prod.fst = xs ∧
      Spelled offset ([','].intercalate (xs.map text)) body ∧
      Listed false ((pairs.map Prod.snd).map tokens) body ∧ ∀ x ∈ pairs, R x.1 x.2 := by
  induction xs generalizing offset with
  | nil => exact ⟨[], [], rfl, by simpa using Spelled.nil, .empty, by simp⟩
  | cons x rest ih =>
    obtain ⟨y, spelled, hxy⟩ := part x (by simp) offset
    cases rest with
    | nil =>
      refine ⟨[(x, y)], tokens y, rfl, by simpa using spelled, ?_, by simpa using hxy⟩
      exact .last (tokens y) .nil
    | cons x' rest =>
      obtain ⟨comma, hcomma, -, comes⟩ :=
        Spelled.exists_fixed .comma rfl (offset + Lexeme.byteLength (text x))
      obtain ⟨pairs, body, hpairs, spelledRest, listed, hrest⟩ :=
        ih (fun x hx => part x (List.mem_cons_of_mem _ hx))
          (offset + Lexeme.byteLength (text x) + Lexeme.byteLength [','])
      refine ⟨(x, y) :: pairs, tokens y ++ comma :: body, by simp [hpairs], ?_, ?_, ?_⟩
      · simpa using spelled.append (comes.append spelledRest)
      · refine listed.cons ?_ (tokens y) hcomma
        intro hnil
        simp only [List.map_eq_nil_iff] at hnil
        rw [hnil] at hpairs
        cases hpairs
      · exact List.forall_mem_cons.mpr ⟨hxy, hrest⟩

namespace Json

/-- Tokens that derive an outline of a value: a tree with this outline stands for the value. -/
structure Shown (n : Nat) (v : Json) (ts : List (Lexeme Token)) (o : Outline) : Prop where
  derives : Derives false ts o
  meaningful : o.Meaningful
  shallow : o.containersAt n = []
  value : ∀ w : Value, w.outline = o → w.toJson? = some v

variable {n : Nat}

theorem shown_scalar {t : Lexeme Token} {content : Scalar} {v : Json} (h : t.Denotes (some content))
    (hv : content.toJson? = some v) : Shown n v [t] (.scalar t.span (some content)) := by
  refine ⟨.scalar h, .scalar, by simp [Outline.containersAt], fun w hw => ?_⟩
  cases w with
  | object id span ps => simp at hw
  | array id span vs => simp at hw
  | scalar id span c =>
    rw [Value.outline_scalar] at hw
    cases hw
    exact hv

theorem exists_shown_word (kind : Token) {text : List Char} (htext : kind.fixed? = some text)
    {content : Scalar} (denotes : ∀ t : Lexeme Token, t.kind = kind → t.Denotes (some content))
    {v : Json} (hv : content.toJson? = some v) (offset : Nat) :
    ∃ ts o, Spelled offset text ts ∧ Shown n v ts o := by
  obtain ⟨t, hkind, -, spelled⟩ := Spelled.exists_fixed kind htext offset
  exact ⟨_, _, spelled, shown_scalar (denotes t hkind) hv⟩

theorem exists_quoted (s : String) (offset : Nat) :
    ∃ t : Lexeme Token, t.Quotes (some s) ∧ Spelled offset (quote s) [t] := by
  let t : Lexeme Token := ⟨.string, quote s, .ofLength offset (Lexeme.byteLength (quote s))⟩
  have literal := literal_quote s
  exact ⟨t, ⟨rfl, _, literal, by simp⟩,
    .token (List.append_nil _).symm (.string rfl literal) rfl .nil⟩

theorem exists_shown_integer {i : Int} (h : i.natAbs ≤ 2 ^ 53) (offset : Nat) :
    ∃ ts o, Spelled offset (numberText (.integer i)) ts ∧
      Shown n (.number (.integer i)) ts o := by
  let text := numberText (.integer i)
  let t : Lexeme Token := ⟨.number, text, .ofLength offset (Lexeme.byteLength text)⟩
  have writes := Decimal.Literal.writes_ofInt i
  obtain ⟨finite, hint⟩ := Double.toInt?_literal h
  have denotes : t.Denotes _ := .number rfl writes
  rw [if_pos finite] at denotes
  exact ⟨[t], _, .token (List.append_nil _).symm (.number rfl writes) rfl .nil,
    shown_scalar denotes (numberJson?_integer hint)⟩

theorem shown_array {pairs : List (Json × Item)} {opening closing : Lexeme Token}
    {body : List (Lexeme Token)} (hopening : opening.kind = .openBracket)
    (hclosing : closing.kind = .closeBracket)
    (listed : Listed false ((pairs.map Prod.snd).map Item.tokens) body)
    (shown : ∀ x ∈ pairs, Shown n x.1 x.2.tokens x.2.outline) :
    Shown (n + 1) (.array (pairs.map Prod.fst)) (opening :: (body ++ [closing]))
      (.array ⟨opening.span.start, closing.span.stop⟩ ((pairs.map Prod.snd).map Item.outline)) := by
  refine ⟨?_, ?_, ?_, fun w hw => ?_⟩
  · exact .array hopening hclosing listed (List.forall_mem_map.mpr fun x hx => (shown x hx).derives)
  · refine .array (List.forall_mem_map.mpr (List.forall_mem_map.mpr ?_))
    exact fun x hx => (shown x hx).meaningful
  · rw [Outline.containersAt, List.flatMap_eq_nil_iff]
    refine List.forall_mem_map.mpr (List.forall_mem_map.mpr ?_)
    exact fun x hx => (shown x hx).shallow
  · cases w with
    | object id span ps => simp at hw
    | scalar id span content => simp at hw
    | array id span vs =>
      rw [Value.outline_array, List.map_map] at hw
      obtain ⟨-, houtlines⟩ := Outline.array.inj hw
      have hitems : vs.map (fun w => w.toJson?.getD .null) = pairs.map Prod.fst := by
        refine map_eq_of_map_eq houtlines fun w _ x hx hw => ?_
        rw [(shown x hx).value w hw]
        rfl
      rw [Value.toJson?, itemsJson_eq, hitems]

theorem shown_object {pairs : List ((String × Json) × Field)} {opening closing : Lexeme Token}
    {body : List (Lexeme Token)} (hopening : opening.kind = .openBrace)
    (hclosing : closing.kind = .closeBrace)
    (listed : Listed false ((pairs.map Prod.snd).map Field.tokens) body)
    (distinct : (Members.names (pairs.map Prod.fst)).Nodup)
    (named : ∀ x ∈ pairs, x.2.Leads ∧ x.2.name = some x.1.1)
    (shown : ∀ x ∈ pairs, Shown n x.1.2 x.2.value.tokens x.2.value.outline) :
    Shown (n + 1) (.object (pairs.map Prod.fst)) (opening :: (body ++ [closing]))
      (.object ⟨opening.span.start, closing.span.stop⟩
        ((pairs.map Prod.snd).map Field.outline)) := by
  refine ⟨?_, ?_, ?_, fun w hw => ?_⟩
  · exact .object hopening hclosing listed
      (List.forall_mem_map.mpr fun x hx => (named x hx).1)
      (List.forall_mem_map.mpr fun x hx => (shown x hx).derives)
  · refine .object (List.forall_mem_map.mpr (List.forall_mem_map.mpr fun x hx => ?_))
      (List.forall_mem_map.mpr (List.forall_mem_map.mpr fun x hx o ho => ?_))
    · simp [Field.outline, (named x hx).2]
    · cases ho
      exact (shown x hx).meaningful
  · rw [Outline.containersAt, List.flatMap_eq_nil_iff]
    refine List.forall_mem_map.mpr (List.forall_mem_map.mpr ?_)
    exact fun x hx => (shown x hx).shallow
  · cases w with
    | array id span vs => simp at hw
    | scalar id span content => simp at hw
    | object _ span ps =>
      rw [Value.outline_object, List.map_map] at hw
      obtain ⟨-, houtlines⟩ := Outline.object.inj hw
      have hmembers : ps.map (fun p => (p.value.bind Value.toJson?).map fun json => (p.key, json)) =
          pairs.map fun x => some x.1 := by
        refine map_eq_of_map_eq houtlines fun p _ x hx hp => ?_
        obtain ⟨w, hw, houtline⟩ := Option.map_eq_some_iff.mp (congrArg MemberOf.value hp)
        have hkey : some p.key = x.2.name := congrArg MemberOf.key hp
        rw [(named x hx).2, Option.some.injEq] at hkey
        simp [hw, (shown x hx).value w houtline, hkey]
      have hjson : propertiesJson ps = pairs.map Prod.fst := by
        have hread := congrArg (List.filterMap id) hmembers
        rw [List.filterMap_map, List.filterMap_map, Function.id_comp] at hread
        rw [propertiesJson_eq, hread]
        exact List.filterMap_eq_map_iff_forall_eq_some.mpr fun x _ => rfl
      rw [Value.toJson?, hjson, Members.ofList_of_nodup distinct]

theorem exists_shown_member {m : String × Json}
    (h : ∀ offset, ∃ ts o, Spelled offset m.2.toText ts ∧ Shown n m.2 ts o) (offset : Nat) :
    ∃ f : Field, Spelled offset (memberText m) f.tokens ∧ (f.Leads ∧ f.name = some m.1) ∧
      Shown n m.2 f.value.tokens f.value.outline := by
  obtain ⟨key, quotes, named⟩ := exists_quoted m.1 offset
  obtain ⟨colon, hcolon, -, comes⟩ :=
    Spelled.exists_fixed .colon rfl (offset + Lexeme.byteLength (quote m.1))
  obtain ⟨ts, o, spelled, shown⟩ :=
    h (offset + Lexeme.byteLength (quote m.1) + Lexeme.byteLength [':'])
  exact ⟨⟨key, some m.1, colon, ts, o⟩, named.append (comes.append spelled),
    ⟨⟨quotes, hcolon⟩, rfl⟩, shown⟩

/-- The text of a value is spelled by tokens that lead back to it. -/
theorem Readable.exists_shown {v : Json} (h : v.Readable n) (offset : Nat) :
    ∃ ts o, Spelled offset v.toText ts ∧ Shown n v ts o := by
  induction h generalizing offset with
  | null => exact exists_shown_word .nullWord rfl (fun _ h => .nullWord h) rfl offset
  | @boolean _ value =>
    cases value
    · exact exists_shown_word .falseWord rfl (fun _ h => .falseWord h) rfl offset
    · exact exists_shown_word .trueWord rfl (fun _ h => .trueWord h) rfl offset
  | integer small => exact exists_shown_integer small offset
  | @string _ text =>
    obtain ⟨t, quotes, spelled⟩ := exists_quoted text offset
    exact ⟨_, _, spelled, shown_scalar (.string quotes) rfl⟩
  | @array n items _ ih =>
    have part : ∀ v ∈ items, ∀ offset, ∃ i : Item, Spelled offset v.toText i.tokens ∧
        Shown n v i.tokens i.outline := by
      intro v hv offset
      obtain ⟨ts, o, spelled, shown⟩ := ih v hv offset
      exact ⟨⟨ts, o⟩, spelled, shown⟩
    obtain ⟨pairs, body, rfl, spelled, listed, shown⟩ :=
      exists_listed Item.tokens _ items part (offset + Lexeme.byteLength ['['])
    obtain ⟨opening, closing, hopening, hclosing, -, -, spelled⟩ :=
      spelled.exists_bracketed .openBracket .closeBracket rfl rfl
    rw [← itemsText_eq] at spelled
    exact ⟨_, _, spelled, shown_array hopening hclosing listed shown⟩
  | @object n members distinct _ ih =>
    obtain ⟨pairs, body, rfl, spelled, listed, shown⟩ :=
      exists_listed Field.tokens _ members (fun m hm => exists_shown_member (ih m hm))
        (offset + Lexeme.byteLength ['\x7b'])
    obtain ⟨opening, closing, hopening, hclosing, -, -, spelled⟩ :=
      spelled.exists_bracketed .openBrace .closeBrace rfl rfl
    rw [← membersText_eq] at spelled
    exact ⟨_, _, spelled, shown_object hopening hclosing listed distinct
      (fun x hx => (shown x hx).1) fun x hx => (shown x hx).2⟩

end Json

namespace Document

/-- A value with distinct names, integers of at most 53 bits and at most 128 containers in one
another is what the text of the value is read as: without a fault, and with its members in order. -/
theorem parse_toText {v : Json} (h : v.Readable maxDepth) :
    (parse v.toText).2 = [] ∧
      ∃ root, (parse v.toText).1.root = some root ∧ root.toJson? = some v := by
  obtain ⟨ts, o, spelled, shown⟩ := h.exists_shown 0
  obtain ⟨hfaults, root, hroot, houtline⟩ :=
    Builder.build_of_isText ⟨ts, spelled, shown.derives⟩ shown.meaningful
  rw [Outline.truncate_eq_self shown.shallow, Option.some.injEq] at houtline
  rw [shown.shallow] at hfaults
  exact ⟨silent_iff.mpr hfaults, root, hroot, shown.value root houtline⟩

/-- An object with empty containers, a control character in a key and the least of the integers. -/
theorem parse_toText_nested :
    let v : Json := .object [("\"a\\\x01", .array [.number (.integer (-9007199254740992)), .array []]),
      ("é", .object []), ("", .string "\n/")]
    v.Readable maxDepth ∧ (parse v.toText).2 = [] ∧
      ∃ root, (parse v.toText).1.root = some root ∧ root.toJson? = some v := by
  intro v
  have items : ∀ w ∈ [Json.number (.integer (-9007199254740992)), .array []], w.Readable 126 := by
    simp only [List.forall_mem_cons, List.not_mem_nil, false_implies, implies_true, and_true]
    exact ⟨.integer (by decide), .array (n := 125) (by simp)⟩
  have readable : v.Readable maxDepth := by
    refine .object (n := 127) (by decide) ?_
    simp only [List.forall_mem_cons, List.not_mem_nil, false_implies, implies_true, and_true]
    exact ⟨.array (n := 126) items, .object (n := 126) (by decide) (by simp), .string⟩
  exact ⟨readable, parse_toText readable⟩

end Document

end TemplateLint
