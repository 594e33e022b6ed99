import TemplateLint.Json.Decoding
import TemplateLint.Proofs.Decimal.Layout
import TemplateLint.Proofs.Decimal.Scaling
import TemplateLint.Proofs.Values

/-!
# Values are read back from their text

The compact text of a value is read as the value, whatever follows it: names,
numbers and the order of members are kept. The value must be one that a text
can hold, with distinct names, finite numbers, integers of 64 bits and no more
containers in one another than are read. A number that is no integer must be
read back by itself, since the reader does not always find the nearest one; it
is where its text is short.
-/

namespace TemplateLint

/-- A number that a text can hold. -/
inductive Number.Plain : Number → Prop where
  | integer {i : Int} : -2 ^ 63 ≤ i → i < 2 ^ 64 → Plain (.integer i)
  | real {negative : Bool} {units : Nat} : Double.Representable units → units ≤ Double.maxUnits →
      Plain (.real (.finite negative units))

theorem Number.Plain.ofRounded {x : Double} (rounded : x.Rounded) (finite : x.isFinite = true) :
    (Number.real x).Plain := by
  cases x with
  | nan => cases finite
  | infinite _ => cases finite
  | finite negative units =>
    obtain ⟨hu, hmax⟩ := rounded _ _ rfl
    exact .real hu hmax

/-- A number whose text is read as the number. -/
def Number.ReadBack (k : Number) : Prop :=
  Json.Reading.readNumber (Json.numberText k) = .ok (k, [])

namespace Json

/-- A value that a text can hold, with containers nested at most as deep as a number says. -/
inductive Plain : Nat → Json → Prop where
  | null {n : Nat} : Plain n .null
  | boolean {n : Nat} {value : Bool} : Plain n (.boolean value)
  | number {n : Nat} {value : Number} : value.Plain → Plain n (.number value)
  | string {n : Nat} {text : String} : Plain n (.string text)
  | array {n : Nat} {items : List Json} : (∀ v ∈ items, Plain n v) → Plain (n + 1) (.array items)
  | object {n : Nat} {members : List (String × Json)} : (Members.names members).Nodup →
      (∀ m ∈ members, Plain n m.2) → Plain (n + 1) (.object members)

theorem Plain.single {n : Nat} {name : String} {v : Json} (h : v.Plain n) :
    (Json.object [(name, v)]).Plain (n + 1) :=
  .object (List.nodup_singleton name) (List.forall_mem_singleton.mpr h)

mutual

/-- What is read of the text of a value. -/
def reading : Json → Reading
  | .null => .null
  | .boolean b => .boolean b
  | .number n => .number n
  | .string s => .string s
  | .array items => .array (itemReadings items) none
  | .object members => .object (memberReadings members) none

def itemReadings : List Json → List Reading
  | [] => []
  | v :: rest => v.reading :: itemReadings rest

def memberReadings : List (String × Json) → List (String × Reading)
  | [] => []
  | (name, v) :: rest => (name, v.reading) :: memberReadings rest

end

mutual

/-- The numbers in a value. -/
def numbers : Json → List Number
  | .number k => [k]
  | .array items => itemNumbers items
  | .object members => memberNumbers members
  | .null | .boolean _ | .string _ => []

def itemNumbers : List Json → List Number
  | [] => []
  | v :: rest => v.numbers ++ itemNumbers rest

def memberNumbers : List (String × Json) → List Number
  | [] => []
  | (_, v) :: rest => v.numbers ++ memberNumbers rest

end

/-- Mapping back what was mapped to. -/
theorem mapM_map_eq_ok {ε α β : Type} {f : β → Except ε α} {g : α → β} {as : List α}
    (h : ∀ a ∈ as, f (g a) = .ok a) : (as.map g).mapM f = .ok as := by
  induction as with
  | nil => rfl
  | cons a rest ih =>
    have hrest := ih fun b hb => h b (List.mem_cons_of_mem a hb)
    rw [List.map_cons, List.mapM_cons, h a List.mem_cons_self, hrest]
    rfl

theorem itemReadings_eq (items : List Json) : itemReadings items = items.map reading := by
  induction items with
  | nil => rfl
  | cons v rest ih => rw [itemReadings, ih, List.map_cons]

theorem memberReadings_eq (members : List (String × Json)) :
    memberReadings members = members.map fun m => (m.1, m.2.reading) := by
  induction members with
  | nil => rfl
  | cons m rest ih => rw [memberReadings, ih, List.map_cons]

/-- The numbers in a value that are no integers are read back. -/
def RealsReadBack (v : Json) : Prop := ∀ x, .real x ∈ v.numbers → (Number.real x).ReadBack

theorem numbers_array (items : List Json) : (array items).numbers = items.flatMap numbers := by
  rw [numbers]
  induction items with
  | nil => rfl
  | cons v rest ih => rw [itemNumbers, ih, List.flatMap_cons]

theorem numbers_object (members : List (String × Json)) :
    (object members).numbers = members.flatMap fun m => m.2.numbers := by
  rw [numbers]
  induction members with
  | nil => rfl
  | cons m rest ih => rw [memberNumbers, ih, List.flatMap_cons]

namespace Reading

/-! ## What was read, as a value -/

theorem toItems_eq (items : List Reading) : toItems items = items.mapM toJson := by
  induction items with
  | nil => rfl
  | cons r rest ih =>
    rw [toItems, ih, List.mapM_cons]

theorem toMembers_map {members : List (String × Json)}
    (h : ∀ m ∈ members, m.2.reading.toJson = .ok m.2) :
    toMembers (members.map fun m => (m.1, m.2.reading)) = .ok members := by
  induction members with
  | nil => rfl
  | cons m rest ih =>
    have hm := h m List.mem_cons_self
    have hrest := ih fun w hw => h w (List.mem_cons_of_mem m hw)
    rw [List.map_cons, toMembers, hm, hrest]
    rfl

theorem toJson_reading {n : Nat} {v : Json} (h : v.Plain n) : v.reading.toJson = .ok v := by
  induction h with
  | null => rfl
  | boolean => rfl
  | number => rfl
  | string => rfl
  | array _ ih =>
    rw [reading, itemReadings_eq, toJson, toItems_eq, mapM_map_eq_ok ih]
    rfl
  | object distinct _ ih =>
    rw [reading, memberReadings_eq, toJson, toMembers_map ih]
    change Except.ok (Json.object (Members.ofList _)) = _
    rw [Members.ofList_of_nodup distinct]

/-! ## Leaves -/

theorem toInt_ofInt (i : Int) : (Decimal.Literal.ofInt i).toInt = i := by
  unfold Decimal.Literal.toInt Decimal.Literal.ofInt Double.signed
  rw [Decimal.Literal.natOfDigits_toDigits]
  by_cases hneg : i < 0
  · rw [decide_eq_true hneg, if_pos rfl]
    omega
  · rw [decide_eq_false hneg, if_neg (by simp)]
    omega

/-- Integers that 64 bits hold, with a sign or without, are read as integers. -/
theorem numberOf_ofInt {i : Int} (low : -2 ^ 63 ≤ i) (high : i < 2 ^ 64) :
    numberOf (.ofInt i) = .ok (.integer i) := by
  have signed : ¬ ((Decimal.Literal.ofInt i).negative = true ∧ i = 0) := by
    rintro ⟨hneg, rfl⟩
    cases hneg
  unfold numberOf
  simp only [toInt_ofInt]
  exact if_pos ⟨rfl, low, high, signed⟩

/-- The text of a number is a literal. -/
theorem exists_writes_numberText {k : Number} (h : k.Plain) :
    ∃ l, Decimal.Literal.Writes (numberText k) l := by
  cases h with
  | @integer i _ _ => exact ⟨_, Decimal.Literal.writes_ofInt i⟩
  | @real negative units hu hmax =>
    obtain ⟨l, writes, -⟩ := Decimal.exists_literal_render hu hmax negative
    exact ⟨l, writes⟩

theorem readNumber_writes {cs rest : List Char} {l : Decimal.Literal}
    (writes : Decimal.Literal.Writes cs l) (stops : Decimal.Literal.Stops rest) :
    readNumber (cs ++ rest) = (numberOf l).map fun k => (k, rest) := by
  simp only [readNumber, writes.scan_append stops]

theorem readNumber_numberText {k : Number} (h : k.Plain) (back : k.ReadBack) {rest : List Char}
    (stops : Decimal.Literal.Stops rest) :
    readNumber (numberText k ++ rest) = .ok (k, rest) := by
  obtain ⟨l, writes⟩ := exists_writes_numberText h
  have alone := readNumber_writes writes Decimal.Literal.stops_nil
  rw [List.append_nil, back] at alone
  obtain ⟨n, number, same⟩ := map_eq_ok alone.symm
  cases same
  rw [readNumber_writes writes stops, number]
  rfl

theorem readBack_integer {i : Int} (low : -2 ^ 63 ≤ i) (high : i < 2 ^ 64) :
    (Number.integer i).ReadBack := by
  have read := readNumber_writes (Decimal.Literal.writes_ofInt i) Decimal.Literal.stops_nil
  rw [List.append_nil, numberOf_ofInt low high] at read
  exact read

/-- A number with a short text is read back. -/
theorem readBack_of_short {k : Number} (h : k.Plain) {l : Decimal.Literal}
    (writes : Decimal.Literal.Writes (numberText k) l) (short : l.Short) : k.ReadBack := by
  cases h with
  | integer low high => exact readBack_integer low high
  | @real negative units hu hmax =>
    obtain ⟨m, writes', notInteger, value⟩ := Decimal.exists_literal_render hu hmax negative
    obtain rfl := writes.unique writes'
    rw [← short.toScaled_eq] at value
    have read := readNumber_writes writes Decimal.Literal.stops_nil
    rw [List.append_nil] at read
    rw [Number.ReadBack, read]
    simp [numberOf, notInteger, value, Except.map]

theorem readQuoted_escape (s : String) (rest : List Char) :
    readQuoted (s.toList.flatMap escapeChar ++ '"' :: rest) = .ok (s, rest) := by
  obtain ⟨ps, body, htext⟩ := exists_body_escape s.toList
  simp only [readQuoted, Quoted.read, body.readFrom htext rest, String.ofList_toList]

end Reading

/-! ## Values -/

/-- The text of a number begins with a minus or a digit. -/
theorem head_numberText {k : Number} (h : k.Plain) :
    ∃ c cs, numberText k = c :: cs ∧ (c = '-' ∨ c.isDigit = true) := by
  obtain ⟨l, writes⟩ := Reading.exists_writes_numberText h
  obtain ⟨d, ds, htext | htext, digit⟩ := writes.head
  · exact ⟨d, ds, htext, .inr digit⟩
  · exact ⟨'-', d :: ds, htext, .inl rfl⟩

theorem isBlank_of_isDigit {c : Char} (h : c.isDigit = true) : Lexeme.isBlank c = false := by
  apply Bool.eq_false_iff.mpr
  intro blank
  simp only [Lexeme.isBlank, Bool.or_eq_true, beq_iff_eq] at blank
  rcases blank with ((rfl | rfl) | rfl) | rfl <;> cases h

theorem Plain.numbers {n : Nat} {v : Json} (h : v.Plain n) : ∀ k ∈ v.numbers, k.Plain := by
  induction h with
  | number plain => exact List.forall_mem_singleton.mpr plain
  | array _ ih =>
    rw [numbers_array]
    exact List.forall_mem_flatMap.mpr ih
  | object _ _ ih =>
    rw [numbers_object]
    exact List.forall_mem_flatMap.mpr ih
  | _ => exact List.forall_mem_nil _

theorem Plain.readBack {n : Nat} {v : Json} (h : v.Plain n) (reals : v.RealsReadBack) :
    ∀ k ∈ v.numbers, k.ReadBack := by
  intro k hk
  have plain := h.numbers k hk
  cases plain with
  | integer low high => exact Reading.readBack_integer low high
  | real => exact reals _ hk

/-- No value begins with a blank or with the end of an array. -/
theorem head_toText {n : Nat} {v : Json} (h : v.Plain n) :
    ∃ c cs, v.toText = c :: cs ∧ Lexeme.isBlank c = false ∧ c ≠ ']' := by
  cases h with
  | null => exact ⟨'n', _, rfl, rfl, by decide⟩
  | boolean =>
    rename_i value
    cases value
    · exact ⟨'f', _, rfl, rfl, by decide⟩
    · exact ⟨'t', _, rfl, rfl, by decide⟩
  | number plain =>
    obtain ⟨c, cs, htext, hc⟩ := head_numberText plain
    rw [toText, htext]
    rcases hc with rfl | hc
    · exact ⟨'-', cs, rfl, rfl, by decide⟩
    · refine ⟨c, cs, rfl, isBlank_of_isDigit hc, ?_⟩
      rintro rfl
      cases hc
  | string => exact ⟨'"', _, rfl, rfl, by decide⟩
  | array _ => exact ⟨'[', _, by rw [toText], rfl, by decide⟩
  | object _ _ => exact ⟨'\x7b', _, by rw [toText], rfl, by decide⟩

/-- The items behind one of an array. -/
def itemsBehind (items : List Json) : List Char := items.flatMap fun v => ',' :: v.toText

def membersBehind (members : List (String × Json)) : List Char :=
  members.flatMap fun m => ',' :: (quote m.1 ++ ':' :: m.2.toText)

theorem itemsText_cons (v : Json) (rest : List Json) :
    itemsText (v :: rest) = v.toText ++ itemsBehind rest := by
  induction rest generalizing v with
  | nil => simp [itemsText, itemsBehind]
  | cons w rest ih => simp [itemsText, ih, itemsBehind]

theorem membersText_cons (m : String × Json) (rest : List (String × Json)) :
    membersText (m :: rest) = quote m.1 ++ ':' :: (m.2.toText ++ membersBehind rest) := by
  induction rest generalizing m with
  | nil => simp [membersText, membersBehind]
  | cons w rest ih => simp [membersText, ih, membersBehind]

namespace Reading

open Decimal.Literal (Stops)

/-- A value is read off the front of a text by as many steps as its text is long. -/
def Reads (n : Nat) (v : Json) : Prop :=
  ∀ fuel rest, v.toText.length ≤ fuel → Stops rest →
    readValue fuel n (v.toText ++ rest) = (v.reading, some rest)

theorem stops_cons {c : Char} (h : c = ',' ∨ c = ']' ∨ c = '\x7d') (cs : List Char) :
    Stops (c :: cs) := by
  intro d hd
  cases hd
  rcases h with rfl | rfl | rfl <;> decide

theorem stops_itemsBehind (items : List Json) (rest : List Char) :
    Stops (itemsBehind items ++ ']' :: rest) := by
  cases items with
  | nil => exact stops_cons (.inr (.inl rfl)) rest
  | cons v items => exact stops_cons (.inl rfl) _

theorem stops_membersBehind (members : List (String × Json)) (rest : List Char) :
    Stops (membersBehind members ++ '\x7d' :: rest) := by
  cases members with
  | nil => exact stops_cons (.inr (.inr rfl)) rest
  | cons m members => exact stops_cons (.inl rfl) _

theorem afterBlanks_cons {c : Char} (h : Lexeme.isBlank c = false) (cs : List Char) :
    afterBlanks (c :: cs) = c :: cs := by
  simp [afterBlanks, h]

/-! ## Arrays -/

section Items

variable {n : Nat}

theorem nextItem_toText {v : Json} (h : v.Plain n) (cs : List Char) :
    nextItem true (v.toText ++ cs) = .ok (some (v.toText ++ cs), []) ∧
      nextItem false (',' :: (v.toText ++ cs)) = .ok (some (v.toText ++ cs), []) := by
  obtain ⟨c, text, htext, blank, bracket⟩ := head_toText h
  rw [htext, List.cons_append]
  have comma : Lexeme.isBlank ',' = false := by decide
  constructor
  · simp [nextItem, afterBlanks_cons blank]
  · simp [nextItem, afterBlanks_cons comma, afterBlanks_cons blank, bracket]

theorem readItems_behind {items : List Json} (h : ∀ v ∈ items, v.Plain n ∧ Reads n v)
    (fuel : Nat) (rest : List Char) (enough : (itemsBehind items).length < fuel) :
    readItems fuel n false (itemsBehind items ++ ']' :: rest) =
      (items.map reading, none, some rest) := by
  induction items generalizing fuel with
  | nil =>
    obtain ⟨fuel, rfl⟩ : ∃ k, fuel = k + 1 := ⟨fuel - 1, by omega⟩
    have close : Lexeme.isBlank ']' = false := by decide
    simp [itemsBehind, readItems, nextItem, afterBlanks_cons close]
  | cons v items ih =>
    obtain ⟨plain, reads⟩ := h v List.mem_cons_self
    have hrest := fun w hw => h w (List.mem_cons_of_mem v hw)
    have shown : itemsBehind (v :: items) ++ ']' :: rest =
        ',' :: (v.toText ++ (itemsBehind items ++ ']' :: rest)) := by
      simp [itemsBehind]
    have length : (itemsBehind (v :: items)).length =
        v.toText.length + (itemsBehind items).length + 1 := by
      simp [itemsBehind]
    obtain ⟨fuel, rfl⟩ : ∃ k, fuel = k + 1 := ⟨fuel - 1, by omega⟩
    rw [shown, readItems, (nextItem_toText plain _).2]
    dsimp only
    rw [reads fuel _ (by omega) (stops_itemsBehind items rest)]
    dsimp only
    rw [ih hrest fuel (by omega)]
    rfl

theorem readItems_itemsText {items : List Json} (h : ∀ v ∈ items, v.Plain n ∧ Reads n v)
    (fuel : Nat) (rest : List Char) (enough : (itemsText items).length < fuel) :
    readItems fuel n true (itemsText items ++ ']' :: rest) =
      (items.map reading, none, some rest) := by
  obtain ⟨fuel, rfl⟩ : ∃ k, fuel = k + 1 := ⟨fuel - 1, by omega⟩
  cases items with
  | nil =>
    have close : Lexeme.isBlank ']' = false := by decide
    simp [itemsText, readItems, nextItem, afterBlanks_cons close]
  | cons v items =>
    obtain ⟨plain, reads⟩ := h v List.mem_cons_self
    have hrest := fun w hw => h w (List.mem_cons_of_mem v hw)
    rw [itemsText_cons, List.length_append] at enough
    rw [itemsText_cons, List.append_assoc, readItems, (nextItem_toText plain _).1]
    dsimp only
    rw [reads fuel _ (by omega) (stops_itemsBehind items rest)]
    dsimp only
    obtain ⟨c, cs, htext, -, -⟩ := head_toText plain
    have positive : 0 < v.toText.length := by simp [htext]
    rw [readItems_behind hrest fuel rest (by omega)]
    rfl

end Items

/-! ## Objects -/

section Members

variable {n : Nat}

theorem readColon_cons (cs : List Char) : readColon (':' :: cs) = .ok cs := by
  have colon : Lexeme.isBlank ':' = false := by decide
  simp [readColon, afterBlanks_cons colon]

theorem nextMember_quote (name : String) (cs : List Char) :
    nextMember true (quote name ++ cs) =
        .ok (some (name.toList.flatMap escapeChar ++ '"' :: cs), []) ∧
      nextMember false (',' :: (quote name ++ cs)) =
        .ok (some (name.toList.flatMap escapeChar ++ '"' :: cs), []) := by
  have mark : Lexeme.isBlank '"' = false := by decide
  have comma : Lexeme.isBlank ',' = false := by decide
  constructor
  · simp [nextMember, quote, afterBlanks_cons mark]
  · simp [nextMember, quote, afterBlanks_cons comma, afterBlanks_cons mark]

theorem readMembers_behind {members : List (String × Json)} (h : ∀ m ∈ members, Reads n m.2)
    (fuel : Nat) (rest : List Char) (enough : (membersBehind members).length < fuel) :
    readMembers fuel n false (membersBehind members ++ '\x7d' :: rest) =
      (members.map fun m => (m.1, m.2.reading), none, some rest) := by
  induction members generalizing fuel with
  | nil =>
    obtain ⟨fuel, rfl⟩ : ∃ k, fuel = k + 1 := ⟨fuel - 1, by omega⟩
    have close : Lexeme.isBlank '\x7d' = false := by decide
    simp [membersBehind, readMembers, nextMember, afterBlanks_cons close]
  | cons m members ih =>
    have reads := h m List.mem_cons_self
    have hrest := fun w hw => h w (List.mem_cons_of_mem m hw)
    have shown : membersBehind (m :: members) ++ '\x7d' :: rest =
        ',' :: (quote m.1 ++ ':' :: (m.2.toText ++ (membersBehind members ++ '\x7d' :: rest))) := by
      simp [membersBehind]
    have length : m.2.toText.length + (membersBehind members).length <
        (membersBehind (m :: members)).length := by
      simp [membersBehind]
      omega
    obtain ⟨fuel, rfl⟩ : ∃ k, fuel = k + 1 := ⟨fuel - 1, by omega⟩
    rw [shown, readMembers, (nextMember_quote m.1 _).2]
    dsimp only
    rw [readQuoted_escape]
    dsimp only
    rw [readColon_cons]
    dsimp only
    rw [reads fuel _ (by omega) (stops_membersBehind members rest)]
    dsimp only
    rw [ih hrest fuel (by omega)]
    rfl

theorem readMembers_membersText {members : List (String × Json)} (h : ∀ m ∈ members, Reads n m.2)
    (fuel : Nat) (rest : List Char) (enough : (membersText members).length < fuel) :
    readMembers fuel n true (membersText members ++ '\x7d' :: rest) =
      (members.map fun m => (m.1, m.2.reading), none, some rest) := by
  obtain ⟨fuel, rfl⟩ : ∃ k, fuel = k + 1 := ⟨fuel - 1, by omega⟩
  cases members with
  | nil =>
    have close : Lexeme.isBlank '\x7d' = false := by decide
    simp [membersText, readMembers, nextMember, afterBlanks_cons close]
  | cons m members =>
    have reads := h m List.mem_cons_self
    have hrest := fun w hw => h w (List.mem_cons_of_mem m hw)
    rw [membersText_cons] at enough
    simp only [List.length_append, List.length_cons] at enough
    have shown : membersText (m :: members) ++ '\x7d' :: rest =
        quote m.1 ++ ':' :: (m.2.toText ++ (membersBehind members ++ '\x7d' :: rest)) := by
      simp [membersText_cons]
    rw [shown, readMembers, (nextMember_quote m.1 _).1]
    dsimp only
    rw [readQuoted_escape]
    dsimp only
    rw [readColon_cons]
    dsimp only
    rw [reads fuel _ (by omega) (stops_membersBehind members rest)]
    dsimp only
    rw [readMembers_behind hrest fuel rest (by omega)]
    rfl

end Members

/-! ## Whole texts -/

/-- One step is spent on the character that a value begins with. -/
theorem exists_steps {c : Char} {cs : List Char} {fuel : Nat} (enough : (c :: cs).length ≤ fuel) :
    ∃ k, fuel = k + 1 ∧ cs.length ≤ k := by
  rw [List.length_cons] at enough
  exact ⟨fuel - 1, by omega, by omega⟩

theorem reads_number {n : Nat} {k : Number} (h : k.Plain) (back : k.ReadBack) :
    Reads n (.number k) := by
  intro fuel rest enough stops
  obtain ⟨c, cs, htext, hc⟩ := head_numberText h
  have number := readNumber_numberText h back stops
  rw [toText, htext] at enough
  rw [toText]
  rw [htext, List.cons_append] at number ⊢
  obtain ⟨fuel, rfl, -⟩ := exists_steps enough
  -- the reader looks for the other kinds of values first, so a digit is told from their heads
  rcases hc with rfl | digit
  · have minus : Lexeme.isBlank '-' = false := by decide
    simp [readValue, afterBlanks_cons minus, number, leaf, reading]
  · have other : ∀ d : Char, d.isDigit = false → c ≠ d := by
      rintro d hd rfl
      rw [digit] at hd
      cases hd
    simp [readValue, afterBlanks_cons (isBlank_of_isDigit digit), number, leaf, reading, digit,
      other]

theorem reads_plain {n : Nat} {v : Json} (h : v.Plain n) (back : ∀ k ∈ v.numbers, k.ReadBack) :
    Reads n v := by
  induction h with
  | null =>
    intro fuel rest enough stops
    obtain ⟨fuel, rfl, -⟩ := exists_steps enough
    rfl
  | boolean =>
    rename_i value
    intro fuel rest enough stops
    cases value <;>
    · obtain ⟨fuel, rfl, -⟩ := exists_steps enough
      rfl
  | number plain => exact reads_number plain (back _ List.mem_cons_self)
  | string =>
    rename_i text
    intro fuel rest enough stops
    obtain ⟨fuel, rfl, -⟩ := exists_steps enough
    have mark : Lexeme.isBlank '"' = false := by decide
    simp [toText, quote, readValue, afterBlanks_cons mark, readQuoted_escape, leaf, reading]
  | array plain ih =>
    rename_i n items
    rw [numbers_array] at back
    have reads := fun v hv => ih v hv (List.forall_mem_flatMap.mp back v hv)
    intro fuel rest enough stops
    rw [toText] at *
    obtain ⟨fuel, rfl, inside⟩ := exists_steps enough
    rw [List.length_append, List.length_singleton] at inside
    have bracket : Lexeme.isBlank '[' = false := by decide
    have inner := readItems_itemsText (fun v hv => ⟨plain v hv, reads v hv⟩) fuel rest (by omega)
    simp [readValue, afterBlanks_cons bracket, inner, reading, itemReadings_eq]
  | object distinct plain ih =>
    rename_i n members
    rw [numbers_object] at back
    have reads := fun m hm => ih m hm (List.forall_mem_flatMap.mp back m hm)
    intro fuel rest enough stops
    rw [toText] at *
    obtain ⟨fuel, rfl, inside⟩ := exists_steps enough
    rw [List.length_append, List.length_singleton] at inside
    have brace : Lexeme.isBlank '\x7b' = false := by decide
    have inner := readMembers_membersText reads fuel rest (by omega)
    simp [readValue, afterBlanks_cons brace, inner, reading, memberReadings_eq]

/-- The text of a value is read as the value, and nothing is left of it. -/
theorem ofText_toText {v : Json} (h : v.Plain maxDepth) (reals : v.RealsReadBack) :
    ofText v.toText = (v.reading, none) := by
  have read := reads_plain h (h.readBack reals) (2 * v.toText.length + 2) [] (by omega)
    Decimal.Literal.stops_nil
  rw [List.append_nil] at read
  simp [ofText, read, afterBlanks]

end Reading

/-- What a value is decoded as is loaded from its text. -/
theorem load_toText {α : Type} {decode : Reading → Except LoadFault α} {v : Json} {a : α}
    (h : v.Plain Reading.maxDepth) (reals : v.RealsReadBack) (decoded : decode v.reading = .ok a) :
    load decode v.toText = .ok a := by
  rw [load, Reading.ofText_toText h reals]
  change (decode v.reading >>= _) = _
  rw [decoded]
  rfl

end Json

end TemplateLint
