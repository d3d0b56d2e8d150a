import QCircuit.Proofs.Json.Numbers
import QCircuit.Proofs.Json.Strings
/-! The grammar of JSON text.

A text of the grammar has a value, and that value is read, with white space around it and in front
of whatever ends a number. -/
namespace QCircuit.Json
open Text

def Blank (cs : List Char) : Prop := ∀ c ∈ cs, isSpace c = true

/-- A text without parts. -/
inductive DenotesScalar : List Char → Json → Prop where
  | null : DenotesScalar ['n', 'u', 'l', 'l'] .null
  | true : DenotesScalar ['t', 'r', 'u', 'e'] (.bool true)
  | false : DenotesScalar ['f', 'a', 'l', 's', 'e'] (.bool false)
  | string (s : String) : DenotesScalar (quote s) (.string s)
  | number (negative : Bool) (n : Numeral) :
      DenotesScalar ((if negative then ['-'] else []) ++ n.chars) (n.json negative)

mutual

/-- The text writes the value. White space is in front of items, names, colons and closing brackets,
and behind colons. -/
inductive Denotes : List Char → Json → Prop where
  | scalar {cs : List Char} {json : Json} (single : DenotesScalar cs json) : Denotes cs json
  | emptyArray : Denotes ['[', ']'] (.array [])
  | array {cs : List Char} {items : List Json} (inside : DenotesItems cs items) :
      Denotes ('[' :: cs) (.array items)
  | emptyObject : Denotes ['\x7b', '\x7d'] (.object [])
  | object {cs : List Char} {members : List (String × Json)} (inside : DenotesMembers cs members) :
      Denotes ('\x7b' :: cs) (.object members)

/-- The text writes items and closes their array. -/
inductive DenotesItems : List Char → List Json → Prop where
  | last {front back cs : List Char} {item : Json} (blank : Blank front) (blank' : Blank back)
      (first : Denotes cs item) : DenotesItems (front ++ (cs ++ (back ++ [']']))) [item]
  | more {front cs later : List Char} {item : Json} {items : List Json} (blank : Blank front)
      (first : Denotes cs item) (rest : DenotesItems later items) :
      DenotesItems (front ++ (cs ++ ',' :: later)) (item :: items)

/-- The text writes members and closes their object. -/
inductive DenotesMembers : List Char → List (String × Json) → Prop where
  | last {front gap back cs : List Char} {name : String} {value : Json} (blank : Blank front)
      (blank' : Blank gap) (blank'' : Blank back) (first : Denotes cs value) :
      DenotesMembers (front ++ (quote name ++ ':' :: (gap ++ (cs ++ (back ++ ['\x7d'])))))
        [(name, value)]
  | more {front gap cs later : List Char} {name : String} {value : Json}
      {members : List (String × Json)} (blank : Blank front) (blank' : Blank gap)
      (first : Denotes cs value) (rest : DenotesMembers later members) :
      DenotesMembers (front ++ (quote name ++ ':' :: (gap ++ (cs ++ ',' :: later))))
        ((name, value) :: members)

end

section Spaces
variable {front rest : List Char} {c : Char}

theorem skipSpace_append (blank : Blank front) (solid : isSpace c = false) (rest : List Char) :
    skipSpace (front ++ c :: rest) = c :: rest := by
  have stops : StopsAt isSpace (c :: rest) := by
    rintro d ⟨rfl⟩
    exact solid
  exact dropWhile_of_stops blank stops

theorem space_cases (space : isSpace c = true) : c = ' ' ∨ c = '\t' ∨ c = '\n' ∨ c = '\r' := by
  simpa [isSpace, or_assoc] using space

theorem stops_append (blank : Blank front) (stops : StopsAt extendsNumber rest) :
    StopsAt extendsNumber (front ++ rest) := by
  cases front with
  | nil => exact stops
  | cons c front =>
      rintro d ⟨rfl⟩
      obtain rfl | rfl | rfl | rfl := space_cases (blank c List.mem_cons_self) <;> rfl

end Spaces

section Scalars
variable {front rest : List Char} {c : Char}

/-- The characters that a number begins with. -/
def beginsNumber (c : Char) : Bool := c == '-' || isDigit c

theorem number_first (negative : Bool) (n : Numeral) : ∃ c rest,
    (if negative then ['-'] else []) ++ n.chars = c :: rest ∧ beginsNumber c = true := by
  cases negative with
  | true => exact ⟨'-', n.chars, rfl, rfl⟩
  | false =>
      obtain ⟨c, whole, written⟩ := List.exists_cons_of_ne_nil n.nonempty
      have digit := n.digits c (by rw [written]; exact List.mem_cons_self)
      refine ⟨c, whole ++ (fractionChars n.places? ++ powerChars n.power?), ?_, ?_⟩
      · rw [Numeral.chars, written]
        rfl
      · rw [beginsNumber, digit, Bool.or_true]

theorem solid_of_begins (begins : beginsNumber c = true) : isSpace c = false := by
  cases space : isSpace c with
  | false => rfl
  | true => obtain rfl | rfl | rfl | rfl := space_cases space <;> cases begins

theorem readNumber_chars (negative : Bool) (n : Numeral) (stops : StopsAt extendsNumber rest) :
    readNumber ((if negative then ['-'] else []) ++ n.chars ++ rest) =
      some (n.json negative, rest) := by
  rw [← readUnsigned_chars n negative stops]
  cases negative with
  | true => rfl
  | false =>
      obtain ⟨c, whole, written⟩ := List.exists_cons_of_ne_nil n.nonempty
      have digit := n.digits c (by rw [written]; exact List.mem_cons_self)
      simp only [Bool.false_eq_true, if_false, List.nil_append, Numeral.chars, written,
        List.cons_append]
      rw [readNumber]
      rintro _ ⟨rfl⟩
      cases digit

-- No other value begins with the first character of a number.
theorem readValue_number (blank : Blank front) (begins : beginsNumber c = true) (fuel : Nat) :
    readValue (fuel + 1) (front ++ c :: rest) = readNumber (c :: rest) := by
  rw [readValue, skipSpace_append blank (solid_of_begins begins)]
  split
  all_goals try
    rename_i same
    cases same
    cases begins
  rfl

theorem quote_append (s : String) (rest : List Char) :
    quote s ++ rest = '"' :: (s.toList.flatMap escape ++ '"' :: rest) := by
  simp [quote]

theorem readValue_scalar {cs : List Char} {json : Json} (blank : Blank front)
    (single : DenotesScalar cs json) (stops : StopsAt extendsNumber rest) (fuel : Nat) :
    readValue (fuel + 1) (front ++ (cs ++ rest)) = some (json, rest) := by
  cases single with
  | null | true | false =>
      rw [readValue, List.cons_append, skipSpace_append blank (by rfl)]
      rfl
  | string s =>
      rw [readValue, quote_append, skipSpace_append blank (by rfl)]
      simp only [readString_chars, Option.map_some, stringOf]
  | number negative n =>
      obtain ⟨c, tail, written, begins⟩ := number_first negative n
      have read := readNumber_chars negative n stops
      rw [written, List.cons_append] at read ⊢
      rw [readValue_number blank begins, read]

end Scalars

/-- The first character of a value is neither a space nor a closing bracket. -/
theorem Denotes.first {cs : List Char} {json : Json} (denotes : Denotes cs json) :
    ∃ c rest, cs = c :: rest ∧ isSpace c = false ∧ c ≠ ']' := by
  cases denotes with
  | scalar single =>
      cases single with
      | null | true | false | string => exact ⟨_, _, rfl, rfl, by decide⟩
      | number negative n =>
          obtain ⟨c, rest, written, begins⟩ := number_first negative n
          refine ⟨c, rest, written, solid_of_begins begins, ?_⟩
          rintro rfl
          cases begins
  | emptyArray | array | emptyObject | object => exact ⟨_, _, rfl, rfl, by decide⟩

theorem Denotes.length_pos {cs : List Char} {json : Json} (denotes : Denotes cs json) :
    0 < cs.length := by
  obtain ⟨c, rest, rfl, -, -⟩ := denotes.first
  exact Nat.succ_pos _

theorem DenotesItems.first {cs : List Char} {items : List Json} (denotes : DenotesItems cs items)
    (rest : List Char) : ∃ c, (skipSpace (cs ++ rest)).head? = some c ∧ c ≠ ']' := by
  cases denotes with
  | last blank _ first | more blank first =>
      obtain ⟨c, tail, rfl, solid, other⟩ := first.first
      refine ⟨c, ?_, other⟩
      rw [List.append_assoc, List.append_assoc, List.cons_append, skipSpace_append blank solid]
      rfl

theorem DenotesMembers.first {cs : List Char} {members : List (String × Json)}
    (denotes : DenotesMembers cs members) (rest : List Char) :
    (skipSpace (cs ++ rest)).head? = some '"' := by
  cases denotes with
  | last blank | more blank =>
      rw [List.append_assoc, List.append_assoc, quote_append, skipSpace_append blank (by rfl)]
      rfl

section Steps
variable {front cs after rest : List Char} {c : Char} {fuel : Nat}

theorem readValue_array (blank : Blank front) (first : (skipSpace rest).head? = some c)
    (other : c ≠ ']') : readValue (fuel + 1) (front ++ '[' :: rest) =
      (readItems fuel rest).map fun (items, after) => (.array items, after) := by
  obtain ⟨tail, first⟩ := List.head?_eq_some_iff.mp first
  rw [readValue, skipSpace_append blank (by rfl)]
  simp only [first]
  split
  · rename_i same
    exact absurd (List.cons.inj same).1 other
  · rfl

theorem readValue_object (blank : Blank front) (first : (skipSpace rest).head? = some '"') :
    readValue (fuel + 1) (front ++ '\x7b' :: rest) =
      (readMembers fuel rest).map fun (members, after) => (objectOf members, after) := by
  obtain ⟨tail, first⟩ := List.head?_eq_some_iff.mp first
  rw [readValue, skipSpace_append blank (by rfl)]
  simp only [first]
  rfl

theorem readItems_last {item : Json} (read : readValue fuel cs = some (item, after))
    (closes : skipSpace after = ']' :: rest) : readItems (fuel + 1) cs = some ([item], rest) := by
  rw [readItems, read]
  simp only [closes]

theorem readItems_more {item : Json} (read : readValue fuel cs = some (item, after))
    (comma : skipSpace after = ',' :: rest) : readItems (fuel + 1) cs =
      (readItems fuel rest).map fun (items, after) => (item :: items, after) := by
  rw [readItems, read]
  simp only [comma]

theorem readMembers_last {name : String} {value : Json} (blank : Blank front)
    (read : readValue fuel cs = some (value, after)) (closes : skipSpace after = '\x7d' :: rest) :
    readMembers (fuel + 1) (front ++ (quote name ++ ':' :: cs)) = some ([(some name, value)], rest) := by
  have colon : skipSpace (':' :: cs) = ':' :: cs := rfl
  rw [readMembers, quote_append, skipSpace_append blank (by rfl)]
  simp only [readString_chars, colon, read, closes]

theorem readMembers_more {name : String} {value : Json} (blank : Blank front)
    (read : readValue fuel cs = some (value, after)) (comma : skipSpace after = ',' :: rest) :
    readMembers (fuel + 1) (front ++ (quote name ++ ':' :: cs)) =
      (readMembers fuel rest).map fun (members, after) => ((some name, value) :: members, after) := by
  have colon : skipSpace (':' :: cs) = ':' :: cs := rfl
  rw [readMembers, quote_append, skipSpace_append blank (by rfl)]
  simp only [readString_chars, colon, read, comma]

theorem objectOf_some (members : List (String × Json)) :
    objectOf (members.map fun m => (some m.1, m.2)) = .object members := by
  have named : members.mapM some = some (members.map id) := List.mapM_pure (f := id)
  rw [List.map_id] at named
  simp [objectOf, Function.comp_def, named]

end Steps

/-- Values are read, if each character of their text allows one reading. -/
def ReadsValues (fuel : Nat) : Prop := ∀ {front cs rest : List Char} {json : Json}, Blank front →
  Denotes cs json → StopsAt extendsNumber rest → cs.length ≤ fuel →
    readValue fuel (front ++ (cs ++ rest)) = some (json, rest)

def ReadsItems (fuel : Nat) : Prop := ∀ {cs : List Char} {items : List Json} (rest : List Char),
  DenotesItems cs items → cs.length ≤ fuel → readItems fuel (cs ++ rest) = some (items, rest)

def ReadsMembers (fuel : Nat) : Prop :=
  ∀ {cs : List Char} {members : List (String × Json)} (rest : List Char), DenotesMembers cs members →
    cs.length ≤ fuel →
      readMembers fuel (cs ++ rest) = some (members.map fun m => (some m.1, m.2), rest)

section Fuel
variable {fuel : Nat}

theorem readsValues_succ (items : ReadsItems fuel) (members : ReadsMembers fuel) :
    ReadsValues (fuel + 1) := by
  intro front cs rest json blank denotes stops enough
  cases denotes with
  | scalar single => exact readValue_scalar blank single stops fuel
  | emptyArray | emptyObject =>
      rw [readValue, List.cons_append, skipSpace_append blank (by rfl)]
      rfl
  | array inside =>
      obtain ⟨c, first, other⟩ := inside.first rest
      rw [List.cons_append, readValue_array blank first other,
        items rest inside (Nat.le_of_succ_le_succ enough)]
      rfl
  | object inside =>
      rw [List.cons_append, readValue_object blank (inside.first rest),
        members rest inside (Nat.le_of_succ_le_succ enough)]
      simp only [Option.map_some, objectOf_some]

theorem stops_comma (rest : List Char) : StopsAt extendsNumber (',' :: rest) := by
  simp [StopsAt, extendsNumber, isDigit]

theorem readsItems_succ (values : ReadsValues fuel) (items : ReadsItems fuel) :
    ReadsItems (fuel + 1) := by
  intro cs items' rest denotes enough
  cases denotes with
  | @last front back cs item blank blank' first =>
      have stops : StopsAt extendsNumber (back ++ ']' :: rest) :=
        stops_append blank' (by simp [StopsAt, extendsNumber, isDigit])
      simp only [List.length_append, List.length_singleton] at enough
      have read := values blank first stops (by omega)
      have whole : front ++ (cs ++ (back ++ [']'])) ++ rest =
          front ++ (cs ++ (back ++ ']' :: rest)) := by simp
      rw [whole, readItems_last read (skipSpace_append blank' (by rfl) rest)]
  | @more front cs later item items' blank first others =>
      have some := first.length_pos
      simp only [List.length_append, List.length_cons] at enough
      have read := values blank first (stops_comma (later ++ rest)) (by omega)
      have whole : front ++ (cs ++ ',' :: later) ++ rest =
          front ++ (cs ++ ',' :: (later ++ rest)) := by simp
      rw [whole, readItems_more read rfl, items rest others (by omega)]
      rfl

theorem readsMembers_succ (values : ReadsValues fuel) (members : ReadsMembers fuel) :
    ReadsMembers (fuel + 1) := by
  intro cs members' rest denotes enough
  cases denotes with
  | @last front gap back cs name value blank blank' blank'' first =>
      have stops : StopsAt extendsNumber (back ++ '\x7d' :: rest) :=
        stops_append blank'' (by simp [StopsAt, extendsNumber, isDigit])
      simp only [List.length_append, List.length_cons] at enough
      have read := values blank' first stops (by omega)
      have whole : front ++ (quote name ++ ':' :: (gap ++ (cs ++ (back ++ ['\x7d'])))) ++ rest =
          front ++ (quote name ++ ':' :: (gap ++ (cs ++ (back ++ '\x7d' :: rest)))) := by simp
      rw [whole, readMembers_last blank read (skipSpace_append blank'' (by rfl) rest)]
      rfl
  | @more front gap cs later name value members' blank blank' first others =>
      simp only [List.length_append, List.length_cons] at enough
      have read := values blank' first (stops_comma (later ++ rest)) (by omega)
      have whole : front ++ (quote name ++ ':' :: (gap ++ (cs ++ ',' :: later))) ++ rest =
          front ++ (quote name ++ ':' :: (gap ++ (cs ++ ',' :: (later ++ rest)))) := by simp
      rw [whole, readMembers_more blank read rfl, members rest others (by omega)]
      rfl

end Fuel

-- Items are read with less fuel than their array, and their values with less than the items.
theorem reads_denoted (fuel : Nat) : ReadsValues fuel ∧ ReadsItems fuel ∧ ReadsMembers fuel := by
  induction fuel with
  | zero =>
      refine ⟨fun _ denotes _ enough => ?_, fun _ denotes enough => ?_, fun _ denotes enough => ?_⟩
      · exact absurd enough (Nat.not_le.mpr denotes.length_pos)
      · cases denotes <;> simp at enough
      · cases denotes <;> simp at enough
  | succ fuel ih =>
      obtain ⟨values, items, members⟩ := ih
      exact ⟨readsValues_succ items members, readsItems_succ values items,
        readsMembers_succ values members⟩

theorem blank_nil : Blank [] := by simp [Blank]

/-- A text of the grammar has its value, with white space around it. -/
theorem Denotes.parse? {front cs back : List Char} {json : Json} (denotes : Denotes cs json)
    (blank : Blank front) (blank' : Blank back) :
    Json.parse? (String.ofList (front ++ (cs ++ back))) = some json := by
  have ends : StopsAt extendsNumber back := by
    have none : StopsAt extendsNumber [] := by simp [StopsAt]
    simpa using stops_append blank' none
  have enough : cs.length ≤ (front ++ (cs ++ back)).length + 1 := by
    simp only [List.length_append]
    omega
  have read := (reads_denoted _).1 blank denotes ends enough
  have done : skipSpace back = [] := List.dropWhile_eq_nil_iff.mpr blank'
  simp only [Json.parse?, String.toList_ofList, read, done, if_true]

end QCircuit.Json
