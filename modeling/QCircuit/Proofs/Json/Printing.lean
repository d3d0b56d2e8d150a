import QCircuit.Proofs.Json.Grammar
/-! Printed JSON text.

Compact and pretty text are of the grammar. They have the value that was written, except that a
double that is not finite has become a null and an integer beyond 64 bits a double. -/
namespace QCircuit.Json
open Text

mutual

/-- The value of the text of a value. -/
def reread : Json → Json
  | integer n => (Numeral.ofNat n.natAbs).json (decide (n < 0))
  | float x => if x.isFinite then float x else null
  | array items => array (rereadItems items)
  | object members => object (rereadMembers members)
  | garbled => null
  | json => json

def rereadItems : List Json → List Json
  | [] => []
  | item :: rest => item.reread :: rereadItems rest

def rereadMembers : List (String × Json) → List (String × Json)
  | [] => []
  | (name, value) :: rest => (name, value.reread) :: rereadMembers rest

end

theorem toString_chars (n : Int) : (toString n).toList =
    (if decide (n < 0) then ['-'] else []) ++ (Numeral.ofNat n.natAbs).chars := by
  rw [Numeral.ofNat_chars]
  cases n with
  | ofNat m =>
      have outside : decide (Int.ofNat m < 0) = false := decide_eq_false (Int.natCast_nonneg m).not_gt
      have text : toString (Int.ofNat m) = String.ofList (Nat.toDigits 10 m) := rfl
      rw [outside, text, String.toList_ofList]
      rfl
  | negSucc m =>
      have text : toString (Int.negSucc m) = "-" ++ String.ofList (Nat.toDigits 10 (m + 1)) := rfl
      have sign : decide (Int.negSucc m < 0) = true := decide_eq_true (Int.negSucc_lt_zero m)
      rw [text, sign, String.toList_append, String.toList_ofList, String.toList_ofList]
      rfl

theorem bool_denotes (b : Bool) : Denotes (scalarChars (.bool b)) (.bool b) := by
  cases b with
  | true => exact .scalar .true
  | false => exact .scalar .false

theorem integer_denotes (n : Int) : Denotes (toString n).toList (integer n).reread := by
  rw [toString_chars]
  exact .scalar (.number _ _)

theorem float_denotes (x : Float) : Denotes (floatText x).toList (float x).reread := by
  rw [reread]
  by_cases finite : x.isFinite = true
  · obtain ⟨negative, n, text, value⟩ := floatText_chars finite
    rw [if_pos finite, text, ← value]
    exact .scalar (.number negative n)
  · rw [if_neg finite, floatText, if_neg finite]
    exact .scalar .null

mutual

theorem compact_denotes : ∀ json : Json, Denotes (compactChars json) json.reread
  | .array [] => .emptyArray
  | .array (item :: rest) => by
      have inside := compactItems_denote (compact_denotes item) rest
      simpa [compactChars, reread, rereadItems] using Denotes.array inside
  | .object [] => .emptyObject
  | .object ((name, value) :: rest) => by
      have inside := compactMembers_denote name (compact_denotes value) rest
      simpa [compactChars, reread, rereadMembers] using Denotes.object inside
  | .null => .scalar .null
  | .garbled => .scalar .null
  | .bool b => bool_denotes b
  | .string s => .scalar (.string s)
  | .integer n => integer_denotes n
  | .float x => float_denotes x

theorem compactItems_denote {cs : List Char} {item : Json} (first : Denotes cs item) :
    ∀ rest : List Json, DenotesItems (cs ++ (compactItems rest ++ [']'])) (item :: rereadItems rest)
  | [] => .last blank_nil blank_nil first
  | next :: rest => by
      have later := compactItems_denote (compact_denotes next) rest
      simpa [compactItems, rereadItems] using DenotesItems.more blank_nil first later

theorem compactMembers_denote (name : String) {cs : List Char} {value : Json}
    (first : Denotes cs value) : ∀ rest : List (String × Json),
      DenotesMembers (quote name ++ ':' :: (cs ++ (compactMembers rest ++ ['\x7d'])))
        ((name, value) :: rereadMembers rest)
  | [] => .last blank_nil blank_nil blank_nil first
  | (name', next) :: rest => by
      have later := compactMembers_denote name' (compact_denotes next) rest
      simpa [compactMembers, rereadMembers] using DenotesMembers.more blank_nil blank_nil first later

end

theorem blank_space : Blank [' '] := by simp [Blank, isSpace]

theorem blank_newline (level : Nat) : Blank (newline level) := by
  intro c inside
  rcases List.mem_cons.mp inside with rfl | space
  · rfl
  · obtain rfl := List.eq_of_mem_replicate space
    rfl

mutual

theorem pretty_denotes (level : Nat) : ∀ json : Json, Denotes (prettyChars level json) json.reread
  | .array [] => .emptyArray
  | .array (item :: rest) => by
      have inside := prettyItems_denote level (pretty_denotes (level + 1) item) rest
      simpa [prettyChars, reread, rereadItems] using Denotes.array inside
  | .object [] => .emptyObject
  | .object ((name, value) :: rest) => by
      have inside := prettyMembers_denote level name (pretty_denotes (level + 1) value) rest
      simpa [prettyChars, reread, rereadMembers] using Denotes.object inside
  | .null => .scalar .null
  | .garbled => .scalar .null
  | .bool b => bool_denotes b
  | .string s => .scalar (.string s)
  | .integer n => integer_denotes n
  | .float x => float_denotes x

theorem prettyItems_denote (level : Nat) {cs : List Char} {item : Json} (first : Denotes cs item) :
    ∀ rest : List Json, DenotesItems
      (newline (level + 1) ++ (cs ++ (prettyItems (level + 1) rest ++ (newline level ++ [']']))))
      (item :: rereadItems rest)
  | [] => .last (blank_newline _) (blank_newline level) first
  | next :: rest => by
      have later := prettyItems_denote level (pretty_denotes (level + 1) next) rest
      simpa [prettyItems, rereadItems] using DenotesItems.more (blank_newline _) first later

theorem prettyMembers_denote (level : Nat) (name : String) {cs : List Char} {value : Json}
    (first : Denotes cs value) : ∀ rest : List (String × Json), DenotesMembers
      (newline (level + 1) ++ (quote name ++ ':' :: ([' '] ++ (cs ++
        (prettyMembers (level + 1) rest ++ (newline level ++ ['\x7d']))))))
      ((name, value) :: rereadMembers rest)
  | [] => .last (blank_newline _) blank_space (blank_newline level) first
  | (name', next) :: rest => by
      have later := prettyMembers_denote level name' (pretty_denotes (level + 1) next) rest
      simpa [prettyMembers, rereadMembers] using
        DenotesMembers.more (blank_newline _) blank_space first later

end

theorem parse?_compact (json : Json) : parse? json.compact = some json.reread := by
  have parsed := (compact_denotes json).parse? blank_nil blank_nil
  rwa [List.nil_append, List.append_nil] at parsed

theorem parse?_pretty (json : Json) : parse? json.pretty = some json.reread := by
  have parsed := (pretty_denotes 0 json).parse? blank_nil blank_nil
  rwa [List.nil_append, List.append_nil] at parsed

-- A line feed behind the text is white space.
theorem parse?_pretty_line (json : Json) : parse? (json.pretty ++ "\n") = some json.reread := by
  have line : json.pretty ++ "\n" = String.ofList ([] ++ (prettyChars 0 json ++ ['\n'])) := by
    rw [List.nil_append, String.ofList_append]
    rfl
  rw [line]
  exact (pretty_denotes 0 json).parse? blank_nil (by simp [Blank, isSpace])

end QCircuit.Json
