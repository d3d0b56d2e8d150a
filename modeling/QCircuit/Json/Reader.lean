import QCircuit.Json.Value
import QCircuit.Text.Numeral
/-! Reading JSON text.

Each reader takes the characters that are left and returns a value with what follows it. Reading a
value or a list of them uses up at least one character, so the length of the text bounds the
number of readings, and that bound is the argument `fuel`. -/
namespace QCircuit.Json
open Text

abbrev Reading (α : Type) := Option (α × List Char)

def isSpace (c : Char) : Bool := c == ' ' || c == '\t' || c == '\n' || c == '\r'

def skipSpace (cs : List Char) : List Char := cs.dropWhile isSpace

def hexValue? (c : Char) : Option Nat :=
  if isDigit c then some (digitValue c)
  else if 'a' ≤ c ∧ c ≤ 'f' then some (c.toNat - 'a'.toNat + 10)
  else if 'A' ≤ c ∧ c ≤ 'F' then some (c.toNat - 'A'.toNat + 10)
  else none

def hex4? (a b c d : Char) : Option Nat := do
  let w ← hexValue? a
  let x ← hexValue? b
  let y ← hexValue? c
  let z ← hexValue? d
  pure (((w * 16 + x) * 16 + y) * 16 + z)

def isHighSurrogate (n : Nat) : Bool := 0xd800 ≤ n && n < 0xdc00

def isLowSurrogate (n : Nat) : Bool := 0xdc00 ≤ n && n < 0xe000

def simpleEscape? : Char → Option Char
  | '"' => some '"'
  | '\\' => some '\\'
  | '/' => some '/'
  | 'b' => some '\x08'
  | 'f' => some '\x0c'
  | 'n' => some '\n'
  | 'r' => some '\r'
  | 't' => some '\t'
  | _ => none

-- The code units up to the closing quote. An escape by number stands for one unit, and so does any
-- other escape; a character outside the basic plane may also stand for itself.
def readUnits : List Char → Reading (List Nat)
  | [] => none
  | '"' :: rest => some ([], rest)
  | '\\' :: 'u' :: a :: b :: c :: d :: rest =>
    match hex4? a b c d with
    | none => none
    | some unit => (readUnits rest).map fun (units, after) => (unit :: units, after)
  | '\\' :: c :: rest =>
    match simpleEscape? c with
    | none => none
    | some d => (readUnits rest).map fun (units, after) => (d.toNat :: units, after)
  | c :: rest =>
    if c.toNat < 32 || c == '\\' then none
    else (readUnits rest).map fun (units, after) => (c.toNat :: units, after)

/-- The text of code units. A high and a low surrogate together are a character outside the basic
plane; units in which one stands alone have no text. -/
def textOfUnits? : List Nat → Option (List Char)
  | [] => some []
  | high :: low :: rest =>
    if isHighSurrogate high && isLowSurrogate low then
      (textOfUnits? rest).map
        (Char.ofNat (0x10000 + (high - 0xd800) * 0x400 + (low - 0xdc00)) :: ·)
    else if isHighSurrogate high || isLowSurrogate high then none
    else (textOfUnits? (low :: rest)).map (Char.ofNat high :: ·)
  | [unit] =>
    if isHighSurrogate unit || isLowSurrogate unit then none else some [Char.ofNat unit]

/-- Reads a string behind its opening quote. -/
def readString (cs : List Char) : Reading (Option String) :=
  (readUnits cs).map fun (units, after) => ((textOfUnits? units).map String.ofList, after)

def stringOf : Option String → Json
  | some s => .string s
  | none => .garbled

/-- The object of members, unless a name has no text. -/
def objectOf (members : List (Option String × Json)) : Json :=
  match members.mapM fun (name, value) => name.map fun name => (name, value) with
  | some members => .object members
  | none => .garbled

-- One or more digits, and what follows them.
def readDigits (cs : List Char) : Reading (List Char) :=
  match cs.takeWhile isDigit with
  | [] => none
  | digits => some (digits, cs.dropWhile isDigit)

-- A zero stands alone before the point.
def readWhole : List Char → Reading (List Char)
  | '0' :: rest => if (rest.head?.map isDigit).getD false then none else some (['0'], rest)
  | cs => readDigits cs

def readFraction : List Char → Reading (Option (List Char))
  | '.' :: rest => (readDigits rest).map fun (digits, after) => (some digits, after)
  | cs => some (none, cs)

def readExponent : List Char → Reading (Option Int)
  | c :: rest =>
    if c == 'e' || c == 'E' then
      match rest with
      | '-' :: digits => (readDigits digits).map fun (d, after) => (some (-(numeral d : Int)), after)
      | '+' :: digits => (readDigits digits).map fun (d, after) => (some (numeral d : Int), after)
      | digits => (readDigits digits).map fun (d, after) => (some (numeral d : Int), after)
    else some (none, c :: rest)
  | [] => some (none, [])

/-- The double nearest to `± digits * 10 ^ exponent`. It is infinite beyond the finite doubles. That
the nearest double is read is an assumption about the JSON library that reads the text: by default such
a library may be less exact on long numerals. -/
def toFloat (negative : Bool) (digits : Nat) (exponent : Int) : Float :=
  let magnitude := Float.ofScientific digits (decide (exponent < 0)) exponent.natAbs
  if negative then -magnitude else magnitude

-- A minus sign before a zero makes a double, since an integer has no negative zero.
def numberOf (negative : Bool) (whole : List Char) (fraction : Option (List Char))
    (exponent : Option Int) : Json :=
  let integral : Int := if negative then -(numeral whole : Int) else numeral whole
  if fraction.isNone && exponent.isNone && holdsInteger integral && !(negative && integral == 0) then
    .integer integral
  else
    let places := fraction.getD []
    .float (toFloat negative (numeral (whole ++ places)) (exponent.getD 0 - places.length))

def readUnsigned (negative : Bool) (cs : List Char) : Option (Json × List Char) := do
  let (whole, cs) ← readWhole cs
  let (fraction, cs) ← readFraction cs
  let (exponent, cs) ← readExponent cs
  pure (numberOf negative whole fraction exponent, cs)

def readNumber : List Char → Reading Json
  | '-' :: rest => readUnsigned true rest
  | cs => readUnsigned false cs

mutual

def readValue : Nat → List Char → Reading Json
  | 0, _ => none
  | fuel + 1, cs =>
    match skipSpace cs with
    | 'n' :: 'u' :: 'l' :: 'l' :: rest => some (.null, rest)
    | 't' :: 'r' :: 'u' :: 'e' :: rest => some (.bool true, rest)
    | 'f' :: 'a' :: 'l' :: 's' :: 'e' :: rest => some (.bool false, rest)
    | '"' :: rest => (readString rest).map fun (s, after) => (stringOf s, after)
    | '[' :: rest =>
      match skipSpace rest with
      | ']' :: after => some (.array [], after)
      | _ => (readItems fuel rest).map fun (items, after) => (.array items, after)
    | '\x7b' :: rest =>
      match skipSpace rest with
      | '\x7d' :: after => some (.object [], after)
      | _ => (readMembers fuel rest).map fun (members, after) => (objectOf members, after)
    | rest => readNumber rest

def readItems : Nat → List Char → Reading (List Json)
  | 0, _ => none
  | fuel + 1, cs =>
    match readValue fuel cs with
    | none => none
    | some (item, after) =>
      match skipSpace after with
      | ']' :: rest => some ([item], rest)
      | ',' :: rest => (readItems fuel rest).map fun (items, after) => (item :: items, after)
      | _ => none

def readMembers : Nat → List Char → Reading (List (Option String × Json))
  | 0, _ => none
  | fuel + 1, cs =>
    match skipSpace cs with
    | '"' :: rest =>
      match readString rest with
      | none => none
      | some (name, after) =>
        match skipSpace after with
        | ':' :: rest =>
          match readValue fuel rest with
          | none => none
          | some (value, after) =>
            match skipSpace after with
            | '\x7d' :: rest => some ([(name, value)], rest)
            | ',' :: rest =>
              (readMembers fuel rest).map fun (members, after) => ((name, value) :: members, after)
            | _ => none
        | _ => none
    | _ => none

end

/-- The value of a text that is one JSON value, with white space around it. -/
def parse? (text : String) : Option Json :=
  let cs := text.toList
  match readValue (cs.length + 1) cs with
  | some (json, rest) => if skipSpace rest = [] then some json else none
  | none => none

end QCircuit.Json
