import QCircuit.Json.Printer
import QCircuit.Json.Reader
import QCircuit.Proofs.Double.DecimalText
import QCircuit.Proofs.Text.Runs
/-! Numbers of JSON text.

A number has a numeral, and may have places behind a point and a power of ten. These parts are found
again in the text, and the double that they are read as is the one that was written, since its
digits are read as its magnitude. -/
namespace QCircuit.Json
open Text Decimal

/-- The character would belong to a number in front of it. -/
def extendsNumber (c : Char) : Bool := isDigit c || c == '.' || c == 'e' || c == 'E'

/-- The parts of a number without its sign. -/
structure Numeral where
  whole : List Char
  places? : Option (List Char)
  power? : Option Int
  digits : ∀ c ∈ whole, isDigit c = true
  nonempty : whole ≠ []
  leads : Leads whole
  placeDigits : ∀ places ∈ places?, ∀ c ∈ places, isDigit c = true
  placesNonempty : ∀ places ∈ places?, places ≠ []

def fractionChars : Option (List Char) → List Char
  | none => []
  | some places => '.' :: places

def powerChars : Option Int → List Char
  | none => []
  | some power => 'e' :: (if power < 0 then '-' else '+') :: Nat.toDigits 10 power.natAbs

section Reading
variable {rest : List Char}

theorem readDigits_append {digits : List Char} (all : ∀ c ∈ digits, isDigit c = true)
    (some : digits ≠ []) (stops : StopsAt isDigit rest) :
    readDigits (digits ++ rest) = .some (digits, rest) := by
  rw [readDigits, takeWhile_of_stops all stops, dropWhile_of_stops all stops]
  cases digits with
  | nil => exact absurd rfl some
  | cons c digits => rfl

theorem readWhole_append {whole : List Char} (all : ∀ c ∈ whole, isDigit c = true)
    (some : whole ≠ []) (leads : Leads whole) (stops : StopsAt isDigit rest) :
    readWhole (whole ++ rest) = .some (whole, rest) := by
  cases whole with
  | nil => exact absurd rfl some
  | cons c whole =>
      by_cases zero : c = '0'
      · subst zero
        obtain rfl : whole = [] := (List.cons.inj (leads rfl)).2
        have ends : (rest.head?.map isDigit).getD false = false := by
          cases first : rest.head? with
          | none => rfl
          | some d => exact stops d first
        simp [readWhole, ends]
      · rw [← readDigits_append all some stops, List.cons_append, readWhole]
        intro _ same
        exact absurd (List.cons.inj same).1 zero

theorem extendsNumber_of_digit {c : Char} (digit : isDigit c = true) : extendsNumber c = true := by
  simp [extendsNumber, digit]

theorem readFraction_append {places? : Option (List Char)}
    (all : ∀ places ∈ places?, ∀ c ∈ places, isDigit c = true)
    (some : ∀ places ∈ places?, places ≠ []) (stops : StopsAt isDigit rest)
    (noPoint : rest.head? ≠ .some '.') :
    readFraction (fractionChars places? ++ rest) = .some (places?, rest) := by
  cases places? with
  | none =>
      rw [fractionChars, List.nil_append, readFraction]
      rintro after rfl
      exact noPoint rfl
  | some places =>
      rw [fractionChars, List.cons_append, readFraction, readDigits_append (all _ rfl) (some _ rfl) stops]
      rfl

theorem readExponent_append {power? : Option Int} (stops : StopsAt extendsNumber rest) :
    readExponent (powerChars power? ++ rest) = .some (power?, rest) := by
  cases power? with
  | none =>
      rw [powerChars, List.nil_append]
      cases rest with
      | nil => rfl
      | cons c rest =>
          have other : ¬ (c == 'e' || c == 'E') = true := by
            have ends := stops c rfl
            simp only [extendsNumber, Bool.or_eq_false_iff] at ends
            simp [ends]
          exact if_neg other
  | some power =>
      have read := readDigits_append (isDigit_toDigits power.natAbs) Nat.toDigits_ne_nil
        (stops.mono extendsNumber_of_digit)
      rw [powerChars, List.cons_append, List.cons_append]
      by_cases below : power < 0
      · have size : -(power.natAbs : Int) = power := by omega
        simp only [readExponent, below, if_true, read, Option.map_some, numeral_toDigits, size]
        rfl
      · have size : (power.natAbs : Int) = power := by omega
        simp only [readExponent, below, if_false, read, Option.map_some, numeral_toDigits, size]
        rfl

end Reading

namespace Numeral

/-- The text of the number without its sign. -/
def chars (n : Numeral) : List Char := n.whole ++ (fractionChars n.places? ++ powerChars n.power?)

/-- The number as it is read behind a minus or without one. -/
def json (n : Numeral) (negative : Bool) : Json := numberOf negative n.whole n.places? n.power?

end Numeral

theorem readUnsigned_chars (n : Numeral) (negative : Bool) {rest : List Char}
    (stops : StopsAt extendsNumber rest) :
    readUnsigned negative (n.chars ++ rest) = some (n.json negative, rest) := by
  have digits := stops.mono extendsNumber_of_digit
  have afterFraction : StopsAt isDigit (powerChars n.power? ++ rest) ∧
      (powerChars n.power? ++ rest).head? ≠ some '.' := by
    cases n.power? with
    | none =>
        refine ⟨digits, fun point => ?_⟩
        cases stops _ point
    | some power => simp [powerChars, StopsAt, isDigit]
  have afterWhole : StopsAt isDigit (fractionChars n.places? ++ (powerChars n.power? ++ rest)) := by
    cases n.places? with
    | none => exact afterFraction.1
    | some places => simp [fractionChars, StopsAt, isDigit]
  rw [readUnsigned, Numeral.chars, List.append_assoc, List.append_assoc,
    readWhole_append n.digits n.nonempty n.leads afterWhole]
  simp only [Option.bind_eq_bind, Option.bind_some,
    readFraction_append n.placeDigits n.placesNonempty afterFraction.1 afterFraction.2,
    readExponent_append stops]
  rfl

namespace Numeral

/-- The number has a point or a power of ten, so that it is read as a double. -/
def Marked (n : Numeral) : Prop := n.places?.isSome ∨ n.power?.isSome

/-- The value of the number without its sign. -/
def decimal (n : Numeral) : Scientific :=
  ⟨numeral (n.whole ++ n.places?.getD []), n.power?.getD 0 - (n.places?.getD []).length⟩

theorem Marked.json {n : Numeral} (marked : n.Marked) (negative : Bool) : n.json negative =
    .float (if negative then -n.decimal.toFloat else n.decimal.toFloat) := by
  have double : (n.places?.isNone && n.power?.isNone) = false := by
    rcases marked with point | power
    · simp [Option.isNone_eq_false_iff.mpr point]
    · simp [Option.isNone_eq_false_iff.mpr power]
  rw [Numeral.json, numberOf, double]
  rfl

/-- The digits of a natural number. -/
def ofNat (n : Nat) : Numeral where
  whole := Nat.toDigits 10 n
  places? := none
  power? := none
  digits := isDigit_toDigits n
  nonempty := Nat.toDigits_ne_nil
  leads := by
    intro first
    rcases Nat.eq_zero_or_pos n with rfl | positive
    · rfl
    · exact absurd first (toDigits_leads positive)
  placeDigits := by simp
  placesNonempty := by simp

theorem ofNat_chars (n : Nat) : (ofNat n).chars = Nat.toDigits 10 n := List.append_nil _

/-- An integer of 64 bits is read as itself. -/
theorem ofNat_json {n : Int} (held : holdsInteger n = true) :
    (ofNat n.natAbs).json (decide (n < 0)) = .integer n := by
  rw [Numeral.json, ofNat, numberOf, numeral_toDigits]
  by_cases below : n < 0
  · have size : -(n.natAbs : Int) = n := by omega
    have some : (n == 0) = false := beq_false_of_ne (by omega)
    simp [-Nat.cast_natAbs, below, size, held, some]
  · have size : (n.natAbs : Int) = n := by omega
    simp [-Nat.cast_natAbs, below, size, held]

/-- Digits around a point. -/
def ofPlaces (whole places : List Char) (digits : ∀ c ∈ whole ++ places, isDigit c = true)
    (nonempty : whole ≠ []) (leads : Leads whole) (nonempty' : places ≠ []) : Numeral where
  whole := whole
  places? := some places
  power? := none
  digits := (List.forall_mem_append.mp digits).1
  nonempty := nonempty
  leads := leads
  placeDigits := by
    rintro _ ⟨rfl⟩
    exact (List.forall_mem_append.mp digits).2
  placesNonempty := by
    rintro _ ⟨rfl⟩
    exact nonempty'

/-- Digits with a point behind the first, if there are more, and a power of ten. -/
def ofPower (first : Char) (places : List Char) (digits : ∀ c ∈ first :: places, isDigit c = true)
    (power : Int) : Numeral where
  whole := [first]
  places? := if places = [] then none else some places
  power? := some power
  digits := List.forall_mem_singleton.mpr (digits first List.mem_cons_self)
  nonempty := List.cons_ne_nil _ _
  leads := fun zero => congrArg (fun c => [c]) (Option.some.inj zero)
  placeDigits := by
    intro _ given
    obtain ⟨_, ⟨rfl⟩⟩ := Option.ite_none_left_eq_some.mp given
    exact fun c inside => digits c (List.mem_cons_of_mem first inside)
  placesNonempty := by
    intro _ given
    obtain ⟨nonempty, ⟨rfl⟩⟩ := Option.ite_none_left_eq_some.mp given
    exact nonempty

end Numeral

section Doubles
variable {d : Scientific}

theorem magnitude_zero : ∃ n : Numeral, layout.magnitude ⟨0, 0⟩ = n.chars ∧ n.Marked ∧
    n.decimal.toFloat = (⟨0, 0⟩ : Scientific).toFloat := by
  refine ⟨.ofPlaces ['0'] ['0'] (isDigit_zeros 2) (by simp) (fun _ => rfl) (by simp), rfl, .inl rfl, ?_⟩
  apply float_ext
  rfl

-- A zero behind the point changes no value.
theorem pointed_value {whole : List Char} (writes : WritesDecimal whole [] d) :
    (⟨numeral (whole ++ ['0']), -1⟩ : Scientific).value = d.value := by
  have zero : numeral (whole ++ ['0']) = 10 * numeral whole := by
    rw [numeral, numeralFrom_append]
    rfl
  rw [← writes.value, Scientific.value, Scientific.value, zero]
  simp only [List.append_nil, List.length_nil, Nat.cast_zero, neg_zero, zpow_zero, mul_one]
  push_cast
  ring

theorem magnitude_plain (moderate : d.Moderate) : ∃ n : Numeral,
    positional d ++ (if 0 ≤ d.exponent then ['.', '0'] else []) = n.chars ∧ n.Marked ∧
      n.decimal.toFloat = d.toFloat := by
  obtain ⟨whole, places, writes, leads, integral, text⟩ := positional_writes d
  by_cases up : 0 ≤ d.exponent
  · obtain rfl := integral.mpr up
    have digits : ∀ c ∈ whole ++ ['0'], isDigit c = true := by
      have digits := writes.digits
      rw [List.append_nil] at digits
      exact List.forall_mem_append.mpr ⟨digits, isDigit_zeros 1⟩
    refine ⟨.ofPlaces whole ['0'] digits writes.some (leads moderate.positive) (by simp), ?_, .inl rfl, ?_⟩
    · simp [text, up, Numeral.ofPlaces, Numeral.chars, fractionChars, powerChars]
    · have value := pointed_value writes
      have moderate' := moderate.of_value value (by decide : (-1 : Int).natAbs ≤ 2048)
      exact moderate'.toFloat_congr moderate value
  · have fraction : places ≠ [] := fun none => up (integral.mp none)
    refine ⟨.ofPlaces whole places writes.digits writes.some (leads moderate.positive) fraction, ?_,
      .inl rfl, ?_⟩
    · simp [text, up, fraction, Numeral.ofPlaces, Numeral.chars, fractionChars, powerChars]
    · rw [← (writes.moderate moderate).toFloat_congr moderate writes.value]
      simp [Numeral.ofPlaces, Numeral.decimal]

theorem ofPower_chars {first : Char} {places : List Char}
    (digits : ∀ c ∈ first :: places, isDigit c = true)
    (written : Nat.toDigits 10 d.digits = first :: places) (power : Int) :
    exponentText layout d power = (Numeral.ofPower first places digits power).chars := by
  rw [exponentText, written]
  by_cases below : power < 0 <;> by_cases alone : places = [] <;>
    simp [below, alone, layout, Numeral.ofPower, Numeral.chars, fractionChars, powerChars]

theorem magnitude_power (d : Scientific) : ∃ n : Numeral,
    exponentText layout d (d.exponent + (Nat.toDigits 10 d.digits).length - 1) = n.chars ∧ n.Marked ∧
      n.decimal = d := by
  obtain ⟨first, places, written⟩ := List.exists_cons_of_ne_nil (Nat.toDigits_ne_nil (n := d.digits))
  have digits := isDigit_toDigits d.digits
  have number := numeral_toDigits d.digits
  have size : (Nat.toDigits 10 d.digits).length = places.length + 1 := by rw [written, List.length_cons]
  rw [written] at digits number
  refine ⟨_, ofPower_chars digits written _, .inr rfl, ?_⟩
  have behind : (if places = [] then none else some places).getD [] = places := by
    by_cases alone : places = [] <;> simp [alone]
  have power : d.exponent + (Nat.toDigits 10 d.digits).length - 1 - places.length = d.exponent := by
    omega
  simp only [Numeral.decimal, Numeral.ofPower, behind, List.singleton_append, number,
    Option.getD_some, power]

theorem magnitude_chars (shape : d = ⟨0, 0⟩ ∨ d.Moderate) : ∃ n : Numeral,
    layout.magnitude d = n.chars ∧ n.Marked ∧ n.decimal.toFloat = d.toFloat := by
  rcases shape with rfl | moderate
  · exact magnitude_zero
  · obtain ⟨n, chars, marked, value⟩ := magnitude_plain moderate
    obtain ⟨n', chars', marked', value'⟩ := magnitude_power d
    rw [Layout.magnitude]
    simp only [layout]
    split
    · refine ⟨n, ?_, marked, value⟩
      rw [← chars]
      simp
    · exact ⟨n', chars', marked', congrArg Scientific.toFloat value'⟩

/-- The text of a finite double is that of a number that is read as it. -/
theorem floatText_chars {x : Float} (finite : x.isFinite = true) : ∃ (negative : Bool) (n : Numeral),
    (floatText x).toList = (if negative then ['-'] else []) ++ n.chars ∧
      n.json negative = .float x := by
  obtain ⟨read, shape⟩ := shortest_reads layout.tie finite
  obtain ⟨negative, text, value⟩ := layout.text_eq finite
  obtain ⟨n, chars, marked, double⟩ := magnitude_chars shape
  refine ⟨negative, n, ?_, ?_⟩
  · rw [floatText, if_pos finite, text, String.toList_ofList, chars]
  · rw [marked.json, double, read, value]

end Doubles
end QCircuit.Json
