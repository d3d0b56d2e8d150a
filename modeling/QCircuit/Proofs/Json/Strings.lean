import Mathlib.Tactic.SplitIfs
import QCircuit.Json.Printer
import QCircuit.Json.Reader
/-! Strings of JSON text.

A character is written as itself or as an escape, and either is read as one code unit. No character
is half of a surrogate pair, so the units of a string are read as its characters. -/
namespace QCircuit.Json
open Text

section Units
variable {rest after : List Char} {units : List Nat}

theorem readUnits_plain {c : Char} (quote : c ≠ '"') (backslash : c ≠ '\\') (high : ¬ c.toNat < 32)
    (read : readUnits rest = some (units, after)) :
    readUnits (c :: rest) = some (c.toNat :: units, after) := by
  rw [readUnits]
  · simp [high, backslash, read]
  · exact quote
  · intro _ _ _ _ _ same
    exact absurd same backslash
  · intro _ _ same
    exact absurd same backslash

theorem readUnits_simple {c d : Char} (named : simpleEscape? c = some d) (letter : c ≠ 'u')
    (read : readUnits rest = some (units, after)) :
    readUnits ('\\' :: c :: rest) = some (d.toNat :: units, after) := by
  rw [readUnits]
  · simp [named, read]
  · intro _ _ _ _ _ same
    exact absurd same letter

theorem hex4?_hexDigit : ∀ n < 32,
    hex4? '0' '0' (hexDigit (n / 16)) (hexDigit (n % 16)) = some n := by decide

theorem readUnits_escape {c : Char} (read : readUnits rest = some (units, after)) :
    readUnits (escape c ++ rest) = some (c.toNat :: units, after) := by
  unfold escape
  split_ifs with quote backslash newline carriage tab back feed control
  · subst quote
    exact readUnits_simple rfl (by decide) read
  · subst backslash
    exact readUnits_simple rfl (by decide) read
  · subst newline
    exact readUnits_simple rfl (by decide) read
  · subst carriage
    exact readUnits_simple rfl (by decide) read
  · subst tab
    exact readUnits_simple rfl (by decide) read
  · subst back
    exact readUnits_simple rfl (by decide) read
  · subst feed
    exact readUnits_simple rfl (by decide) read
  · simp only [List.cons_append, List.nil_append, readUnits, hex4?_hexDigit _ control, read,
      Option.map_some]
  · exact readUnits_plain quote backslash control read

end Units

theorem readUnits_chars (cs rest : List Char) :
    readUnits (cs.flatMap escape ++ '"' :: rest) = some (cs.map Char.toNat, rest) := by
  induction cs with
  | nil => rw [List.flatMap_nil, List.nil_append, readUnits, List.map_nil]
  | cons c cs ih =>
      rw [List.flatMap_cons, List.append_assoc, List.map_cons]
      exact readUnits_escape ih

theorem not_surrogate (c : Char) :
    isHighSurrogate c.toNat = false ∧ isLowSurrogate c.toNat = false := by
  have valid : c.toNat < 0xd800 ∨ 0xdfff < c.toNat ∧ c.toNat < 0x110000 := c.valid
  simp only [isHighSurrogate, isLowSurrogate, Bool.and_eq_false_iff, decide_eq_false_iff_not]
  omega

theorem textOfUnits?_chars (cs : List Char) : textOfUnits? (cs.map Char.toNat) = some cs := by
  induction cs with
  | nil => rfl
  | cons c cs ih =>
      obtain ⟨high, low⟩ := not_surrogate c
      cases cs with
      | nil => simp [textOfUnits?, high, low]
      | cons d cs =>
          rw [List.map_cons] at ih
          simp [textOfUnits?, high, low, ih]

/-- A string is read back, whatever follows it. -/
theorem readString_chars (s : String) (rest : List Char) :
    readString (s.toList.flatMap escape ++ '"' :: rest) = some (some s, rest) := by
  simp only [readString, readUnits_chars, textOfUnits?_chars, Option.map_some, String.ofList_toList]

end QCircuit.Json
