import QCircuit.Proofs.Expr.Pieces
/-! Literals in place of variables.

A substitution gives literals in parentheses for some variables. Where one of them is a token of a
text, its literal is written instead, and nothing around it is read differently: what stands next to
a variable cannot become a part of a parenthesis. -/
namespace QCircuit
open QCircuit.Expr

/-- A number in parentheses, with a sign or without. -/
structure Literal where
  negative : Bool
  digits : List Char
  magnitude : Float
  reads : longestToken? digits = some (.number magnitude, digits.length)

namespace Literal

def sign (l : Literal) : List Char := if l.negative then ['-'] else []

def text (l : Literal) : List Char := '(' :: (l.sign ++ l.digits ++ [')'])

def tokens (l : Literal) : List Token :=
  .leftParen :: ((if l.negative then [.minus] else []) ++ [.number l.magnitude, .rightParen])

def value (l : Literal) : Float := if l.negative then -l.magnitude else l.magnitude

end Literal

/-- Literals for variables. -/
abbrev Substitution : Type := List (String × Literal)

namespace Substitution

def literal? (σ : Substitution) (name : String) : Option Literal := σ.lookup name

/-- The substitution where a variable has been bound again. -/
def without (σ : Substitution) (name : String) : Substitution := σ.filter fun b => b.1 != name

/-- What is written for a token, given its own text. -/
def tokenText (σ : Substitution) (t : Token) (piece : List Char) : List Char :=
  match t with
  | .var name => ((σ.literal? name).map Literal.text).getD piece
  | _ => piece

def tokenTokens (σ : Substitution) (t : Token) : List Token :=
  match t with
  | .var name => ((σ.literal? name).map Literal.tokens).getD [t]
  | _ => [t]

/-- The text with the literal of each variable in its place. -/
def apply (σ : Substitution) : List Char → List Char
  | [] => []
  | c :: rest =>
    match longestToken? (c :: rest) with
    | some (t, length) =>
      σ.tokenText t (c :: rest.take (length - 1)) ++ apply σ (rest.drop (length - 1))
    | none => c :: apply σ rest
termination_by cs => cs.length
decreasing_by
  · simp only [List.length_drop, List.length_cons]; omega
  · simp

def applyWord (σ : Substitution) (word : String) : String := String.ofList (σ.apply word.toList)

end Substitution

namespace Expr

theorem longestToken?_var {c : Char} {rest : List Char} {name : String} {length : Nat}
    (found : longestToken? (c :: rest) = some (.var name, length)) : c = '$' := by
  unfold longestToken? at found
  split at found
  case h_8 shape =>
      cases shape
      rfl
  case h_9 =>
      obtain ⟨_, _, _, _, reads⟩ := numberToken?_eq_some_iff.mp found
      cases reads
  all_goals cases found

end Expr

namespace Substitution
variable (σ : Substitution)

theorem literal?_without_self (name : String) : (σ.without name).literal? name = none := by
  induction σ with
  | nil => rfl
  | cons b rest ih =>
      obtain ⟨bound, l⟩ := b
      by_cases same : bound = name
      · simpa [without, literal?, same] using ih
      · simpa [without, literal?, same, List.lookup_cons, beq_false_of_ne (Ne.symm same)] using ih

theorem literal?_without_of_ne (name other : String) (distinct : other ≠ name) :
    (σ.without name).literal? other = σ.literal? other := by
  induction σ with
  | nil => rfl
  | cons b rest ih =>
      obtain ⟨bound, l⟩ := b
      simp only [without, literal?] at ih
      by_cases same : bound = name
      · simp [without, literal?, same, ih, List.lookup_cons, beq_false_of_ne distinct]
      · simp [without, literal?, same, ih, List.lookup_cons]

theorem apply_token {c : Char} {piece rest : List Char} {t : Token}
    (found : longestToken? (c :: (piece ++ rest)) = some (t, piece.length + 1)) :
    σ.apply (c :: (piece ++ rest)) = σ.tokenText t (c :: piece) ++ σ.apply rest := by
  rw [apply, found]
  simp

theorem apply_stray {c : Char} {rest : List Char} (none : longestToken? (c :: rest) = none) :
    σ.apply (c :: rest) = c :: σ.apply rest := by
  rw [apply, none]

theorem sameEdge_apply (cs : List Char) : SameEdge cs (σ.apply cs) := by
  cases cs with
  | nil =>
      rw [apply]
      exact .inl rfl
  | cons c rest =>
      cases found : longestToken? (c :: rest) with
      | none =>
          rw [apply_stray σ found]
          exact .inl rfl
      | some read =>
          obtain ⟨t, size⟩ := read
          obtain ⟨piece, after, rfl, rfl⟩ := longestToken?_split found
          rw [apply_token σ found]
          cases t with
          | var name =>
              cases replaced : σ.literal? name with
              | none => exact .inl (by simp [tokenText, replaced])
              | some l =>
                  obtain rfl := longestToken?_var found
                  simp only [tokenText, replaced, Literal.text, Option.map_some, Option.getD_some,
                    List.cons_append]
                  exact .inr ⟨edge_cons rfl (by decide) _, edge_cons rfl (by decide) _⟩
          | _ => exact .inl (by simp [tokenText])

end Substitution

namespace Literal
variable (l : Literal)

theorem tokens?_number (rest : List Char) :
    tokens? (l.digits ++ ')' :: rest) = (tokens? rest).map ([.number l.magnitude, .rightParen] ++ ·) := by
  obtain ⟨_, digits, magnitude, reads⟩ := l
  cases digits with
  | nil => cases reads
  | cons c piece =>
      have edge : SameEdge [] (')' :: rest) := .inr ⟨edge_nil, edge_cons rfl (by decide) rest⟩
      have alone : longestToken? (c :: (piece ++ [])) = some (.number magnitude, piece.length + 1) := by
        rw [List.append_nil, reads, List.length_cons]
      have closing : tokens? (')' :: ([] ++ rest)) = (tokens? rest).map (.rightParen :: ·) :=
        tokens?_token rfl
      rw [List.nil_append] at closing
      rw [List.cons_append, tokens?_token (longestToken?_sameEdge edge alone), closing,
        Option.map_map]
      rfl

theorem tokens?_text (rest : List Char) :
    tokens? (l.text ++ rest) = (tokens? rest).map (l.tokens ++ ·) := by
  have opening : ∀ after : List Char,
      tokens? ('(' :: ([] ++ after)) = (tokens? after).map (.leftParen :: ·) :=
    fun after => tokens?_token rfl
  have minus : ∀ after : List Char,
      tokens? ('-' :: ([] ++ after)) = (tokens? after).map (.minus :: ·) :=
    fun after => tokens?_token rfl
  simp only [List.nil_append] at opening minus
  cases signed : l.negative with
  | false =>
      simp only [text, sign, tokens, signed, Bool.false_eq_true, if_false, List.nil_append,
        List.cons_append, List.append_assoc, opening, tokens?_number, Option.map_map]
      rfl
  | true =>
      simp only [text, sign, tokens, signed, if_true, List.nil_append, List.cons_append,
        List.append_assoc, opening, minus, tokens?_number, Option.map_map]
      rfl

end Literal

/-- Replacing variables in a text replaces them among its tokens. -/
theorem Substitution.tokens?_apply (σ : Substitution) (cs : List Char) :
    tokens? (σ.apply cs) = (tokens? cs).map fun ts => ts.flatMap σ.tokenTokens := by
  induction cs using textInduction with
  | nil => simp [apply, tokens?]
  | stray c rest none ih =>
      have none' : longestToken? (c :: σ.apply rest) = .none :=
        longestToken?_none_sameEdge (σ.sameEdge_apply rest) none
      rw [apply_stray σ none, tokens?, tokens?, none, none']
      by_cases skipped : isSkipped c = true
      · simp only [skipped, if_true, ih]
      · simp only [skipped, if_false, Option.map_none, Bool.false_eq_true]
  | token c piece rest t found ih =>
      have kept : tokens? (c :: (piece ++ σ.apply rest)) = (tokens? (σ.apply rest)).map (t :: ·) :=
        tokens?_token (longestToken?_sameEdge (σ.sameEdge_apply rest) found)
      rw [apply_token σ found, tokens?_token found, Option.map_map]
      have unchanged : σ.tokenText t (c :: piece) = c :: piece → σ.tokenTokens t = [t] →
          tokens? (σ.tokenText t (c :: piece) ++ σ.apply rest) =
            (tokens? rest).map ((fun ts => ts.flatMap σ.tokenTokens) ∘ (t :: ·)) := by
        intro text tokens
        rw [text, List.cons_append, kept, ih, Option.map_map]
        congr 1
        funext ts
        simp [tokens]
      cases t with
      | var name =>
          cases replaced : σ.literal? name with
          | none => exact unchanged (by simp [tokenText, replaced]) (by simp [tokenTokens, replaced])
          | some l =>
              have text : σ.tokenText (.var name) (c :: piece) = l.text := by
                simp [tokenText, replaced]
              rw [text, l.tokens?_text, ih, Option.map_map]
              congr 1
              funext ts
              simp [tokenTokens, replaced]
      | _ => exact unchanged rfl rfl

end QCircuit
