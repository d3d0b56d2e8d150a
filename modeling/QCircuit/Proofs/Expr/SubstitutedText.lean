import QCircuit.Proofs.Expr.Substitution
/-! The characters of a text with literals.

A literal is written with digits, a point, a sign and parentheses. So a text with literals in place
of variables has the same colons and bars as before, and still no blanks. -/
namespace QCircuit
open QCircuit.Expr

namespace Expr

theorem longestToken?_number {cs : List Char} {value : Float} {length : Nat}
    (found : longestToken? cs = some (.number value, length)) :
    ∃ piece rest, cs = piece ++ rest ∧ length = piece.length ∧
      ReadsNumber piece (.number value) rest := by
  unfold longestToken? at found
  split at found
  case h_8 =>
      obtain ⟨_, _, _, _, _, _, _, _, other⟩ := variableToken?_eq_some_iff.mp found
      cases other
  case h_9 => exact numberToken?_eq_some_iff.mp found
  all_goals cases found

theorem ReadsNumber.mem {piece rest : List Char} {t : Token} (reads : ReadsNumber piece t rest) :
    ∀ c ∈ piece, Text.isDigit c = true ∨ c = '.' := by
  intro c inside
  cases reads with
  | whole all => exact .inl (all c inside)
  | places all all' =>
      rcases List.mem_append.mp inside with front | behind
      · exact .inl (all c front)
      · rcases List.mem_cons.mp behind with point | place
        · exact .inr point
        · exact .inl (all' c place)

end Expr

/-- The characters that literals are written with. -/
def Literal.isChar (c : Char) : Bool := Text.isDigit c || ['.', '-', '(', ')'].contains c

theorem Literal.text_chars (l : Literal) : ∀ c ∈ l.text, isChar c = true := by
  obtain ⟨piece, rest, whole, length, reads⟩ := longestToken?_number l.reads
  obtain rfl : rest = [] := by
    have size := congrArg List.length whole
    rw [List.length_append] at size
    exact List.length_eq_zero_iff.mp (by omega)
  rw [List.append_nil] at whole
  intro c inside
  simp only [text, sign, List.mem_cons, List.mem_append, List.not_mem_nil, or_false] at inside
  rcases inside with rfl | (signed | number) | rfl
  · rfl
  · by_cases negative : l.negative = true
    · rw [if_pos negative, List.mem_singleton] at signed
      subst signed
      rfl
    · rw [if_neg negative] at signed
      cases signed
  · rw [whole] at number
    rcases reads.mem c number with digit | rfl
    · rw [isChar, digit, Bool.true_or]
    · rfl
  · rfl

namespace Substitution
variable (σ : Substitution)

theorem tokenText_cases (t : Token) (piece : List Char) :
    σ.tokenText t piece = piece ∨ ∃ l : Literal, σ.tokenText t piece = l.text := by
  cases t with
  | var name =>
      cases found : σ.literal? name with
      | none => exact .inl (by simp [tokenText, found])
      | some l => exact .inr ⟨l, by simp [tokenText, found]⟩
  | _ => exact .inl rfl

theorem apply_chars (cs : List Char) : ∀ c ∈ σ.apply cs, c ∈ cs ∨ Literal.isChar c = true := by
  induction cs using textInduction with
  | nil => simp [apply]
  | stray d rest none ih =>
      intro c inside
      rw [apply_stray σ none, List.mem_cons] at inside
      rcases inside with rfl | later
      · exact .inl List.mem_cons_self
      · exact (ih c later).imp_left (List.mem_cons_of_mem d)
  | token d piece rest t found ih =>
      intro c inside
      rw [apply_token σ found, List.mem_append] at inside
      rw [← List.cons_append, List.mem_append]
      rcases inside with front | later
      · rcases σ.tokenText_cases t (d :: piece) with own | ⟨l, literal⟩
        · rw [own] at front
          exact .inl (.inl front)
        · rw [literal] at front
          exact .inr (l.text_chars c front)
      · exact (ih c later).imp_left .inr

theorem apply_eq_nil_iff (cs : List Char) : σ.apply cs = [] ↔ cs = [] := by
  cases cs with
  | nil => simp [apply]
  | cons c rest =>
      cases found : longestToken? (c :: rest) with
      | none => simp [apply_stray σ found]
      | some read =>
          obtain ⟨t, size⟩ := read
          obtain ⟨piece, after, rfl, rfl⟩ := longestToken?_split found
          rw [apply_token σ found]
          rcases σ.tokenText_cases t (c :: piece) with own | ⟨l, literal⟩
          · simp [own]
          · simp [literal, Literal.text]

theorem apply_eq_bar_iff (cs : List Char) : σ.apply cs = ['|'] ↔ cs = ['|'] := by
  constructor
  · intro bar
    cases cs with
    | nil => simp [apply] at bar
    | cons c rest =>
        cases found : longestToken? (c :: rest) with
        | none =>
            rw [apply_stray σ found, List.cons.injEq, apply_eq_nil_iff] at bar
            rw [bar.1, bar.2]
        | some read =>
            obtain ⟨t, size⟩ := read
            obtain ⟨piece, after, rfl, rfl⟩ := longestToken?_split found
            rw [apply_token σ found] at bar
            rcases σ.tokenText_cases t (c :: piece) with own | ⟨l, literal⟩
            · rw [own, List.cons_append, List.cons.injEq] at bar
              rw [bar.1, longestToken?_bar] at found
              cases found
            · simp [literal, Literal.text] at bar
  · rintro rfl
    rw [apply_stray σ (longestToken?_bar []), apply]

-- No token reaches over a colon.
theorem apply_colon (before after : List Char) :
    σ.apply (before ++ ':' :: after) = σ.apply before ++ ':' :: σ.apply after := by
  have edge : ∀ rest : List Char, SameEdge rest (rest ++ ':' :: after) :=
    SameEdge.append (edge_cons rfl (by decide) after)
  induction before using textInduction with
  | nil =>
      rw [List.nil_append, apply_stray σ (longestToken?_colon after), apply, List.nil_append]
  | stray c rest none ih =>
      rw [List.cons_append, apply_stray σ (longestToken?_none_sameEdge (edge rest) none), ih,
        apply_stray σ none, List.cons_append]
  | token c piece rest t found ih =>
      rw [List.cons_append, List.append_assoc,
        apply_token σ (longestToken?_sameEdge (edge rest) found), ih, apply_token σ found,
        List.append_assoc]

end Substitution
end QCircuit
