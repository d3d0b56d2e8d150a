import QCircuit.Proofs.Expr.Grammar
/-! Where reading fails.

Whatever phrase a stack waits for, it can still come: there is a form of every phrase, and behind it
the open groups can be closed. So what has been read without an error is the beginning of an
expression, and the token that is refused first is the first with which it is no beginning any more.
A text with a piece that is no token is refused for the first such piece before any of this. -/
namespace QCircuit.Expr

/-! ### Beginnings of expressions -/

/-- Some expression begins with these tokens. -/
def Viable (ts : List Token) : Prop := ∃ later e, Derives .sum (ts ++ later) e

theorem Awaits.viable {stack : List Frame} {ts : List Token} {phrase : Phrase}
    (awaits : Awaits stack ts phrase) {operand : List Token} {e : Expr}
    (derived : Derives phrase operand e) : Viable (ts ++ operand) := by
  induction awaits generalizing operand e with
  | start => exact ⟨[], e, by rwa [List.nil_append, List.append_nil]⟩
  | product _ ih => exact ih (.product derived)
  | signed _ ih => exact ih (.signed derived)
  | negative _ ih =>
      rw [List.append_assoc]
      exact ih (.negative derived)
  | positive _ ih =>
      rw [List.append_assoc]
      exact ih (.positive derived)
  | group _ ih =>
      obtain ⟨later, whole, completed⟩ := ih (.group derived)
      exact ⟨.rightParen :: later, whole, by simpa using completed⟩
  | @addend stack ts left l t op named level _ first ih =>
      have grown := ih (.loose named level first derived)
      rwa [List.append_assoc, List.append_assoc]
  | @factor stack ts left l t op named level _ first ih =>
      have grown := ih (.tight named level first derived)
      rwa [List.append_assoc, List.append_assoc]

theorem Viable.front {front back : List Token} (viable : Viable (front ++ back)) : Viable front := by
  obtain ⟨later, e, derived⟩ := viable
  exact ⟨back ++ later, e, by rwa [← List.append_assoc]⟩

theorem Reading.Follows.viable {r : Reading} {ts : List Token} (follows : r.Follows ts) :
    Viable ts := by
  obtain ⟨stack, operand?⟩ := r
  cases operand? with
  | none => exact (Awaits.viable follows .pi).front
  | some e =>
      obtain ⟨front, operand, rfl, awaits, derived⟩ := follows
      exact awaits.viable derived

/-- The reader gets to the end of a list exactly if some expression begins with it. -/
theorem viable_iff_run {ts : List Token} :
    Viable ts ↔ ∃ r, ts.foldlM step ⟨[], none⟩ = .ok r := by
  constructor
  · rintro ⟨later, e, derived⟩
    obtain ⟨stack, last, ran, -⟩ := derived.reads [] trivial
    rw [List.foldlM_append, bind_eq_ok] at ran
    obtain ⟨r, first, -⟩ := ran
    exact ⟨r, first⟩
  · rintro ⟨r, ran⟩
    have begins : Reading.Follows ⟨[], none⟩ [] := Awaits.signed (.product .start)
    exact (follows_run begins ran).viable

theorem readOperand_error {stack : List Frame} {t : Token} {e : ReadError}
    (refused : readOperand stack t = .error e) : e = .unexpectedToken .operand t := by
  cases t <;> cases refused <;> rfl

theorem readOperator_error {stack : List Frame} {operand : Expr} {t : Token} {e : ReadError}
    (refused : readOperator stack operand t = .error e) :
    ∃ expected, e = .unexpectedToken expected t := by
  unfold readOperator at refused
  split at refused
  · cases refused
  · split at refused
    · split at refused
      · cases refused
      · cases refused
        exact ⟨_, rfl⟩
    · cases refused
      exact ⟨_, rfl⟩

-- Each step that fails blames the token of this step.
theorem step_error {r : Reading} {t : Token} {e : ReadError} (refused : step r t = .error e) :
    ∃ expected, e = .unexpectedToken expected t := by
  obtain ⟨stack, operand?⟩ := r
  cases operand? with
  | none => exact ⟨.operand, readOperand_error refused⟩
  | some operand => exact readOperator_error refused

theorem finish_error {r : Reading} {e : ReadError} (refused : finish r = .error e) :
    ∃ expected, e = .unexpectedEnd expected := by
  unfold finish at refused
  split at refused
  · cases refused
    exact ⟨_, rfl⟩
  · split at refused
    · cases refused
    · cases refused
      exact ⟨_, rfl⟩

/-- The first token with which a list is not the beginning of an expression any more. -/
def FirstMisfit (ts : List Token) (t : Token) : Prop :=
  ∃ front back, ts = front ++ t :: back ∧ Viable front ∧ ¬ Viable (front ++ [t])

theorem run_error {ts : List Token} {e : ReadError} (refused : ts.foldlM step ⟨[], none⟩ = .error e) :
    ∃ expected t, e = .unexpectedToken expected t ∧ FirstMisfit ts t := by
  obtain ⟨front, t, back, r, rfl, ran, failed⟩ := foldlM_eq_error refused
  obtain ⟨expected, rfl⟩ := step_error failed
  refine ⟨expected, t, rfl, front, back, rfl, viable_iff_run.mpr ⟨r, ran⟩, fun viable => ?_⟩
  obtain ⟨r', ran'⟩ := viable_iff_run.mp viable
  simp only [List.foldlM_append, ran, List.foldlM_cons, failed, bind, Except.bind, reduceCtorEq] at ran'

theorem ofTokens_of_viable {ts : List Token} (some : ts ≠ []) (viable : Viable ts)
    (none : ∀ e, ¬ Derives .sum ts e) : ∃ expected, ofTokens ts = .error (.unexpectedEnd expected) := by
  obtain ⟨r, ran⟩ := viable_iff_run.mp viable
  have read : ofTokens ts = finish r := by
    rw [ofTokens, if_neg some, ran]
    rfl
  cases ended : finish r with
  | ok e => exact absurd (derives_of_ofTokens (read.trans ended)) (none e)
  | error e =>
      obtain ⟨expected, rfl⟩ := finish_error ended
      exact ⟨expected, read.trans ended⟩

theorem ofTokens_of_not_viable {ts : List Token} (lost : ¬ Viable ts) :
    ∃ expected t, ofTokens ts = .error (.unexpectedToken expected t) ∧ FirstMisfit ts t := by
  have some : ts ≠ [] := by
    rintro rfl
    exact lost ⟨[.pi], .pi, .product (.signed .pi)⟩
  cases ran : ts.foldlM step ⟨[], none⟩ with
  | ok r => exact absurd (viable_iff_run.mpr ⟨r, ran⟩) lost
  | error e =>
      obtain ⟨expected, t, rfl, misfit⟩ := run_error ran
      refine ⟨expected, t, ?_, misfit⟩
      rw [ofTokens, if_neg some, ran]
      rfl

/-! ### Pieces that are no tokens -/

/-- The front of a text is cut into longest tokens, with spaces and line ends between them. -/
inductive Leads (rest : List Char) : List Char → List Token → Prop where
  | here : Leads rest [] []
  | skip {c : Char} {front : List Char} {ts : List Token} (skipped : isSkipped c = true)
      (later : Leads rest front ts) : Leads rest (c :: front) ts
  | token {piece front : List Char} {t : Token} {ts : List Token}
      (longest : Longest piece t (front ++ rest)) (later : Leads rest front ts) :
      Leads rest (piece ++ front) (t :: ts)

/-- At this character, behind a front of tokens, no token begins. -/
structure FirstStray (cs front : List Char) (c : Char) (back : List Char) : Prop where
  parts : cs = front ++ c :: back
  leads : ∃ ts, Leads (c :: back) front ts
  solid : isSkipped c = false
  stray : ∀ piece t rest, c :: back = piece ++ rest → ¬ Matches piece t

-- A front of tokens only moves the position at which what is behind it is read.
theorem tokensOf_leads {rest front : List Char} {ts : List Token} (leads : Leads rest front ts)
    (start : Nat) {e : ReadError}
    (refused : tokensOf (lexemesFrom (start + byteSize front) rest) = .error e) :
    tokensOf (lexemesFrom start (front ++ rest)) = .error e := by
  induction leads generalizing start with
  | here => exact refused
  | skip skipped _ ih =>
      rw [byteSize, ← Nat.add_assoc] at refused
      rw [List.cons_append, lexemesFrom_skip skipped]
      exact ih _ refused
  | token longest _ ih =>
      rw [byteSize_append, ← Nat.add_assoc] at refused
      rw [List.append_assoc, lexemesFrom_longest longest, tokensOf, ih _ refused]
      rfl

theorem FirstStray.parse_eq {text : String} {front back : List Char} {c : Char}
    (first : FirstStray text.toList front c back) :
    parse text = .error (.invalidToken (byteSize front) (String.singleton c)) := by
  obtain ⟨ts, leads⟩ := first.leads
  have refused : tokensOf (lexemesFrom (0 + byteSize front) (c :: back)) =
      .error (.invalidToken (byteSize front) (String.singleton c)) := by
    rw [Nat.zero_add, lexemesFrom_stray first.solid (longestToken?_eq_none_iff.mpr first.stray),
      tokensOf]
  rw [parse, lexemes, first.parts, tokensOf_leads leads 0 refused]
  rfl

theorem munches_or_stray (cs : List Char) :
    (∃ ts, Munches cs ts) ∨ ∃ front c back, FirstStray cs front c back := by
  induction cs using pieceInduction with
  | nil => exact .inl ⟨[], .done⟩
  | skip c rest skipped ih =>
      rcases ih with ⟨ts, later⟩ | ⟨front, d, back, rfl, ⟨ts, leads⟩, solid, stray⟩
      · exact .inl ⟨ts, .skip skipped later⟩
      · exact .inr ⟨c :: front, d, back, rfl, ⟨ts, .skip skipped leads⟩, solid, stray⟩
  | token c piece rest t found ih =>
      have longest : Longest (c :: piece) t rest := longest_of_longestToken? found
      rw [← List.cons_append]
      rcases ih with ⟨ts, later⟩ | ⟨front, d, back, rfl, ⟨ts, leads⟩, solid, stray⟩
      · exact .inl ⟨t :: ts, .token longest later⟩
      · exact .inr ⟨c :: piece ++ front, d, back, (List.append_assoc _ _ _).symm,
          ⟨t :: ts, .token longest leads⟩, solid, stray⟩
  | stray c rest solid none _ =>
      exact .inr ⟨[], c, rest, rfl, ⟨[], .here⟩, (Bool.not_eq_true _).mp solid,
        longestToken?_eq_none_iff.mp none⟩

theorem Munches.parse_eq {text : String} {ts : List Token} (munches : Munches text.toList ts) :
    parse text = ofTokens ts := by
  rw [parse, lexemes, tokensOf_eq_ok.mpr (tokens?_of_munches munches)]
  rfl

/-- No tokens are no expression. Other tokens that are none end too early if some expression begins
with them, and otherwise the first of them is blamed with which no expression begins. A text has its
tokens read, unless a piece of it is none: then it is refused for the first such piece, whatever the
tokens are. -/
theorem reading_fails_at_first_misfit :
    ofTokens [] = .error .empty ∧
      (∀ ts : List Token, ts ≠ [] → (∀ e, ¬ Derives .sum ts e) →
        ((∃ expected, ofTokens ts = .error (.unexpectedEnd expected)) ↔ Viable ts) ∧
        (¬ Viable ts →
          ∃ expected t, ofTokens ts = .error (.unexpectedToken expected t) ∧ FirstMisfit ts t)) ∧
      ∀ text : String,
        ((∃ ts, Munches text.toList ts) ∨ ∃ front c back, FirstStray text.toList front c back) ∧
        (∀ ts, Munches text.toList ts → parse text = ofTokens ts) ∧
        ∀ front c back, FirstStray text.toList front c back →
          parse text = .error (.invalidToken (byteSize front) (String.singleton c)) := by
  refine ⟨rfl, fun ts some none => ⟨⟨?_, fun viable => ?_⟩, ofTokens_of_not_viable⟩,
    fun text => ⟨munches_or_stray text.toList, fun ts => Munches.parse_eq,
      fun front c back => FirstStray.parse_eq⟩⟩
  · rintro ⟨expected, ended⟩
    by_contra lost
    obtain ⟨expected', t, refused, -⟩ := ofTokens_of_not_viable lost
    rw [ended] at refused
    cases refused
  · exact ofTokens_of_viable some viable none

-- A group that is left open, two operands side by side, and a stray letter behind a misplaced star.
theorem reading_fails_at_first_misfit_stray_letter :
    (∃ expected, ofTokens [.leftParen, .pi] = .error (.unexpectedEnd expected)) ∧
      (∃ expected t, ofTokens [.pi, .pi, .star] = .error (.unexpectedToken expected t) ∧
        FirstMisfit [.pi, .pi, .star] t) ∧
      parse "* x(" = .error (.invalidToken 2 "x") := by
  obtain ⟨-, tokens, texts⟩ := reading_fails_at_first_misfit
  have unread : ∀ {ts : List Token} {error : ReadError}, ofTokens ts = .error error →
      ∀ e, ¬ Derives .sum ts e := by
    intro ts error refused e derived
    rw [derived.ofTokens] at refused
    cases refused
  have group : Viable [.leftParen, .pi] :=
    ⟨[.rightParen], .pi, .product (.signed (.group (.product (.signed .pi))))⟩
  have beside : ¬ Viable [.pi, .pi, .star] := by
    intro viable
    obtain ⟨r, ran⟩ := viable_iff_run.mp viable
    cases ran
  have star : Longest ['*'] .star [' ', 'x', '('] := longest_of_longestToken? rfl
  have letter : FirstStray "* x(".toList ['*', ' '] 'x' ['('] :=
    ⟨rfl, ⟨[.star], .token star (.skip rfl .here)⟩, rfl, longestToken?_eq_none_iff.mp rfl⟩
  refine ⟨(tokens _ (by simp) (unread rfl)).1.mpr group,
    (tokens _ (by simp) (unread rfl)).2 beside, (texts "* x(").2.2 _ _ _ letter⟩

end QCircuit.Expr
