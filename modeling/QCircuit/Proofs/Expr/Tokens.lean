import QCircuit.Proofs.Checks
import QCircuit.Proofs.Text.Runs
import QCircuit.Expr.Parser
/-! Tokens of a text.

`tokens?` reads a text without the positions. How far a token reaches is decided by the character
behind it, so a text that goes on differently has the same token in front as long as neither way of
going on could be a part of it. -/
namespace QCircuit.Expr
open Text

/-- The tokens of a text, unless a character starts none. -/
def tokens? : List Char → Option (List Token)
  | [] => some []
  | c :: rest =>
    if isSkipped c then tokens? rest
    else match longestToken? (c :: rest) with
      | some (t, length) => (tokens? (rest.drop (length - 1))).map (t :: ·)
      | none => none
termination_by cs => cs.length
decreasing_by
  · simp
  · simp only [List.length_drop, List.length_cons]; omega

theorem tokensOf_eq_ok {start : Nat} {cs : List Char} {ts : List Token} :
    tokensOf (lexemesFrom start cs) = .ok ts ↔ tokens? cs = some ts := by
  induction start, cs using lexemesFrom.induct generalizing ts with
  | case1 start => simp [lexemesFrom, tokensOf, tokens?]
  | case2 start c rest skipped ih => simp [lexemesFrom, tokens?, skipped, ih]
  | case3 start c rest solid t length found =>
      rename_i stop ih
      simp only [lexemesFrom, tokens?, solid, found, tokensOf, bind_eq_ok, if_false,
        Bool.false_eq_true, Except.ok.injEq, Option.map_eq_some_iff]
      exact exists_congr fun _ => and_congr_left fun _ => ih
  | case4 start c rest solid found =>
      simp [lexemesFrom, tokens?, solid, found, tokensOf]

theorem parse_eq_ok {text : String} {e : Expr} :
    parse text = .ok e ↔ ∃ ts, tokens? text.toList = some ts ∧ ofTokens ts = .ok e := by
  simp only [parse, lexemes, bind_eq_ok, tokensOf_eq_ok]

/-- Digits that are not followed by a point, or digits around a point. -/
inductive ReadsNumber : List Char → Token → List Char → Prop where
  | whole {digits rest : List Char} (all : ∀ c ∈ digits, isDigit c = true) (some : digits ≠ [])
      (stops : StopsAt isDigit rest) (bare : rest.head? ≠ Option.some '.') :
      ReadsNumber digits (.number (numberValue digits [])) rest
  | places {digits places rest : List Char} (all : ∀ c ∈ digits, isDigit c = true)
      (all' : ∀ c ∈ places, isDigit c = true) (some : digits ≠ [] ∨ places ≠ [])
      (stops : StopsAt isDigit rest) :
      ReadsNumber (digits ++ '.' :: places) (.number (numberValue digits places)) rest

theorem readsNumber_of_numberToken? {cs : List Char} {t : Token} {length : Nat}
    (found : numberToken? cs = some (t, length)) :
    ∃ piece rest, cs = piece ++ rest ∧ length = piece.length ∧ ReadsNumber piece t rest := by
  have whole : cs = cs.takeWhile isDigit ++ cs.dropWhile isDigit :=
    List.takeWhile_append_dropWhile.symm
  unfold numberToken? at found
  split at found
  · rename_i rest behind
    rw [behind] at whole
    by_cases empty : cs.takeWhile isDigit = [] ∧ rest.takeWhile isDigit = []
    · simp [empty] at found
    · simp only [empty, if_false, Option.some.injEq, Prod.mk.injEq] at found
      obtain ⟨rfl, rfl⟩ := found
      refine ⟨cs.takeWhile isDigit ++ '.' :: rest.takeWhile isDigit, rest.dropWhile isDigit, ?_, ?_,
        .places mem_takeWhile mem_takeWhile ?_ (stopsAt_dropWhile rest)⟩
      · rw [List.append_assoc, List.cons_append, List.takeWhile_append_dropWhile, ← whole]
      · simp [Nat.add_assoc, Nat.add_comm 1]
      · tauto
  · rename_i other
    by_cases empty : cs.takeWhile isDigit = []
    · simp [empty] at found
    · simp only [empty, if_false, Option.some.injEq, Prod.mk.injEq] at found
      obtain ⟨rfl, rfl⟩ := found
      refine ⟨cs.takeWhile isDigit, cs.dropWhile isDigit, whole, rfl,
        .whole mem_takeWhile empty (stopsAt_dropWhile cs) ?_⟩
      intro point
      obtain ⟨rest, same⟩ := List.head?_eq_some_iff.mp point
      exact other rest same

theorem numberToken?_of_readsNumber {piece rest : List Char} {t : Token}
    (reads : ReadsNumber piece t rest) :
    numberToken? (piece ++ rest) = some (t, piece.length) := by
  cases reads with
  | whole all some stops bare =>
      unfold numberToken?
      rw [dropWhile_of_stops all stops, takeWhile_of_stops all stops]
      split
      · exact absurd rfl bare
      · rw [if_neg some]
  | @places digits places _ all all' some stops =>
      have point : StopsAt isDigit ('.' :: (places ++ rest)) := by
        intro c first
        cases first
        rfl
      have missing : ¬ (digits = [] ∧ places = []) := by tauto
      unfold numberToken?
      rw [List.append_assoc, List.cons_append, dropWhile_of_stops all point,
        takeWhile_of_stops all point]
      simp only [takeWhile_of_stops all' stops, if_neg missing, List.length_append,
        List.length_cons, Option.some.injEq, Prod.mk.injEq, true_and]
      omega

theorem numberToken?_eq_some_iff {cs : List Char} {t : Token} {length : Nat} :
    numberToken? cs = some (t, length) ↔
      ∃ piece rest, cs = piece ++ rest ∧ length = piece.length ∧ ReadsNumber piece t rest := by
  constructor
  · exact readsNumber_of_numberToken?
  · rintro ⟨piece, rest, rfl, rfl, reads⟩
    exact numberToken?_of_readsNumber reads

theorem variableToken?_eq_some_iff {cs : List Char} {t : Token} {length : Nat} :
    variableToken? cs = some (t, length) ↔
      ∃ first name rest, cs = '$' :: first :: (name ++ rest) ∧ length = name.length + 2 ∧
        isNameStart first = true ∧ (∀ c ∈ name, isNameChar c = true) ∧ StopsAt isNameChar rest ∧
          t = .var (String.ofList ('$' :: first :: name)) := by
  constructor
  · intro found
    unfold variableToken? at found
    split at found
    · rename_i first rest
      by_cases start : isNameStart first = true
      · simp only [start, if_true, Option.some.injEq, Prod.mk.injEq] at found
        obtain ⟨rfl, rfl⟩ := found
        refine ⟨first, rest.takeWhile isNameChar, rest.dropWhile isNameChar, ?_, rfl, start,
          mem_takeWhile, stopsAt_dropWhile rest, rfl⟩
        rw [List.takeWhile_append_dropWhile]
      · simp [start] at found
    · cases found
  · rintro ⟨first, name, rest, rfl, rfl, start, all, stops, rfl⟩
    rw [variableToken?, if_pos start, takeWhile_of_stops all stops]
    rfl

/-- Nothing at the front of the text can be a part of a token in front of it. -/
def Edge (cs : List Char) : Prop := StopsAt isNameChar cs ∧ cs.head? ≠ some '.'

theorem edge_nil : Edge [] := by
  constructor
  · intro c first
    cases first
  · simp

theorem edge_cons {c : Char} (apart : isNameChar c = false) (bare : c ≠ '.') (rest : List Char) :
    Edge (c :: rest) := by
  constructor
  · intro d first
    cases first
    exact apart
  · simpa using bare

/-- Texts in front of which the same tokens end. -/
def SameEdge (cs cs' : List Char) : Prop := cs.head? = cs'.head? ∨ (Edge cs ∧ Edge cs')

theorem Edge.stopsAt {p : Char → Bool} (part : ∀ c, p c = true → isNameChar c = true)
    {cs : List Char} (edge : Edge cs) : StopsAt p cs :=
  edge.1.mono (part _)

theorem SameEdge.stopsAt {p : Char → Bool} (part : ∀ c, p c = true → isNameChar c = true)
    {cs cs' : List Char} (same : SameEdge cs cs') (stops : StopsAt p cs) : StopsAt p cs' := by
  rcases same with heads | ⟨_, edge'⟩
  · intro c first
    exact stops c (heads.trans first)
  · exact edge'.stopsAt part

theorem SameEdge.head_ne_point {cs cs' : List Char} (same : SameEdge cs cs')
    (bare : cs.head? ≠ some '.') : cs'.head? ≠ some '.' := by
  rcases same with heads | ⟨_, edge'⟩
  · rwa [← heads]
  · exact edge'.2

theorem nameChar_of_digit (c : Char) (digit : isDigit c = true) : isNameChar c = true := by
  rw [isNameChar, digit, Bool.or_true]

theorem nameChar_of_nameStart (c : Char) (start : isNameStart c = true) : isNameChar c = true := by
  rw [isNameChar, start, Bool.true_or]

theorem ReadsNumber.sameEdge {piece rest rest' : List Char} {t : Token}
    (reads : ReadsNumber piece t rest) (same : SameEdge rest rest') :
    ReadsNumber piece t rest' := by
  cases reads with
  | whole all some stops bare =>
      exact .whole all some (same.stopsAt nameChar_of_digit stops) (same.head_ne_point bare)
  | places all all' some stops =>
      exact .places all all' some (same.stopsAt nameChar_of_digit stops)

theorem longestToken?_of_numeric {c : Char} {rest : List Char}
    (numeric : isDigit c = true ∨ c = '.') :
    longestToken? (c :: rest) = numberToken? (c :: rest) := by
  have apart : ∀ d, isDigit d = false → d ≠ '.' → c ≠ d := by
    rintro d letter point rfl
    rcases numeric with digit | same
    · rw [letter] at digit
      cases digit
    · exact point same
  unfold longestToken?
  split
  all_goals first
    | rfl
    | rename_i shape
      rw [List.cons.injEq] at shape
      exact absurd shape.1 (apart _ (by decide) (by decide))

theorem ReadsNumber.numeric {c : Char} {piece rest : List Char} {t : Token}
    (reads : ReadsNumber (c :: piece) t rest) : isDigit c = true ∨ c = '.' := by
  generalize whole : c :: piece = text at reads
  cases reads with
  | whole all some => exact .inl (all c (whole ▸ List.mem_cons_self))
  | @places digits _ _ all =>
      cases digits with
      | nil =>
          rw [List.nil_append, List.cons.injEq] at whole
          exact .inr whole.1
      | cons d digits =>
          rw [List.cons_append, List.cons.injEq] at whole
          exact .inl (whole.1 ▸ all d List.mem_cons_self)

-- A number that is the whole text.
theorem longestToken?_of_reads {piece : List Char} {t : Token} (reads : ReadsNumber piece t []) :
    longestToken? piece = some (t, piece.length) := by
  have found := numberToken?_of_readsNumber reads
  rw [List.append_nil] at found
  cases piece with
  | nil => simp [numberToken?] at found
  | cons c rest => rw [longestToken?_of_numeric reads.numeric, found]

theorem longestToken?_split {c : Char} {rest : List Char} {t : Token} {length : Nat}
    (found : longestToken? (c :: rest) = some (t, length)) :
    ∃ piece after, rest = piece ++ after ∧ length = piece.length + 1 := by
  unfold longestToken? at found
  split at found
  case h_1 after shape =>
      cases shape
      cases found
      exact ⟨['i'], after, rfl, rfl⟩
  case h_8 after shape =>
      cases shape
      obtain ⟨first, name, after, whole, rfl, _⟩ := variableToken?_eq_some_iff.mp found
      cases whole
      exact ⟨first :: name, after, rfl, rfl⟩
  case h_9 =>
      obtain ⟨piece, after, whole, rfl, reads⟩ := numberToken?_eq_some_iff.mp found
      cases piece with
      | nil =>
          generalize empty : ([] : List Char) = piece at reads
          cases reads with
          | whole _ some => exact absurd empty.symm some
          | places => simp at empty
      | cons d piece =>
          rw [List.cons_append, List.cons.injEq] at whole
          exact ⟨piece, after, whole.2, rfl⟩
  all_goals
    cases found
    exact ⟨[], rest, rfl, rfl⟩

/-- A token is read in the same way in front of any text with the same edge. -/
theorem longestToken?_sameEdge {c : Char} {piece rest rest' : List Char} {t : Token}
    (same : SameEdge rest rest')
    (found : longestToken? (c :: (piece ++ rest)) = some (t, piece.length + 1)) :
    longestToken? (c :: (piece ++ rest')) = some (t, piece.length + 1) := by
  have single : ∀ {kind : Token}, some (kind, 1) = some (t, piece.length + 1) → piece = [] ∧ kind = t := by
    intro kind equal
    rw [Option.some.injEq, Prod.mk.injEq] at equal
    exact ⟨List.length_eq_zero_iff.mp (by omega), equal.1⟩
  unfold longestToken? at found
  split at found
  case h_1 after shape =>
      rw [Option.some.injEq, Prod.mk.injEq] at found
      obtain ⟨letter, rfl⟩ := List.length_eq_one_iff.mp (show piece.length = 1 by omega)
      cases shape
      rw [← found.1]
      rfl
  case h_8 after shape =>
      obtain ⟨first, name, after, whole, length, start, all, stops, rfl⟩ :=
        variableToken?_eq_some_iff.mp found
      rw [List.cons.injEq, ← List.cons_append] at whole
      obtain ⟨rfl, parts⟩ := whole
      obtain ⟨rfl, rfl⟩ := List.append_inj parts (by simpa using length)
      exact variableToken?_eq_some_iff.mpr ⟨first, name, rest', rfl, rfl, start, all,
        same.stopsAt (fun _ named => named) stops, rfl⟩
  case h_9 =>
      obtain ⟨number, after, whole, length, reads⟩ := numberToken?_eq_some_iff.mp found
      rw [← List.cons_append] at whole
      obtain ⟨rfl, rfl⟩ := List.append_inj whole (by simp [length])
      rw [longestToken?_of_numeric reads.numeric, numberToken?_eq_some_iff]
      exact ⟨c :: piece, rest', rfl, rfl, reads.sameEdge same⟩
  all_goals
    rename_i shape
    obtain ⟨rfl, rfl⟩ := single found
    cases shape
    rfl

-- Whether a token starts is decided by its first character and the next one.
def startsToken (c : Char) (next? : Option Char) : Bool :=
  ['+', '-', '*', '/', '(', ')'].contains c || (c == 'p' && next? == some 'i') ||
    (c == '$' && next?.any isNameStart) || isDigit c || (c == '.' && next?.any isDigit)

theorem numberToken?_isSome (c : Char) (rest : List Char) :
    (numberToken? (c :: rest)).isSome = (isDigit c || (c == '.' && rest.head?.any isDigit)) := by
  by_cases digit : isDigit c = true
  · simp only [numberToken?, List.takeWhile_cons, digit, if_true, Bool.true_or]
    split <;> simp
  · by_cases point : c = '.'
    · subst point
      cases rest with
      | nil => rfl
      | cons d rest =>
          by_cases digit' : isDigit d = true
          · simp [numberToken?, digit', digit]
          · simp [numberToken?, digit', digit]
    · simp [numberToken?, digit, point]

theorem variableToken?_isSome (rest : List Char) :
    (variableToken? ('$' :: rest)).isSome = rest.head?.any isNameStart := by
  cases rest with
  | nil => rfl
  | cons d rest =>
      by_cases start : isNameStart d = true
      · simp [variableToken?, start]
      · simp [variableToken?, start]

theorem longestToken?_isSome (c : Char) (rest : List Char) :
    (longestToken? (c :: rest)).isSome = startsToken c rest.head? := by
  unfold longestToken?
  split
  case h_8 after shape =>
      cases shape
      rw [variableToken?_isSome]
      simp [startsToken, isDigit]
  case h_9 noPi noPlus noMinus noStar noSlash noLeft noRight noVariable =>
      have other : ∀ d, (∀ after, c :: rest = d :: after → False) → c ≠ d :=
        fun d never same => never rest (by rw [same])
      have signs : ['+', '-', '*', '/', '(', ')'].contains c = false := by
        simp [other _ noPlus, other _ noMinus, other _ noStar, other _ noSlash, other _ noLeft,
          other _ noRight]
      have letters : (c == 'p' && rest.head? == some 'i') = false := by
        rw [Bool.and_eq_false_iff, beq_eq_false_iff_ne, beq_eq_false_iff_ne]
        by_contra both
        push Not at both
        obtain ⟨rfl, next⟩ := both
        obtain ⟨after, rfl⟩ := List.head?_eq_some_iff.mp next
        exact noPi after rfl
      have dollar : (c == '$') = false := beq_eq_false_iff_ne.mpr (other _ noVariable)
      simp only [numberToken?_isSome, startsToken, signs, letters, dollar, Bool.false_and,
        Bool.false_or]
  all_goals
    rename_i shape
    cases shape
    rfl

theorem startsToken_edge {c : Char} {cs : List Char} (edge : Edge cs) :
    startsToken c cs.head? = startsToken c none := by
  cases cs with
  | nil => rfl
  | cons d rest =>
      have part := edge.1 d rfl
      have noStart : isNameStart d = false := by
        by_contra start
        rw [nameChar_of_nameStart d (by simpa using start)] at part
        cases part
      have noDigit : isDigit d = false := by
        by_contra digit
        rw [nameChar_of_digit d (by simpa using digit)] at part
        cases part
      have noLetter : (d == 'i') = false := by
        rw [beq_eq_false_iff_ne]
        rintro rfl
        cases part
      simp [startsToken, noStart, noDigit, noLetter]

theorem longestToken?_none_sameEdge {c : Char} {rest rest' : List Char}
    (same : SameEdge rest rest') (none : longestToken? (c :: rest) = none) :
    longestToken? (c :: rest') = .none := by
  rw [← Option.not_isSome_iff_eq_none, longestToken?_isSome] at none ⊢
  rcases same with heads | ⟨edge, edge'⟩
  · rwa [← heads]
  · rwa [startsToken_edge edge', ← startsToken_edge edge]

theorem longestToken?_never {c : Char} (never : ∀ next?, startsToken c next? = false)
    (rest : List Char) : longestToken? (c :: rest) = none := by
  rw [← Option.not_isSome_iff_eq_none, longestToken?_isSome, never, Bool.not_eq_true]

theorem skipped_cases {c : Char} (skipped : isSkipped c = true) :
    c = ' ' ∨ c = '\t' ∨ c = '\r' ∨ c = '\n' := by
  simpa only [isSkipped, Bool.or_eq_true, beq_iff_eq, or_assoc] using skipped

theorem longestToken?_skipped {c : Char} (skipped : isSkipped c = true) (rest : List Char) :
    longestToken? (c :: rest) = none := by
  refine longestToken?_never (fun next? => ?_) rest
  rcases skipped_cases skipped with rfl | rfl | rfl | rfl <;> simp [startsToken, isDigit]

theorem longestToken?_colon (rest : List Char) : longestToken? (':' :: rest) = none :=
  longestToken?_never (by simp [startsToken, isDigit]) rest

theorem longestToken?_bar (rest : List Char) : longestToken? ('|' :: rest) = none :=
  longestToken?_never (by simp [startsToken, isDigit]) rest

theorem not_skipped_of_token {c : Char} {rest : List Char} {read : Token × Nat}
    (found : longestToken? (c :: rest) = some read) : ¬ isSkipped c = true := by
  intro skipped
  rw [longestToken?_skipped skipped] at found
  cases found

theorem edge_skipped {c : Char} (skipped : isSkipped c = true) (rest : List Char) :
    Edge (c :: rest) := by
  rcases skipped_cases skipped with rfl | rfl | rfl | rfl
  all_goals exact edge_cons (by decide) (by decide) rest

theorem tokens?_token {c : Char} {piece rest : List Char} {t : Token}
    (found : longestToken? (c :: (piece ++ rest)) = some (t, piece.length + 1)) :
    tokens? (c :: (piece ++ rest)) = (tokens? rest).map (t :: ·) := by
  rw [tokens?, if_neg (not_skipped_of_token found), found]
  simp

end QCircuit.Expr
