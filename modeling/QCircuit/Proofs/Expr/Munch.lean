import QCircuit.Proofs.Expr.Pieces
/-! Longest tokens.

Each token has a pattern, and a text is cut where the longest piece at its front ends that any of the
patterns matches. The patterns of different tokens have no text in common, so the cuts and the tokens
between them are determined by the text. -/
namespace QCircuit.Expr
open Text

/-- The patterns of the tokens. -/
inductive Matches : List Char → Token → Prop where
  | pi : Matches ['p', 'i'] .pi
  | plus : Matches ['+'] .plus
  | minus : Matches ['-'] .minus
  | star : Matches ['*'] .star
  | slash : Matches ['/'] .slash
  | leftParen : Matches ['('] .leftParen
  | rightParen : Matches [')'] .rightParen
  | whole {digits : List Char} (some : digits ≠ []) (all : ∀ c ∈ digits, isDigit c = true) :
      Matches digits (.number (numberValue digits []))
  | places {digits places : List Char} (some : digits ≠ [] ∨ places ≠ [])
      (all : ∀ c ∈ digits, isDigit c = true) (all' : ∀ c ∈ places, isDigit c = true) :
      Matches (digits ++ '.' :: places) (.number (numberValue digits places))
  | var {first : Char} {name : List Char} (start : isNameStart first = true)
      (all : ∀ c ∈ name, isNameChar c = true) :
      Matches ('$' :: first :: name) (.var (String.ofList ('$' :: first :: name)))

/-- A piece at the front of a text is a token, and no longer piece is one. -/
structure Longest (piece : List Char) (t : Token) (rest : List Char) : Prop where
  fits : Matches piece t
  greedy : ∀ longer after t', piece ++ rest = longer ++ after → Matches longer t' →
    longer.length ≤ piece.length

/-- The text is cut into longest tokens, with spaces and line ends between them. -/
inductive Munches : List Char → List Token → Prop where
  | done : Munches [] []
  | skip {c : Char} {rest : List Char} {ts : List Token} (skipped : isSkipped c = true)
      (later : Munches rest ts) : Munches (c :: rest) ts
  | token {piece rest : List Char} {t : Token} {ts : List Token} (longest : Longest piece t rest)
      (later : Munches rest ts) : Munches (piece ++ rest) (t :: ts)

theorem ReadsNumber.fits {piece rest : List Char} {t : Token} (reads : ReadsNumber piece t rest) :
    Matches piece t := by
  cases reads with
  | whole all some => exact .whole some all
  | places all all' some => exact .places some all all'

theorem longestToken?_fits {cs : List Char} {t : Token} {length : Nat}
    (found : longestToken? cs = some (t, length)) :
    ∃ piece rest, cs = piece ++ rest ∧ length = piece.length ∧ Matches piece t := by
  unfold longestToken? at found
  split at found
  case h_1 rest =>
      cases found
      exact ⟨['p', 'i'], rest, rfl, rfl, .pi⟩
  case h_2 rest =>
      cases found
      exact ⟨['+'], rest, rfl, rfl, .plus⟩
  case h_3 rest =>
      cases found
      exact ⟨['-'], rest, rfl, rfl, .minus⟩
  case h_4 rest =>
      cases found
      exact ⟨['*'], rest, rfl, rfl, .star⟩
  case h_5 rest =>
      cases found
      exact ⟨['/'], rest, rfl, rfl, .slash⟩
  case h_6 rest =>
      cases found
      exact ⟨['('], rest, rfl, rfl, .leftParen⟩
  case h_7 rest =>
      cases found
      exact ⟨[')'], rest, rfl, rfl, .rightParen⟩
  case h_8 =>
      obtain ⟨first, name, rest, whole, rfl, start, all, -, rfl⟩ :=
        variableToken?_eq_some_iff.mp found
      exact ⟨'$' :: first :: name, rest, whole, rfl, .var start all⟩
  case h_9 =>
      obtain ⟨piece, rest, whole, length, reads⟩ := numberToken?_eq_some_iff.mp found
      exact ⟨piece, rest, whole, length, reads.fits⟩

theorem numberToken?_whole {digits : List Char} (some : digits ≠ [])
    (all : ∀ c ∈ digits, isDigit c = true) (rest : List Char) :
    ∃ t length, numberToken? (digits ++ rest) = .some (t, length) ∧ digits.length ≤ length := by
  unfold numberToken?
  rw [List.takeWhile_append_of_pos all]
  have present : digits ++ rest.takeWhile isDigit ≠ [] := List.append_ne_nil_of_left_ne_nil some _
  split
  · refine ⟨_, _, if_neg (fun none => present none.1), ?_⟩
    rw [List.length_append]
    omega
  · refine ⟨_, _, if_neg present, ?_⟩
    rw [List.length_append]
    omega

theorem numberToken?_places {digits places : List Char} (some : digits ≠ [] ∨ places ≠ [])
    (all : ∀ c ∈ digits, isDigit c = true) (all' : ∀ c ∈ places, isDigit c = true)
    (rest : List Char) :
    ∃ t length, numberToken? (digits ++ '.' :: places ++ rest) = .some (t, length) ∧
      (digits ++ '.' :: places).length ≤ length := by
  have point : StopsAt isDigit ('.' :: (places ++ rest)) := by
    intro c first
    cases first
    rfl
  have present : ¬ (digits = [] ∧ (places ++ rest).takeWhile isDigit = []) := by
    rintro ⟨none, none'⟩
    rw [List.takeWhile_append_of_pos all', List.append_eq_nil_iff] at none'
    exact some.elim (· none) (· none'.1)
  unfold numberToken?
  rw [List.append_assoc, List.cons_append, dropWhile_of_stops all point, takeWhile_of_stops all point]
  refine ⟨_, _, if_neg present, ?_⟩
  simp only [List.takeWhile_append_of_pos all', List.length_append, List.length_cons]
  omega

/-- Where a pattern matches, a token is found that is at least as long. -/
theorem Matches.found {piece : List Char} {t : Token} (fits : Matches piece t) (rest : List Char) :
    ∃ t' length, longestToken? (piece ++ rest) = some (t', length) ∧ piece.length ≤ length := by
  cases fits with
  | pi => exact ⟨_, _, rfl, le_rfl⟩
  | plus => exact ⟨_, _, rfl, le_rfl⟩
  | minus => exact ⟨_, _, rfl, le_rfl⟩
  | star => exact ⟨_, _, rfl, le_rfl⟩
  | slash => exact ⟨_, _, rfl, le_rfl⟩
  | leftParen => exact ⟨_, _, rfl, le_rfl⟩
  | rightParen => exact ⟨_, _, rfl, le_rfl⟩
  | whole some all =>
      cases piece with
      | nil => exact absurd rfl some
      | cons c digits =>
          rw [List.cons_append, longestToken?_of_numeric (.inl (all c List.mem_cons_self)),
            ← List.cons_append]
          exact numberToken?_whole some all rest
  | @places digits places some all all' =>
      have numeric : longestToken? (digits ++ '.' :: places ++ rest) =
          numberToken? (digits ++ '.' :: places ++ rest) := by
        cases digits with
        | nil => exact longestToken?_of_numeric (.inr rfl)
        | cons c digits => exact longestToken?_of_numeric (.inl (all c List.mem_cons_self))
      rw [numeric]
      exact numberToken?_places some all all' rest
  | @var first name start all =>
      have named : longestToken? ('$' :: first :: name ++ rest) =
          variableToken? ('$' :: first :: (name ++ rest)) := rfl
      refine ⟨_, _, named.trans (if_pos start), ?_⟩
      simp only [List.takeWhile_append_of_pos all, List.length_cons, List.length_append]
      omega

theorem Matches.whole_text {piece : List Char} {t : Token} (fits : Matches piece t) :
    longestToken? piece = some (t, piece.length) := by
  cases fits with
  | whole some all =>
      exact longestToken?_of_reads (.whole all some (edge_nil.stopsAt nameChar_of_digit) edge_nil.2)
  | places some all all' =>
      exact longestToken?_of_reads (.places all all' some (edge_nil.stopsAt nameChar_of_digit))
  | var start all =>
      have alone := variableToken?_eq_some_iff.mpr
        ⟨_, _, [], rfl, rfl, start, all, edge_nil.1, rfl⟩
      rwa [List.append_nil] at alone
  | _ => rfl

theorem Matches.unique {piece : List Char} {t t' : Token} (fits : Matches piece t)
    (fits' : Matches piece t') : t = t' := by
  have same := fits.whole_text.symm.trans fits'.whole_text
  rw [Option.some.injEq, Prod.mk.injEq] at same
  exact same.1

theorem longestToken?_eq_some_iff {cs : List Char} {t : Token} {length : Nat} :
    longestToken? cs = some (t, length) ↔
      ∃ piece rest, cs = piece ++ rest ∧ length = piece.length ∧ Longest piece t rest := by
  constructor
  · intro found
    obtain ⟨piece, rest, rfl, rfl, fits⟩ := longestToken?_fits found
    refine ⟨piece, rest, rfl, rfl, fits, ?_⟩
    intro longer after t' same fits'
    obtain ⟨t'', length, found', bound⟩ := fits'.found after
    rw [← same, found, Option.some.injEq, Prod.mk.injEq] at found'
    rwa [found'.2]
  · rintro ⟨piece, rest, rfl, rfl, longest⟩
    obtain ⟨t', length, found, bound⟩ := longest.fits.found rest
    obtain ⟨piece', rest', same, rfl, fits'⟩ := longestToken?_fits found
    have size := longest.greedy piece' rest' t' same fits'
    obtain ⟨rfl, rfl⟩ := List.append_inj same (by omega)
    rw [found, longest.fits.unique fits']

theorem longestToken?_of_longest {piece rest : List Char} {t : Token}
    (longest : Longest piece t rest) : longestToken? (piece ++ rest) = some (t, piece.length) :=
  longestToken?_eq_some_iff.mpr ⟨piece, rest, rfl, rfl, longest⟩

theorem longestToken?_eq_none_iff {cs : List Char} :
    longestToken? cs = none ↔ ∀ piece t rest, cs = piece ++ rest → ¬ Matches piece t := by
  constructor
  · rintro none piece t rest rfl fits
    obtain ⟨t', length, found, -⟩ := fits.found rest
    rw [none] at found
    cases found
  · intro never
    cases found : longestToken? cs with
    | none => rfl
    | some read =>
        obtain ⟨t, length⟩ := read
        obtain ⟨piece, rest, whole, -, fits⟩ := longestToken?_fits found
        exact absurd fits (never piece t rest whole)

theorem longest_of_longestToken? {piece rest : List Char} {t : Token}
    (found : longestToken? (piece ++ rest) = some (t, piece.length)) : Longest piece t rest := by
  obtain ⟨piece', rest', whole, length, longest⟩ := longestToken?_eq_some_iff.mp found
  obtain ⟨rfl, rfl⟩ := List.append_inj whole length
  exact longest

theorem Matches.ne_nil {piece : List Char} {t : Token} (fits : Matches piece t) : piece ≠ [] := by
  rintro rfl
  cases fits.whole_text

theorem munches_of_tokens? {cs : List Char} {ts : List Token} (read : tokens? cs = some ts) :
    Munches cs ts := by
  induction cs using tokens?.induct generalizing ts with
  | case1 =>
      rw [tokens?, Option.some.injEq] at read
      subst read
      exact .done
  | case2 c rest skipped ih =>
      rw [tokens?, if_pos skipped] at read
      exact .skip skipped (ih read)
  | case3 c rest solid t length found ih =>
      rw [tokens?, if_neg solid, found] at read
      obtain ⟨ts, later, rfl⟩ := Option.map_eq_some_iff.mp read
      obtain ⟨piece, after, whole, rfl, longest⟩ := longestToken?_eq_some_iff.mp found
      obtain ⟨d, piece, rfl⟩ := List.exists_cons_of_ne_nil longest.fits.ne_nil
      rw [List.cons_append, List.cons.injEq] at whole
      obtain ⟨rfl, rfl⟩ := whole
      rw [List.length_cons, Nat.add_sub_cancel, List.drop_left] at ih later
      exact .token longest (ih later)
  | case4 c rest solid found =>
      rw [tokens?, if_neg solid, found] at read
      cases read

theorem tokens?_of_munches {cs : List Char} {ts : List Token} (munches : Munches cs ts) :
    tokens? cs = some ts := by
  induction munches with
  | done => rw [tokens?]
  | skip skipped _ ih => rw [tokens?, if_pos skipped, ih]
  | @token piece rest t ts longest _ ih =>
      have found := longestToken?_of_longest longest
      obtain ⟨c, piece, rfl⟩ := List.exists_cons_of_ne_nil longest.fits.ne_nil
      rw [List.cons_append] at found ⊢
      rw [tokens?_token found, ih, Option.map_some]

theorem tokens?_eq_some_iff {cs : List Char} {ts : List Token} :
    tokens? cs = some ts ↔ Munches cs ts := ⟨munches_of_tokens?, tokens?_of_munches⟩

theorem byteSize_append (front back : List Char) :
    byteSize (front ++ back) = byteSize front + byteSize back := by
  induction front with
  | nil => rw [List.nil_append, byteSize, Nat.zero_add]
  | cons c front ih => rw [List.cons_append, byteSize, byteSize, ih, Nat.add_assoc]

theorem lexemesFrom_skip {c : Char} (skipped : isSkipped c = true) (start : Nat)
    (rest : List Char) : lexemesFrom start (c :: rest) = lexemesFrom (start + c.utf8Size) rest := by
  rw [lexemesFrom, if_pos skipped]

theorem lexemesFrom_longest {piece rest : List Char} {t : Token} (longest : Longest piece t rest)
    (start : Nat) : lexemesFrom start (piece ++ rest) =
      ⟨.token t, start, start + byteSize piece⟩ :: lexemesFrom (start + byteSize piece) rest := by
  have found := longestToken?_of_longest longest
  obtain ⟨c, piece, rfl⟩ := List.exists_cons_of_ne_nil longest.fits.ne_nil
  rw [List.cons_append] at found ⊢
  rw [lexemesFrom, if_neg (not_skipped_of_token found), found]
  simp only [List.length_cons, Nat.add_sub_cancel, List.take_left, List.drop_left]

theorem lexemesFrom_stray {c : Char} {rest : List Char} (solid : isSkipped c = false)
    (none : longestToken? (c :: rest) = none) (start : Nat) : lexemesFrom start (c :: rest) =
      ⟨.stray c, start, start + c.utf8Size⟩ :: lexemesFrom (start + c.utf8Size) rest := by
  rw [lexemesFrom, solid, none]
  rfl

end QCircuit.Expr
