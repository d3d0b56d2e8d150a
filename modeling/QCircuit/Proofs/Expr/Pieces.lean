import QCircuit.Proofs.Expr.Tokens
/-! Pieces of a text.

A text is cut into tokens and characters that start none. What is cut off in front does not depend on
what lies behind the next edge, so a text with an edge inside is cut into the pieces of its parts. -/
namespace QCircuit.Expr
open Text

-- Follows the way in which a text is split into tokens and single characters.
theorem textInduction {P : List Char → Prop} (nil : P [])
    (token : ∀ c piece rest t, longestToken? (c :: (piece ++ rest)) = some (t, piece.length + 1) →
      P rest → P (c :: (piece ++ rest)))
    (stray : ∀ c rest, longestToken? (c :: rest) = none → P rest → P (c :: rest)) (cs : List Char) :
    P cs := by
  induction length : cs.length using Nat.strong_induction_on generalizing cs with
  | _ n ih =>
      cases cs with
      | nil => exact nil
      | cons c rest =>
          cases found : longestToken? (c :: rest) with
          | none =>
              have shorter : rest.length < n := by
                rw [← length, List.length_cons]
                omega
              exact stray c rest found (ih rest.length shorter rest rfl)
          | some read =>
              obtain ⟨t, size⟩ := read
              obtain ⟨piece, after, rfl, rfl⟩ := longestToken?_split found
              have shorter : after.length < n := by
                rw [← length, List.length_cons, List.length_append]
                omega
              exact token c piece after t found (ih after.length shorter after rfl)

-- The same, with the characters that are skipped apart from those that start no token.
theorem pieceInduction {P : List Char → Prop} (nil : P [])
    (skip : ∀ c rest, isSkipped c = true → P rest → P (c :: rest))
    (token : ∀ c piece rest t, longestToken? (c :: (piece ++ rest)) = some (t, piece.length + 1) →
      P rest → P (c :: (piece ++ rest)))
    (stray : ∀ c rest, ¬ isSkipped c = true → longestToken? (c :: rest) = none → P rest →
      P (c :: rest)) (cs : List Char) : P cs := by
  induction cs using textInduction with
  | nil => exact nil
  | token c piece rest t found later => exact token c piece rest t found later
  | stray c rest none later =>
      by_cases skipped : isSkipped c = true
      · exact skip c rest skipped later
      · exact stray c rest skipped none later

/-- What a text is cut into, without the positions. -/
def pieces (cs : List Char) : List Piece := (lexemesFrom 0 cs).map Lexeme.piece

theorem map_piece_lexemesFrom (start start' : Nat) (cs : List Char) :
    (lexemesFrom start cs).map Lexeme.piece = (lexemesFrom start' cs).map Lexeme.piece := by
  induction start, cs using lexemesFrom.induct generalizing start' with
  | case1 start => simp only [lexemesFrom]
  | case2 start c rest skipped ih =>
      simp only [lexemesFrom, skipped, if_true]
      exact ih _
  | case3 start c rest solid t length found =>
      rename_i stop ih
      simp only [lexemesFrom, solid, found, if_false, Bool.false_eq_true, List.map_cons]
      rw [ih]
  | case4 start c rest solid found =>
      rename_i stop ih
      simp only [lexemesFrom, solid, found, if_false, Bool.false_eq_true, List.map_cons]
      rw [ih]

theorem pieces_nil : pieces [] = [] := by
  rw [pieces, lexemesFrom, List.map_nil]

theorem pieces_skip {c : Char} (skipped : isSkipped c = true) (rest : List Char) :
    pieces (c :: rest) = pieces rest := by
  rw [pieces, lexemesFrom, if_pos skipped]
  exact map_piece_lexemesFrom _ _ rest

theorem pieces_stray {c : Char} {rest : List Char} (solid : ¬ isSkipped c = true)
    (none : longestToken? (c :: rest) = none) : pieces (c :: rest) = .stray c :: pieces rest := by
  rw [pieces, lexemesFrom, if_neg solid, none]
  exact congrArg (Piece.stray c :: ·) (map_piece_lexemesFrom _ _ rest)

theorem pieces_token {c : Char} {piece rest : List Char} {t : Token}
    (found : longestToken? (c :: (piece ++ rest)) = some (t, piece.length + 1)) :
    pieces (c :: (piece ++ rest)) = .token t :: pieces rest := by
  rw [pieces, lexemesFrom, if_neg (not_skipped_of_token found), found]
  simp only [Nat.add_sub_cancel, List.drop_left, List.map_cons]
  exact congrArg (Piece.token t :: ·) (map_piece_lexemesFrom _ _ rest)

theorem tokensOf_eq_ok_iff {lexemes : List Lexeme} {ts : List Token} :
    tokensOf lexemes = .ok ts ↔ lexemes.map Lexeme.piece = ts.map Piece.token := by
  induction lexemes generalizing ts with
  | nil => simp [tokensOf, eq_comm]
  | cons lexeme rest ih =>
      obtain ⟨piece, start, stop⟩ := lexeme
      cases piece with
      | token t =>
          simp only [tokensOf, bind_eq_ok, ih, Except.ok.injEq, List.map_cons]
          cases ts with
          | nil => simp
          | cons t' ts => simp [and_comm]
      | stray c =>
          cases ts with
          | nil => simp [tokensOf]
          | cons t' ts => simp [tokensOf]

theorem tokens?_eq_some_iff_pieces {cs : List Char} {ts : List Token} :
    tokens? cs = some ts ↔ pieces cs = ts.map Piece.token := by
  have read : tokensOf (lexemesFrom 0 cs) = .ok ts ↔ tokens? cs = some ts := tokensOf_eq_ok
  rw [← read, tokensOf_eq_ok_iff, pieces]

theorem SameEdge.append {after : List Char} (edge : Edge after) (rest : List Char) :
    SameEdge rest (rest ++ after) := by
  cases rest with
  | nil => exact .inr ⟨edge_nil, edge⟩
  | cons c rest => exact .inl rfl

theorem pieces_append {after : List Char} (edge : Edge after) (before : List Char) :
    pieces (before ++ after) = pieces before ++ pieces after := by
  induction before using pieceInduction with
  | nil => rw [pieces_nil, List.nil_append, List.nil_append]
  | skip c rest skipped ih => rw [List.cons_append, pieces_skip skipped, pieces_skip skipped, ih]
  | token c piece rest t found ih =>
      have same := SameEdge.append edge rest
      rw [List.cons_append, List.append_assoc, pieces_token (longestToken?_sameEdge same found), ih,
        pieces_token found, List.cons_append]
  | stray c rest solid none ih =>
      have none' := longestToken?_none_sameEdge (SameEdge.append edge rest) none
      rw [List.cons_append, pieces_stray solid none', pieces_stray solid none, ih, List.cons_append]

end QCircuit.Expr
