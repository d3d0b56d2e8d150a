import QCircuit.Proofs.Expr.Grammar
import QCircuit.Proofs.Text.Layout
import Mathlib.Data.List.Chain
/-! Texts that are joined.

Two texts may run together where the first ends in an operand and the second begins with one: the
letters and digits of both can become one token. No phrase has two operands next to each other, so the
parts of a phrase are cut into the same tokens with spaces between them and without. -/
namespace QCircuit.Expr
open Text

/-- Numbers, `pi` and variables, the tokens that are written in letters and digits. -/
def Piece.isOperand : Piece → Bool
  | .token (.number _) | .token .pi | .token (.var _) => true
  | _ => false

/-- At most one of two neighbours is an operand. -/
def Apart (p q : Piece) : Prop := p.isOperand = false ∨ q.isOperand = false

/-- The pieces are sides of a range: no two operands are next to each other, and colons are the only
characters that start no token. -/
structure Joinable (ps : List Piece) : Prop where
  apart : ps.IsChain Apart
  colons : ∀ c, .stray c ∈ ps → c = ':'

theorem Joinable.tail {p : Piece} {ps : List Piece} (joinable : Joinable (p :: ps)) : Joinable ps :=
  ⟨joinable.apart.tail, fun c stray => joinable.colons c (List.mem_cons_of_mem p stray)⟩

theorem Joinable.right {ps qs : List Piece} (joinable : Joinable (ps ++ qs)) : Joinable qs :=
  ⟨joinable.apart.right_of_append, fun c stray => joinable.colons c (List.mem_append_right ps stray)⟩

-- A piece that is no operand may stand between any others.
theorem isChain_around {p : Piece} (other : p.isOperand = false) {ps qs : List Piece}
    (before : ps.IsChain Apart) (after : qs.IsChain Apart) : (ps ++ p :: qs).IsChain Apart := by
  refine before.append (after.cons fun q _ => .inl other) fun q _ r first => ?_
  cases first
  exact .inr other

theorem Joinable.around_colon {ps qs : List Piece} (before : Joinable ps) (after : Joinable qs) :
    Joinable (ps ++ .stray ':' :: qs) := by
  refine ⟨isChain_around rfl before.apart after.apart, fun c stray => ?_⟩
  rcases List.mem_append.mp stray with first | second
  · exact before.colons c first
  · rcases List.mem_cons.mp second with same | later
    · cases same
      rfl
    · exact after.colons c later

theorem Derives.isChain {phrase : Phrase} {ts : List Token} {e : Expr}
    (derived : Derives phrase ts e) : (ts.map Piece.token).IsChain Apart := by
  induction derived with
  | product _ ih | signed _ ih => exact ih
  | add _ _ first second | subtract _ _ first second | multiply _ _ first second
  | divide _ _ first second =>
      rw [List.map_append, List.map_cons]
      exact isChain_around rfl first second
  | negative _ ih | positive _ ih => exact isChain_around rfl .nil ih
  | number value => exact .singleton _
  | pi => exact .singleton _
  | var name => exact .singleton _
  | group _ ih =>
      rw [List.map_cons, List.map_append]
      exact isChain_around rfl .nil (isChain_around rfl ih .nil)

theorem Derives.joinable {phrase : Phrase} {ts : List Token} {e : Expr}
    (derived : Derives phrase ts e) : Joinable (ts.map Piece.token) := by
  refine ⟨derived.isChain, fun c stray => ?_⟩
  obtain ⟨t, -, same⟩ := List.mem_map.mp stray
  cases same

-- The other tokens are single characters that belong to no operand. They are read in front of any
-- text.
theorem longestToken?_symbol {c : Char} {piece rest : List Char} {t : Token}
    (found : longestToken? (c :: (piece ++ rest)) = some (t, piece.length + 1))
    (symbol : (Piece.token t).isOperand = false) :
    piece = [] ∧ ∀ after, Edge (c :: after) ∧ longestToken? (c :: after) = some (t, 1) := by
  obtain ⟨whole, behind, same, size, fits⟩ := longestToken?_fits found
  rw [← List.cons_append] at same
  obtain ⟨rfl, rfl⟩ := List.append_inj same (by rw [← size, List.length_cons])
  generalize token : c :: piece = text at fits
  cases fits with
  | plus | minus | star | slash | leftParen | rightParen =>
      cases token
      exact ⟨rfl, fun after => ⟨edge_cons (by decide) (by decide) after, rfl⟩⟩
  | _ => cases symbol

-- What can be a part of the token in front of it begins with an operand.
theorem pieces_operand {cs : List Char} (open' : ¬ Edge cs)
    (colons : ∀ c, .stray c ∈ pieces cs → c = ':') :
    ∃ p ps, pieces cs = p :: ps ∧ p.isOperand = true := by
  induction cs using pieceInduction with
  | nil => exact absurd edge_nil open'
  | skip c rest skipped _ => exact absurd (edge_skipped skipped rest) open'
  | token c piece rest t found _ =>
      refine ⟨.token t, pieces rest, pieces_token found, ?_⟩
      by_contra symbol
      rw [Bool.not_eq_true] at symbol
      exact open' ((longestToken?_symbol found symbol).2 _).1
  | stray c rest solid none _ =>
      rw [pieces_stray solid none] at colons
      obtain rfl := colons c List.mem_cons_self
      exact absurd (edge_cons (by decide) (by decide) rest) open'

/-- Texts with joinable pieces are cut into the same pieces when the one stands right behind the
other. -/
theorem Joinable.pieces_append {u v : List Char} (joinable : Joinable (pieces u ++ pieces v)) :
    pieces (u ++ v) = pieces u ++ pieces v := by
  by_cases edge : Edge v
  · exact Expr.pieces_append edge u
  obtain ⟨p, ps, first, operand⟩ := pieces_operand edge joinable.right.colons
  induction u using pieceInduction with
  | nil => rw [pieces_nil, List.nil_append, List.nil_append]
  | skip c rest skipped ih =>
      rw [pieces_skip skipped] at joinable
      rw [pieces_skip skipped, List.cons_append, pieces_skip skipped, ih joinable]
  | token c piece rest t found ih =>
      rw [pieces_token found, List.cons_append] at joinable
      have later := ih joinable.tail
      rw [pieces_token found, List.cons_append, List.cons_append, ← later, List.append_assoc]
      refine pieces_token ?_
      cases rest with
      | nil =>
          -- The last token of the text, in front of an operand.
          rw [pieces_nil, List.nil_append, first] at joinable
          have neighbours : Apart (.token t) p := (List.isChain_cons_cons.mp joinable.apart).1
          have symbol := neighbours.resolve_right (by simp [operand])
          obtain ⟨rfl, alone⟩ := longestToken?_symbol found symbol
          exact (alone _).2
      | cons d rest =>
          have same : SameEdge (d :: rest) (d :: rest ++ v) := .inl rfl
          exact longestToken?_sameEdge same found
  | stray c rest solid none ih =>
      rw [pieces_stray solid none, List.cons_append] at joinable
      have later := ih joinable.tail
      obtain rfl := joinable.colons c List.mem_cons_self
      rw [pieces_stray solid none, List.cons_append, List.cons_append, ← later,
        pieces_stray solid (longestToken?_colon _)]

theorem Joinable.pieces_flatten {ws : List (List Char)} (joinable : Joinable (ws.flatMap pieces)) :
    pieces ws.flatten = ws.flatMap pieces := by
  induction ws with
  | nil => exact pieces_nil
  | cons word rest ih =>
      rw [List.flatMap_cons] at joinable
      have later := ih joinable.right
      rw [← later] at joinable
      rw [List.flatten_cons, List.flatMap_cons, joinable.pieces_append, later]

theorem pieces_spaced (ws : List (List Char)) : pieces (spaced ws) = ws.flatMap pieces := by
  fun_induction spaced ws with
  | case1 => exact pieces_nil
  | case2 word => exact (List.append_nil _).symm
  | case3 word rest _ ih =>
      rw [pieces_append (edge_skipped rfl _), pieces_skip rfl, ih, List.flatMap_cons]

theorem pieces_colon (before after : List Char) :
    pieces (before ++ ':' :: after) = pieces before ++ .stray ':' :: pieces after := by
  have edge : Edge (':' :: after) := edge_cons (by decide) (by decide) after
  rw [pieces_append edge, pieces_stray (by decide) (longestToken?_colon after)]

theorem mem_of_stray {c : Char} {cs : List Char} (stray : .stray c ∈ pieces cs) : c ∈ cs := by
  induction cs using pieceInduction with
  | nil =>
      rw [pieces_nil] at stray
      cases stray
  | skip d rest skipped ih =>
      rw [pieces_skip skipped] at stray
      exact List.mem_cons_of_mem d (ih stray)
  | token d piece rest t found ih =>
      rw [pieces_token found, List.mem_cons] at stray
      have later := ih (stray.resolve_left Piece.noConfusion)
      exact List.mem_cons_of_mem d (List.mem_append_right piece later)
  | stray d rest solid none ih =>
      rw [pieces_stray solid none, List.mem_cons, Piece.stray.injEq] at stray
      rcases stray with rfl | later
      · exact List.mem_cons_self
      · exact List.mem_cons_of_mem d (ih later)

end QCircuit.Expr
