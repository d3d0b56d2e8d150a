import QCircuit.Program.Interpreter
import QCircuit.Proofs.Expr.Evaluation
import QCircuit.Proofs.Expr.Joining
import QCircuit.Proofs.Program.Rewriting
/-! Headers as they are written.

The words of a header are joined before the bounds are read, and what ends one word can run together
with what begins the next. Where no words run together, the bounds are the values of the two sides of
the colon as they are written. Where some do, the header that is written has no bounds, and yet the
line may be accepted. -/
namespace QCircuit
open Text QCircuit.Expr

/-- No words run together: joined, they are cut into the pieces of the single words. -/
def Separate (words : List String) : Prop :=
  pieces (words.flatMap String.toList) = words.flatMap fun word => pieces word.toList

/-- The text is a range, and these are the values of its two sides. -/
def Ranges (env : Environment) (text : List Char) (start stop : Int) : Prop :=
  ∃ low high, splitAtColon text = some (low, high) ∧ NamesBound env low start ∧
    NamesBound env high stop

/-- The words of a line are the header of a loop when they are written with a space between each
two. -/
structure HeadsAsWritten (env : Environment) (operands : List String) (header : LoopHeader) :
    Prop where
  counter : ∃ words, operands = header.counter :: words ∧
    Ranges env (spaced (words.map String.toList)) header.start header.stop
  named : Expr.isVariable header.counter = true

theorem heads_iff {env : Environment} {operands : List String} {header : LoopHeader} :
    Heads env operands header ↔ Expr.isVariable header.counter = true ∧
      ∃ words, operands = header.counter :: words ∧
        Ranges env (words.flatMap String.toList) header.start header.stop :=
  ⟨fun heads => ⟨heads.named, heads.counter⟩, fun ⟨named, counter⟩ => ⟨counter, named⟩⟩

/-! ### Bounds and pieces -/

theorem NamesBound.phrase {env : Environment} {text : List Char} {bound : Int}
    (named : NamesBound env text bound) :
    ∃ ts e, pieces text = ts.map Piece.token ∧ Derives .sum ts e := by
  obtain ⟨value, n, evaluated, -⟩ := named
  obtain ⟨e, parsed, -⟩ := evaluate_eq_ok.mp evaluated
  obtain ⟨ts, cut, read⟩ := parse_eq_ok.mp parsed
  rw [String.toList_ofList] at cut
  exact ⟨ts, e, tokens?_eq_some_iff_pieces.mp cut, ofTokens_eq_ok_iff.mp read⟩

theorem NamesBound.congr {env : Environment} {text text' : List Char} {bound : Int}
    (same : pieces text = pieces text') (named : NamesBound env text bound) :
    NamesBound env text' bound := by
  obtain ⟨value, n, evaluated, whole, clamped⟩ := named
  refine ⟨value, n, ?_, whole, clamped⟩
  simp only [evaluate_eq_ok, parse_eq_ok, String.toList_ofList, tokens?_eq_some_iff_pieces] at evaluated ⊢
  rwa [← same]

-- The front of a list up to the first place of an element.
theorem append_cons_inj_left {α : Type} {a : α} {xs xs' ys ys' : List α} (absent : a ∉ xs)
    (absent' : a ∉ xs') (same : xs ++ a :: ys = xs' ++ a :: ys') : xs = xs' ∧ ys = ys' := by
  induction xs generalizing xs' with
  | nil =>
      cases xs' with
      | nil => exact ⟨rfl, (List.cons.inj same).2⟩
      | cons x' xs' => exact absurd ((List.cons.inj same).1 ▸ List.mem_cons_self) absent'
  | cons x xs ih =>
      cases xs' with
      | nil => exact absurd ((List.cons.inj same).1 ▸ List.mem_cons_self) absent
      | cons x' xs' =>
          obtain ⟨rfl, rest⟩ := List.cons.inj same
          rw [List.mem_cons, not_or] at absent absent'
          obtain ⟨rfl, rfl⟩ := ih absent.2 absent'.2 rest
          exact ⟨rfl, rfl⟩

theorem Ranges.congr {env : Environment} {text text' : List Char} {start stop : Int}
    (same : pieces text = pieces text') (ranges : Ranges env text start stop) :
    Ranges env text' start stop := by
  obtain ⟨low, high, split, lower, upper⟩ := ranges
  obtain ⟨rfl, absent⟩ := splitAtColon_eq_some_iff.mp split
  rw [pieces_colon] at same
  have colon : ':' ∈ text' := by
    refine mem_of_stray ?_
    rw [← same]
    exact List.mem_append_right _ List.mem_cons_self
  obtain ⟨low', high', rfl, absent'⟩ := List.eq_append_cons_of_mem colon
  rw [pieces_colon] at same
  obtain ⟨sameLow, sameHigh⟩ := append_cons_inj_left (fun stray => absent (mem_of_stray stray))
    (fun stray => absent' (mem_of_stray stray)) same
  exact ⟨low', high', splitAtColon_eq_some_iff.mpr ⟨rfl, absent'⟩, lower.congr sameLow,
    upper.congr sameHigh⟩

theorem Ranges.joinable {env : Environment} {text : List Char} {start stop : Int}
    (ranges : Ranges env text start stop) : Joinable (pieces text) := by
  obtain ⟨low, high, split, lower, upper⟩ := ranges
  obtain ⟨rfl, -⟩ := splitAtColon_eq_some_iff.mp split
  obtain ⟨ts, e, cut, derived⟩ := lower.phrase
  obtain ⟨ts', e', cut', derived'⟩ := upper.phrase
  rw [pieces_colon, cut, cut']
  exact derived.joinable.around_colon derived'.joinable

/-! ### Joined and spaced words -/

theorem pieces_spaced_words (words : List String) :
    pieces (spaced (words.map String.toList)) = words.flatMap fun word => pieces word.toList := by
  rw [pieces_spaced, List.flatMap_map]

theorem Ranges.separate {env : Environment} {words : List String} {start stop : Int}
    (ranges : Ranges env (spaced (words.map String.toList)) start stop) : Separate words := by
  have joinable := ranges.joinable
  rw [pieces_spaced] at joinable
  have joined := joinable.pieces_flatten
  rwa [List.flatMap_map, ← List.flatMap_def] at joined

theorem ranges_spaced_iff {env : Environment} {words : List String} {start stop : Int} :
    Ranges env (spaced (words.map String.toList)) start stop ↔
      Ranges env (words.flatMap String.toList) start stop ∧ Separate words := by
  constructor
  · intro ranges
    have separate := ranges.separate
    exact ⟨ranges.congr ((pieces_spaced_words words).trans separate.symm), separate⟩
  · rintro ⟨ranges, separate⟩
    exact ranges.congr (separate.trans (pieces_spaced_words words).symm)

theorem headsAsWritten_iff {env : Environment} {operands : List String} {header : LoopHeader} :
    HeadsAsWritten env operands header ↔ Heads env operands header ∧ Separate operands.tail := by
  rw [heads_iff]
  constructor
  · rintro ⟨⟨words, rfl, ranges⟩, named⟩
    obtain ⟨ranges, separate⟩ := ranges_spaced_iff.mp ranges
    exact ⟨⟨named, words, rfl, ranges⟩, separate⟩
  · rintro ⟨⟨named, words, rfl, ranges⟩, separate⟩
    exact ⟨⟨words, rfl, ranges_spaced_iff.mpr ⟨ranges, separate⟩⟩, named⟩

/-- A line opens the loop that is written on it if and only if it opens this loop and no words of its
range run together. -/
theorem openLoop_as_written_iff {env : Environment} {line : Line} {rest : List Line} {loop : Loop} :
    HeadsAsWritten env line.operands loop.header ∧ Closes rest loop.body loop.after ↔
      openLoop env line rest = .ok loop ∧ Separate line.operands.tail := by
  rw [headsAsWritten_iff, openLoop_eq_ok]
  exact and_right_comm

-- The words `1:1` and `2` run together to the range from 1 to 12, which nobody wrote.
theorem openLoop_runs_words_together :
    let line : Line := ⟨2, "for", ["$i", "1:1", "2"]⟩
    let body : List Line := [⟨3, "X", ["1"]⟩]
    openLoop Environment.empty line (body ++ [⟨4, "endfor", []⟩]) = .ok ⟨⟨"$i", 1, 12⟩, body, []⟩ ∧
      (∀ header, ¬ HeadsAsWritten Environment.empty line.operands header) ∧
      ((interpret ⟨3⟩ "init 3\nfor $i 1:1 2\nX 1\nendfor").result.toOption.map fun p =>
        p.gates.length) = some 12 := by
  intro line body
  refine ⟨openLoop_eq_ok.mpr
    ⟨readHeader_eq_ok.mp (by decide +kernel), ⟨4, "endfor", []⟩, by decide +kernel, rfl⟩, ?_, ?_⟩
  · rintro header ⟨⟨words, whole, low, high, split, -, value, n, evaluated, -⟩, -⟩
    obtain ⟨-, rfl⟩ := List.cons.inj whole
    obtain ⟨rfl, rfl⟩ : ['1'] = low ∧ ['1', ' ', '2'] = high := by
      simpa [spaced, splitAtColon] using split
    have refused : (evaluate (String.ofList ['1', ' ', '2']) Environment.empty).toOption = none := by
      decide +kernel
    rw [evaluated] at refused
    cases refused
  · decide +kernel

end QCircuit
