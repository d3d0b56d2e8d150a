import QCircuit.Proofs.Program.Relocation
/-! Lines with the same words.

What is interpreted is decided by the words of lines. Lines with the same words are moved from the
same lines, those that are numbered by position, and so they are interpreted alike. -/
namespace QCircuit

/-- The words of a line, which is the line without its number. -/
def Line.words (line : Line) : List String := line.head :: line.operands

/-- Lines that differ in their numbers only. -/
def SameWords (lines lines' : List Line) : Prop := lines.map Line.words = lines'.map Line.words

namespace SameWords
variable {lines lines' : List Line}

theorem cons {line line' : Line} (sameLine : line.words = line'.words)
    (same : SameWords lines lines') : SameWords (line :: lines) (line' :: lines') := by
  rw [SameWords, List.map_cons, List.map_cons, sameLine, same]

theorem length (same : SameWords lines lines') : lines.length = lines'.length := by
  simpa using congrArg List.length same

end SameWords

/-- The lines, numbered by position from zero. -/
def positions (lines : List Line) : List Line :=
  lines.zipIdx.map fun entry => { entry.1 with number := entry.2 }

/-- The number of the line at a position, and `beyond` behind the last. -/
def numberAt (lines : List Line) (beyond position : Nat) : Nat :=
  (lines.map Line.number).getD position beyond

theorem positions_congr {lines lines' : List Line} (same : SameWords lines lines') :
    positions lines = positions lines' := by
  refine List.ext_getElem (by simp [positions, same.length]) fun i inside inside' => ?_
  simp only [positions, List.length_map, List.length_zipIdx] at inside inside'
  have words : lines[i].words = lines'[i].words := by
    have equal := congrArg (fun words => words[i]?) same
    simpa [inside, inside'] using equal
  rw [Line.words, Line.words, List.cons.injEq] at words
  simp [positions, words]

theorem positions_move (lines : List Line) (beyond : Nat) :
    (positions lines).map (Line.move (numberAt lines beyond)) = lines := by
  refine List.ext_getElem (by simp [positions]) fun i inside inside' => ?_
  simp [positions, Line.move, numberAt, inside']

theorem interpretLines_positions (limit : Nat) (lines : List Line) (beyond : Nat) :
    Carries (numberAt lines beyond) (interpretLines limit .empty (positions lines))
      (interpretLines limit .empty lines) := by
  have carried := @interpretLines_carries (numberAt lines beyond) limit .empty (positions lines)
  rwa [positions_move] at carried

theorem reaches_positions {limit : Nat} {lines : List Line} {last : State} :
    Reaches limit .empty lines last ↔ ∃ st, Reaches limit .empty (positions lines) st ∧
      last = st.move (numberAt lines 0) := by
  have carried := interpretLines_positions limit lines 0
  simp only [← interpretLines_eq_ok]
  rcases placed : interpretLines limit .empty (positions lines) with ⟨st, log, fault | accepted⟩ <;>
    rw [placed] at carried
  · obtain ⟨log', ran⟩ := carried.of_error
    simp [ran]
  · obtain ⟨log', ran⟩ := carried.of_ok
    simp [ran, eq_comm]

theorem accepts_positions {limit : Nat} {lines : List Line} {p : Program} :
    Accepts limit lines p ↔ Accepts limit (positions lines) p := by
  constructor
  · rintro ⟨last, reached, outside, width, gates⟩
    obtain ⟨st, reached', rfl⟩ := reaches_positions.mp reached
    exact ⟨st, reached', Option.map_eq_none_iff.mp outside, width, gates⟩
  · rintro ⟨st, reached, outside, width, gates⟩
    exact ⟨_, reaches_positions.mpr ⟨st, reached, rfl⟩, Option.map_eq_none_iff.mpr outside, width,
      gates⟩

theorem accepts_congr {limit : Nat} {lines lines' : List Line} (same : SameWords lines lines')
    (p : Program) : Accepts limit lines p ↔ Accepts limit lines' p := by
  rw [accepts_positions, positions_congr same, ← accepts_positions]

end QCircuit
