import QCircuit.Proofs.Program.Renumbering
import QCircuit.Proofs.Text.Layout
/-! Free layout.

Blank lines, comments, indentation, the spacing between words and the marks at the ends of lines
have no meaning. Two texts whose other lines have the same words write the same program, or are
refused for the same cause on lines that stand at the same place among those. -/
namespace QCircuit
open Text

/-- The lines that are neither blank nor a comment, each with its number and its words. -/
def significantLines (text : String) : List (Nat × List (List Char)) :=
  ((lines text.toList).zipIdx 1).filterMap fun (line, number) =>
    if isSkippable (trim line) then none else some (number, words (trim line))

theorem startsComment_takeWhile (cs : List Char) :
    startsComment (cs.takeWhile (!isBlank ·)) = startsComment cs :=
  isPrefixOf_takeWhile (List.all_eq_true.mp rfl) cs

theorem ofWords?_trim (number : Nat) (raw : List Char) :
    ((Line.ofWords? number (words raw)).map fun line =>
      (line.number, line.words.map String.toList)) =
      if isSkippable (trim raw) then none else some (number, words (trim raw)) := by
  rw [← words_trim]
  have stops := trim_stops raw
  cases text : trim raw with
  | nil => simp [words_nil, Line.ofWords?, isSkippable]
  | cons c rest =>
      rw [text] at stops
      have solid : isBlank c = false := stops c rfl
      have comment := startsComment_takeWhile (c :: rest)
      rw [List.takeWhile_cons_of_pos (by simp [solid])] at comment
      rw [words_cons, if_neg (by simp [solid]), Line.ofWords?, comment]
      cases marked : startsComment (c :: rest) with
      | true => simp [isSkippable, marked]
      | false => simp [isSkippable, marked, Line.words, Function.comp_def]

theorem significantLines_eq (text : String) : significantLines text =
    (Source.ofText text).lines.map fun line => (line.number, line.words.map String.toList) := by
  rw [Source.ofText, List.map_filterMap]
  exact List.filterMap_congr fun entry _ => (ofWords?_trim entry.2 entry.1).symm

theorem getElem?_significantLines {text : String} {i : Nat} {line : Line}
    (found : (Source.ofText text).lines[i]? = some line) :
    (significantLines text)[i]? = some (line.number, line.words.map String.toList) := by
  rw [significantLines_eq, List.getElem?_map, found, Option.map_some]

/-- A circuit has not been initialised when the lines end outside definitions. -/
def NeverInitialised (limit : Nat) (lines : List Line) : Prop :=
  ∃ last, Reaches limit State.empty lines last ∧ last.open? = none ∧ last.width? = none

theorem NeverInitialised.refused {config : Config} {lines : List Line}
    (never : NeverInitialised config.qubitLimit lines) (lineCount : Nat) :
    (interpretSource config ⟨lineCount, lines⟩).result =
      .error ⟨max lineCount 1, .neverInitialised⟩ := by
  obtain ⟨last, reached, outside, width⟩ := never
  obtain ⟨log, ran⟩ := interpretLines_eq_ok.mpr reached
  simp only [interpretSource, ran, Logged.result_bind, finishProgram, outside, width]
  rfl

theorem neverInitialised_positions {limit : Nat} {lines : List Line} :
    NeverInitialised limit lines ↔ NeverInitialised limit (positions lines) := by
  constructor
  · rintro ⟨last, reached, outside, width⟩
    obtain ⟨st, reached', rfl⟩ := reaches_positions.mp reached
    exact ⟨st, reached', Option.map_eq_none_iff.mp outside, width⟩
  · rintro ⟨st, reached, outside, width⟩
    exact ⟨_, reaches_positions.mpr ⟨st, reached, rfl⟩, Option.map_eq_none_iff.mpr outside, width⟩

theorem interpretSource_positions {config : Config} {lines : List Line}
    (started : ¬ NeverInitialised config.qubitLimit (positions lines)) (lineCount beyond : Nat) :
    Moves (numberAt lines beyond) id (interpretSource config ⟨0, positions lines⟩).result
      (interpretSource config ⟨lineCount, lines⟩).result := by
  have carried := interpretLines_positions config.qubitLimit lines beyond
  unfold interpretSource
  rcases ran : interpretLines config.qubitLimit .empty (positions lines) with ⟨st, log, fault | u⟩
  · rw [ran] at carried
    obtain ⟨log', ran'⟩ := carried.of_error
    rw [ran']
    exact rfl
  · rw [ran] at carried
    obtain ⟨log', ran'⟩ := carried.of_ok
    rw [ran']
    cases inside : st.open? with
    | some d =>
        have inside' : (st.move (numberAt lines beyond)).open? =
            some (d.move (numberAt lines beyond)) := State.move_open_some inside
        simp only [Logged.result_bind, finishProgram, inside, inside']
        exact rfl
    | none =>
        cases width : st.width? with
        | none => exact absurd ⟨st, interpretLines_eq_ok.mp ⟨log, ran⟩, inside, width⟩ started
        | some n =>
            have inside' : (st.move (numberAt lines beyond)).open? = none :=
              State.move_open_none inside
            have width' : (st.move (numberAt lines beyond)).width? = some n := width
            simp only [Logged.result_bind, finishProgram, inside, inside', width, width']
            exact rfl

/-- How the results of two texts agree. Refused lines stand at the same place among the lines that
count, except that a circuit that is missing is missed on the last of all lines. -/
inductive SameOutcome (text text' : String) : Except Fault Program → Except Fault Program → Prop where
  | accepted (p : Program) : SameOutcome text text' (.ok p) (.ok p)
  | refused {i : Nat} {line line' : Nat × List (List Char)} (cause : Cause)
      (here : (significantLines text)[i]? = some line)
      (there : (significantLines text')[i]? = some line') :
      SameOutcome text text' (.error ⟨line.1, cause⟩) (.error ⟨line'.1, cause⟩)
  | neverInitialised : SameOutcome text text'
      (.error ⟨max (lines text.toList).length 1, .neverInitialised⟩)
      (.error ⟨max (lines text'.toList).length 1, .neverInitialised⟩)

-- A number that depends on what stands beyond the last line is not the number of a line.
theorem number_of_moved {α : Type} {lines : List Line} {fault : Fault} {result : Except Fault α}
    (moved : ∀ beyond, Moves (numberAt lines beyond) (@id α) (.error fault) result) :
    ∃ line, lines[fault.line]? = some line ∧ result = .error ⟨line.number, fault.cause⟩ := by
  have refused : ∀ beyond, result = .error (fault.move (numberAt lines beyond)) := moved
  cases found : lines[fault.line]? with
  | some line => exact ⟨line, rfl, by simp [refused 0, Fault.move, numberAt, found]⟩
  | none =>
      have same := (refused 0).symm.trans (refused 1)
      simp [Fault.move, numberAt, found] at same

theorem sameWords_of_significant {text text' : String}
    (same : (significantLines text).map Prod.snd = (significantLines text').map Prod.snd) :
    SameWords (Source.ofText text).lines (Source.ofText text').lines := by
  have spell : Function.Injective (List.map (List.map String.toList)) :=
    List.map_injective_iff.mpr (List.map_injective_iff.mpr fun _ _ => String.toList_injective)
  refine spell ?_
  simpa only [significantLines_eq, List.map_map, Function.comp_def] using same

/-- Two texts whose significant lines have the same words write the same program, or are refused for
the same cause on corresponding lines. -/
theorem layout_is_free (config : Config) (text text' : String)
    (same : (significantLines text).map Prod.snd = (significantLines text').map Prod.snd) :
    SameOutcome text text' (interpret config text).result (interpret config text').result := by
  have common := positions_congr (sameWords_of_significant same)
  by_cases never : NeverInitialised config.qubitLimit (positions (Source.ofText text).lines)
  · have here := (neverInitialised_positions.mpr never).refused (lines text.toList).length
    rw [common] at never
    have there := (neverInitialised_positions.mpr never).refused (lines text'.toList).length
    rw [interpret, interpret, Source.ofText, Source.ofText]
    exact here ▸ there ▸ .neverInitialised
  · have moved := interpretSource_positions never (lines text.toList).length
    rw [common] at never moved
    have moved' := interpretSource_positions never (lines text'.toList).length
    rcases placed : (interpretSource config ⟨0, positions (Source.ofText text').lines⟩).result
      with fault | p <;> rw [placed] at moved moved'
    · obtain ⟨line, here, refused⟩ := number_of_moved moved
      obtain ⟨line', there, refused'⟩ := number_of_moved moved'
      have outcome := SameOutcome.refused fault.cause (getElem?_significantLines here)
        (getElem?_significantLines there)
      rwa [← refused, ← refused'] at outcome
    · have accepted : (interpret config text).result = .ok p := moved 0
      have accepted' : (interpret config text').result = .ok p := moved' 0
      rw [accepted, accepted']
      exact .accepted p

/-- Pairs along a register of three qubits. -/
def denseText (stop : Nat) : String :=
  "init 3\ndef pair $a $b\nH $a\nCX $b | $a\nendef\nfor $i 1:" ++ toString stop ++
    "\npair $i $i+1\nendfor"

/-- The same lines among others. -/
def looseText (stop : Nat) : String :=
  "// pairs\r\n\r\n init\t3 \r\n\r\ndef  pair  $a $b\r\n\tH $a\r\n  //flip\r\n\tCX $b  |  $a\r\nendef\n\n" ++
    "for $i 1:" ++ toString stop ++ "\n    pair $i  $i+1  \n  // for\nendfor\n\n"

theorem layout_is_free_pairs :
    (∃ p, (interpret ⟨24⟩ (denseText 2)).result = .ok p ∧
      (interpret ⟨24⟩ (looseText 2)).result = .ok p) ∧
    (interpret ⟨24⟩ (denseText 3)).result = .error ⟨4, .qubitOutOfRange .active 3 4⟩ ∧
      (interpret ⟨24⟩ (looseText 3)).result = .error ⟨8, .qubitOutOfRange .active 3 4⟩ ∧
      SameOutcome (denseText 3) (looseText 3) (.error ⟨4, .qubitOutOfRange .active 3 4⟩)
        (.error ⟨8, .qubitOutOfRange .active 3 4⟩) := by
  have same : (significantLines (denseText 2)).map Prod.snd =
      (significantLines (looseText 2)).map Prod.snd := by decide +kernel
  have same' : (significantLines (denseText 3)).map Prod.snd =
      (significantLines (looseText 3)).map Prod.snd := by decide +kernel
  have accepted : refusal? (interpret ⟨24⟩ (denseText 2)).result = none := by decide +kernel
  have refused : refusal? (interpret ⟨24⟩ (denseText 3)).result =
      some ⟨4, .qubitOutOfRange .active 3 4⟩ := by decide +kernel
  have refused' : refusal? (interpret ⟨24⟩ (looseText 3)).result =
      some ⟨8, .qubitOutOfRange .active 3 4⟩ := by decide +kernel
  obtain ⟨p, ran⟩ := refusal?_eq_none_iff.mp accepted
  rw [refusal?_eq_some_iff] at refused refused'
  have outcome := layout_is_free ⟨24⟩ (denseText 2) (looseText 2) same
  have outcome' := layout_is_free ⟨24⟩ (denseText 3) (looseText 3) same'
  rw [refused, refused'] at outcome'
  refine ⟨⟨p, ran, ?_⟩, refused, refused', outcome'⟩
  rw [ran] at outcome
  generalize (interpret ⟨24⟩ (looseText 2)).result = result at outcome
  cases outcome
  rfl

end QCircuit
