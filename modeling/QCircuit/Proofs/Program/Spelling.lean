import QCircuit.Proofs.Program.Renumbering
import QCircuit.Proofs.Program.Rewriting
import QCircuit.Proofs.Text.Layout
/-! Texts of lines.

A text spells lines if the lines of it that count have the same words. Comments, empty lines and the
blanks between words are free, so many texts spell the same lines, and they write the same program. -/
namespace QCircuit
open Text

/-- The lines of a text that count are these, up to their numbers. -/
def Spells (text : String) (lines : List Line) : Prop := SameWords (Source.ofText text).lines lines

/-- The line can stand in a text. -/
structure Line.Written (line : Line) : Prop where
  solid : ∀ word ∈ line.words, Solid word.toList
  counts : startsComment line.head.toList = false

def Line.text (line : Line) : List Char := spaced (line.words.map String.toList)

/-- A text with one line for each, and a space between the words. -/
def textOf (lines : List Line) : String := String.ofList (stacked (lines.map Line.text))

theorem written_of_ofWords? {number : Nat} {cs : List Char} {line : Line}
    (found : Line.ofWords? number (words cs) = some line) : line.Written := by
  have solid := word_solid cs
  cases split : words cs with
  | nil =>
      rw [split] at found
      cases found
  | cons head operands =>
      rw [split] at found solid
      unfold Line.ofWords? at found
      by_cases comment : startsComment head = true
      · simp [comment] at found
      · simp only [comment, if_false, Bool.false_eq_true, Option.some.injEq] at found
        subst found
        constructor
        · intro word inside
          rcases List.mem_cons.mp inside with rfl | operand
          · rw [String.toList_ofList]
            exact solid head List.mem_cons_self
          · obtain ⟨w, member, rfl⟩ := List.mem_map.mp operand
            rw [String.toList_ofList]
            exact solid w (List.mem_cons_of_mem head member)
        · rw [String.toList_ofList]
          simpa using comment

theorem ofText_written (text : String) : ∀ line ∈ (Source.ofText text).lines, line.Written := by
  intro line inside
  obtain ⟨⟨raw, number⟩, _, found⟩ := List.mem_filterMap.mp inside
  exact written_of_ofWords? found

theorem Line.Written.words_text {line : Line} (written : line.Written) :
    Text.words line.text = line.words.map String.toList := by
  apply words_spaced
  intro cs inside
  obtain ⟨word, member, rfl⟩ := List.mem_map.mp inside
  exact written.solid word member

theorem Line.Written.ofWords?_text {line : Line} (written : line.Written) (number : Nat) :
    Line.ofWords? number (Text.words line.text) = some { line with number := number } := by
  rw [written.words_text, Line.words, List.map_cons, Line.ofWords?, written.counts]
  simp

theorem Line.Written.plain {line : Line} (written : line.Written) : '\n' ∉ line.text := by
  intro inside
  rcases mem_spaced inside with space | ⟨cs, member, holds⟩
  · cases space
  · obtain ⟨word, inWords, rfl⟩ := List.mem_map.mp member
    have blank : isBlank '\n' = false := (written.solid word inWords).2 '\n' holds
    cases blank

theorem sameWords_numbered {lines : List Line} (written : ∀ line ∈ lines, line.Written)
    (start : Nat) : SameWords (((lines.map Line.text).zipIdx start).filterMap fun entry =>
      Line.ofWords? entry.2 (Text.words entry.1)) lines := by
  induction lines generalizing start with
  | nil => rfl
  | cons line rest ih =>
      rw [List.forall_mem_cons] at written
      have kept := written.1.ofWords?_text start
      rw [List.map_cons, List.zipIdx_cons, List.filterMap_cons, kept]
      exact SameWords.cons rfl (ih written.2 (start + 1))

theorem spells_textOf {lines : List Line} (written : ∀ line ∈ lines, line.Written) :
    Spells (textOf lines) lines := by
  have found : Text.lines (textOf lines).toList = lines.map Line.text := by
    rw [textOf, String.toList_ofList]
    apply lines_stacked
    intro cs inside
    obtain ⟨line, member, rfl⟩ := List.mem_map.mp inside
    exact (written line member).plain
  rw [Spells, Source.ofText, found]
  exact sameWords_numbered written 1

theorem Literal.isBlank_of_isChar {c : Char} (char : isChar c = true) : isBlank c = false := by
  have range : 40 ≤ c.toNat ∧ c.toNat ≤ 57 := by
    rw [isChar, Bool.or_eq_true] at char
    rcases char with digit | other
    · rw [isDigit, Bool.and_eq_true, decide_eq_true_eq, decide_eq_true_eq] at digit
      have low : 48 ≤ c.toNat := digit.1
      have high : c.toNat ≤ 57 := digit.2
      omega
    · simp only [List.contains_eq_mem, List.mem_cons, List.not_mem_nil, or_false,
        decide_eq_true_eq] at other
      rcases other with rfl | rfl | rfl | rfl <;> decide
  simp only [isBlank, Bool.or_eq_false_iff, Bool.and_eq_false_iff, beq_eq_false_iff_ne,
    decide_eq_false_iff_not]
  omega

theorem solid_apply (σ : Substitution) {cs : List Char} (solid : Solid cs) : Solid (σ.apply cs) := by
  refine ⟨mt (σ.apply_eq_nil_iff cs).mp solid.1, fun c inside => ?_⟩
  rcases σ.apply_chars cs c inside with own | literal
  · exact solid.2 c own
  · exact Literal.isBlank_of_isChar literal

theorem Line.Written.applyWords {line : Line} (written : line.Written) (σ : Substitution) :
    ({ line with operands := line.operands.map σ.applyWord } : Line).Written := by
  refine ⟨fun word inside => ?_, written.counts⟩
  rcases List.mem_cons.mp inside with rfl | operand
  · exact written.solid line.head List.mem_cons_self
  · obtain ⟨w, member, rfl⟩ := List.mem_map.mp operand
    rw [Substitution.applyWord, String.toList_ofList]
    exact solid_apply σ (written.solid w (List.mem_cons_of_mem _ member))

theorem Line.Written.applyHeader {line : Line} (written : line.Written) (σ : Substitution) :
    ({ line with operands := σ.applyHeader line.operands } : Line).Written := by
  refine ⟨fun word inside => ?_, written.counts⟩
  rcases List.mem_cons.mp inside with rfl | operand
  · exact written.solid line.head List.mem_cons_self
  · cases split : line.operands with
    | nil =>
        rw [split] at operand
        cases operand
    | cons counter bounds =>
        have solid : ∀ w ∈ counter :: bounds, Solid w.toList := by
          intro w member
          rw [← split] at member
          exact written.solid w (List.mem_cons_of_mem _ member)
        rw [split, Substitution.applyHeader] at operand
        by_cases empty : σ.apply (bounds.flatMap String.toList) = []
        · rw [if_pos empty, List.mem_singleton] at operand
          exact operand ▸ solid counter List.mem_cons_self
        · rw [if_neg empty, List.mem_cons, List.mem_singleton] at operand
          rcases operand with rfl | rfl
          · exact solid word List.mem_cons_self
          · rw [String.toList_ofList]
            refine solid_apply σ ⟨mt (σ.apply_eq_nil_iff _).mpr empty, fun c member => ?_⟩
            obtain ⟨w, held, found⟩ := List.mem_flatMap.mp member
            exact (solid w (List.mem_cons_of_mem counter held)).2 c found

theorem written_rewrite {lines : List Line} (written : ∀ line ∈ lines, line.Written)
    (σ : Substitution) (outer : List Substitution) : ∀ line ∈ rewrite σ outer lines, line.Written := by
  induction lines generalizing σ outer with
  | nil => simp [rewrite]
  | cons line rest ih =>
      rw [List.forall_mem_cons] at written
      unfold rewrite
      split
      · exact List.forall_mem_cons.mpr ⟨written.1.applyHeader σ, ih written.2 _ _⟩
      · exact List.forall_mem_cons.mpr ⟨written.1, ih written.2 _ _⟩
      · exact List.forall_mem_cons.mpr ⟨written.1, ih written.2 _ _⟩
      · exact List.forall_mem_cons.mpr ⟨written.1.applyWords σ, ih written.2 _ _⟩

end QCircuit
