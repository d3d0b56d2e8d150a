import QCircuit.Proofs.Text.Runs
import QCircuit.Text.Blank
/-! Laying out words and lines.

Words that are written with spaces between them, and lines with a line feed behind each, are found
again when the text is split. The blanks at both ends of a text, which trimming takes away, belong to
no word. -/
namespace QCircuit.Text

/-- The text has a character, and no blank. -/
def Solid (word : List Char) : Prop := word ≠ [] ∧ ∀ c ∈ word, isBlank c = false

theorem solid_iff {word : List Char} :
    Solid word ↔ (!word.isEmpty && word.all (!isBlank ·)) = true := by
  simp [Solid]

instance (word : List Char) : Decidable (Solid word) := decidable_of_iff _ solid_iff.symm

/-- Words with a space between each two. -/
def spaced : List (List Char) → List Char
  | [] => []
  | [word] => word
  | word :: rest => word ++ ' ' :: spaced rest

/-- Lines with a line feed behind each. -/
def stacked (lines : List (List Char)) : List Char := lines.flatMap (· ++ ['\n'])

theorem spaced_cons (word : List Char) (rest : List (List Char)) :
    spaced (word :: rest) = word ++ rest.flatMap (' ' :: ·) := by
  induction rest generalizing word with
  | nil => simp [spaced]
  | cons next rest ih =>
      rw [spaced, ih, List.flatMap_cons, List.cons_append]
      simp

theorem words_nil : words [] = [] := by
  unfold words
  rfl

theorem words_cons (c : Char) (rest : List Char) : words (c :: rest) =
    if isBlank c then words rest
    else (c :: rest.takeWhile (!isBlank ·)) :: words (rest.dropWhile (!isBlank ·)) := by
  conv => lhs; unfold words

theorem words_append {word rest : List Char} (solid : Solid word)
    (stops : StopsAt (!isBlank ·) rest) : words (word ++ rest) = word :: words rest := by
  obtain ⟨some, all⟩ := solid
  cases word with
  | nil => exact absurd rfl some
  | cons c word =>
      rw [List.forall_mem_cons] at all
      have inside : ∀ d ∈ word, (!isBlank d) = true := by
        intro d member
        rw [all.2 d member, Bool.not_false]
      have first : ¬ isBlank c = true := by simp [all.1]
      rw [List.cons_append, words_cons, if_neg first, takeWhile_of_stops inside stops,
        dropWhile_of_stops inside stops]

theorem words_dropWhile (cs : List Char) : words (cs.dropWhile isBlank) = words cs := by
  induction cs with
  | nil => rfl
  | cons c rest ih =>
      by_cases blank : isBlank c = true
      · rw [List.dropWhile_cons_of_pos blank, ih, words_cons, if_pos blank]
      · rw [List.dropWhile_cons_of_neg blank]

theorem words_append_blanks {blanks : List Char} (all : ∀ c ∈ blanks, isBlank c = true)
    (cs : List Char) : words (cs ++ blanks) = words cs := by
  have none : words blanks = [] := by
    rw [← words_dropWhile, List.dropWhile_eq_nil_iff.mpr all, words_nil]
  fun_induction words cs with
  | case1 => exact none
  | case2 c rest blank ih => rw [List.cons_append, words_cons, if_pos blank, ih]
  | case3 c rest solid ih =>
      have word : Solid (c :: rest.takeWhile (!isBlank ·)) := by
        refine ⟨List.cons_ne_nil _ _, List.forall_mem_cons.mpr ⟨by simpa using solid, ?_⟩⟩
        exact fun d inside => by simpa using mem_takeWhile d inside
      have stops : StopsAt (!isBlank ·) (rest.dropWhile (!isBlank ·) ++ blanks) := by
        cases behind : rest.dropWhile (!isBlank ·) with
        | nil =>
            intro d first
            simp [all d (List.mem_of_mem_head? first)]
        | cons d later =>
            have stopped := stopsAt_dropWhile (p := (!isBlank ·)) rest
            rw [behind] at stopped
            exact fun e first => stopped e first
      have whole := List.takeWhile_append_dropWhile (p := (!isBlank ·)) (l := rest)
      rw [← ih, ← words_append word stops, List.cons_append, List.cons_append, ← List.append_assoc,
        whole]

theorem trim_append (cs : List Char) :
    ∃ blanks, (∀ c ∈ blanks, isBlank c = true) ∧ trim cs ++ blanks = trimLeft cs := by
  refine ⟨((trimLeft cs).reverse.takeWhile isBlank).reverse, fun c inside => ?_, ?_⟩
  · exact mem_takeWhile c (List.mem_reverse.mp inside)
  · have whole := List.takeWhile_append_dropWhile (p := isBlank) (l := (trimLeft cs).reverse)
    have reversed := congrArg List.reverse whole
    rwa [List.reverse_append, List.reverse_reverse] at reversed

theorem words_trim (cs : List Char) : words (trim cs) = words cs := by
  obtain ⟨blanks, all, whole⟩ := trim_append cs
  rw [← words_append_blanks all, whole, trimLeft, words_dropWhile]

theorem trim_stops (cs : List Char) : StopsAt isBlank (trim cs) := by
  obtain ⟨blanks, all, whole⟩ := trim_append cs
  intro c first
  have stopped := stopsAt_dropWhile (p := isBlank) cs
  rw [← trimLeft, ← whole] at stopped
  exact stopped c (by rw [List.head?_append, first, Option.some_or])

theorem words_spaced {ws : List (List Char)} (solid : ∀ word ∈ ws, Solid word) :
    words (spaced ws) = ws := by
  induction ws with
  | nil => rw [spaced, words_nil]
  | cons word rest ih =>
      rw [List.forall_mem_cons] at solid
      cases rest with
      | nil =>
          have ends : StopsAt (!isBlank ·) [] := by simp [StopsAt]
          have alone := words_append solid.1 ends
          rwa [List.append_nil, words_nil] at alone
      | cons next rest =>
          have blank : isBlank ' ' = true := rfl
          have stops : StopsAt (!isBlank ·) (' ' :: spaced (next :: rest)) := by
            simp [StopsAt, blank]
          rw [spaced, words_append solid.1 stops, words_cons, if_pos blank, ih solid.2]
          simp

theorem lines_append {line : List Char} (plain : '\n' ∉ line) (rest : List Char) :
    lines (line ++ '\n' :: rest) = line :: lines rest := by
  have inside : ∀ c ∈ line, (c != '\n') = true := by
    intro c member
    rw [bne_iff_ne]
    rintro rfl
    exact plain member
  have stops : StopsAt (· != '\n') ('\n' :: rest) := by simp [StopsAt]
  have split : ∀ text : List Char, text = line ++ '\n' :: rest → lines text =
      text.takeWhile (· != '\n') :: lines (text.dropWhile (· != '\n')).tail := by
    intro text whole
    cases text with
    | nil => simp at whole
    | cons c text => rw [lines]
  rw [split _ rfl, takeWhile_of_stops inside stops, dropWhile_of_stops inside stops, List.tail_cons]

theorem lines_stacked {ls : List (List Char)} (plain : ∀ line ∈ ls, '\n' ∉ line) :
    lines (stacked ls) = ls := by
  induction ls with
  | nil => rw [stacked, List.flatMap_nil, lines]
  | cons line rest ih =>
      rw [List.forall_mem_cons] at plain
      have split : stacked (line :: rest) = line ++ '\n' :: stacked rest := by simp [stacked]
      rw [split, lines_append plain.1, ih plain.2]

theorem mem_spaced {ws : List (List Char)} {c : Char} (member : c ∈ spaced ws) :
    c = ' ' ∨ ∃ word ∈ ws, c ∈ word := by
  fun_induction spaced ws with
  | case1 => cases member
  | case2 word => exact .inr ⟨word, List.mem_singleton_self word, member⟩
  | case3 word rest _ ih =>
      rcases List.mem_append.mp member with front | behind
      · exact .inr ⟨word, List.mem_cons_self, front⟩
      · rcases List.mem_cons.mp behind with space | later
        · exact .inl space
        · exact (ih later).imp_right fun ⟨w, inside, holds⟩ =>
            ⟨w, List.mem_cons_of_mem word inside, holds⟩

end QCircuit.Text
