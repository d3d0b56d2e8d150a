import Mathlib.Data.List.TakeWhile
import Mathlib.Tactic.SplitIfs
/-! Runs of characters.

A run of characters of one kind is found whole at the front of a text if the next character is not
of the kind. -/
namespace QCircuit.Text
variable {p : Char → Bool}

/-- The text does not begin with a character of a kind. -/
def StopsAt (p : Char → Bool) (cs : List Char) : Prop := ∀ c, cs.head? = some c → p c = false

theorem StopsAt.mono {q : Char → Bool} {cs : List Char} (stops : StopsAt p cs)
    (less : ∀ {c}, q c = true → p c = true) : StopsAt q cs := by
  intro c first
  cases kind : q c with
  | false => rfl
  | true => exact (less kind).symm.trans (stops c first)

theorem stopsAt_dropWhile (cs : List Char) : StopsAt p (cs.dropWhile p) := by
  intro c first
  have stopped := List.head?_dropWhile_not p cs
  rw [first] at stopped
  simpa using stopped

theorem takeWhile_of_stops {run rest : List Char} (all : ∀ c ∈ run, p c = true)
    (stops : StopsAt p rest) : (run ++ rest).takeWhile p = run := by
  rw [List.takeWhile_append_of_pos all]
  cases rest with
  | nil => simp
  | cons c rest => simp [stops c rfl]

theorem dropWhile_of_stops {run rest : List Char} (all : ∀ c ∈ run, p c = true)
    (stops : StopsAt p rest) : (run ++ rest).dropWhile p = rest := by
  rw [List.dropWhile_append_of_pos all]
  cases rest with
  | nil => simp
  | cons c rest => simp [stops c rfl]

theorem mem_takeWhile {p : Char → Bool} {cs : List Char} : ∀ c ∈ cs.takeWhile p, p c = true :=
  List.all_eq_true.mp List.all_takeWhile

theorem isPrefixOf_takeWhile {front : List Char} (all : ∀ c ∈ front, p c = true)
    (cs : List Char) : front.isPrefixOf (cs.takeWhile p) = front.isPrefixOf cs := by
  induction front generalizing cs with
  | nil => rfl
  | cons c front ih =>
      rw [List.forall_mem_cons] at all
      cases cs with
      | nil => rfl
      | cons d rest =>
          by_cases same : c = d
          · subst same
            rw [List.takeWhile_cons_of_pos all.1, List.isPrefixOf, List.isPrefixOf, ih all.2]
          · have other : (c == d) = false := beq_false_of_ne same
            rw [List.takeWhile_cons]
            split_ifs <;> simp [List.isPrefixOf, other]

end QCircuit.Text
