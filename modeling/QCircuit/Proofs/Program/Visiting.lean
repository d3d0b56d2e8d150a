import QCircuit.Proofs.Program.Definitions
/-! States on the way.

The interpretation of lines passes through a state after each statement, until a statement is
refused or no line is left. Definitions are closed in the order of their lines, and a definition
only calls definitions before it. So the definitions that calls lead to stand ever further up in the
source, and no definition is called from within itself. -/
namespace QCircuit

/-- The interpretation of lines comes to a state with some of the lines left. -/
inductive Visits (limit : Nat) : State → List Line → State → List Line → Prop where
  | here (st : State) (lines : List Line) : Visits limit st lines st lines
  | next {st middle last : State} {line : Line} {rest left : List Line}
      (step : Step limit st line (nextStatement st line rest).1 middle)
      (later : Visits limit middle (nextStatement st line rest).2 last left) :
      Visits limit st (line :: rest) last left

theorem Reaches.visits {limit : Nat} {st last : State} {lines : List Line}
    (reached : Reaches limit st lines last) : Visits limit st lines last [] := by
  induction reached with
  | stay st => exact .here st []
  | next step _ ih => exact .next step ih

-- What holds of a state and the lines that are left is kept if each step keeps it.
theorem Visits.invariant {limit : Nat} {P : State → List Line → Prop}
    (kept : ∀ {st next : State} {line : Line} {rest : List Line},
      Step limit st line (nextStatement st line rest).1 next → P st (line :: rest) →
        P next (nextStatement st line rest).2)
    {st last : State} {lines left : List Line} (visits : Visits limit st lines last left)
    (start : P st lines) : P last left := by
  induction visits with
  | here => exact start
  | next step _ ih => exact ih (kept step start)

theorem nextStatement_sublist (st : State) (line : Line) (rest : List Line) :
    (nextStatement st line rest).2.Sublist rest := by
  unfold nextStatement
  split
  · split
    · rename_i found
      rw [splitLoop_append found]
      exact (List.sublist_cons_self _ _).trans (List.sublist_append_right _ _)
    · exact List.nil_sublist rest
  · exact List.Sublist.refl rest

/-- Definitions come one after the other, and the lines that are left come behind them. -/
structure State.Ordered (st : State) (left : List Line) : Prop where
  ascending : left.Pairwise fun first second => first.number < second.number
  apart : st.macros.Pairwise fun later earlier => earlier.closedAt < later.openedAt
  spans : ∀ m ∈ st.macros, m.openedAt < m.closedAt
  behind : ∀ m ∈ st.macros, ∀ line ∈ left, m.closedAt < line.number
  inside : ∀ d, st.open? = some d →
    (∀ m ∈ st.macros, m.closedAt < d.openedAt) ∧ ∀ line ∈ left, d.openedAt < line.number

theorem State.Ordered.later {st : State} {left left' : List Line} (ordered : st.Ordered left)
    (fewer : left'.Sublist left) : st.Ordered left' where
  ascending := ordered.ascending.sublist fewer
  apart := ordered.apart
  spans := ordered.spans
  behind m known line inside := ordered.behind m known line (fewer.subset inside)
  inside d opened := ⟨(ordered.inside d opened).1, fun line inside =>
    (ordered.inside d opened).2 line (fewer.subset inside)⟩

theorem State.empty_ordered {left : List Line}
    (ascending : left.Pairwise fun first second => first.number < second.number) :
    State.empty.Ordered left :=
  ⟨ascending, .nil, by simp [State.empty], by simp [State.empty], by simp [State.empty]⟩

theorem State.Ordered.descends {st : State} {left : List Line} (ordered : st.Ordered left) :
    st.macros.Pairwise fun later earlier => earlier.openedAt < later.openedAt :=
  ordered.apart.imp_of_mem fun _ known before => (ordered.spans _ known).trans before

theorem Captures.openedAt {macros : List Macro} {d next : OpenDefinition} {line : Line}
    (captures : Captures macros d line (.more next)) : next.openedAt = d.openedAt := by
  cases captures <;> rfl

theorem openDefinition_begins {macros : List Macro} {line : Line} {d : OpenDefinition}
    (opens : openDefinition macros line = .ok d) :
    d.openedAt = line.number ∧ d.captured = [] := by
  unfold openDefinition at opens
  cases operands : line.operands with
  | nil => simp [operands] at opens
  | cons name params =>
      simp only [operands, bind_eq_ok, Except.ok.injEq] at opens
      obtain ⟨_, _, _, _, rfl⟩ := opens
      exact ⟨rfl, rfl⟩

theorem Step.ordered {limit : Nat} {st next : State} {line : Line} {rest : List Line}
    (step : Step limit st line (nextStatement st line rest).1 next)
    (ordered : st.Ordered (line :: rest)) : next.Ordered (nextStatement st line rest).2 := by
  have kept := ordered.later ((nextStatement_sublist st line rest).cons line)
  have above : ∀ other ∈ (nextStatement st line rest).2, line.number < other.number :=
    fun other inside => (List.pairwise_cons.mp ordered.ascending).1 other (mem_nextStatement inside)
  have own : ∀ m ∈ st.macros, m.closedAt < line.number :=
    fun m known => ordered.behind m known line List.mem_cons_self
  cases step with
  | capture inside taken =>
      refine ⟨kept.ascending, kept.apart, kept.spans, kept.behind, ?_⟩
      rintro _ ⟨⟩
      rw [(captureLine_eq_ok.mp taken).openedAt]
      exact kept.inside _ inside
  | @close d m inside taken =>
      obtain ⟨earlier, later⟩ := ordered.inside d inside
      have opened : d.openedAt < line.number := later line List.mem_cons_self
      cases captureLine_eq_ok.mp taken with
      | ends =>
          refine ⟨kept.ascending, List.pairwise_cons.mpr ⟨earlier, kept.apart⟩,
            List.forall_mem_cons.mpr ⟨opened, kept.spans⟩,
            List.forall_mem_cons.mpr ⟨above, kept.behind⟩, ?_⟩
          rintro _ ⟨⟩
  | define outside role opens =>
      refine ⟨kept.ascending, kept.apart, kept.spans, kept.behind, ?_⟩
      rintro _ ⟨⟩
      rw [(openDefinition_begins opens).1]
      exact ⟨own, above⟩
  | initialise | add => exact ⟨kept.ascending, kept.apart, kept.spans, kept.behind, kept.inside⟩

-- Numbers are given from one on, to the lines that do not count too.
theorem ofText_ascending (text : String) :
    (Source.ofText text).lines.Pairwise fun first second => first.number < second.number := by
  have number : ∀ {n : Nat} {cs : List (List Char)} {line : Line},
      Line.ofWords? n cs = some line → line.number = n := by
    intro n cs line found
    cases cs with
    | nil => cases found
    | cons head operands =>
        simp only [Line.ofWords?, Option.ite_none_left_eq_some, Option.some.injEq] at found
        rw [← found.2]
  have numbered : ((Text.lines text.toList).zipIdx 1).Pairwise fun first second =>
      first.2 < second.2 := by
    rw [← List.pairwise_map (f := Prod.snd) (R := (· < ·)), List.zipIdx_map_snd]
    exact List.pairwise_lt_range'
  apply List.Pairwise.filterMap _ _ numbered
  rintro ⟨_, n⟩ ⟨_, n'⟩ before line found line' found'
  rw [number found, number found']
  exact before

namespace Visits
variable {config : Config} {text : String} {st : State} {left : List Line}
  (visits : Visits config.qubitLimit State.empty (Source.ofText text).lines st left)
include visits

theorem ordered : st.Ordered left :=
  visits.invariant Step.ordered (State.empty_ordered (ofText_ascending text))

theorem defined : st.Defined := by
  have start : State.empty.Defined ∧ ∀ line ∈ (Source.ofText text).lines, line.Written :=
    ⟨State.empty_defined, ofText_written text⟩
  refine (visits.invariant (P := fun st left => st.Defined ∧ ∀ line ∈ left, line.Written)
    ?_ start).1
  rintro st next line rest step ⟨defined, written⟩
  rw [List.forall_mem_cons] at written
  exact ⟨step.defined written.1 defined, fun line inside => written.2 line (mem_nextStatement inside)⟩

end Visits
end QCircuit
