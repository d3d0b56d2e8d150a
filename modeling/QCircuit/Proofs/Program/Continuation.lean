import QCircuit.Proofs.Program.TopLevel
/-! Lines behind a program.

A loop is taken with all its lines before the first of them is run, so lines further down are looked
at early. What has been decided stays so when lines are added behind: an accepted program only gets
more gates, and a refused one is refused for the same fault, unless what it missed was its end. -/
namespace QCircuit

/-- The text ends too early. -/
def Cause.OfEnd : Cause → Prop
  | .loopNotClosed | .definitionNotClosed _ | .neverInitialised => True
  | _ => False

instance (cause : Cause) : Decidable cause.OfEnd := by
  cases cause <;> unfold Cause.OfEnd <;> infer_instance

theorem nextStatement_first (st : State) (line : Line) (rest : List Line) :
    ∃ others, (nextStatement st line rest).1 = line :: others := by
  unfold nextStatement
  split
  · split
    · exact ⟨_, rfl⟩
    · exact ⟨_, rfl⟩
  · exact ⟨[], rfl⟩

section Refused
variable {limit : Nat} {st next : State} {line : Line} {rest : List Line} {log : List Event}
  {fault : Fault}

-- The header is read before the end of the loop is looked for.
theorem openLoop_refused {env : Environment} (unclosed : splitLoop 0 rest = none)
    (refused : openLoop env line rest = .error fault) (decided : ¬ fault.cause.OfEnd)
    (others : List Line) : openLoop env line others = .error fault := by
  unfold openLoop at refused ⊢
  cases read : readHeader env line with
  | error fault' =>
      rw [read] at refused
      exact refused
  | ok header =>
      rw [read, unclosed] at refused
      cases refused
      exact absurd trivial decided

theorem addGates_unclosed (role : line.role = .keyword .loop) (unclosed : splitLoop 0 rest = none)
    (refused : addGates st line (line :: rest) = (next, ⟨log, .error fault⟩))
    (decided : ¬ fault.cause.OfEnd) (others : List Line) :
    addGates st line (line :: others) = (next, ⟨log, .error fault⟩) := by
  unfold addGates at refused ⊢
  cases begun : st.width? with
  | none =>
      rw [begun] at refused
      exact refused
  | some width =>
      simp only [begun] at refused ⊢
      cases opened : openLoop Environment.empty line rest with
      | ok loop =>
          obtain ⟨-, closing, found, -⟩ := openLoop_eq_ok.mp opened
          rw [unclosed] at found
          cases found
      | error fault' =>
          rw [runBlock_loop_refused role opened] at refused
          cases refused
          rw [runBlock_loop_refused role (openLoop_refused unclosed opened decided others)]

theorem perform_refused_append
    (refused : perform limit st line (nextStatement st line rest).1 = (next, ⟨log, .error fault⟩))
    (decided : ¬ fault.cause.OfEnd) (more : List Line) :
    perform limit st line (nextStatement st line (rest ++ more)).1 =
      (next, ⟨log, .error fault⟩) := by
  by_cases closed : st.open? = none → line.role = .keyword .loop → (splitLoop 0 rest).isSome = true
  · rw [nextStatement_append closed]
    exact refused
  · simp only [Classical.not_imp, Bool.not_eq_true, Option.isSome_eq_false_iff,
      Option.isNone_iff_eq_none] at closed
    obtain ⟨outside, role, unclosed⟩ := closed
    have whole : (nextStatement st line rest).1 = line :: rest := by
      simp only [nextStatement, outside, role, unclosed]
    obtain ⟨others, first⟩ := nextStatement_first st line (rest ++ more)
    rw [whole] at refused
    rw [first]
    simp only [perform, outside, role] at refused ⊢
    exact addGates_unclosed role unclosed refused decided others

end Refused

theorem interpretLines_refused_append {limit : Nat} {st next : State} {lines : List Line}
    {log : List Event} {fault : Fault}
    (refused : interpretLines limit st lines = (next, ⟨log, .error fault⟩))
    (decided : ¬ fault.cause.OfEnd) (more : List Line) :
    interpretLines limit st (lines ++ more) = (next, ⟨log, .error fault⟩) := by
  fun_induction interpretLines limit st lines generalizing log with
  | case1 => cases refused
  | case2 st line rest middle log' fault' stopped =>
      cases refused
      rw [List.cons_append, interpretLines, perform_refused_append stopped decided]
  | case3 st line rest middle log' accepted last later ran ih =>
      rcases later with ⟨log'', result⟩
      cases refused
      have split := (perform_eq_ok.mp ⟨_, accepted⟩).nextStatement_append more
      rw [List.cons_append, interpretLines, split]
      simp only [accepted, ih ran]

theorem Reaches.width {limit width : Nat} {st last : State} {lines : List Line}
    (reached : Reaches limit st lines last) (begun : st.width? = some width) :
    last.width? = some width :=
  reached.invariant (P := fun st => st.width? = some width) (Q := fun _ => True)
    (fun step _ begun => step.width begun) (fun _ _ => trivial) begun

-- An accepted program with accepted lines behind it keeps its circuit and its gates.
theorem Accepts.grows {limit : Nat} {front back : List Line} {p q : Program}
    (accepts : Accepts limit front p) (accepts' : Accepts limit (front ++ back) q) :
    p.numQubits = q.numQubits ∧ p.gates <+: q.gates := by
  obtain ⟨middle, reached, -, begun, gates⟩ := accepts
  obtain ⟨last, reached', -, width, gates'⟩ := accepts'
  have later := reached.append_iff.mp reached'
  have kept := later.width begun
  rw [width, Option.some.injEq] at kept
  obtain ⟨new, added, -⟩ := later.anyGates
  rw [gates, gates'] at added
  exact ⟨kept.symm, new, added.symm⟩

theorem interpretSource_refused {config : Config} {source : Source} {fault : Fault}
    (refused : (interpretSource config source).result = .error fault)
    (decided : ¬ fault.cause.OfEnd) : ∃ st log,
      interpretLines config.qubitLimit State.empty source.lines = (st, ⟨log, .error fault⟩) := by
  unfold interpretSource at refused
  rcases ran : interpretLines config.qubitLimit State.empty source.lines with ⟨st, log, result⟩
  simp only [ran, Logged.result_bind] at refused
  cases result with
  | error fault' =>
      cases refused
      exact ⟨st, log, rfl⟩
  | ok =>
      refine absurd ?_ decided
      simp only [finishProgram, bind, Except.bind] at refused
      split at refused
      · cases refused
        trivial
      · cases refused
        trivial
      · cases refused

-- Numbers are given from the front, so lines behind a text do not change those in it.
theorem ofText_append {front back whole : String}
    (follows : Text.lines whole.toList = Text.lines front.toList ++ Text.lines back.toList) :
    ∃ more, (Source.ofText whole).lines = (Source.ofText front).lines ++ more := by
  simp only [Source.ofText, follows, List.zipIdx_append, List.filterMap_append]
  exact ⟨_, rfl⟩

/-- Lines behind those of a text change nothing of what the text has come to. If both are accepted,
the circuit is the same and gates are only added at the end. If the text is refused before its end,
it is refused with the lines behind it for the same fault, on the same line. -/
theorem front_decides {config : Config} {front back whole : String}
    (follows : Text.lines whole.toList = Text.lines front.toList ++ Text.lines back.toList) :
    (∀ p q, (interpret config front).result = .ok p → (interpret config whole).result = .ok q →
      p.register = q.register ∧ p.gates <+: q.gates) ∧
    ∀ fault, (interpret config front).result = .error fault → ¬ fault.cause.OfEnd →
      (interpret config whole).result = .error fault := by
  obtain ⟨more, lines⟩ := ofText_append follows
  refine ⟨fun p q accepted accepted' => ?_, fun fault refused decided => ?_⟩
  · rw [interpret, interpretSource_eq_ok] at accepted accepted'
    rw [lines] at accepted'
    obtain ⟨width, gates⟩ := accepted.grows accepted'
    exact ⟨congrArg Register.ground width, gates⟩
  · obtain ⟨st, log, stopped⟩ := interpretSource_refused refused decided
    have stopped' := interpretLines_refused_append stopped decided more
    rw [← lines] at stopped'
    rw [interpret, interpretSource, stopped']
    rfl

/-- A loop on the first qubits of two. -/
def flipsText (stop : Nat) : String := "init 2\nfor $i 1:" ++ toString stop ++ "\nX $i\nendfor"

-- The third turn is refused, and a loop that is opened behind it does not come into view.
theorem front_decides_third_flip :
    (∃ p q, (interpret ⟨24⟩ (flipsText 2)).result = .ok p ∧
      (interpret ⟨24⟩ (flipsText 2 ++ "\nH 1\n")).result = .ok q ∧ p.gates <+: q.gates) ∧
    ∃ fault, (interpret ⟨24⟩ (flipsText 3)).result = .error fault ∧ fault.line = 3 ∧
      (interpret ⟨24⟩ (flipsText 3 ++ "\nfor $j 1:2")).result = .error fault := by
  have follows : Text.lines (flipsText 2 ++ "\nH 1\n").toList =
      Text.lines (flipsText 2).toList ++ Text.lines "H 1".toList := by decide +kernel
  have follows' : Text.lines (flipsText 3 ++ "\nfor $j 1:2").toList =
      Text.lines (flipsText 3).toList ++ Text.lines "for $j 1:2".toList := by decide +kernel
  have accepted : refusal? (interpret ⟨24⟩ (flipsText 2)).result = none := by decide +kernel
  have accepted' : refusal? (interpret ⟨24⟩ (flipsText 2 ++ "\nH 1\n")).result = none := by
    decide +kernel
  have refused : refusal? (interpret ⟨24⟩ (flipsText 3)).result =
      some ⟨3, .qubitOutOfRange .active 2 3⟩ := by decide +kernel
  obtain ⟨p, ran⟩ := refusal?_eq_none_iff.mp accepted
  obtain ⟨q, ran'⟩ := refusal?_eq_none_iff.mp accepted'
  rw [refusal?_eq_some_iff] at refused
  exact ⟨⟨p, q, ran, ran', ((front_decides follows).1 p q ran ran').2⟩, _, refused, rfl,
    (front_decides follows').2 _ refused (by decide)⟩

end QCircuit
