import QCircuit.Proofs.Program.Calls
/-! Calls lead up the source.

`runBlock` lets a body see only the definitions before its own, and so it comes to an end. Here every
name is looked up among all definitions, and what would be done with a call to a definition that does
not begin above its caller is left open. The results are the same whatever this is, so it is never
done. Each call inside a call leads to a lower line number, and every text comes to an end. -/
namespace QCircuit

set_option linter.unusedVariables false in
/-- The gates of lines, where each name means the definition of that name among all of them. A call
gives `stray` unless the definition begins before a line, which for a body is the first line of its
own definition. -/
def runBlockBefore (stray : Logged (List (Gate Float))) (width : Nat) (macros : List Macro)
    (before depth : Nat) (env : Environment) : List Line → Logged (List (Gate Float))
  | [] => pure []
  | line :: rest =>
    match line.role with
    | .keyword .init => .refuse line.number .initInLoop
    | .keyword .define => .refuse line.number .defineInLoop
    | .keyword .endDefine => .refuse line.number .endDefineInLoop
    | .keyword .endLoop => .refuse line.number .noLoopOpen
    | .keyword .loop =>
      match opened : openLoop env line rest with
      | .error fault => ⟨[], .error fault⟩
      | .ok loop => do
        let inner ← unroll line.number (depth + 1) loop.header fun k =>
          runBlockBefore stray width macros before (depth + 1)
            (env.bind loop.header.counter (Float.ofInt k)) loop.body
        let later ← runBlockBefore stray width macros before depth env loop.after
        pure (inner ++ later)
    | .gate m => do
      let op ← Logged.ofResult (placeGate width env line m)
      Logged.emit (.gatePlaced line.number op)
      let later ← runBlockBefore stray width macros before depth env rest
      pure (.standard op :: later)
    | .name =>
      match findMacro line.head macros with
      | none => .refuse line.number (.unknownSymbol line.head)
      | some (m, _) => do
        let bound ← Logged.ofResult (bindArguments env line m)
        let members ← if above : m.openedAt < before then
            runBlockBefore stray width macros m.openedAt depth bound m.body
          else stray
        Logged.emit (.macroExpanded line.head line.operands.length members.length)
        let later ← runBlockBefore stray width macros before depth env rest
        pure (.composite m.name members :: later)
termination_by lines => (before, lines.length)
decreasing_by
  · exact .right _ (Nat.lt_succ_of_lt (openLoop_shorter opened).1)
  · exact .right _ (Nat.lt_succ_of_lt (openLoop_shorter opened).2)
  · exact .right _ (Nat.lt_succ_self _)
  · exact .right _ (Nat.lt_succ_self _)
  · exact .left _ _ above

/-- The names of lines mean the same among all definitions as among some of them. -/
def NamesAgree (all macros : List Macro) (lines : List Line) : Prop :=
  ∀ line ∈ lines, line.role = .name → findMacro line.head all = findMacro line.head macros

-- Induction on the run. The definitions that a body sees begin above its own, and what they know is
-- known among all definitions.
theorem runBlockBefore_eq {stray : Logged (List (Gate Float))} {width before depth : Nat}
    {all macros : List Macro} {env : Environment} {lines : List Line}
    (registered : Registered macros) (above : ∀ m ∈ macros, m.openedAt < before)
    (descends : macros.Pairwise fun later earlier => earlier.openedAt < later.openedAt)
    (visible : ∀ name, (findMacro name macros).isSome = true →
      findMacro name all = findMacro name macros)
    (agree : NamesAgree all macros lines) :
    runBlockBefore stray width all before depth env lines =
      runBlock width macros depth env lines := by
  induction macros, depth, env, lines using runBlock.induct generalizing before with
  | case1 macros depth env => rw [runBlockBefore, runBlock]
  | case2 macros depth env line rest role | case3 macros depth env line rest role
  | case4 macros depth env line rest role | case5 macros depth env line rest role =>
      rw [runBlockBefore, runBlock]
      simp only [role]
  | case6 macros depth env line rest role fault refused =>
      rw [runBlock_loop_refused role refused, runBlockBefore]
      simp only [role]
      split
      · rename_i other
        rw [refused] at other
        cases other
        rfl
      · rename_i opened
        rw [refused] at opened
        cases opened
  | case7 macros depth env line rest role loop opened ihBody ihAfter =>
      obtain ⟨inBody, inAfter⟩ := openLoop_lines opened
      have body : NamesAgree all macros loop.body := fun other inside =>
        agree other (List.mem_cons_of_mem _ (inBody other inside))
      have after : NamesAgree all macros loop.after := fun other inside =>
        agree other (List.mem_cons_of_mem _ (inAfter other inside))
      rw [runBlock_loop role opened, runBlockBefore]
      simp only [role]
      split
      · rename_i refused
        rw [opened] at refused
        cases refused
      · rename_i other
        rw [opened] at other
        cases other
        simp only [ihBody _ registered above descends visible body,
          ihAfter registered above descends visible after]
  | case8 macros depth env line rest m role ih =>
      rw [runBlock_gate role, runBlockBefore]
      simp only [role]
      rw [ih registered above descends visible (List.forall_mem_cons.mp agree).2]
  | case9 macros depth env line rest role missing =>
      have missing' := agree line List.mem_cons_self role
      rw [runBlock_unknown role missing, runBlockBefore]
      simp only [role, missing', missing]
  | case10 macros depth env line rest role m older found ihBody ihRest =>
      obtain ⟨here, others⟩ := List.forall_mem_cons.mp agree
      have below := descends.sublist (findMacro_suffix found).sublist
      rw [List.pairwise_cons] at below
      have first : m.openedAt < before :=
        above m ((findMacro_suffix found).subset List.mem_cons_self)
      have known : ∀ name, (findMacro name older).isSome = true →
          findMacro name all = findMacro name older := by
        intro name some
        have kept := registered.findMacro_older found some
        rw [← kept]
        exact visible name (by rw [kept, some])
      have body : NamesAgree all older m.body := fun other inside role' =>
        known _ ((registered.found found).2.1.known other inside role')
      have inner : ∀ bound, runBlockBefore stray width all m.openedAt depth bound m.body =
          runBlock width older depth bound m.body := fun bound =>
        ihBody bound (registered.of_found found) below.1 below.2 known body
      rw [runBlock_call role found, runBlockBefore]
      simp only [role, here role, found, dif_pos first, inner,
        ihRest registered above descends visible others]

/-- Carries out a statement. A call gives `stray` unless it leads to a definition that begins above
the statement, or above the definition in whose body it stands. -/
def performBefore (stray : Logged (List (Gate Float))) (limit : Nat) (st : State) (line : Line)
    (statement : List Line) : State × Logged Unit :=
  match st.runs? line with
  | none => perform limit st line statement
  | some width =>
    st.addRun (runBlockBefore stray width st.macros line.number 0 Environment.empty statement)

def interpretLinesBefore (stray : Logged (List (Gate Float))) (limit : Nat) (st : State) :
    List Line → State × Logged Unit
  | [] => (st, pure ())
  | line :: rest =>
    match performBefore stray limit st line (nextStatement st line rest).1 with
    | (next, ⟨log, .error fault⟩) => (next, ⟨log, .error fault⟩)
    | (next, ⟨log, .ok ()⟩) =>
      let (last, later) := interpretLinesBefore stray limit next (nextStatement st line rest).2
      (last, ⟨log ++ later.log, later.result⟩)
termination_by lines => lines.length
decreasing_by exact Nat.lt_succ_of_le (nextStatement_shorter _ _ _)

/-- The program that a text writes, where each name means the definition of that name among all of
them, and a call gives `stray` unless it leads up the text. -/
def interpretBefore (stray : Logged (List (Gate Float))) (config : Config) (text : String) :
    Logged Program :=
  let source := Source.ofText text
  let (st, run) := interpretLinesBefore stray config.qubitLimit State.empty source.lines
  do
    run
    finishProgram source.lineCount st

theorem performBefore_eq {stray : Logged (List (Gate Float))} {limit : Nat} {st : State}
    {line : Line} {rest : List Line} (registered : Registered st.macros)
    (ordered : st.Ordered (line :: rest)) (statement : List Line) :
    performBefore stray limit st line statement = perform limit st line statement := by
  unfold performBefore
  cases runs : st.runs? line with
  | none => rfl
  | some width =>
      have above : ∀ m ∈ st.macros, m.openedAt < line.number := fun m known =>
        (ordered.spans m known).trans (ordered.behind m known line List.mem_cons_self)
      have same := @runBlockBefore_eq stray width _ 0 _ _ Environment.empty statement registered
        above ordered.descends (fun _ _ => rfl) (fun _ _ _ => rfl)
      rw [perform_of_runs runs, ← same]

-- Each state on the way has been checked, so its definitions are in order.
theorem interpretLinesBefore_eq {stray : Logged (List (Gate Float))} {limit : Nat} {st : State}
    {lines : List Line} (defined : st.Defined) (ordered : st.Ordered lines)
    (written : ∀ line ∈ lines, line.Written) :
    interpretLinesBefore stray limit st lines = interpretLines limit st lines := by
  fun_induction interpretLines limit st lines with
  | case1 => rw [interpretLinesBefore]
  | case2 st line rest next log fault refused =>
      rw [interpretLinesBefore, performBefore_eq defined.registered ordered, refused]
  | case3 st line rest next log accepted last later ran ih =>
      rw [List.forall_mem_cons] at written
      have step := perform_eq_ok.mp ⟨log, accepted⟩
      have same := ih (step.defined written.1 defined) (step.ordered ordered)
        fun other inside => written.2 other (mem_nextStatement inside)
      rw [interpretLinesBefore, performBefore_eq defined.registered ordered, accepted]
      simp only [same, ran]

theorem interpretBefore_eq (stray : Logged (List (Gate Float))) (config : Config) (text : String) :
    interpretBefore stray config text = interpret config text := by
  rw [interpretBefore, interpret, interpretSource, interpretLinesBefore_eq State.empty_defined
    (State.empty_ordered (ofText_ascending text)) (ofText_written text)]

/-- A definition only calls definitions that were closed before it was opened. So calls inside each
other lead up the text, along no more definitions than there are, and groups of gates are nested no
deeper, in each state of each interpretation. The last part says that no interpretation comes to a
call that does not lead up, whatever would be done there, so each comes to an end. -/
theorem calls_lead_up (config : Config) (text : String) :
    (∀ (st : State) (left : List Line),
      Visits config.qubitLimit State.empty (Source.ofText text).lines st left →
      (∀ d ∈ st.macros, ∀ line ∈ d.body, line.role = .name → ∃ e older,
        findMacro line.head st.macros = some (e, older) ∧ e.closedAt < d.openedAt) ∧
      (∀ chain : List Macro, (∀ d ∈ chain, d ∈ st.macros) → chain.IsChain (Calls st.macros) →
        chain.Pairwise (fun d e => e.openedAt < d.openedAt) ∧ chain.length ≤ st.macros.length) ∧
      ∀ g ∈ st.gates, g.nesting ≤ st.macros.length) ∧
    (∀ p, (interpret config text).result = .ok p → ∃ last,
      Visits config.qubitLimit State.empty (Source.ofText text).lines last [] ∧
        p.gates = last.gates) ∧
    ∀ stray : Logged (List (Gate Float)),
      interpretBefore stray config text = interpret config text := by
  refine ⟨fun st left visits => ?_, fun p accepted => ?_, fun stray => ?_⟩
  · have registered := visits.defined.registered
    have ordered := visits.ordered
    refine ⟨fun d known line inside role => ?_, fun chain known calls => ?_, ?_⟩
    · exact named_earlier registered ordered.apart known inside role
    · exact calls_ascend registered ordered.apart known calls ordered.spans
    · exact visits.invariant (P := fun st _ => ∀ g ∈ st.gates, g.nesting ≤ st.macros.length)
        (fun step => step.nesting) (by simp [State.empty])
  · obtain ⟨last, reached, -, -, same⟩ := interpretSource_eq_ok.mp accepted
    exact ⟨last, reached.visits, same.symm⟩
  · exact interpretBefore_eq stray config text

end QCircuit
