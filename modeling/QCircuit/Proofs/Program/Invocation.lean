import QCircuit.Proofs.Program.Calls
import QCircuit.Proofs.Program.OperandFaults
/-! Calls that are refused.

The lines of a definition are checked one by one when they are read, with a count of the open loops.
When a call runs them, loops are taken apart by looking for their ends and names are looked up. What
was checked is enough for this, in every loop and in every call inside the body, so a call is only
refused for operands. -/
namespace QCircuit

/-- The line adds gates or closes a loop, as all lines of a definition do. -/
def Line.OfBody (line : Line) : Prop := line.role.addsGates ∨ line.role = .keyword .endLoop

theorem Captures.ofBody {macros : List Macro} {d next : OpenDefinition} {line : Line}
    (captures : Captures macros d line (.more next)) : line.OfBody := by
  cases captures with
  | gate role | call role _ _ | opens role => exact Or.inl (by simp [role, Role.addsGates])
  | closes role _ => exact Or.inr role

/-- The lines that have been taken into definitions. -/
structure State.Bodies (st : State) : Prop where
  closed : ∀ m ∈ st.macros, ∀ line ∈ m.body, line.OfBody
  inside : ∀ d, st.open? = some d → ∀ line ∈ d.captured, line.OfBody

theorem Step.bodies {limit : Nat} {st next : State} {line : Line} {statement : List Line}
    (step : Step limit st line statement next) (bodies : st.Bodies) : next.Bodies := by
  cases step with
  | @capture d next inside taken =>
      have captures := captureLine_eq_ok.mp taken
      refine ⟨bodies.closed, ?_⟩
      rintro _ ⟨⟩
      rw [captures.takes.captured, List.forall_mem_cons]
      exact ⟨captures.ofBody, bodies.inside d inside⟩
  | @close d m inside taken =>
      cases captureLine_eq_ok.mp taken with
      | ends =>
          refine ⟨List.forall_mem_cons.mpr ⟨?_, bodies.closed⟩, ?_⟩
          · exact fun line taken => bodies.inside d inside line (List.mem_reverse.mp taken)
          · rintro _ ⟨⟩
  | define outside role opens =>
      refine ⟨bodies.closed, ?_⟩
      rintro d ⟨⟩
      rw [(openDefinition_begins opens).2]
      simp
  | initialise | add => exact ⟨bodies.closed, bodies.inside⟩

theorem Visits.bodies {limit : Nat} {lines left : List Line} {st : State}
    (visits : Visits limit State.empty lines st left) : st.Bodies := by
  refine visits.invariant (P := fun st _ => st.Bodies) (fun step => step.bodies) ⟨?_, ?_⟩
  · simp [State.empty]
  · simp [State.empty]

/-- What has been checked of lines before they are run with these definitions. -/
structure Runnable (macros : List Macro) (lines : List Line) : Prop where
  balanced : Balanced lines
  ofBody : ∀ line ∈ lines, line.OfBody
  known : ∀ line ∈ lines, line.role = .name → (findMacro line.head macros).isSome = true

namespace Runnable
variable {macros : List Macro} {line : Line} {lines rest : List Line}

theorem part {part : List Line} (runnable : Runnable macros lines) (balanced : Balanced part)
    (inside : ∀ line ∈ part, line ∈ lines) : Runnable macros part where
  balanced := balanced
  ofBody other member := runnable.ofBody other (inside other member)
  known other member := runnable.known other (inside other member)

theorem tail (runnable : Runnable macros (line :: rest)) (role : line.role ≠ .keyword .loop) :
    Runnable macros rest :=
  runnable.part (runnable.balanced.tail role) fun _ => List.mem_cons_of_mem line

theorem loop {env : Environment} {loop : Loop} (runnable : Runnable macros (line :: rest))
    (role : line.role = .keyword .loop) (opened : openLoop env line rest = .ok loop) :
    Runnable macros loop.body ∧ Runnable macros loop.after := by
  obtain ⟨-, closing, found, -⟩ := openLoop_eq_ok.mp opened
  obtain ⟨_, _, _, closed, inner, later⟩ := runnable.balanced.splitLoop role
  rw [found] at closed
  cases closed
  obtain ⟨inBody, inAfter⟩ := openLoop_lines opened
  constructor
  · exact runnable.part inner fun other inside => List.mem_cons_of_mem _ (inBody other inside)
  · exact runnable.part later fun other inside => List.mem_cons_of_mem _ (inAfter other inside)

theorem addsGates (runnable : Runnable macros (line :: rest)) : line.role.addsGates :=
  (runnable.ofBody line List.mem_cons_self).resolve_right runnable.balanced.not_closing

end Runnable

-- Induction on the run. The definitions that a body sees have been checked with those before them.
theorem runBlock_blames {width depth : Nat} {macros : List Macro} {env : Environment}
    {lines : List Line} (registered : Registered macros)
    (bodies : ∀ m ∈ macros, ∀ line ∈ m.body, line.OfBody) (runnable : Runnable macros lines) :
    BlamesOperands (runBlock width macros depth env lines).result := by
  induction macros, depth, env, lines using runBlock.induct with
  | case1 macros depth env =>
      rw [runBlock]
      exact .ok []
  | case2 macros depth env line rest role | case3 macros depth env line rest role
  | case4 macros depth env line rest role | case5 macros depth env line rest role =>
      have adds := runnable.addsGates
      simp [role, Role.addsGates] at adds
  | case6 macros depth env line rest role fault refused =>
      obtain ⟨_, _, _, closed, -, -⟩ := runnable.balanced.splitLoop role
      rw [runBlock_loop_refused role refused]
      rintro _ ⟨⟩
      exact openLoop_blames closed fault refused
  | case7 macros depth env line rest role loop opened ihBody ihAfter =>
      obtain ⟨body, after⟩ := runnable.loop role opened
      rw [runBlock_loop role opened]
      exact (unroll_blames fun k => ihBody k registered bodies body).logged_bind fun _ =>
        (ihAfter registered bodies after).logged_bind fun _ => .ok _
  | case8 macros depth env line rest m role ih =>
      have others := runnable.tail (by simp [role])
      rw [runBlock_gate role]
      exact (placeGate_blames m).logged_bind fun _ => (BlamesOperands.ok ()).logged_bind fun _ =>
        (ih registered bodies others).logged_bind fun _ => .ok _
  | case9 macros depth env line rest role missing =>
      have known := runnable.known line List.mem_cons_self role
      simp [missing] at known
  | case10 macros depth env line rest role m older found ihBody ihRest =>
      have others := runnable.tail (by simp [role])
      have visible := (findMacro_suffix found).subset
      obtain ⟨-, contents, balanced⟩ := registered.found found
      have body : Runnable older m.body :=
        ⟨balanced, bodies m (visible List.mem_cons_self), contents.known⟩
      have inner := fun bound => ihBody bound (registered.of_found found)
        (fun other known => bodies other (visible (List.mem_cons_of_mem m known))) body
      rw [runBlock_call role found]
      exact (bindArguments_blames m).logged_bind fun bound => (inner bound).logged_bind fun _ =>
        (BlamesOperands.ok ()).logged_bind fun _ =>
          (ihRest registered bodies others).logged_bind fun _ => .ok _

section Calls
variable {width : Nat} {macros : List Macro} {line : Line}

theorem Runnable.call (role : line.role = .name)
    (known : (findMacro line.head macros).isSome = true) : Runnable macros [line] where
  balanced := .line (by simp [Line.Flat, role]) .nil
  ofBody := by simp [Line.OfBody, role, Role.addsGates]
  known := by simp [known]

-- A call that is not refused gives one group, which has the name of the call.
theorem call_gives_composite {depth : Nat} {env : Environment} {gates : List (Gate Float)}
    (registered : Registered macros) (role : line.role = .name)
    (ran : (runBlock width macros depth env [line]).result = .ok gates) :
    ∃ members, gates = [.composite line.head members] := by
  rw [runBlock_eq_ok, expands_call_iff role] at ran
  obtain ⟨m, older, bound, members, later, found, -, -, last, rfl⟩ := ran
  rw [expands_nil_iff] at last
  exact ⟨members, by rw [last, (registered.found found).1]⟩

end Calls

/-- A call gives one group, which has its name, or it is refused for operands. -/
def CallAnswers (name : String) (result : Except Fault (List (Gate Float))) : Prop :=
  (∃ members, result = .ok [.composite name members]) ∨
    ∃ fault, result = .error fault ∧ fault.OfOperands

/-- Once the circuit has begun, a call of a definition is only refused for operands: with any words,
inside any loops, in any environment, and when it is carried out as a statement of its own. -/
theorem call_refused_only_for_operands {config : Config} {text : String} {st : State}
    {left : List Line} {width : Nat} {line : Line}
    (visits : Visits config.qubitLimit State.empty (Source.ofText text).lines st left)
    (begun : st.width? = some width) (known : (findMacro line.head st.macros).isSome = true) :
    (∀ (depth : Nat) (env : Environment),
      CallAnswers line.head (runBlock width st.macros depth env [line]).result) ∧
    (st.open? = none → ∃ run : Logged (List (Gate Float)), CallAnswers line.head run.result ∧
      perform config.qubitLimit st line [line] = st.addRun run) := by
  have registered := visits.defined.registered
  have role := registered.role known
  have answers : ∀ (depth : Nat) (env : Environment),
      CallAnswers line.head (runBlock width st.macros depth env [line]).result := by
    intro depth env
    have blames : BlamesOperands (runBlock width st.macros depth env [line]).result :=
      runBlock_blames registered visits.bodies.closed (.call role known)
    cases ran : (runBlock width st.macros depth env [line]).result with
    | ok gates =>
        obtain ⟨members, rfl⟩ := call_gives_composite registered role ran
        exact Or.inl ⟨members, rfl⟩
    | error fault => exact Or.inr ⟨fault, rfl, blames fault ran⟩
  refine ⟨answers, fun outside => ⟨_, answers 0 Environment.empty, perform_of_runs ?_ [line]⟩⟩
  simp only [State.runs?, outside, role, known, if_true, begun]

-- In a circuit of three qubits, the third turn of a call with 3 places a gate on a fourth qubit.
def chainText : String :=
  "init 3\ndef pair $a $b\nH $a\nCX $b | $a\nendef
def chain $n\nfor $i 1:$n\nfor $j $i:$i\npair $j $j+1\nendfor\nendfor\nendef"

def chainLines : List Line :=
  [⟨1, "init", ["3"]⟩, ⟨2, "def", ["pair", "$a", "$b"]⟩, ⟨3, "H", ["$a"]⟩,
    ⟨4, "CX", ["$b", "|", "$a"]⟩, ⟨5, "endef", []⟩, ⟨6, "def", ["chain", "$n"]⟩,
    ⟨7, "for", ["$i", "1:$n"]⟩, ⟨8, "for", ["$j", "$i:$i"]⟩, ⟨9, "pair", ["$j", "$j+1"]⟩,
    ⟨10, "endfor", []⟩, ⟨11, "endfor", []⟩, ⟨12, "endef", []⟩]

def chainState : State := stateAfter 24 chainLines

theorem call_refused_only_for_operands_third_turn :
    Visits 24 State.empty (Source.ofText chainText).lines chainState [] ∧
      chainState.width? = some 3 ∧ (findMacro "chain" chainState.macros).isSome = true ∧
      (∃ members, (runBlock 3 chainState.macros 0 Environment.empty
        [⟨13, "chain", ["2"]⟩]).result = .ok [.composite "chain" members]) ∧
      ∃ fault, (runBlock 3 chainState.macros 0 Environment.empty
        [⟨13, "chain", ["3"]⟩]).result = .error fault ∧ fault.OfOperands := by
  have whole : (Source.ofText chainText).lines = chainLines := by decide +kernel
  have prepared : Prepares 24 chainLines := ⟨by decide +kernel, by decide +kernel, by decide +kernel⟩
  have visits : Visits 24 State.empty (Source.ofText chainText).lines chainState [] := by
    rw [whole]
    exact prepared.reaches.visits
  have begun : chainState.width? = some 3 := by decide +kernel
  have known : (findMacro "chain" chainState.macros).isSome = true := by decide +kernel
  have answers : ∀ words, CallAnswers "chain"
      (runBlock 3 chainState.macros 0 Environment.empty [⟨13, "chain", words⟩]).result :=
    fun words => (@call_refused_only_for_operands ⟨24⟩ _ _ _ _ ⟨13, "chain", words⟩
      visits begun known).1 0 Environment.empty
  have ran : (runBlock 3 chainState.macros 0 Environment.empty
      [⟨13, "chain", ["2"]⟩]).result.isOk = true := by decide +kernel
  have refused : (runBlock 3 chainState.macros 0 Environment.empty
      [⟨13, "chain", ["3"]⟩]).result.isOk = false := by decide +kernel
  refine ⟨visits, begun, known, ?_, ?_⟩
  · refine (answers ["2"]).resolve_right ?_
    rintro ⟨fault, found, -⟩
    simp [found, Except.isOk, Except.toBool] at ran
  · refine (answers ["3"]).resolve_left ?_
    rintro ⟨members, found⟩
    simp [found, Except.isOk, Except.toBool] at refused

end QCircuit
