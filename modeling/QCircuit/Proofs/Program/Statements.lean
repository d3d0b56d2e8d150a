import QCircuit.Proofs.Program.Expansion
import QCircuit.Program.Interpreter
/-! Statements one after the other.

`Step` lists what an accepted statement can do to the state: take a line into the open definition or
close it, begin the circuit, open a definition, or add the gates that its lines expand to. Accepted
lines are such steps one after the other, so what every step keeps holds of every state that is
reached. -/
namespace QCircuit

/-- The line begins a loop, places a gate or has a name as its first word. -/
def Role.addsGates : Role → Prop
  | .keyword k => k = .loop
  | _ => True

/-- What a definition may do with a line. -/
inductive Captures (macros : List Macro) (d : OpenDefinition) (line : Line) : Capture → Prop where
  | gate {m : Mnemonic} (role : line.role = .gate m) : Captures macros d line (d.take line d.depth)
  | call (role : line.role = .name) (other : line.head ≠ d.name)
      (known : (findMacro line.head macros).isSome = true) :
      Captures macros d line (d.take line d.depth)
  | opens (role : line.role = .keyword .loop) : Captures macros d line (d.take line (d.depth + 1))
  | closes {depth : Nat} (role : line.role = .keyword .endLoop) (deep : d.depth = depth + 1) :
      Captures macros d line (d.take line depth)
  | ends (role : line.role = .keyword .endDefine) (top : d.depth = 0) (bare : line.operands = []) :
      Captures macros d line (.closed (d.close line.number))

theorem captureLine_eq_ok {macros : List Macro} {d : OpenDefinition} {line : Line} {c : Capture} :
    captureLine macros d line = .ok c ↔ Captures macros d line c := by
  constructor
  · intro captured
    cases role : line.role with
    | keyword k =>
        cases k with
        | init | define => simp [captureLine, role] at captured
        | loop =>
            simp only [captureLine, role, Except.ok.injEq] at captured
            exact captured ▸ .opens role
        | endLoop =>
            cases deep : d.depth with
            | zero => simp [captureLine, role, deep] at captured
            | succ depth =>
                simp only [captureLine, role, deep, Except.ok.injEq] at captured
                exact captured ▸ .closes role deep
        | endDefine =>
            by_cases deep : 0 < d.depth
            · simp [captureLine, role, deep] at captured
            · simp only [captureLine, role, deep, if_false, bind_eq_ok, refuseTrailing_eq_ok,
                Except.ok.injEq] at captured
              obtain ⟨_, bare, same⟩ := captured
              exact same ▸ .ends role (by omega) bare
    | gate m =>
        simp only [captureLine, role, Except.ok.injEq] at captured
        exact captured ▸ .gate role
    | name =>
        by_cases own : line.head = d.name
        · simp [captureLine, role, own] at captured
        · by_cases known : (findMacro line.head macros).isSome = true
          · simp only [captureLine, role, own, known, if_true, if_false, Except.ok.injEq] at captured
            exact captured ▸ .call role own known
          · simp [captureLine, role, own, known] at captured
  · intro captures
    cases captures with
    | gate role | opens role => simp [captureLine, role]
    | closes role deep => simp [captureLine, role, deep]
    | call role other known => simp [captureLine, role, other, known]
    | ends role top bare =>
        simp only [captureLine, role, top, Nat.lt_irrefl, if_false, bind_eq_ok, refuseTrailing_eq_ok]
        exact ⟨(), bare, trivial⟩

inductive Step (limit : Nat) (st : State) (line : Line) (statement : List Line) : State → Prop where
  | capture {d next : OpenDefinition} (inside : st.open? = some d)
      (taken : captureLine st.macros d line = .ok (.more next)) :
      Step limit st line statement { st with open? := some next }
  | close {d : OpenDefinition} {m : Macro} (inside : st.open? = some d)
      (taken : captureLine st.macros d line = .ok (.closed m)) :
      Step limit st line statement { st with open? := none, macros := m :: st.macros }
  | initialise {width : Nat} (outside : st.open? = none) (role : line.role = .keyword .init)
      (fresh : st.width? = none) (asks : initialWidth limit line = .ok width) :
      Step limit st line statement { st with width? := some width }
  | define {d : OpenDefinition} (outside : st.open? = none) (role : line.role = .keyword .define)
      (opens : openDefinition st.macros line = .ok d) :
      Step limit st line statement { st with open? := some d }
  | add {width : Nat} {new : List (Gate Float)} (outside : st.open? = none)
      (adds : line.role.addsGates) (width_eq : st.width? = some width)
      (known : line.role = .name → (findMacro line.head st.macros).isSome)
      (expands : Expands width st.macros Environment.empty statement new) :
      Step limit st line statement { st with gates := st.gates ++ new }

theorem settle_eq_ok {α : Type} {st next : State} {log : List Event} {result : Except Fault α}
    {go : α → State × List Event} :
    settle st result go = (next, ⟨log, .ok ()⟩) ↔ ∃ a, result = .ok a ∧ go a = (next, log) := by
  cases result with
  | error fault => simp [settle]
  | ok a => simp [settle, Prod.ext_iff]

theorem addGates_eq_ok {st next : State} {line : Line} {statement : List Line} :
    (∃ log, addGates st line statement = (next, ⟨log, .ok ()⟩)) ↔
      ∃ width new, st.width? = some width ∧
        Expands width st.macros Environment.empty statement new ∧
        next = { st with gates := st.gates ++ new } := by
  unfold addGates
  cases st.width? with
  | none => simp [Logged.refuse]
  | some width =>
      simp only [Option.some.injEq, exists_and_left, exists_eq_left', ← runBlock_eq_ok 0]
      rcases runBlock width st.macros 0 Environment.empty statement with ⟨log, result⟩
      cases result with
      | error fault => simp
      | ok new => simp [eq_comm]

theorem step_of_perform {limit : Nat} {st next : State} {line : Line} {statement : List Line}
    {log : List Event} (performed : perform limit st line statement = (next, ⟨log, .ok ()⟩)) :
    Step limit st line statement next := by
  unfold perform at performed
  cases inside : st.open? with
  | some d =>
      simp only [inside, capture, settle_eq_ok] at performed
      obtain ⟨taken, captured, changed⟩ := performed
      cases taken with
      | more d' =>
          cases changed
          exact .capture inside captured
      | closed m =>
          cases changed
          exact .close inside captured
  | none =>
      simp only [inside] at performed
      cases role : line.role with
      | keyword k =>
          cases k with
          | init =>
              simp only [role, initialise] at performed
              cases fresh : st.width? with
              | some width => simp [fresh, Logged.refuse] at performed
              | none =>
                  simp only [fresh, settle_eq_ok] at performed
                  obtain ⟨width, asks, changed⟩ := performed
                  cases changed
                  exact .initialise inside role fresh asks
          | define =>
              simp only [role, settle_eq_ok] at performed
              obtain ⟨d, opens, changed⟩ := performed
              cases changed
              exact .define inside role opens
          | endDefine => simp [role, Logged.refuse] at performed
          | endLoop => simp [role, Logged.refuse] at performed
          | loop =>
              simp only [role] at performed
              obtain ⟨width, new, found, expands, rfl⟩ := addGates_eq_ok.mp ⟨log, performed⟩
              exact .add inside (by simp [role, Role.addsGates]) found (by simp [role]) expands
      | gate m =>
          simp only [role] at performed
          obtain ⟨width, new, found, expands, rfl⟩ := addGates_eq_ok.mp ⟨log, performed⟩
          exact .add inside (by simp [role, Role.addsGates]) found (by simp [role]) expands
      | name =>
          cases known : (findMacro line.head st.macros).isSome with
          | false => simp [role, known, Logged.refuse] at performed
          | true =>
              simp only [role, known, if_true] at performed
              obtain ⟨width, new, found, expands, rfl⟩ := addGates_eq_ok.mp ⟨log, performed⟩
              exact .add inside (by simp [role, Role.addsGates]) found (fun _ => known) expands

theorem perform_of_step {limit : Nat} {st next : State} {line : Line} {statement : List Line}
    (step : Step limit st line statement next) :
    ∃ log, perform limit st line statement = (next, ⟨log, .ok ()⟩) := by
  unfold perform
  cases step with
  | capture inside taken =>
      simp only [inside, capture, settle_eq_ok]
      exact ⟨_, _, taken, rfl⟩
  | close inside taken =>
      simp only [inside, capture, settle_eq_ok]
      exact ⟨_, _, taken, rfl⟩
  | initialise outside role fresh asks =>
      simp only [outside, role, initialise, fresh, settle_eq_ok]
      exact ⟨_, _, asks, rfl⟩
  | define outside role opens =>
      simp only [outside, role, settle_eq_ok]
      exact ⟨_, _, opens, rfl⟩
  | add outside adds found known expands =>
      have added := (@addGates_eq_ok _ _ line _).mpr ⟨_, _, found, expands, rfl⟩
      simp only [outside] at added ⊢
      cases role : line.role with
      | keyword k =>
          rw [role] at adds
          obtain rfl : k = .loop := adds
          exact added
      | gate m => exact added
      | name =>
          simp only [known role, if_true]
          exact added

theorem perform_eq_ok {limit : Nat} {st next : State} {line : Line} {statement : List Line} :
    (∃ log, perform limit st line statement = (next, ⟨log, .ok ()⟩)) ↔
      Step limit st line statement next :=
  ⟨fun ⟨_, performed⟩ => step_of_perform performed, perform_of_step⟩

/-- The width of the circuit in which the lines of a statement are run, if they are. -/
def State.runs? (st : State) (line : Line) : Option Nat :=
  match st.open?, line.role with
  | none, .keyword .loop | none, .gate _ => st.width?
  | none, .name => if (findMacro line.head st.macros).isSome then st.width? else none
  | _, _ => none

/-- The state with the gates of a run, if the run is not refused. -/
def State.addRun (st : State) : Logged (List (Gate Float)) → State × Logged Unit
  | ⟨log, .error fault⟩ => (st, ⟨log, .error fault⟩)
  | ⟨log, .ok new⟩ => ({ st with gates := st.gates ++ new }, ⟨log, .ok ()⟩)

theorem addGates_of_width {width : Nat} {st : State} (found : st.width? = some width) (line : Line)
    (statement : List Line) : addGates st line statement =
      st.addRun (runBlock width st.macros 0 Environment.empty statement) := by
  obtain ⟨_, macros, open?, gates⟩ := st
  subst found
  rfl

theorem perform_of_runs {limit width : Nat} {st : State} {line : Line}
    (runs : st.runs? line = some width) (statement : List Line) :
    perform limit st line statement =
      st.addRun (runBlock width st.macros 0 Environment.empty statement) := by
  unfold State.runs? at runs
  unfold perform
  split at runs
  · rename_i outside role
    simp only [outside, role, addGates_of_width runs]
  · rename_i outside role
    simp only [outside, role, addGates_of_width runs]
  · rename_i outside role
    rw [Option.ite_none_right_eq_some] at runs
    simp only [outside, role, runs.1, if_true, addGates_of_width runs.2]
  · cases runs

/-- Lines that are all accepted lead from one state to another. -/
inductive Reaches (limit : Nat) : State → List Line → State → Prop where
  | stay (st : State) : Reaches limit st [] st
  | next {st middle last : State} {line : Line} {rest : List Line}
      (step : Step limit st line (nextStatement st line rest).1 middle)
      (later : Reaches limit middle (nextStatement st line rest).2 last) :
      Reaches limit st (line :: rest) last

theorem interpretLines_eq_ok {limit : Nat} {st last : State} {lines : List Line} :
    (∃ log, interpretLines limit st lines = (last, ⟨log, .ok ()⟩)) ↔ Reaches limit st lines last := by
  constructor
  · rintro ⟨log, ran⟩
    fun_induction interpretLines limit st lines generalizing log with
    | case1 =>
        cases ran
        exact .stay _
    | case2 st line rest middle log' fault refused => cases ran
    | case3 st line rest middle log' accepted final later next ih =>
        rcases later with ⟨log'', result⟩
        cases ran
        exact .next (perform_eq_ok.mp ⟨_, accepted⟩) (ih _ next)
  · intro reached
    induction reached with
    | stay =>
        rw [interpretLines]
        exact ⟨[], rfl⟩
    | next step _ ih =>
        obtain ⟨log, performed⟩ := perform_eq_ok.mpr step
        obtain ⟨log', ran⟩ := ih
        rw [interpretLines, performed]
        simp only [ran]
        exact ⟨log ++ log', rfl⟩

theorem nextStatement_other {st : State} {line : Line} (rest : List Line)
    (other : line.role ≠ .keyword .loop) : nextStatement st line rest = ([line], rest) := by
  unfold nextStatement
  split
  · contradiction
  · rfl

theorem nextStatement_inside {st : State} {d : OpenDefinition} (inside : st.open? = some d)
    (line : Line) (rest : List Line) : nextStatement st line rest = ([line], rest) := by
  unfold nextStatement
  rw [inside]

theorem mem_nextStatement {st : State} {line other : Line} {rest : List Line}
    (inside : other ∈ (nextStatement st line rest).2) : other ∈ rest := by
  unfold nextStatement at inside
  split at inside
  · split at inside
    · rename_i found
      rw [splitLoop_append found]
      exact List.mem_append_right _ (List.mem_cons_of_mem _ inside)
    · cases inside
  · exact inside

-- What holds at the start and is kept by each step holds of each state that is reached.
theorem Reaches.invariant {limit : Nat} {P : State → Prop} {Q : Line → Prop}
    (kept : ∀ {st next : State} {line : Line} {statement : List Line},
      Step limit st line statement next → Q line → P st → P next)
    {st last : State} {lines : List Line} (reached : Reaches limit st lines last)
    (each : ∀ line ∈ lines, Q line) (start : P st) : P last := by
  induction reached with
  | stay => exact start
  | next step _ ih =>
      rw [List.forall_mem_cons] at each
      apply ih
      · intro line inside
        exact each.2 line (mem_nextStatement inside)
      · exact kept step each.1 start

theorem Step.width {limit width : Nat} {st next : State} {line : Line} {statement : List Line}
    (step : Step limit st line statement next) (begun : st.width? = some width) :
    next.width? = some width := by
  cases step with
  | initialise _ _ fresh =>
      rw [begun] at fresh
      cases fresh
  | capture | close | define | add => exact begun

theorem Step.deterministic {limit : Nat} {st next next' : State} {line : Line}
    {statement : List Line} (step : Step limit st line statement next)
    (step' : Step limit st line statement next') : next = next' := by
  obtain ⟨log, performed⟩ := perform_eq_ok.mpr step
  obtain ⟨log', performed'⟩ := perform_eq_ok.mpr step'
  rw [performed, Prod.mk.injEq] at performed'
  exact performed'.1

/-- The fault for which there is no value. -/
def refusal? {α : Type} : Except Fault α → Option Fault
  | .error fault => some fault
  | .ok _ => none

theorem refusal?_eq_some_iff {α : Type} {result : Except Fault α} {fault : Fault} :
    refusal? result = some fault ↔ result = .error fault := by
  cases result <;> simp [refusal?]

theorem refusal?_eq_none_iff {α : Type} {result : Except Fault α} :
    refusal? result = none ↔ ∃ a, result = .ok a := by
  cases result <;> simp [refusal?]

/-- The program that lines write, if they are accepted. -/
def Accepts (limit : Nat) (lines : List Line) (p : Program) : Prop :=
  ∃ last : State, Reaches limit State.empty lines last ∧ last.open? = none ∧
    last.width? = some p.numQubits ∧ last.gates = p.gates

theorem interpretSource_eq_ok {config : Config} {source : Source} {p : Program} :
    (interpretSource config source).result = .ok p ↔ Accepts config.qubitLimit source.lines p := by
  unfold interpretSource
  simp only [Accepts, ← interpretLines_eq_ok]
  rcases interpretLines config.qubitLimit State.empty source.lines with ⟨last, log, result⟩
  cases result with
  | error fault => simp [Logged.bind_eq_ok]
  | ok =>
      simp only [Logged.bind_eq_ok, finishProgram, Prod.mk.injEq, Logged.mk.injEq, and_true]
      cases inside : last.open? with
      | some d => simp [inside]
      | none =>
          cases found : last.width? with
          | none => simp [inside, found]
          | some width =>
              obtain ⟨numQubits, gates⟩ := p
              simp [inside, found]

end QCircuit
