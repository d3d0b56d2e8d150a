import QCircuit.Proofs.Program.Nesting
import QCircuit.Proofs.Program.Statements
/-! Lines with other numbers.

Numbers of lines are carried along and reported, and nothing is decided by them. So lines with other
numbers are interpreted in the same way, and whatever is refused is refused for the same cause on the
line that has taken the place of the first. -/
namespace QCircuit

section Move
variable (f : Nat → Nat)

def Line.move (line : Line) : Line := { line with number := f line.number }

def Macro.move (m : Macro) : Macro where
  name := m.name
  params := m.params
  body := m.body.map (Line.move f)
  openedAt := f m.openedAt
  closedAt := f m.closedAt

def OpenDefinition.move (d : OpenDefinition) : OpenDefinition where
  name := d.name
  params := d.params
  openedAt := f d.openedAt
  depth := d.depth
  captured := d.captured.map (Line.move f)

def Capture.move : Capture → Capture
  | .more d => .more (d.move f)
  | .closed m => .closed (m.move f)

def State.move (st : State) : State where
  width? := st.width?
  macros := st.macros.map (Macro.move f)
  open? := st.open?.map (OpenDefinition.move f)
  gates := st.gates

def Fault.move (fault : Fault) : Fault := ⟨f fault.line, fault.cause⟩

def Loop.move (loop : Loop) : Loop :=
  ⟨loop.header, loop.body.map (Line.move f), loop.after.map (Line.move f)⟩

end Move

@[simp] theorem Line.move_role (f : Nat → Nat) (line : Line) : (line.move f).role = line.role := rfl

@[simp] theorem Line.move_head (f : Nat → Nat) (line : Line) : (line.move f).head = line.head := rfl

@[simp] theorem Line.move_operands (f : Nat → Nat) (line : Line) :
    (line.move f).operands = line.operands := rfl

/-- The second result is the first with other line numbers. -/
def Moves {α β : Type} (f : Nat → Nat) (g : α → β) : Except Fault α → Except Fault β → Prop
  | .ok a, result => result = .ok (g a)
  | .error fault, result => result = .error (fault.move f)

namespace Moves
variable {α α' β β' : Type} {f : Nat → Nat} {g : α → β} {h : α' → β'}

theorem ok (a : α) : Moves f g (.ok a) (.ok (g a)) := rfl

theorem refuse (line : Nat) (cause : Cause) :
    Moves f g (refuse line cause) (QCircuit.refuse (f line) cause) := rfl

theorem bind {first : Except Fault α} {first' : Except Fault β} {next : α → Except Fault α'}
    {next' : β → Except Fault β'} (moves : Moves f g first first')
    (later : ∀ a, Moves f h (next a) (next' (g a))) : Moves f h (first >>= next) (first' >>= next') := by
  cases first with
  | error fault =>
      obtain rfl : first' = .error (fault.move f) := moves
      rfl
  | ok a =>
      obtain rfl : first' = .ok (g a) := moves
      exact later a

theorem mapM {read read' : α → Except Fault α'} (moves : ∀ a, Moves f id (read a) (read' a))
    (items : List α) : Moves f id (items.mapM read) (items.mapM read') := by
  induction items with
  | nil => exact ok []
  | cons a rest ih =>
      rw [List.mapM_cons, List.mapM_cons]
      exact (moves a).bind fun b => ih.bind fun later => ok (b :: later)

theorem logged_bind {first : Logged α} {first' : Logged β} {next : α → Logged α'}
    {next' : β → Logged β'} (moves : Moves f g first.result first'.result)
    (later : ∀ a, Moves f h (next a).result (next' (g a)).result) :
    Moves f h (first >>= next).result (first' >>= next').result := by
  rw [Logged.result_bind, Logged.result_bind]
  exact moves.bind later

theorem emit_bind {e e' : Event} {next : Unit → Logged α'} {next' : Unit → Logged β'}
    (later : Moves f h (next ()).result (next' ()).result) :
    Moves f h (Logged.emit e >>= next).result (Logged.emit e' >>= next').result :=
  logged_bind (ok () : Moves f id (Logged.emit e).result (Logged.emit e').result) fun _ => later

end Moves

section Operands
variable {f : Nat → Nat} {env : Environment} {line : Line} {width : Nat}

theorem evalOperand_moves (number : Nat) (word : String) :
    Moves f id (evalOperand number env word) (evalOperand (f number) env word) := by
  unfold evalOperand
  cases evaluate word env with
  | ok value => exact .ok value
  | error e => exact .refuse number _

theorem refuseTrailing_moves (number : Nat) (words : List String) :
    Moves f id (refuseTrailing number words) (refuseTrailing (f number) words) := by
  cases words with
  | nil => exact .ok ()
  | cons word rest => exact .refuse number _

theorem qubitOperand_moves (number : Nat) (role : QubitRole) (word : String) :
    Moves f id (qubitOperand number width env role word)
      (qubitOperand (f number) width env role word) := by
  refine (evalOperand_moves number word).bind fun value => ?_
  cases exact : Decimal.integer? value with
  | none =>
      simp only [id, exact]
      exact .refuse number _
  | some n =>
      simp only [id, exact]
      split
      · exact .ok _
      · exact .refuse number _

theorem boundOperand_moves (number : Nat) (word : String) :
    Moves f id (boundOperand number env word) (boundOperand (f number) env word) := by
  refine (evalOperand_moves number word).bind fun value => ?_
  cases exact : Decimal.integer? value with
  | none =>
      simp only [id, exact]
      exact .refuse number _
  | some n =>
      simp only [id, exact]
      exact .ok _

theorem controlOperands_moves (m : Mnemonic) (words? : Option (List String)) :
    Moves f id (controlOperands width env line m words?)
      (controlOperands width env (line.move f) m words?) := by
  unfold controlOperands
  split
  · split
    · split
      · exact .refuse line.number _
      · refine (Moves.mapM (qubitOperand_moves _ _) _).bind fun qubits => ?_
        simp only [id]
        cases Controls.ofQubits qubits with
        | ok controls => exact .ok controls
        | error e => exact .refuse line.number _
    · exact .refuse line.number _
  · split
    · exact .refuse line.number _
    · exact .ok _

theorem angleOperand_moves (build : Float → StandardGate Float) (words : List String) :
    Moves f id (angleOperand env line build words) (angleOperand env (line.move f) build words) := by
  cases words with
  | nil => exact .refuse line.number _
  | cons word rest => exact (evalOperand_moves _ word).bind fun _ => .ok _

theorem partnerOperand_moves (words : List String) :
    Moves f id (partnerOperand width env line words)
      (partnerOperand width env (line.move f) words) := by
  cases words with
  | nil => exact .refuse line.number _
  | cons word rest => exact (qubitOperand_moves _ _ word).bind fun _ => .ok _

theorem gateOperand_moves (kind : GateKind) (words : List String) :
    Moves f id (gateOperand width env line kind words)
      (gateOperand width env (line.move f) kind words) := by
  cases kind with
  | i | h | x | y | z => exact .ok _
  | p | rx | ry | rz => exact angleOperand_moves _ words
  | swap => exact partnerOperand_moves words

theorem placeGate_moves (m : Mnemonic) :
    Moves f id (placeGate width env line m) (placeGate width env (line.move f) m) := by
  refine (controlOperands_moves m _).bind fun controls => ?_
  simp only [Line.move_operands, id]
  split
  · exact .refuse line.number _
  · refine (qubitOperand_moves _ _ _).bind fun target => ?_
    refine (gateOperand_moves m.kind _).bind fun read => ?_
    refine (refuseTrailing_moves _ _).bind fun _ => ?_
    simp only [id]
    cases Operation.make read.1 target controls with
    | ok op => exact .ok op
    | error e => exact .refuse line.number _

theorem bindArguments_moves (m : Macro) :
    Moves f id (bindArguments env line m) (bindArguments env (line.move f) (m.move f)) := by
  unfold bindArguments
  by_cases count : line.operands.length ≠ m.params.length
  · have count' : (line.move f).operands.length ≠ (m.move f).params.length := count
    rw [if_pos count, if_pos count']
    exact .refuse line.number _
  · have count' : ¬ (line.move f).operands.length ≠ (m.move f).params.length := count
    rw [if_neg count, if_neg count']
    exact (Moves.mapM (evalOperand_moves line.number) line.operands).bind fun _ => .ok _

theorem readHeader_moves : Moves f id (readHeader env line) (readHeader env (line.move f)) := by
  unfold readHeader
  simp only [Line.move_operands]
  split
  · exact .refuse line.number _
  · split
    · exact .refuse line.number _
    · split
      · exact .refuse line.number _
      · refine (boundOperand_moves _ _).bind fun start => ?_
        exact (boundOperand_moves _ _).bind fun stop => .ok _

end Operands

section Runs
variable {f : Nat → Nat} {width : Nat} {env : Environment} {line : Line}

theorem splitLoop_move (depth : Nat) (lines : List Line) :
    splitLoop depth (lines.map (Line.move f)) = (splitLoop depth lines).map fun parts =>
      (parts.1.map (Line.move f), parts.2.1.move f, parts.2.2.map (Line.move f)) := by
  induction lines generalizing depth with
  | nil => rfl
  | cons line rest ih =>
      rw [List.map_cons]
      by_cases opens : line.role = .keyword .loop
      · have opens' : (line.move f).role = .keyword .loop := opens
        rw [splitLoop_opens opens, splitLoop_opens opens', ih, Option.map_map, Option.map_map]
        rfl
      · by_cases closes : line.role = .keyword .endLoop
        · have closes' : (line.move f).role = .keyword .endLoop := closes
          cases depth with
          | zero =>
              rw [splitLoop_closes_last closes, splitLoop_closes_last closes']
              rfl
          | succ depth =>
              rw [splitLoop_closes closes, splitLoop_closes closes', ih, Option.map_map,
                Option.map_map]
              rfl
        · have flat : line.Flat := ⟨opens, closes⟩
          have flat' : (line.move f).Flat := flat
          rw [splitLoop_flat flat, splitLoop_flat flat', ih, Option.map_map, Option.map_map]
          rfl

theorem openLoop_moves (rest : List Line) : Moves f (Loop.move f) (openLoop env line rest)
    (openLoop env (line.move f) (rest.map (Line.move f))) := by
  refine readHeader_moves.bind fun header => ?_
  rw [splitLoop_move]
  cases splitLoop 0 rest with
  | none => exact .refuse line.number _
  | some parts => exact (refuseTrailing_moves _ _).bind fun _ => .ok (_ : Loop)

theorem findMacro_move (name : String) (macros : List Macro) :
    findMacro name (macros.map (Macro.move f)) = (findMacro name macros).map fun found =>
      (found.1.move f, found.2.map (Macro.move f)) := by
  induction macros with
  | nil => rfl
  | cons m older ih =>
      rw [List.map_cons, findMacro, findMacro]
      by_cases same : m.name = name
      · have same' : (m.move f).name = name := same
        rw [if_pos same, if_pos same']
        rfl
      · have other : (m.move f).name ≠ name := same
        rw [if_neg same, if_neg other, ih]

theorem repeatFrom_moves {α : Type} {body body' : Int → Logged (List α)}
    (moves : ∀ k, Moves f id (body k).result (body' k).result) (k : Int) (count : Nat) :
    Moves f id (repeatFrom body k count).result (repeatFrom body' k count).result := by
  induction count generalizing k with
  | zero => exact .ok []
  | succ count ih =>
      rw [repeatFrom_succ, repeatFrom_succ]
      exact (moves k).logged_bind fun _ => (ih (k + 1)).logged_bind fun _ => .ok _

-- The number of open loops, like the numbers of lines, is only reported.
theorem runBlock_moves {macros : List Macro} {depth depth' : Nat} {lines : List Line} :
    Moves f id (runBlock width macros depth env lines).result
      (runBlock width (macros.map (Macro.move f)) depth' env (lines.map (Line.move f))).result := by
  induction macros, depth, env, lines using runBlock.induct generalizing depth' with
  | case1 macros depth env =>
      rw [List.map_nil, runBlock, runBlock]
      exact .ok []
  | case2 macros depth env line rest role | case3 macros depth env line rest role
  | case4 macros depth env line rest role | case5 macros depth env line rest role =>
      rw [List.map_cons, runBlock, runBlock, Line.move_role, role]
      exact .refuse line.number _
  | case6 macros depth env line rest role fault refused =>
      have role' : (line.move f).role = .keyword .loop := role
      have refused' : Moves f (Loop.move f) (openLoop env line rest)
          (openLoop env (line.move f) (rest.map (Line.move f))) := openLoop_moves rest
      rw [refused] at refused'
      rw [List.map_cons, runBlock_loop_refused role refused, runBlock_loop_refused role' refused']
      rfl
  | case7 macros depth env line rest role loop opened ihBody ihAfter =>
      have role' : (line.move f).role = .keyword .loop := role
      have opened' : Moves f (Loop.move f) (openLoop env line rest)
          (openLoop env (line.move f) (rest.map (Line.move f))) := openLoop_moves rest
      rw [opened] at opened'
      rw [List.map_cons, runBlock_loop role opened, runBlock_loop role' opened']
      refine Moves.logged_bind (g := id) ?_ fun inner => ihAfter.logged_bind fun later => .ok _
      rw [unroll_result, unroll_result]
      exact repeatFrom_moves (fun k => ihBody k) _ _
  | case8 macros depth env line rest m role ih =>
      have role' : (line.move f).role = .gate m := role
      rw [List.map_cons, runBlock_gate role, runBlock_gate role']
      refine (placeGate_moves m).logged_bind fun op => ?_
      exact Moves.emit_bind (ih.logged_bind fun later => .ok _)
  | case9 macros depth env line rest role missing =>
      have role' : (line.move f).role = .name := role
      have missing' : findMacro (line.move f).head (macros.map (Macro.move f)) = none := by
        rw [findMacro_move, Line.move_head, missing]
        rfl
      rw [List.map_cons, runBlock_unknown role missing, runBlock_unknown role' missing']
      exact .refuse line.number _
  | case10 macros depth env line rest role m older found ihBody ihRest =>
      have role' : (line.move f).role = .name := role
      have found' : findMacro (line.move f).head (macros.map (Macro.move f)) =
          some (m.move f, older.map (Macro.move f)) := by
        rw [findMacro_move, Line.move_head, found]
        rfl
      rw [List.map_cons, runBlock_call role found, runBlock_call role' found']
      refine (bindArguments_moves m).logged_bind fun bound => ?_
      refine (ihBody bound).logged_bind fun members => ?_
      exact Moves.emit_bind (ihRest.logged_bind fun later => .ok _)

theorem Line.map_move_id (lines : List Line) : lines.map (Line.move id) = lines := List.map_id lines

theorem Macro.move_id (m : Macro) : m.move id = m := by
  rw [move, Line.map_move_id]
  rfl

theorem Moves.eq_of_id {α : Type} {result result' : Except Fault α} (moves : Moves id id result result') :
    result = result' := by
  cases result with
  | error fault => exact Eq.symm moves
  | ok a => exact Eq.symm moves

theorem runBlock_anyDepth {macros : List Macro} {depth : Nat} {lines : List Line} (depth' : Nat) :
    (runBlock width macros depth env lines).result =
      (runBlock width macros depth' env lines).result := by
  have same : macros.map (Macro.move id) = macros :=
    List.map_id'' Macro.move_id macros
  have moves := @runBlock_moves id width env macros depth depth' lines
  rw [Line.map_move_id, same] at moves
  exact moves.eq_of_id

end Runs

section Definitions
variable {f : Nat → Nat} {macros : List Macro} {line : Line}

theorem findMacro_move_isSome (name : String) :
    (findMacro name (macros.map (Macro.move f))).isSome = (findMacro name macros).isSome := by
  rw [findMacro_move, Option.isSome_map]

theorem checkName_moves (number : Nat) (name : String) : Moves f id (checkName macros number name)
    (checkName (macros.map (Macro.move f)) (f number) name) := by
  simp only [checkName, findMacro_move_isSome]
  split_ifs
  · exact .refuse number _
  · exact .refuse number _
  · exact .refuse number _
  · exact .ok ()

theorem checkParams_moves (number : Nat) (seen words : List String) :
    Moves f id (checkParams number seen words) (checkParams (f number) seen words) := by
  induction words generalizing seen with
  | nil => exact .ok ()
  | cons word rest ih =>
      unfold checkParams
      split_ifs
      · exact .refuse number _
      · exact .refuse number _
      · exact ih (word :: seen)

theorem openDefinition_moves : Moves f (OpenDefinition.move f) (openDefinition macros line)
    (openDefinition (macros.map (Macro.move f)) (line.move f)) := by
  unfold openDefinition
  simp only [Line.move_operands]
  split
  · exact .refuse line.number _
  · exact (checkName_moves _ _).bind fun _ => (checkParams_moves _ _ _).bind fun _ =>
      .ok (_ : OpenDefinition)

theorem OpenDefinition.move_close (d : OpenDefinition) (number : Nat) :
    (d.move f).close (f number) = (d.close number).move f := by
  simp [close, move, Macro.move, List.map_reverse]

theorem captureLine_moves (d : OpenDefinition) : Moves f (Capture.move f) (captureLine macros d line)
    (captureLine (macros.map (Macro.move f)) (d.move f) (line.move f)) := by
  unfold captureLine
  rw [Line.move_role]
  cases line.role with
  | keyword k =>
      cases k with
      | init | define => exact .refuse line.number _
      | loop => exact .ok (d.take line (d.depth + 1))
      | endLoop =>
          simp only [OpenDefinition.move]
          split
          · exact .refuse line.number _
          · exact .ok (d.take line _)
      | endDefine =>
          by_cases inside : 0 < d.depth
          · have inside' : 0 < (d.move f).depth := inside
            rw [if_pos inside, if_pos inside']
            exact .refuse line.number _
          · have outside : ¬ 0 < (d.move f).depth := inside
            rw [if_neg inside, if_neg outside]
            refine (refuseTrailing_moves _ _).bind fun _ => ?_
            have closed := OpenDefinition.move_close (f := f) d line.number
            exact congrArg (fun m => Except.ok (Capture.closed m)) closed
  | gate m => exact .ok (d.take line d.depth)
  | name =>
      simp only [findMacro_move_isSome, Line.move_head, OpenDefinition.move]
      split_ifs
      · exact .refuse line.number _
      · exact .ok (d.take line d.depth)
      · exact .refuse line.number _

theorem initialWidth_moves (limit : Nat) :
    Moves f id (initialWidth limit line) (initialWidth limit (line.move f)) := by
  unfold initialWidth
  simp only [Line.move_operands]
  split
  · exact .refuse line.number _
  · split
    · exact .refuse line.number _
    · split_ifs
      · exact .refuse line.number _
      · exact .refuse line.number _
      · exact (refuseTrailing_moves _ _).bind fun _ => .ok _

end Definitions

/-- The second outcome is the first with other line numbers, in the state and in the fault. -/
structure Carries (f : Nat → Nat) (outcome outcome' : State × Logged Unit) : Prop where
  state : outcome'.1 = outcome.1.move f
  result : Moves f id outcome.2.result outcome'.2.result

section States
variable {f : Nat → Nat} {limit : Nat} {st : State} {line : Line}

theorem State.move_open_some {d : OpenDefinition} (inside : st.open? = some d) :
    (st.move f).open? = some (d.move f) := by
  rw [move, inside, Option.map_some]

theorem State.move_open_none (outside : st.open? = none) : (st.move f).open? = none := by
  rw [move, outside, Option.map_none]

namespace Carries
variable {log : List Event} {outcome : State × Logged Unit}

theorem refuse (line : Nat) (cause : Cause) :
    Carries f (st, .refuse line cause) (st.move f, .refuse (f line) cause) := ⟨rfl, rfl⟩

theorem of_error {fault : Fault} (carries : Carries f (st, ⟨log, .error fault⟩) outcome) :
    ∃ log', outcome = (st.move f, ⟨log', .error (fault.move f)⟩) := by
  obtain ⟨next, log', result⟩ := outcome
  obtain ⟨rfl, rfl⟩ : next = st.move f ∧ result = .error (fault.move f) :=
    ⟨carries.state, carries.result⟩
  exact ⟨log', rfl⟩

theorem of_ok (carries : Carries f (st, ⟨log, .ok ()⟩) outcome) :
    ∃ log', outcome = (st.move f, ⟨log', .ok ()⟩) := by
  obtain ⟨next, log', result⟩ := outcome
  obtain ⟨rfl, rfl⟩ : next = st.move f ∧ result = .ok () :=
    ⟨carries.state, carries.result⟩
  exact ⟨log', rfl⟩

end Carries

theorem settle_carries {α β : Type} {g : α → β} {result : Except Fault α} {result' : Except Fault β}
    {next : α → State × List Event} {next' : β → State × List Event} (moves : Moves f g result result')
    (later : ∀ a, (next' (g a)).1 = (next a).1.move f) :
    Carries f (settle st result next) (settle (st.move f) result' next') := by
  cases result with
  | error fault =>
      obtain rfl : result' = .error (fault.move f) := moves
      exact ⟨rfl, rfl⟩
  | ok a =>
      obtain rfl : result' = .ok (g a) := moves
      exact ⟨later a, rfl⟩

theorem initialise_carries :
    Carries f (initialise limit st line) (initialise limit (st.move f) (line.move f)) := by
  cases known : st.width? with
  | some width =>
      have known' : (st.move f).width? = some width := known
      simp only [initialise, known, known']
      exact .refuse line.number _
  | none =>
      have known' : (st.move f).width? = none := known
      simp only [initialise, known, known']
      exact settle_carries (initialWidth_moves limit) fun width => rfl

theorem capture_carries (d : OpenDefinition) :
    Carries f (capture st d line) (capture (st.move f) (d.move f) (line.move f)) := by
  refine settle_carries (captureLine_moves d) fun taken => ?_
  cases taken with
  | more next => rfl
  | closed m => rfl

theorem addRun_carries {run run' : Logged (List (Gate Float))}
    (moves : Moves f id run.result run'.result) :
    Carries f (st.addRun run) ((st.move f).addRun run') := by
  rcases run with ⟨log, fault | new⟩ <;> rcases run' with ⟨log', result⟩
  · obtain rfl : result = .error (fault.move f) := moves
    exact ⟨rfl, rfl⟩
  · obtain rfl : result = .ok new := moves
    exact ⟨rfl, rfl⟩

theorem addGates_carries (statement : List Line) : Carries f (addGates st line statement)
    (addGates (st.move f) (line.move f) (statement.map (Line.move f))) := by
  cases known : st.width? with
  | none =>
      have known' : (st.move f).width? = none := known
      simp only [addGates, known, known']
      exact .refuse line.number _
  | some width =>
      have known' : (st.move f).width? = some width := known
      rw [addGates_of_width known, addGates_of_width known']
      exact addRun_carries runBlock_moves

theorem perform_carries (statement : List Line) : Carries f (perform limit st line statement)
    (perform limit (st.move f) (line.move f) (statement.map (Line.move f))) := by
  unfold perform
  cases inside : st.open? with
  | some d =>
      simp only [State.move_open_some inside]
      exact capture_carries d
  | none =>
      simp only [State.move_open_none inside, Line.move_role]
      cases line.role with
      | keyword k =>
          cases k with
          | init => exact initialise_carries
          | define => exact settle_carries openDefinition_moves fun d => rfl
          | endDefine | endLoop => exact .refuse line.number _
          | loop => exact addGates_carries statement
      | gate m => exact addGates_carries statement
      | name =>
          have known : (findMacro (line.move f).head (st.move f).macros).isSome =
            (findMacro line.head st.macros).isSome := findMacro_move_isSome line.head
          simp only [known]
          split_ifs
          · exact addGates_carries statement
          · exact .refuse line.number _

theorem nextStatement_move (rest : List Line) :
    nextStatement (st.move f) (line.move f) (rest.map (Line.move f)) =
      ((nextStatement st line rest).1.map (Line.move f),
        (nextStatement st line rest).2.map (Line.move f)) := by
  cases inside : st.open? with
  | some d =>
      rw [nextStatement_inside inside, nextStatement_inside (State.move_open_some inside)]
      rfl
  | none =>
      have inside' := State.move_open_none (f := f) inside
      by_cases opens : line.role = .keyword .loop
      · have opens' : (line.move f).role = .keyword .loop := opens
        simp only [nextStatement, inside, inside', opens, opens', splitLoop_move]
        cases splitLoop 0 rest with
        | none => rfl
        | some parts => simp
      · have opens' : (line.move f).role ≠ .keyword .loop := opens
        rw [nextStatement_other rest opens, nextStatement_other _ opens']
        rfl

theorem interpretLines_carries (st : State) (lines : List Line) :
    Carries f (interpretLines limit st lines)
      (interpretLines limit (st.move f) (lines.map (Line.move f))) := by
  fun_induction interpretLines limit st lines with
  | case1 =>
      rw [List.map_nil, interpretLines]
      exact ⟨rfl, .ok ()⟩
  | case2 st line rest next log fault refused =>
      have carried := @perform_carries f limit st line (nextStatement st line rest).1
      rw [refused] at carried
      obtain ⟨log', refused'⟩ := carried.of_error
      rw [List.map_cons, interpretLines, nextStatement_move, refused']
      exact ⟨rfl, rfl⟩
  | case3 st line rest next log accepted last later ran ih =>
      have carried := @perform_carries f limit st line (nextStatement st line rest).1
      rw [accepted] at carried
      obtain ⟨log', accepted'⟩ := carried.of_ok
      rw [ran] at ih
      rw [List.map_cons, interpretLines, nextStatement_move, accepted']
      exact ⟨ih.state, ih.result⟩

end States
end QCircuit
