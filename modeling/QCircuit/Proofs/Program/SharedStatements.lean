import QCircuit.Proofs.Program.SharedBodies
/-! Statements in one scope.

Outside definitions a loop or a call keeps the scope, in any environment and with any loops around
it. A line that is run between two statements does to the scope and the gates what `perform` does to
the state, so interpretation in one scope comes to an end with the result of `interpret`. -/
namespace QCircuit

section Loops
variable {width depth : Nat} {env : Environment} {line : Line} {rest : List Line}

theorem runBlock_last_loop {macros : List Macro} {loop : Loop} (role : line.role = .keyword .loop)
    (opens : openLoop env line rest = .ok loop) (last : loop.after = []) :
    (runBlock width macros depth env (line :: rest)).result =
      (repeatFrom (fun k => runBlock width macros (depth + 1)
        (env.bind loop.header.counter (Float.ofInt k)) loop.body)
        loop.header.start loop.header.count).result := by
  rw [runBlock_loop role opens, last, runBlock, Logged.result_bind, unroll_result]
  cases (repeatFrom _ loop.header.start loop.header.count).result with
  | error fault => rfl
  | ok new =>
      show Except.ok (new ++ []) = _
      rw [List.append_nil]

theorem openLoop_statement {body after : List Line} {closing : Line}
    (found : splitLoop 0 rest = some (body, closing, after)) :
    openLoop env line (body ++ [closing]) =
      (openLoop env line rest).map fun loop => { loop with after := [] } := by
  obtain ⟨-, balanced, closes⟩ := splitLoop_eq_some_iff.mp found
  have found' : splitLoop 0 (body ++ [closing]) = some (body, closing, []) :=
    splitLoop_eq_some_iff.mpr ⟨rfl, balanced, closes⟩
  unfold openLoop
  rw [found, found']
  cases readHeader env line with
  | error fault => rfl
  | ok header =>
      simp only [bind, Except.bind]
      cases refuseTrailing closing.number closing.operands <;> rfl

end Loops

namespace Scope

section Visible
variable {limit calls width depth : Nat} {env : Environment} {s : Scope} {macros : List Macro}
  {line : Line} {rest : List Line} (outside : s.open? = none)
  (sees : (⟨width, macros, depth, env, line :: rest⟩ : Site).Sees s.macros)
  (bodies : ∀ m ∈ macros, ∀ line ∈ m.body, line.OfBody) (deep : macros.length ≤ calls)
include outside sees bodies deep

section Begun
variable (begun : s.width? = some width)
include begun

theorem linesAdd_turn {loop : Loop} (opens : openLoop env line rest = .ok loop) (k : Int) :
    (s.enter ⟨loop.header, loop.body⟩).LinesAdd limit calls
      (env.bind loop.header.counter (Float.ofInt k)) loop.body
      (runBlock width macros (depth + 1) (env.bind loop.header.counter (Float.ofInt k))
        loop.body).result := by
  have inBody := (openLoop_lines opens).1
  refine linesAdd_runBlock begun outside (sees.fewer rfl fun line inside => ?_) bodies deep ?_
  · exact List.mem_cons_of_mem _ (inBody line inside)
  · exact .inl (List.cons_ne_nil _ _)

section Statement
variable {st : State} (between : st.open? = none)
include between

-- The first line of a loop takes the others with it.
theorem lineAdds_loop_statement (role : line.role = .keyword .loop) :
    s.LineAdds limit calls env line rest
      (runBlock width macros depth env (nextStatement st line rest).1).result := by
  cases found : splitLoop 0 rest with
  | none =>
      have whole : nextStatement st line rest = (line :: rest, []) := by
        simp only [nextStatement, between, role, found]
      cases opens : openLoop env line rest with
      | ok loop =>
          obtain ⟨-, closing, found', -⟩ := openLoop_eq_ok.mp opens
          rw [found] at found'
          cases found'
      | error fault =>
          rw [whole, runBlock_loop_refused role opens]
          exact lineAdds_loop_refused outside role ((opened_eq begun).trans opens)
  | some parts =>
      obtain ⟨body, closing, after⟩ := parts
      have split : nextStatement st line rest = (line :: (body ++ [closing]), after) := by
        simp only [nextStatement, between, role, found, List.cons_append]
      have opens' := @openLoop_statement env line rest _ _ _ found
      cases opens : openLoop env line rest with
      | error fault =>
          rw [opens] at opens'
          rw [split, runBlock_loop_refused role opens']
          exact lineAdds_loop_refused outside role ((opened_eq begun).trans opens)
      | ok loop =>
          rw [opens] at opens'
          have ran := @runBlock_last_loop width depth env line _ macros _ role opens' rfl
          have first : s.LineAdds limit calls env line rest _ :=
            lineAdds_loop begun outside role opens
              (linesAdd_turn outside sees bodies deep begun opens)
          rw [split, ran]
          exact first

theorem lineAdds_statement (adds : line.role.addsGates)
    (known : line.role = .name → (findMacro line.head macros).isSome = true) :
    s.LineAdds limit calls env line rest
      (runBlock width macros depth env (nextStatement st line rest).1).result := by
  cases role : line.role with
  | keyword k =>
      simp only [role, Role.addsGates] at adds
      subst adds
      exact lineAdds_loop_statement outside sees bodies deep begun between role
  | gate m =>
      rw [nextStatement_other rest (by simp [role]), runBlock_gate role, runBlock]
      simp only [Logged.result_bind]
      exact lineAdds_gate begun outside role
  | name =>
      obtain ⟨⟨m, older⟩, found⟩ := Option.isSome_iff_exists.mp (known role)
      have visible := findMacro_suffix found
      have shorter := visible.length_le
      rw [List.length_cons] at shorter
      obtain ⟨fewer, rfl⟩ : ∃ fewer, calls = fewer + 1 := ⟨calls - 1, by omega⟩
      rw [nextStatement_other rest (by simp [role]), runBlock_call role found, runBlock]
      simp only [Logged.result_bind]
      refine lineAdds_call begun outside role
        ((sees.agree line List.mem_cons_self role).trans found) fun bound => ?_
      refine linesAdd_runBlock begun outside (sees.body found bound) ?_ (by omega) ?_
      · exact fun other inside => bodies other (visible.subset (List.mem_cons_of_mem m inside))
      · exact .inr (bodies m (visible.subset List.mem_cons_self))

end Statement
end Begun

-- A line that adds gates, or any line of a body, keeps the scope whether or not it is refused.
theorem exists_lineAdds (plain : s.loops ≠ [] ∨ line.OfBody) :
    ∃ new, s.LineAdds limit calls env line rest new := by
  have statement : line.role.addsGates →
      (line.role = .name → (findMacro line.head macros).isSome = true) →
      ∃ new, s.LineAdds limit calls env line rest new := by
    intro adds known
    cases begun : s.width? with
    | none =>
        refine ⟨_, lineAdds_unbegun outside begun adds fun role => ?_⟩
        rw [show findMacro line.head s.macros = _ from sees.agree line List.mem_cons_self role]
        exact known role
    | some width' =>
        exact ⟨_, @lineAdds_statement limit calls width' depth env s macros line rest outside
          (sees.fewer rfl fun _ => id) bodies deep begun State.empty rfl adds known⟩
  cases role : line.role with
  | keyword k =>
      by_cases opens : k = .loop
      · exact statement (by simp [role, opens, Role.addsGates]) (by simp [role])
      · obtain ⟨fault, -, first⟩ :=
          @keyword_refused limit calls env s line rest outside k role opens plain width macros depth
        exact ⟨_, first⟩
  | gate m => exact statement (by simp [role, Role.addsGates]) (by simp [role])
  | name =>
      cases found : findMacro line.head macros with
      | some known => exact statement (by simp [role, Role.addsGates]) (by simp [found])
      | none => exact ⟨_, lineAdds_unknown outside role
          ((sees.agree line List.mem_cons_self role).trans found)⟩

end Visible
end Scope

/-- The scope between two statements. -/
def State.scope (st : State) : Scope := ⟨st.width?, st.macros, st.open?, []⟩

theorem State.empty_bodies : State.empty.Bodies := by
  constructor <;> simp [State.empty]

section Lines
variable {limit calls : Nat} {st : State} {line : Line} {rest : List Line}

/-- What a statement comes to, as what its first line comes to. -/
def asLine (done : State × Logged Unit) : Scope × Except Fault (List (Gate Float)) :=
  (done.1.scope, done.2.result.map fun _ => done.1.gates)

theorem after_settle {α : Type} {result : Except Fault α} {go : α → State × List Event}
    {change : Except Fault Scope} (same : change = result.map fun a => (go a).1.scope)
    (kept : ∀ a, (go a).1.gates = st.gates) :
    st.scope.after change st.gates = asLine (settle st result go) := by
  subst same
  cases result with
  | error fault => rfl
  | ok a =>
      rw [← kept a]
      rfl

theorem runLine_capture {d : OpenDefinition} (inside : st.open? = some d) :
    st.scope.runLine limit calls Environment.empty st.gates line rest =
      some (asLine (capture st d line)) := by
  have inside' : st.scope.open? = some d := inside
  simp only [Scope.runLine, inside']
  refine congrArg some (after_settle ?_ ?_)
  · show captureLine st.macros d line >>= _ = _
    rcases captureLine st.macros d line with fault | d | m <;> rfl
  · rintro (d | m) <;> rfl

section Outside
variable (outside : st.open? = none)
include outside

theorem runLine_initialise (role : line.role = .keyword .init) :
    st.scope.runLine limit calls Environment.empty st.gates line rest =
      some (asLine (initialise limit st line)) := by
  have outside' : st.scope.open? = none := outside
  simp only [Scope.runLine, outside', role]
  cases begun : st.width? with
  | some width =>
      have begun' : st.scope.width? = some width := begun
      simp only [Scope.initialise, initialise, begun, begun']
      rfl
  | none =>
      have begun' : st.scope.width? = none := begun
      simp only [Scope.initialise, initialise, begun, begun']
      refine congrArg some (after_settle ?_ ?_)
      · show initialWidth limit line >>= _ = _
        cases initialWidth limit line <;> rfl
      · exact fun _ => rfl

theorem runLine_define (role : line.role = .keyword .define) :
    st.scope.runLine limit calls Environment.empty st.gates line rest =
      some (asLine (settle st (openDefinition st.macros line) fun d =>
        ({ st with open? := some d }, []))) := by
  have outside' : st.scope.open? = none := outside
  simp only [Scope.runLine, outside', role]
  refine congrArg some (after_settle ?_ ?_)
  · show openDefinition st.macros line >>= _ = _
    cases openDefinition st.macros line <;> rfl
  · exact fun _ => rfl

theorem runLine_addGates (defined : st.Defined) (bodies : st.Bodies)
    (deep : st.macros.length ≤ calls) (adds : line.role.addsGates)
    (known : line.role = .name → (findMacro line.head st.macros).isSome = true) :
    st.scope.runLine limit calls Environment.empty st.gates line rest =
      some (asLine (addGates st line (nextStatement st line rest).1)) := by
  cases begun : st.width? with
  | none =>
      have refused : addGates st line (nextStatement st line rest).1 =
          (st, .refuse line.number .notInitialised) := by
        rw [addGates, begun]
      rw [refused, @Scope.lineAdds_unbegun limit calls _ st.scope _ rest outside begun adds known]
      rfl
  | some width =>
      have sees : (⟨width, st.macros, 0, Environment.empty, line :: rest⟩ : Site).Sees st.macros :=
        ⟨defined.registered, fun _ _ => rfl, fun _ _ _ => rfl⟩
      have ran := @Scope.lineAdds_statement limit calls width 0 Environment.empty st.scope st.macros
        line rest outside sees bodies.closed deep begun st outside adds known
      rw [ran st.gates, addGates_of_width begun]
      rcases runBlock width st.macros 0 Environment.empty (nextStatement st line rest).1 with
        ⟨log, fault | new⟩ <;> rfl

end Outside

theorem runLine_perform (defined : st.Defined) (bodies : st.Bodies)
    (deep : st.macros.length ≤ calls) :
    st.scope.runLine limit calls Environment.empty st.gates line rest =
      some (asLine (perform limit st line (nextStatement st line rest).1)) := by
  unfold perform
  cases inside : st.open? with
  | some d => exact runLine_capture inside
  | none =>
      have outside' : st.scope.open? = none := inside
      cases role : line.role with
      | keyword k =>
          cases k with
          | loop =>
              exact runLine_addGates inside defined bodies deep (by simp [role, Role.addsGates])
                (by simp [role])
          | init => exact runLine_initialise inside role
          | define => exact runLine_define inside role
          | endDefine | endLoop =>
              simp only [Scope.runLine, outside', role]
              rfl
      | gate m =>
          exact runLine_addGates inside defined bodies deep (by simp [role, Role.addsGates])
            (by simp [role])
      | name =>
          cases found : findMacro line.head st.macros with
          | some known =>
              exact runLine_addGates inside defined bodies deep (by simp [role, Role.addsGates])
                (by simp [found])
          | none =>
              rw [@Scope.lineAdds_unknown limit calls _ st.scope _ rest outside' role found]
              rfl

-- A definition takes up a line at least.
theorem Step.macros_length {next : State}
    (step : Step limit st line (nextStatement st line rest).1 next) :
    next.macros.length + (nextStatement st line rest).2.length ≤
      st.macros.length + (line :: rest).length := by
  have fewer := nextStatement_shorter st line rest
  cases step with
  | close inside =>
      simp only [List.length_cons]
      omega
  | capture | initialise | define | add =>
      simp only [List.length_cons]
      omega

theorem runLines_interpretLines {lines : List Line} (defined : st.Defined) (bodies : st.Bodies)
    (enough : st.macros.length + lines.length ≤ calls) (written : ∀ line ∈ lines, line.Written) :
    st.scope.runLines limit calls Environment.empty st.gates lines =
      some (asLine (interpretLines limit st lines)) := by
  fun_induction interpretLines limit st lines with
  | case1 =>
      rw [Scope.runLines]
      rfl
  | case2 st line rest next log fault refused =>
      rw [Scope.runLines, runLine_perform defined bodies (by omega), refused]
      rfl
  | case3 st line rest next log accepted last later ran ih =>
      rw [List.forall_mem_cons] at written
      have step := perform_eq_ok.mp ⟨log, accepted⟩
      have same := ih (step.defined written.1 defined) (step.bodies bodies)
        (step.macros_length.trans enough) fun other inside => written.2 other (mem_nextStatement inside)
      rw [ran] at same
      rw [Scope.runLines, runLine_perform defined bodies (by omega), accepted]
      exact same

end Lines

theorem interpretShared_eq {calls : Nat} (config : Config) (text : String)
    (enough : (Source.ofText text).lines.length ≤ calls) :
    interpretShared calls config text = some (interpret config text).result := by
  have ran := @runLines_interpretLines config.qubitLimit calls State.empty
    (Source.ofText text).lines State.empty_defined State.empty_bodies
    (by simpa [State.empty] using enough) (ofText_written text)
  unfold interpretShared interpret interpretSource
  show State.empty.scope.runLines _ _ _ State.empty.gates _ >>= _ = _
  rw [ran]
  rcases interpretLines config.qubitLimit State.empty (Source.ofText text).lines with
    ⟨last, log, fault | _⟩ <;> rfl

end QCircuit
