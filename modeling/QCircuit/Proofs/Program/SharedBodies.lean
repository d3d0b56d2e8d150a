import QCircuit.Proofs.Program.Invocation
import QCircuit.Proofs.Program.SharedScope
import QCircuit.Proofs.Program.Site
/-! Bodies in one scope.

The lines of a definition have been checked when they were taken into it, and in a loop the lines
that would change the scope are refused. So running a body comes to an end, gives back the scope that
it was given, and gives the gates of `runBlock`, with every call and every loop inside it. -/
namespace QCircuit.Scope

/-- Running a line keeps the scope and puts new gates behind those so far. -/
def LineAdds (limit calls : Nat) (env : Environment) (s : Scope) (line : Line) (rest : List Line)
    (new : Except Fault (List (Gate Float))) : Prop :=
  ∀ gates, s.runLine limit calls env gates line rest = some (s, new.map (gates ++ ·))

/-- Running lines keeps the scope and puts new gates behind those so far. -/
def LinesAdd (limit calls : Nat) (env : Environment) (s : Scope) (lines : List Line)
    (new : Except Fault (List (Gate Float))) : Prop :=
  ∀ gates, s.runLines limit calls env gates lines = some (s, new.map (gates ++ ·))

section Lines
variable {limit calls width : Nat} {env : Environment} {s : Scope} {line : Line} {rest : List Line}
  {new more : Except Fault (List (Gate Float))}

theorem LinesAdd.nil : s.LinesAdd limit calls env [] (.ok []) := by
  intro gates
  rw [runLines, Except.map, List.append_nil]

theorem LineAdds.cons (first : s.LineAdds limit calls env line rest new)
    (later : s.LinesAdd limit calls env (s.behind line rest) more) :
    s.LinesAdd limit calls env (line :: rest) (do
      let new ← new
      let more ← more
      pure (new ++ more)) := by
  intro gates
  rw [runLines, first gates]
  cases new with
  | error fault => rfl
  | ok new =>
      show s.runLines limit calls env (gates ++ new) (s.behind line rest) = _
      rw [later (gates ++ new)]
      cases more with
      | error fault => rfl
      | ok more => simp [Except.map, bind, Except.bind, pure, Except.pure]

theorem LineAdds.refused {fault : Fault}
    (first : s.LineAdds limit calls env line rest (.error fault)) :
    s.LinesAdd limit calls env (line :: rest) (.error fault) := by
  intro gates
  rw [runLines, first gates]
  rfl

theorem runTurns_eq {frame : Frame} {body : Int → Logged (List (Gate Float))}
    (turn : ∀ k, s.LinesAdd limit calls (env.bind frame.header.counter (Float.ofInt k)) frame.body
      (body k).result) (gates : List (Gate Float)) (k : Int) (count : Nat) :
    s.runTurns limit calls env frame gates k count =
      some (s, (repeatFrom body k count).result.map (gates ++ ·)) := by
  induction count generalizing gates k with
  | zero => simp [runTurns, repeatFrom_zero, Except.map]
  | succ count ih =>
      rw [runTurns, turn k gates, repeatFrom_succ, Logged.result_bind]
      cases (body k).result with
      | error fault => rfl
      | ok new =>
          show s.runTurns limit calls env frame (gates ++ new) (k + 1) count = _
          rw [ih]
          simp only [bind, Except.bind, Logged.andThen]
          cases (repeatFrom body (k + 1) count).result with
          | error fault => rfl
          | ok more => simp [Except.map]

theorem behind_loop {loop : Loop} (outside : s.open? = none) (role : line.role = .keyword .loop)
    (opens : openLoop env line rest = .ok loop) : s.behind line rest = loop.after := by
  obtain ⟨-, closing, found, -⟩ := openLoop_eq_ok.mp opens
  simp only [behind, nextStatement, outside, role, found]

theorem behind_other (role : line.role ≠ .keyword .loop) : s.behind line rest = rest := by
  rw [behind, nextStatement_other rest role]

section Outside
variable (outside : s.open? = none)
include outside

-- A body has no line with a keyword but those of loops, or a loop around it refuses the line.
theorem keyword_refused {k : Keyword} (role : line.role = .keyword k) (other : k ≠ .loop)
    (plain : s.loops ≠ [] ∨ line.OfBody) (width : Nat) (macros : List Macro) (depth : Nat) :
    ∃ fault, (runBlock width macros depth env (line :: rest)).result = .error fault ∧
      s.LineAdds limit calls env line rest (.error fault) := by
  have inLoop : k ≠ .endLoop → s.loops ≠ [] := by
    intro notEnd
    refine plain.resolve_right fun ofBody => ?_
    simp [Line.OfBody, role, Role.addsGates, other, notEnd] at ofBody
  rw [runBlock]
  simp only [role]
  cases k with
  | loop => contradiction
  | endLoop =>
      refine ⟨_, rfl, fun gates => ?_⟩
      simp only [runLine, outside, role, refuse, Except.map]
  | init | define | endDefine =>
      have nonempty := inLoop (by decide)
      refine ⟨_, rfl, fun gates => ?_⟩
      simp [runLine, outside, role, initialise, define, nonempty, after, refuse, Except.map]

theorem lineAdds_unknown (role : line.role = .name)
    (missing : findMacro line.head s.macros = none) :
    s.LineAdds limit calls env line rest (refuse line.number (.unknownSymbol line.head)) := by
  intro gates
  simp only [runLine, outside, role, called, missing, refuse, Except.map]

theorem lineAdds_loop_refused {fault : Fault} (role : line.role = .keyword .loop)
    (refused : s.opened env line rest = .error fault) :
    s.LineAdds limit calls env line rest (.error fault) := by
  intro gates
  rw [runLine]
  simp only [outside, role]
  split
  · rename_i other
    cases refused.symm.trans other
    rfl
  · rename_i opens
    cases refused.symm.trans opens

theorem lineAdds_unbegun (fresh : s.width? = none) (adds : line.role.addsGates)
    (known : line.role = .name → (findMacro line.head s.macros).isSome = true) :
    s.LineAdds limit calls env line rest (refuse line.number .notInitialised) := by
  cases role : line.role with
  | keyword k =>
      simp only [role, Role.addsGates] at adds
      subst adds
      apply lineAdds_loop_refused outside role
      rw [opened, requireWidth, fresh]
      rfl
  | gate m =>
      intro gates
      simp only [runLine, outside, role, place, requireWidth, fresh]
      rfl
  | name =>
      intro gates
      obtain ⟨found, lookup⟩ := Option.isSome_iff_exists.mp (known role)
      simp only [runLine, outside, role, called, lookup, requireWidth, fresh]
      rfl

end Outside

section Begun
variable (begun : s.width? = some width) (outside : s.open? = none)
include begun

theorem opened_eq : s.opened env line rest = openLoop env line rest := by
  rw [opened, requireWidth, begun]
  rfl

include outside

theorem lineAdds_gate {m : Mnemonic} (role : line.role = .gate m) :
    s.LineAdds limit calls env line rest (do
      let op ← placeGate width env line m
      pure [.standard op]) := by
  intro gates
  simp only [runLine, outside, role, place, requireWidth, begun]
  show some (s, (placeGate width env line m).map _) = _
  cases placeGate width env line m <;> rfl

theorem lineAdds_call {fewer : Nat} {m : Macro} {older : List Macro}
    {members : Environment → Except Fault (List (Gate Float))} (role : line.role = .name)
    (found : findMacro line.head s.macros = some (m, older))
    (inner : ∀ bound, s.LinesAdd limit fewer bound m.body (members bound)) :
    s.LineAdds limit (fewer + 1) env line rest (do
      let bound ← bindArguments env line m
      let members ← members bound
      pure [.composite m.name members]) := by
  intro gates
  simp only [runLine, outside, role, called, found, requireWidth, begun]
  cases bindArguments env line m with
  | error fault => rfl
  | ok bound =>
      show (s.runLines limit fewer bound [] m.body >>= _) = _
      rw [inner bound []]
      simp only [bind, Except.bind, Option.bind]
      cases members bound <;> rfl

theorem lineAdds_loop {loop : Loop} {body : Int → Logged (List (Gate Float))}
    (role : line.role = .keyword .loop) (opens : openLoop env line rest = .ok loop)
    (turn : ∀ k, (s.enter ⟨loop.header, loop.body⟩).LinesAdd limit calls
      (env.bind loop.header.counter (Float.ofInt k)) loop.body (body k).result) :
    s.LineAdds limit calls env line rest
      (repeatFrom body loop.header.start loop.header.count).result := by
  intro gates
  rw [runLine]
  simp only [outside, role]
  split
  · rename_i refused
    rw [opened_eq begun, opens] at refused
    cases refused
  · rename_i other
    rw [opened_eq begun, opens] at other
    cases other
    rw [runInnermost]
    show ((s.enter ⟨loop.header, loop.body⟩).runTurns limit calls env ⟨loop.header, loop.body⟩
      gates loop.header.start loop.header.count >>= _) = _
    rw [runTurns_eq turn]
    rfl

end Begun

end Lines

-- Induction on the run. A loop stands on the stack while its body is run, and the lines of a
-- definition need no loop around them. A call leaves fewer definitions for the calls inside it.
theorem linesAdd_runBlock {limit calls width depth : Nat} {macros : List Macro} {env : Environment}
    {lines : List Line} {s : Scope} (begun : s.width? = some width) (outside : s.open? = none)
    (sees : (⟨width, macros, depth, env, lines⟩ : Site).Sees s.macros)
    (bodies : ∀ m ∈ macros, ∀ line ∈ m.body, line.OfBody) (deep : macros.length ≤ calls)
    (plain : s.loops ≠ [] ∨ ∀ line ∈ lines, line.OfBody) :
    s.LinesAdd limit calls env lines (runBlock width macros depth env lines).result := by
  induction macros, depth, env, lines using runBlock.induct generalizing s calls with
  | case1 macros depth env =>
      rw [runBlock]
      exact .nil
  | case2 macros depth env line rest role | case3 macros depth env line rest role
  | case4 macros depth env line rest role | case5 macros depth env line rest role =>
      have own := plain.imp_right fun ofBody => ofBody line List.mem_cons_self
      obtain ⟨fault, refused, first⟩ :=
        keyword_refused outside role (by decide) own width macros depth
      rw [refused]
      exact first.refused
  | case6 macros depth env line rest role fault refused =>
      rw [runBlock_loop_refused role refused]
      exact (lineAdds_loop_refused outside role ((opened_eq begun).trans refused)).refused
  | case7 macros depth env line rest role loop opens ihBody ihAfter =>
      obtain ⟨inBody, inAfter⟩ := openLoop_lines opens
      have turn : ∀ k, (s.enter ⟨loop.header, loop.body⟩).LinesAdd limit calls
          (env.bind loop.header.counter (Float.ofInt k)) loop.body
          (runBlock width macros (depth + 1) (env.bind loop.header.counter (Float.ofInt k))
            loop.body).result := by
        intro k
        refine ihBody k begun outside (sees.fewer rfl fun line inside => ?_) bodies deep ?_
        · exact List.mem_cons_of_mem _ (inBody line inside)
        · exact .inl (List.cons_ne_nil _ _)
      have after : s.LinesAdd limit calls env (s.behind line rest)
          (runBlock width macros depth env loop.after).result := by
        rw [behind_loop outside role opens]
        refine ihAfter begun outside (sees.behind fun line inside => ?_) bodies deep ?_
        · exact List.mem_cons_of_mem _ (inAfter line inside)
        · exact plain.imp_right fun ofBody line inside =>
            ofBody line (List.mem_cons_of_mem _ (inAfter line inside))
      rw [runBlock_loop role opens, Logged.result_bind, unroll_result]
      simp only [Logged.result_bind]
      exact (lineAdds_loop begun outside role opens turn).cons after
  | case8 macros depth env line rest m role ih =>
      have others := plain.imp_right fun ofBody => (List.forall_mem_cons.mp ofBody).2
      have later : s.LinesAdd limit calls env (s.behind line rest)
          (runBlock width macros depth env rest).result := by
        rw [behind_other (by simp [role])]
        exact ih begun outside (sees.behind fun _ => List.mem_cons_of_mem _) bodies deep others
      have whole := (lineAdds_gate begun outside role).cons later
      simp only [bind_assoc, pure_bind, List.singleton_append] at whole
      rw [runBlock_gate role]
      simp only [Logged.result_bind]
      exact whole
  | case9 macros depth env line rest role missing =>
      have missing' := (sees.agree line List.mem_cons_self role).trans missing
      rw [runBlock_unknown role missing]
      exact (lineAdds_unknown outside role missing').refused
  | case10 macros depth env line rest role m older found ihBody ihRest =>
      have visible := (findMacro_suffix found).subset
      have named : findMacro line.head s.macros = some (m, older) :=
        (sees.agree line List.mem_cons_self role).trans found
      have shorter := (findMacro_suffix found).length_le
      rw [List.length_cons] at shorter
      obtain ⟨fewer, rfl⟩ : ∃ fewer, calls = fewer + 1 := ⟨calls - 1, by omega⟩
      have inner : ∀ bound, s.LinesAdd limit fewer bound m.body
          (runBlock width older depth bound m.body).result := by
        intro bound
        refine ihBody bound begun outside (sees.body found bound) ?_ (by omega) ?_
        · exact fun other known => bodies other (visible (List.mem_cons_of_mem m known))
        · exact .inr (bodies m (visible List.mem_cons_self))
      have others := plain.imp_right fun ofBody => (List.forall_mem_cons.mp ofBody).2
      have later : s.LinesAdd limit (fewer + 1) env (s.behind line rest)
          (runBlock width macros depth env rest).result := by
        rw [behind_other (by simp [role])]
        exact ihRest begun outside (sees.behind fun _ => List.mem_cons_of_mem _) bodies deep others
      have whole := (lineAdds_call begun outside role named inner).cons later
      simp only [bind_assoc, pure_bind, List.singleton_append] at whole
      rw [runBlock_call role found]
      simp only [Logged.result_bind]
      exact whole

end QCircuit.Scope
