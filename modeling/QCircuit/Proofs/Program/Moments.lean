import QCircuit.Proofs.Program.SharedStatements
/-! Moments of an interpretation.

A moment is what an interpretation in one scope has at hand when it is about to run lines, those of
the text that are left or those of the body of a loop or a definition. No body changes the scope, so
each line of a body finds it as the first did, and no definition is open there. -/
namespace QCircuit

/-- Lines that are to be run, with the gates so far. -/
structure Moment where
  /-- Whether the lines are those of a body. -/
  inBody : Bool
  /-- How many more calls may stand inside each other. -/
  calls : Nat
  env : Environment
  gates : List (Gate Float)
  scope : Scope
  lines : List Line

/-- The interpretation of a text in one scope comes to a moment: at the start, behind a line that has
been run, at the body of a call, and at the body of a loop in each of its turns. -/
inductive Comes (calls : Nat) (config : Config) (text : String) : Moment → Prop where
  | start : Comes calls config text
      ⟨false, calls, Environment.empty, [], Scope.empty, (Source.ofText text).lines⟩
  | next {inBody more env gates scope line rest scope' gates'}
      (here : Comes calls config text ⟨inBody, more, env, gates, scope, line :: rest⟩)
      (ran : scope.runLine config.qubitLimit more env gates line rest =
        some (scope', .ok gates')) :
      Comes calls config text ⟨inBody, more, env, gates', scope', scope.behind line rest⟩
  | call {inBody fewer env gates scope line rest m bound}
      (here : Comes calls config text ⟨inBody, fewer + 1, env, gates, scope, line :: rest⟩)
      (outside : scope.open? = none) (role : line.role = .name)
      (called : scope.called env line = .ok (m, bound)) :
      Comes calls config text ⟨true, fewer, bound, [], scope, m.body⟩
  | turn {inBody more env gates scope line rest loop scope' gates'} {i : Nat}
      (here : Comes calls config text ⟨inBody, more, env, gates, scope, line :: rest⟩)
      (outside : scope.open? = none) (role : line.role = .keyword .loop)
      (opens : scope.opened env line rest = .ok loop) (inside : i < loop.header.count)
      (earlier : (scope.enter ⟨loop.header, loop.body⟩).runTurns config.qubitLimit more env
        ⟨loop.header, loop.body⟩ gates loop.header.start i = some (scope', .ok gates')) :
      Comes calls config text ⟨true, more,
        env.bind loop.header.counter (Float.ofInt (loop.header.start + i)), gates', scope', loop.body⟩

theorem Visits.snoc {limit : Nat} {st middle last : State} {lines rest : List Line} {line : Line}
    (visits : Visits limit st lines middle (line :: rest))
    (step : Step limit middle line (nextStatement middle line rest).1 last) :
    Visits limit st lines last (nextStatement middle line rest).2 := by
  generalize left : line :: rest = others at visits
  induction visits with
  | here =>
      subst left
      exact .next step (.here last _)
  | next first _ ih => exact .next first (ih step left)

theorem Visits.macros_length_le {limit : Nat} {st : State} {lines left : List Line}
    (visits : Visits limit State.empty lines st left) : st.macros.length ≤ lines.length := by
  have start : State.empty.macros.length + lines.length ≤ lines.length := by
    simp [State.empty]
  have fewer := visits.invariant (P := fun st left => st.macros.length + left.length ≤ lines.length)
    (fun step before => step.macros_length.trans before) start
  exact (Nat.le_add_right _ _).trans fewer

/-- What holds at a moment: outside bodies it is a state on the way. A body is run outside definitions,
in a loop or with lines that have been checked, and sees no more definitions than calls are left. -/
inductive Settled (calls : Nat) (config : Config) (text : String) : Moment → Prop where
  | between {st : State} {left : List Line}
      (visits : Visits config.qubitLimit State.empty (Source.ofText text).lines st left) :
      Settled calls config text ⟨false, calls, Environment.empty, st.gates, st.scope, left⟩
  | inside {more : Nat} {env : Environment} {gates : List (Gate Float)} {scope : Scope}
      {macros : List Macro} {lines : List Line} (outside : scope.open? = none)
      (registered : Registered scope.macros)
      (bodies : ∀ m ∈ scope.macros, ∀ line ∈ m.body, line.OfBody)
      (sees : (⟨0, macros, 0, env, lines⟩ : Site).Sees scope.macros)
      (among : macros ⊆ scope.macros) (deep : macros.length ≤ more)
      (plain : scope.loops ≠ [] ∨ ∀ line ∈ lines, line.OfBody) :
      Settled calls config text ⟨true, more, env, gates, scope, lines⟩

theorem opened_eq_ok {s : Scope} {env : Environment} {line : Line} {rest : List Line} {loop : Loop}
    (opens : s.opened env line rest = .ok loop) :
    ∃ width, s.width? = some width ∧ openLoop env line rest = .ok loop := by
  simp only [Scope.opened, bind_eq_ok] at opens
  obtain ⟨width, requires, opens⟩ := opens
  unfold Scope.requireWidth at requires
  cases begun : s.width? with
  | none => simp [begun] at requires
  | some _ => exact ⟨_, rfl, opens⟩

theorem called_eq_ok {s : Scope} {env : Environment} {line : Line} {m : Macro} {bound : Environment}
    (called : s.called env line = .ok (m, bound)) :
    ∃ older, findMacro line.head s.macros = some (m, older) := by
  unfold Scope.called at called
  cases found : findMacro line.head s.macros with
  | none => simp [found] at called
  | some pair =>
      simp only [found, bind_eq_ok, Except.ok.injEq, Prod.mk.injEq] at called
      obtain ⟨_, _, _, _, rfl, _⟩ := called
      exact ⟨pair.2, rfl⟩

namespace Settled
variable {calls : Nat} {config : Config} {text : String}

section Table
variable {m : Moment} (settled : Settled calls config text m)
include settled

theorem registered : Registered m.scope.macros := by
  cases settled with
  | between visits => exact visits.defined.registered
  | inside _ registered => exact registered

theorem bodies : ∀ d ∈ m.scope.macros, ∀ line ∈ d.body, line.OfBody := by
  cases settled with
  | between visits => exact visits.bodies.closed
  | inside _ _ bodies => exact bodies

/-- The definitions that the lines of a moment see. -/
theorem exists_visible (enough : (Source.ofText text).lines.length ≤ calls) :
    ∃ macros : List Macro, (⟨0, macros, 0, m.env, m.lines⟩ : Site).Sees m.scope.macros ∧
      macros ⊆ m.scope.macros ∧ macros.length ≤ m.calls := by
  cases settled with
  | @between st left visits =>
      refine ⟨st.macros, ?_, List.Subset.refl _, visits.macros_length_le.trans enough⟩
      exact ⟨visits.defined.registered, fun _ _ => rfl, fun _ _ _ => rfl⟩
  | inside _ _ _ sees among deep => exact ⟨_, sees, among, deep⟩

end Table

section Line
variable (enough : (Source.ofText text).lines.length ≤ calls) {inBody : Bool} {more : Nat}
  {env : Environment} {gates gates' : List (Gate Float)} {scope scope' : Scope} {line : Line}
  {rest : List Line}
include enough

theorem next (settled : Settled calls config text ⟨inBody, more, env, gates, scope, line :: rest⟩)
    (ran : scope.runLine config.qubitLimit more env gates line rest = some (scope', .ok gates')) :
    Settled calls config text ⟨inBody, more, env, gates', scope', scope.behind line rest⟩ := by
  cases settled with
  | @between st _ visits =>
      have deep := visits.macros_length_le.trans enough
      rw [runLine_perform visits.defined visits.bodies deep] at ran
      rcases performed : perform config.qubitLimit st line (nextStatement st line rest).1 with
        ⟨next, log, fault | _⟩
      · rw [performed] at ran
        cases ran
      · rw [performed] at ran
        cases ran
        exact .between (visits.snoc (perform_eq_ok.mp ⟨log, performed⟩))
  | inside outside registered bodies sees among deep plain =>
      have own := plain.imp_right fun ofBody => ofBody line List.mem_cons_self
      have visible := fun m known => bodies m (among known)
      obtain ⟨new, first⟩ := @Scope.exists_lineAdds config.qubitLimit more _ _ env scope _ line rest
        outside sees visible deep own
      have behind : ∀ other ∈ scope.behind line rest, other ∈ line :: rest :=
        fun other member => List.mem_cons_of_mem line (mem_nextStatement member)
      rw [first gates] at ran
      cases new with
      | error fault => cases ran
      | ok new =>
          cases ran
          exact .inside outside registered bodies (sees.fewer rfl behind) among deep
            (plain.imp_right fun ofBody other member => ofBody other (behind other member))

theorem call (settled : Settled calls config text
      ⟨inBody, more + 1, env, gates, scope, line :: rest⟩) (outside : scope.open? = none)
    (role : line.role = .name) {m : Macro} {bound : Environment}
    (called : scope.called env line = .ok (m, bound)) :
    Settled calls config text ⟨true, more, bound, [], scope, m.body⟩ := by
  obtain ⟨macros, sees, among, deep⟩ := settled.exists_visible enough
  obtain ⟨older, found⟩ := called_eq_ok called
  have named : findMacro line.head macros = some (m, older) :=
    (sees.agree line List.mem_cons_self role).symm.trans found
  have visible := findMacro_suffix named
  have shorter := visible.length_le
  rw [List.length_cons] at shorter
  have inner := sees.body named bound
  have fewer : older ⊆ scope.macros := fun d known =>
    among (visible.subset (List.mem_cons_of_mem m known))
  refine .inside outside settled.registered settled.bodies inner fewer ?_ ?_
  · exact Nat.le_of_succ_le_succ (shorter.trans deep)
  · exact .inr (settled.bodies m (among (visible.subset List.mem_cons_self)))

-- The turns before give back the scope with the loop on it.
theorem turn (settled : Settled calls config text ⟨inBody, more, env, gates, scope, line :: rest⟩)
    {loop : Loop} {i : Nat} (outside : scope.open? = none)
    (opens : scope.opened env line rest = .ok loop)
    (earlier : (scope.enter ⟨loop.header, loop.body⟩).runTurns config.qubitLimit more env
      ⟨loop.header, loop.body⟩ gates loop.header.start i = some (scope', .ok gates'))
    (env' : Environment) : Settled calls config text ⟨true, more, env', gates', scope', loop.body⟩ := by
  obtain ⟨macros, sees, among, deep⟩ := settled.exists_visible enough
  obtain ⟨width, begun, opens⟩ := opened_eq_ok opens
  have inBody := (openLoop_lines opens).1
  have visible := fun m known => settled.bodies m (among known)
  have inner : (⟨0, macros, 0, env', loop.body⟩ : Site).Sees scope.macros :=
    sees.fewer rfl fun other member => List.mem_cons_of_mem line (inBody other member)
  have sees' : (⟨width, macros, 0, env, line :: rest⟩ : Site).Sees scope.macros :=
    sees.fewer rfl fun _ => id
  rw [Scope.runTurns_eq (Scope.linesAdd_turn outside sees' visible deep begun opens)] at earlier
  cases result : (repeatFrom _ loop.header.start i).result with
  | error fault =>
      rw [result] at earlier
      cases earlier
  | ok new =>
      rw [result] at earlier
      cases earlier
      exact .inside outside settled.registered settled.bodies inner among deep
        (.inl (List.cons_ne_nil _ _))

end Line
end Settled

theorem Comes.settled {calls : Nat} {config : Config} {text : String} {m : Moment}
    (enough : (Source.ofText text).lines.length ≤ calls) (comes : Comes calls config text m) :
    Settled calls config text m := by
  induction comes with
  | start => exact .between (.here State.empty _)
  | next _ ran ih => exact ih.next enough ran
  | call _ outside role called ih => exact ih.call enough outside role called
  | turn _ outside _ opens _ earlier ih => exact ih.turn enough outside opens earlier _

-- The states on the way are the moments outside bodies.
theorem Visits.comes {calls : Nat} {config : Config} {text : String} {st : State} {left : List Line}
    (enough : (Source.ofText text).lines.length ≤ calls)
    (visits : Visits config.qubitLimit State.empty (Source.ofText text).lines st left) :
    Comes calls config text ⟨false, calls, Environment.empty, st.gates, st.scope, left⟩ := by
  have start : Visits config.qubitLimit State.empty (Source.ofText text).lines State.empty
        (Source.ofText text).lines ∧
      Comes calls config text ⟨false, calls, Environment.empty, State.empty.gates,
        State.empty.scope, (Source.ofText text).lines⟩ := ⟨.here _ _, .start⟩
  refine (visits.invariant (P := fun st left =>
    Visits config.qubitLimit State.empty (Source.ofText text).lines st left ∧
      Comes calls config text ⟨false, calls, Environment.empty, st.gates, st.scope, left⟩)
    ?_ start).2
  rintro st next line rest step ⟨visits, comes⟩
  obtain ⟨log, performed⟩ := perform_eq_ok.mpr step
  have deep := visits.macros_length_le.trans enough
  have ran : st.scope.runLine config.qubitLimit calls Environment.empty st.gates line rest =
      some (next.scope, .ok next.gates) := by
    rw [runLine_perform visits.defined visits.bodies deep, performed]
    rfl
  exact ⟨visits.snoc step, comes.next ran⟩

/-- Interpreting in one scope, which every line may change, gives the result of `interpret` and
passes through the same states, if there may be as many calls inside each other as there are lines.
In a body no definition is open at any moment. At each moment at which none is open, any loop and any
call of a definition, the one that comes next or another, gives back the scope as it was, whether or
not it is refused, and puts its gates behind those so far. -/
theorem loops_and_calls_keep_scope (config : Config) (text : String) {calls : Nat}
    (enough : (Source.ofText text).lines.length ≤ calls) :
    interpretShared calls config text = some (interpret config text).result ∧
    (∀ st left, Visits config.qubitLimit State.empty (Source.ofText text).lines st left →
      Comes calls config text ⟨false, calls, Environment.empty, st.gates, st.scope, left⟩) ∧
    ∀ m : Moment, Comes calls config text m → (m.inBody = true → m.scope.open? = none) ∧
      (m.scope.open? = none → ∀ (line : Line) (rest : List Line),
        line.role = .keyword .loop ∨ (findMacro line.head m.scope.macros).isSome = true →
        ∀ more, m.lines = line :: rest ∧ m.calls ≤ more ∨ m.scope.macros.length ≤ more →
          ∀ (env : Environment) (gates : List (Gate Float)), ∃ result,
            m.scope.runLine config.qubitLimit more env gates line rest = some (m.scope, result) ∧
            ∀ gates', result = .ok gates' → gates <+: gates') := by
  refine ⟨interpretShared_eq config text enough, fun _ _ => Visits.comes enough, fun m comes =>
    ⟨fun body => ?_, ?_⟩⟩
  · cases comes.settled enough with
    | between visits => cases body
    | inside outside => exact outside
  · intro outside line rest adds more room env gates
    have settled := comes.settled enough
    have ofBody : line.OfBody := by
      rcases adds with role | known
      · exact .inl (by simp [role, Role.addsGates])
      · exact .inl (by simp [settled.registered.role known, Role.addsGates])
    obtain ⟨macros, sees, among, deep⟩ : ∃ macros : List Macro,
        (⟨0, macros, 0, env, line :: rest⟩ : Site).Sees m.scope.macros ∧
          macros ⊆ m.scope.macros ∧ macros.length ≤ more := by
      rcases room with ⟨comesNext, fewer⟩ | all
      · obtain ⟨macros, sees, among, deep⟩ := settled.exists_visible enough
        have same : (⟨0, macros, 0, env, line :: rest⟩ : Site).Sees m.scope.macros :=
          sees.fewer rfl fun _ inside => comesNext ▸ inside
        exact ⟨macros, same, among, deep.trans fewer⟩
      · exact ⟨m.scope.macros, ⟨settled.registered, fun _ _ => rfl, fun _ _ _ => rfl⟩,
          List.Subset.refl _, all⟩
    have visible := fun d known => settled.bodies d (among known)
    obtain ⟨new, first⟩ := @Scope.exists_lineAdds config.qubitLimit more _ _ env m.scope _ line rest
      outside sees visible deep (.inr ofBody)
    refine ⟨_, first gates, fun gates' accepted => ?_⟩
    cases new with
    | error fault => cases accepted
    | ok new =>
        cases accepted
        exact List.prefix_append gates new

-- In a circuit of one qubit, the turn is refused inside the call.
def flippingText : String := "init 1\ndef flip $q\nX $q\nendef\nfor $i 2:2\nflip $i\nendfor"

def flippingFront : List Line :=
  [⟨1, "init", ["1"]⟩, ⟨2, "def", ["flip", "$q"]⟩, ⟨3, "X", ["$q"]⟩, ⟨4, "endef", []⟩]

def flippingBack : List Line :=
  [⟨5, "for", ["$i", "2:2"]⟩, ⟨6, "flip", ["$i"]⟩, ⟨7, "endfor", []⟩]

def flippingState : State := stateAfter 1 flippingFront

def flippingFrame : Frame := ⟨⟨"$i", 2, 2⟩, [⟨6, "flip", ["$i"]⟩]⟩

theorem loops_and_calls_keep_scope_refused_turn :
    (Source.ofText flippingText).lines.length ≤ 7 ∧
      ∃ (m : Moment) (fault : Fault), Comes 7 ⟨1⟩ flippingText m ∧ m.inBody = true ∧
        m.scope = flippingState.scope.enter flippingFrame ∧ m.lines = [⟨6, "flip", ["$i"]⟩] ∧
        m.scope.open? = none ∧ m.scope.runLine 1 m.calls m.env m.gates ⟨6, "flip", ["$i"]⟩ [] =
          some (m.scope, .error fault) := by
  have whole : (Source.ofText flippingText).lines = flippingFront ++ flippingBack := by
    decide +kernel
  have enough : (Source.ofText flippingText).lines.length ≤ 7 := by
    rw [whole]
    decide
  have front : Prepares 1 flippingFront := ⟨by decide +kernel, by decide +kernel, by decide +kernel⟩
  have visits : Visits (Config.qubitLimit ⟨1⟩) State.empty (Source.ofText flippingText).lines
      flippingState flippingBack := by
    rw [whole]
    exact front.reaches.visits_front flippingBack
  have begun : flippingState.scope.width? = some 1 := by decide +kernel
  have outside : flippingState.scope.open? = none := by decide +kernel
  have known : (findMacro "flip" flippingState.scope.macros).isSome = true := by decide +kernel
  have deep : flippingState.scope.macros.length ≤ 7 := by decide +kernel
  have opens : openLoop Environment.empty ⟨5, "for", ["$i", "2:2"]⟩ [⟨6, "flip", ["$i"]⟩,
      ⟨7, "endfor", []⟩] = .ok ⟨flippingFrame.header, flippingFrame.body, []⟩ := openLoop_eq_ok.mpr
    ⟨readHeader_eq_ok.mp (by decide +kernel), ⟨7, "endfor", []⟩, by decide +kernel, rfl⟩
  let env : Environment := Environment.empty.bind "$i" (Float.ofInt (2 + (0 : Nat)))
  have here : Comes 7 ⟨1⟩ flippingText ⟨true, 7, env, flippingState.gates,
      flippingState.scope.enter flippingFrame, flippingFrame.body⟩ := by
    refine (visits.comes enough).turn outside (by decide) ((Scope.opened_eq begun).trans opens)
      (by decide) ?_
    rw [Scope.runTurns]
  obtain ⟨unchanged, kept⟩ := (loops_and_calls_keep_scope ⟨1⟩ flippingText enough).2.2 _ here
  obtain ⟨result, ran, -⟩ := kept (unchanged rfl) ⟨6, "flip", ["$i"]⟩ [] (.inr known) 7
    (.inl ⟨rfl, Nat.le_refl 7⟩) env flippingState.gates
  have sees : (⟨1, flippingState.scope.macros, 1, env, [⟨6, "flip", ["$i"]⟩]⟩ : Site).Sees
      flippingState.scope.macros :=
    ⟨visits.defined.registered, fun _ _ => rfl, fun _ _ _ => rfl⟩
  have answers := @Scope.lineAdds_statement 1 7 1 1 env (flippingState.scope.enter flippingFrame)
    flippingState.scope.macros ⟨6, "flip", ["$i"]⟩ [] outside sees visits.bodies.closed deep begun
    State.empty rfl trivial (fun _ => known)
  have refused : (refusal? (runBlock 1 flippingState.scope.macros 1 env
      (nextStatement State.empty ⟨6, "flip", ["$i"]⟩ []).1).result).isSome = true := by
    decide +kernel
  obtain ⟨fault, refused⟩ := Option.isSome_iff_exists.mp refused
  rw [refusal?_eq_some_iff] at refused
  rw [refused] at answers
  cases (answers flippingState.gates).symm.trans ran
  exact ⟨enough, _, fault, here, rfl, rfl, rfl, unchanged rfl, ran⟩

end QCircuit
