import QCircuit.Proofs.Program.Sequencing
import QCircuit.Proofs.Program.Statements
/-! Lines outside definitions.

Accepted lines can be carried out up to any point between two statements and then from there on. In
an initialised circuit and outside definitions, balanced lines that begin no definition add the
gates that they expand to, whether they are taken as one statement or as several. -/
namespace QCircuit

theorem nextStatement_loop {st : State} {line closing : Line} {body after : List Line}
    (outside : st.open? = none) (opens : line.role = .keyword .loop) (balanced : Balanced body)
    (closes : closing.role = .keyword .endLoop) :
    nextStatement st line (body ++ closing :: after) = (line :: (body ++ [closing]), after) := by
  have found : splitLoop 0 (body ++ closing :: after) = some (body, closing, after) :=
    splitLoop_eq_some_iff.mpr ⟨rfl, balanced, closes⟩
  simp [nextStatement, outside, opens, found]

-- A statement that ends inside the lines does not reach behind them.
theorem nextStatement_append {st : State} {line : Line} {rest : List Line}
    (closed : st.open? = none → line.role = .keyword .loop → (splitLoop 0 rest).isSome = true)
    (more : List Line) : nextStatement st line (rest ++ more) =
      ((nextStatement st line rest).1, (nextStatement st line rest).2 ++ more) := by
  cases inside : st.open? with
  | some d => rw [nextStatement_inside inside, nextStatement_inside inside]
  | none =>
      by_cases opens : line.role = .keyword .loop
      · obtain ⟨⟨body, closing, after⟩, found⟩ := Option.isSome_iff_exists.mp (closed inside opens)
        obtain ⟨rfl, balanced, closes⟩ := splitLoop_eq_some_iff.mp found
        rw [List.append_assoc, List.cons_append, nextStatement_loop inside opens balanced closes,
          nextStatement_loop inside opens balanced closes]
      · rw [nextStatement_other _ opens, nextStatement_other _ opens]

-- A loop that is accepted as a statement has been closed.
theorem Step.nextStatement_append {limit : Nat} {st next : State} {line : Line} {rest : List Line}
    (step : Step limit st line (nextStatement st line rest).1 next) (more : List Line) :
    nextStatement st line (rest ++ more) =
      ((nextStatement st line rest).1, (nextStatement st line rest).2 ++ more) := by
  apply QCircuit.nextStatement_append
  intro outside opens
  cases found : splitLoop 0 rest with
  | some parts => rfl
  | none =>
      have whole : (nextStatement st line rest).1 = line :: rest := by
        simp [nextStatement, outside, opens, found]
      rw [whole] at step
      cases step with
      | capture inside | close inside => simp [outside] at inside
      | initialise _ role | define _ role => simp [opens] at role
      | add _ _ _ _ expands =>
          cases expands with
          | gate role | call role => simp [opens] at role
          | loop _ _ closes =>
              obtain ⟨_, split, _⟩ := closes
              rw [found] at split
              cases split

theorem Reaches.append_iff {limit : Nat} {st middle last : State} {first second : List Line}
    (reached : Reaches limit st first middle) :
    Reaches limit st (first ++ second) last ↔ Reaches limit middle second last := by
  induction reached with
  | stay => rw [List.nil_append]
  | next step _ ih =>
      rw [← ih, List.cons_append]
      have split := step.nextStatement_append second
      constructor
      · intro whole
        cases whole with
        | next step' later' =>
            rw [split] at step' later'
            exact step.deterministic step' ▸ later'
      · intro later
        have first : nextStatement _ _ _ = (_, _) := split
        rw [Prod.ext_iff] at first
        exact .next (first.1 ▸ step) (first.2 ▸ later)

/-- The state with more gates. -/
def State.add (st : State) (new : List (Gate Float)) : State := { st with gates := st.gates ++ new }

section Block
variable {limit width : Nat} {st last : State} (outside : st.open? = none)
  (initialised : st.width? = some width)
include outside initialised

theorem reaches_statement_iff {line : Line} {rest statement after : List Line}
    (adds : line.role.addsGates) (next : nextStatement st line rest = (line :: statement, after)) :
    Reaches limit st (line :: rest) last ↔ ∃ new,
      Expands width st.macros Environment.empty (line :: statement) new ∧
        Reaches limit (st.add new) after last := by
  constructor
  · intro reached
    cases reached with
    | next step later =>
        rw [next] at step later
        cases step with
        | capture inside | close inside => simp [outside] at inside
        | initialise _ role | define _ role => simp [role, Role.addsGates] at adds
        | add _ _ found _ expands =>
            rw [initialised, Option.some.injEq] at found
            subst found
            exact ⟨_, expands, later⟩
  · rintro ⟨new, expands, later⟩
    have known : line.role = .name → (findMacro line.head st.macros).isSome := by
      intro role
      obtain ⟨m, older, _, _, _, found, _⟩ := (expands_call_iff role).mp expands
      rw [found]
      rfl
    have step : Step limit st line (nextStatement st line rest).1 (st.add new) := by
      rw [next]
      exact .add outside adds initialised known expands
    have behind : Reaches limit (st.add new) (nextStatement st line rest).2 last := by
      rw [next]
      exact later
    exact .next step behind

end Block

theorem State.add_add (st : State) (first second : List (Gate Float)) :
    (st.add first).add second = st.add (first ++ second) := by
  simp only [State.add, List.append_assoc]

-- A balanced statement in front of lines that add what they expand to.
theorem reaches_front_iff {limit width : Nat} {st last : State} {statement rest after : List Line}
    (balanced : Balanced statement)
    (later : ∀ new, Reaches limit (st.add new) (rest ++ after) last ↔ ∃ more,
      Expands width st.macros Environment.empty rest more ∧
        Reaches limit ((st.add new).add more) after last) :
    (∃ new, Expands width st.macros Environment.empty statement new ∧
        Reaches limit (st.add new) (rest ++ after) last) ↔
      ∃ new, Expands width st.macros Environment.empty (statement ++ rest) new ∧
        Reaches limit (st.add new) after last := by
  simp only [later, expands_append_iff balanced, State.add_add]
  constructor
  · rintro ⟨front, first, back, second, reached⟩
    exact ⟨_, ⟨front, back, first, second, rfl⟩, reached⟩
  · rintro ⟨_, ⟨front, back, first, second, rfl⟩, reached⟩
    exact ⟨front, first, back, second, reached⟩

theorem not_reaches_init {limit width : Nat} {st last : State} {line : Line} {rest : List Line}
    (role : line.role = .keyword .init) (outside : st.open? = none)
    (initialised : st.width? = some width) : ¬ Reaches limit st (line :: rest) last := by
  intro reached
  cases reached with
  | next step =>
      cases step with
      | capture inside | close inside => simp [outside] at inside
      | initialise _ _ fresh => simp [initialised] at fresh
      | define _ role' => simp [role] at role'
      | add _ adds => simp [role, Role.addsGates] at adds

theorem reaches_block_iff {limit width : Nat} {st last : State} {block after : List Line}
    (balanced : Balanced block) (plain : DefinesNothing block) (outside : st.open? = none)
    (initialised : st.width? = some width) :
    Reaches limit st (block ++ after) last ↔ ∃ new,
      Expands width st.macros Environment.empty block new ∧
        Reaches limit (st.add new) after last := by
  induction balanced generalizing st with
  | nil => simp [expands_nil_iff, State.add]
  | @line line rest flat _ ih =>
      rw [DefinesNothing, List.forall_mem_cons] at plain
      have later := reaches_front_iff (.line flat .nil) fun new =>
        @ih (st.add new) plain.2 outside initialised
      have next : nextStatement st line (rest ++ after) = ([line], rest ++ after) :=
        nextStatement_other _ flat.1
      cases role : line.role with
      | keyword k =>
          cases k with
          | init =>
              simp [not_reaches_init role outside initialised,
                not_expands_keyword role (k := .init) (by decide)]
          | define => exact absurd role plain.1.1
          | endDefine => exact absurd role plain.1.2
          | loop => exact absurd role flat.1
          | endLoop => exact absurd role flat.2
      | gate m =>
          have adds : line.role.addsGates := by simp [role, Role.addsGates]
          exact (reaches_statement_iff outside initialised adds next).trans later
      | name =>
          have adds : line.role.addsGates := by simp [role, Role.addsGates]
          exact (reaches_statement_iff outside initialised adds next).trans later
  | @loop head closing body rest opens closes inner _ _ ih =>
      have plainRest : DefinesNothing rest := by
        intro line inside
        exact plain line (by simp [inside])
      have later := reaches_front_iff (.loop opens closes inner .nil) fun new =>
        @ih (st.add new) plainRest outside initialised
      have next : nextStatement st head (body ++ closing :: (rest ++ after)) =
          (head :: (body ++ [closing]), rest ++ after) :=
        nextStatement_loop outside opens inner closes
      have adds : head.role.addsGates := by simp [opens, Role.addsGates]
      have split : head :: (body ++ closing :: rest) ++ after =
          head :: (body ++ closing :: (rest ++ after)) := by simp
      have split' : head :: (body ++ closing :: rest) = head :: (body ++ [closing]) ++ rest := by simp
      rw [split, split']
      exact (reaches_statement_iff outside initialised adds next).trans later

section Gates
variable {limit : Nat} {st next last : State} {line : Line} {lines statement : List Line}

theorem keepsGates (kept : next.gates = st.gates)
    (step : ∀ gates, Step limit { st with gates := gates } line statement
      { next with gates := gates }) :
    next.gates = st.gates ++ [] ∧ ∀ gates : List (Gate Float),
      Step limit { st with gates := gates } line statement { next with gates := gates ++ [] } := by
  simp only [List.append_nil]
  exact ⟨kept, step⟩

-- The gates of the lines before do not matter to a step.
theorem Step.anyGates (step : Step limit st line statement next) : ∃ later : List (Gate Float),
    next.gates = st.gates ++ later ∧ ∀ gates, Step limit { st with gates := gates } line statement
      { next with gates := gates ++ later } := by
  cases step with
  | capture inside taken => exact ⟨[], keepsGates rfl fun _ => .capture inside taken⟩
  | close inside taken => exact ⟨[], keepsGates rfl fun _ => .close inside taken⟩
  | initialise outside role fresh asks =>
      exact ⟨[], keepsGates rfl fun _ => .initialise outside role fresh asks⟩
  | define outside role opens => exact ⟨[], keepsGates rfl fun _ => .define outside role opens⟩
  | add outside adds found known expands =>
      exact ⟨_, rfl, fun gates => .add outside adds found known expands⟩

theorem Reaches.anyGates (reached : Reaches limit st lines last) : ∃ later : List (Gate Float),
    last.gates = st.gates ++ later ∧ ∀ gates, Reaches limit { st with gates := gates } lines
      { last with gates := gates ++ later } := by
  induction reached with
  | stay st =>
      refine ⟨[], (List.append_nil _).symm, fun gates => ?_⟩
      rw [List.append_nil]
      exact .stay _
  | next step _ ih =>
      obtain ⟨new, added, step'⟩ := step.anyGates
      obtain ⟨later, whole, reached'⟩ := ih
      refine ⟨new ++ later, ?_, fun gates => ?_⟩
      · rw [whole, added, List.append_assoc]
      · rw [← List.append_assoc]
        exact .next (step' gates) (reached' (gates ++ new))

end Gates

/-- Lines add these gates to those of a state, and end outside definitions. -/
def Adds (limit : Nat) (st : State) (lines : List Line) (width : Nat)
    (later : List (Gate Float)) : Prop :=
  ∃ last, Reaches limit st lines last ∧ last.open? = none ∧ last.width? = some width ∧
    last.gates = st.gates ++ later

theorem Adds.anyGates {limit : Nat} {st : State} {lines : List Line} {width : Nat}
    {later : List (Gate Float)} (adds : Adds limit st lines width later)
    (gates : List (Gate Float)) : Adds limit { st with gates := gates } lines width later := by
  obtain ⟨last, reached, outside, found, whole⟩ := adds
  obtain ⟨later', whole', reached'⟩ := reached.anyGates
  have same : later' = later := List.append_cancel_left (whole'.symm.trans whole)
  exact ⟨_, reached' gates, outside, found, by rw [same]⟩

/-- The state in which lines end, or at which they are refused. -/
def stateAfter (limit : Nat) (lines : List Line) : State :=
  (interpretLines limit State.empty lines).1

/-- Lines that are accepted and leave an initialised circuit with no open definition. -/
structure Prepares (limit : Nat) (lines : List Line) : Prop where
  accepted : (interpretLines limit State.empty lines).2.result = .ok ()
  outside : (stateAfter limit lines).open? = none
  initialised : (stateAfter limit lines).width?.isSome = true

namespace Prepares
variable {limit : Nat} {before : List Line} (prepared : Prepares limit before)
include prepared

theorem reaches : Reaches limit State.empty before (stateAfter limit before) := by
  have accepted := prepared.accepted
  rw [← interpretLines_eq_ok]
  rcases ran : interpretLines limit State.empty before with ⟨last, log, result⟩
  rw [ran] at accepted
  obtain rfl : result = .ok () := accepted
  have same : stateAfter limit before = last := by rw [stateAfter, ran]
  exact ⟨log, by rw [same]⟩

/-- A program with a block in it has the gates of the lines before the block, those that the block
expands to, and those of the lines behind it, which do not depend on the block. -/
theorem accepts_block_iff {width : Nat} (found : (stateAfter limit before).width? = some width)
    {block after : List Line} (balanced : Balanced block) (plain : DefinesNothing block)
    (p : Program) : Accepts limit (before ++ (block ++ after)) p ↔ ∃ new later,
      Expands width (stateAfter limit before).macros Environment.empty block new ∧
        Adds limit (stateAfter limit before) after p.numQubits later ∧
          p.gates = (stateAfter limit before).gates ++ (new ++ later) := by
  simp only [Accepts, prepared.reaches.append_iff,
    reaches_block_iff balanced plain prepared.outside found]
  constructor
  · rintro ⟨last, ⟨new, expands, reached⟩, outside, width_eq, gates⟩
    obtain ⟨later, whole, _⟩ := reached.anyGates
    have adds : Adds limit ((stateAfter limit before).add new) after p.numQubits later :=
      ⟨last, reached, outside, width_eq, whole⟩
    refine ⟨new, later, expands, adds.anyGates _, ?_⟩
    rw [← gates, whole, State.add, List.append_assoc]
  · rintro ⟨new, later, expands, adds, gates⟩
    obtain ⟨last, reached, outside, width_eq, whole⟩ :=
      adds.anyGates ((stateAfter limit before).gates ++ new)
    refine ⟨last, ⟨new, expands, reached⟩, outside, width_eq, ?_⟩
    rw [gates, whole, List.append_assoc]

end Prepares
end QCircuit
