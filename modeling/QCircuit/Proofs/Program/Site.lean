import QCircuit.Proofs.Program.CallOrder
/-! Points of an interpretation.

A statement that adds gates runs its lines, and for a loop or a call the lines of a body. A site is
such a place: the lines that are to be run next and what they see. The interpretation comes to a site
if nothing in front of it has been refused, so a site whose lines are refused ends the
interpretation with the same fault. -/
namespace QCircuit

/-- Lines in a circuit of `width` qubits, the definitions that they see, the number of loops around
them, and the variables. -/
structure Site where
  width : Nat
  macros : List Macro
  depth : Nat
  env : Environment
  lines : List Line

namespace Site

def run (s : Site) : Except Fault (List (Gate Float)) :=
  (runBlock s.width s.macros s.depth s.env s.lines).result

/-- The same place with other lines. -/
def behind (s : Site) (lines : List Line) : Site := { s with lines := lines }

/-- The body of a definition, which sees the definitions before it and its parameters. -/
def body (s : Site) (m : Macro) (older : List Macro) (bound : Environment) : Site :=
  { s with macros := older, env := bound, lines := m.body }

/-- The body of a loop in a turn of it, where turns are counted from zero. -/
def turn (s : Site) (loop : Loop) (i : Nat) : Site where
  width := s.width
  macros := s.macros
  depth := s.depth + 1
  env := s.env.bind loop.header.counter (Float.ofInt (loop.header.start + i))
  lines := loop.body

end Site

-- The turns after the first that is refused are not run.
theorem repeatFrom_refused {α : Type} {body : Int → Logged (List α)} {k : Int} {count i : Nat}
    {turns : Nat → List α} {fault : Fault} (inside : i < count)
    (earlier : ∀ j < i, (body (k + j)).result = .ok (turns j))
    (refused : (body (k + i)).result = .error fault) :
    (repeatFrom body k count).result = .error fault := by
  induction count generalizing k i turns with
  | zero => omega
  | succ count ih =>
      rw [repeatFrom_succ, Logged.result_bind]
      cases i with
      | zero =>
          rw [Nat.cast_zero, Int.add_zero] at refused
          rw [refused]
          rfl
      | succ i =>
          have first := earlier 0 (Nat.succ_pos i)
          rw [Nat.cast_zero, Int.add_zero] at first
          have shifted : ∀ j : Nat, k + 1 + j = k + (j + 1 : Nat) := fun j => by omega
          have later : (repeatFrom body (k + 1) count).result = .error fault := by
            apply @ih (k + 1) i (fun j => turns (j + 1)) (Nat.lt_of_succ_lt_succ inside)
            · intro j before
              rw [shifted]
              exact earlier (j + 1) (Nat.succ_lt_succ before)
            · rw [shifted]
              exact refused
          rw [first]
          show (repeatFrom body (k + 1) count >>= fun later => pure (turns 0 ++ later)).result = _
          rw [Logged.result_bind, later]
          rfl

section Run
variable {s : Site} {line : Line} {rest : List Line} (first : s.lines = line :: rest)
include first

theorem Site.run_gate {m : Mnemonic} (role : line.role = .gate m) : s.run = (do
    let op ← placeGate s.width s.env line m
    let later ← (s.behind rest).run
    pure (.standard op :: later)) := by
  simp only [run, first, runBlock_gate role, Logged.result_bind]
  rfl

theorem Site.run_call {m : Macro} {older : List Macro} (role : line.role = .name)
    (found : findMacro line.head s.macros = some (m, older)) : s.run = (do
    let bound ← bindArguments s.env line m
    let members ← (s.body m older bound).run
    let later ← (s.behind rest).run
    pure (.composite m.name members :: later)) := by
  simp only [run, first, runBlock_call role found, Logged.result_bind]
  rfl

theorem Site.run_loop {loop : Loop} (role : line.role = .keyword .loop)
    (opened : openLoop s.env line rest = .ok loop) : s.run = (do
    let inner ← (repeatFrom (fun k => runBlock s.width s.macros (s.depth + 1)
      (s.env.bind loop.header.counter (Float.ofInt k)) loop.body)
      loop.header.start loop.header.count).result
    let later ← (s.behind loop.after).run
    pure (inner ++ later)) := by
  simp only [run, first, runBlock_loop role opened, Logged.result_bind, unroll_result]
  rfl

end Run

/-- Running the lines of the first site comes to the second. -/
inductive Passes : Site → Site → Prop where
  | here (s : Site) : Passes s s
  | gate {s t : Site} {line rest m op} (first : s.lines = line :: rest) (role : line.role = .gate m)
      (placed : placeGate s.width s.env line m = .ok op) (later : Passes (s.behind rest) t) :
      Passes s t
  | inCall {s t : Site} {line rest m older bound} (first : s.lines = line :: rest)
      (role : line.role = .name) (found : findMacro line.head s.macros = some (m, older))
      (binds : bindArguments s.env line m = .ok bound) (inner : Passes (s.body m older bound) t) :
      Passes s t
  | afterCall {s t : Site} {line rest m older bound members} (first : s.lines = line :: rest)
      (role : line.role = .name) (found : findMacro line.head s.macros = some (m, older))
      (binds : bindArguments s.env line m = .ok bound)
      (ran : (s.body m older bound).run = .ok members) (later : Passes (s.behind rest) t) :
      Passes s t
  | inLoop {s t : Site} {line rest loop} {i : Nat} {turns : Nat → List (Gate Float)}
      (first : s.lines = line :: rest) (role : line.role = .keyword .loop)
      (opened : openLoop s.env line rest = .ok loop) (inside : i < loop.header.count)
      (earlier : ∀ j < i, (s.turn loop j).run = .ok (turns j)) (inner : Passes (s.turn loop i) t) :
      Passes s t
  | afterLoop {s t : Site} {line rest loop} {turns : Nat → List (Gate Float)}
      (first : s.lines = line :: rest) (role : line.role = .keyword .loop)
      (opened : openLoop s.env line rest = .ok loop)
      (ran : ∀ j < loop.header.count, (s.turn loop j).run = .ok (turns j))
      (later : Passes (s.behind loop.after) t) : Passes s t

namespace Passes
variable {s t : Site}

theorem width (passes : Passes s t) : t.width = s.width := by
  induction passes with
  | here => rfl
  | gate _ _ _ _ ih | inCall _ _ _ _ _ ih | afterCall _ _ _ _ _ _ ih | inLoop _ _ _ _ _ _ ih
  | afterLoop _ _ _ _ _ ih => exact ih

/-- The first fault on the way is the fault of the whole run. -/
theorem refused {fault : Fault} (passes : Passes s t) (refused : t.run = .error fault) :
    s.run = .error fault := by
  induction passes with
  | here => exact refused
  | gate first role placed _ ih =>
      rw [Site.run_gate first role, placed, ih refused]
      rfl
  | inCall first role found binds _ ih =>
      rw [Site.run_call first role found, binds]
      simp only [bind, Except.bind, ih refused]
  | afterCall first role found binds ran _ ih =>
      rw [Site.run_call first role found, binds]
      simp only [bind, Except.bind, ran, ih refused]
  | inLoop first role opened inside earlier _ ih =>
      rw [Site.run_loop first role opened, repeatFrom_refused inside earlier (ih refused)]
      rfl
  | @afterLoop s t line rest loop turns first role opened ran _ ih =>
      have inner : (repeatFrom (fun k => runBlock s.width s.macros (s.depth + 1)
          (s.env.bind loop.header.counter (Float.ofInt k)) loop.body)
          loop.header.start loop.header.count).result = _ := repeatFrom_eq_ok.mpr ⟨turns, ran, rfl⟩
      rw [Site.run_loop first role opened, inner, ih refused]
      rfl

end Passes

/-- What a site sees of the definitions are meanings that names have among all of them. -/
structure Site.Sees (all : List Macro) (s : Site) : Prop where
  registered : Registered s.macros
  visible : ∀ name, (findMacro name s.macros).isSome = true →
    findMacro name all = findMacro name s.macros
  agree : NamesAgree all s.macros s.lines

-- Fewer lines with the same definitions.
theorem Site.Sees.fewer {all : List Macro} {s t : Site} (sees : s.Sees all)
    (same : t.macros = s.macros) (fewer : ∀ line ∈ t.lines, line ∈ s.lines) : t.Sees all where
  registered := same ▸ sees.registered
  visible := same ▸ sees.visible
  agree line inside := same ▸ sees.agree line (fewer line inside)

theorem Site.Sees.behind {all : List Macro} {s : Site} {lines : List Line} (sees : s.Sees all)
    (fewer : ∀ line ∈ lines, line ∈ s.lines) : (s.behind lines).Sees all :=
  sees.fewer rfl fewer

theorem Site.Sees.body {all older : List Macro} {s : Site} {name : String} {m : Macro}
    (sees : s.Sees all) (found : findMacro name s.macros = some (m, older)) (bound : Environment) :
    (s.body m older bound).Sees all := by
  have known : ∀ other, (findMacro other older).isSome = true →
      findMacro other all = findMacro other older := by
    intro other some
    have kept := sees.registered.findMacro_older found some
    rw [← kept]
    exact sees.visible other (by rw [kept, some])
  refine ⟨sees.registered.of_found found, known, fun line inside role => ?_⟩
  exact known _ ((sees.registered.found found).2.1.known line inside role)

theorem Passes.sees {all : List Macro} {s t : Site} (passes : Passes s t) (sees : s.Sees all) :
    t.Sees all := by
  induction passes with
  | here => exact sees
  | gate first _ _ _ ih | afterCall first _ _ _ _ _ ih =>
      exact ih (sees.behind fun line inside => first ▸ List.mem_cons_of_mem _ inside)
  | inCall _ _ found _ _ ih => exact ih (sees.body found _)
  | inLoop first _ opened _ _ _ ih =>
      have inBody := (openLoop_lines opened).1
      refine ih (sees.fewer rfl fun line inside => ?_)
      rw [first]
      exact List.mem_cons_of_mem _ (inBody line inside)
  | afterLoop first _ opened _ _ ih =>
      have inAfter := (openLoop_lines opened).2
      refine ih (sees.behind fun line inside => ?_)
      rw [first]
      exact List.mem_cons_of_mem _ (inAfter line inside)

/-- The interpretation of a text in an initialised circuit comes to a site, with these definitions
so far: between two statements, where no line is run, or inside a statement. -/
inductive ComesTo (config : Config) (text : String) : List Macro → Site → Prop where
  | between {st : State} {left : List Line} {width : Nat}
      (visits : Visits config.qubitLimit State.empty (Source.ofText text).lines st left)
      (begun : st.width? = some width) :
      ComesTo config text st.macros ⟨width, st.macros, 0, Environment.empty, []⟩
  | inside {st : State} {line : Line} {rest : List Line} {width : Nat} {s : Site}
      (visits : Visits config.qubitLimit State.empty (Source.ofText text).lines st (line :: rest))
      (runs : st.runs? line = some width)
      (passes : Passes
        ⟨width, st.macros, 0, Environment.empty, (nextStatement st line rest).1⟩ s) :
      ComesTo config text st.macros s

theorem Reaches.visits_front {limit : Nat} {st last : State} {lines : List Line}
    (reached : Reaches limit st lines last) (left : List Line) :
    Visits limit st (lines ++ left) last left := by
  induction reached with
  | stay st => exact .here st left
  | @next st middle last line rest step _ ih =>
      have split := step.nextStatement_append left
      have first : Step limit st line (nextStatement st line (rest ++ left)).1 middle := by
        rw [split]
        exact step
      have later : Visits limit middle (nextStatement st line (rest ++ left)).2 last left := by
        rw [split]
        exact ih
      exact .next first later

theorem Visits.refused {limit : Nat} {st middle next : State} {lines rest : List Line}
    {line : Line} {log : List Event} {fault : Fault}
    (visits : Visits limit st lines middle (line :: rest))
    (refused : perform limit middle line (nextStatement middle line rest).1 =
      (next, ⟨log, .error fault⟩)) :
    (interpretLines limit st lines).2.result = .error fault := by
  generalize left : line :: rest = others at visits
  induction visits with
  | here =>
      subst left
      rw [interpretLines, refused]
  | next step _ ih =>
      obtain ⟨log', performed⟩ := perform_eq_ok.mpr step
      rw [interpretLines, performed]
      exact ih refused left

namespace ComesTo
variable {config : Config} {text : String} {all : List Macro} {s : Site}

theorem insideLine {st : State} {line : Line} {rest : List Line} {width : Nat}
    (visits : Visits config.qubitLimit State.empty (Source.ofText text).lines st (line :: rest))
    (runs : st.runs? line = some width) (single : line.role ≠ .keyword .loop)
    (passes : Passes ⟨width, st.macros, 0, Environment.empty, [line]⟩ s) :
    ComesTo config text st.macros s := by
  refine .inside visits runs ?_
  rw [nextStatement_other rest single]
  exact passes

theorem sees (reached : ComesTo config text all s) : s.Sees all := by
  cases reached with
  | between visits =>
      exact ⟨visits.defined.registered, fun _ _ => rfl, fun _ inside => (List.not_mem_nil inside).elim⟩
  | inside visits _ passes =>
      exact passes.sees ⟨visits.defined.registered, fun _ _ => rfl, fun _ _ _ => rfl⟩

/-- Lines that are refused at a site end the interpretation. -/
theorem refused {fault : Fault} (reached : ComesTo config text all s)
    (refused : s.run = .error fault) : (interpret config text).result = .error fault := by
  cases reached with
  | between =>
      rw [Site.run, runBlock] at refused
      cases refused
  | @inside st line rest width _ visits runs passes =>
      have ran := passes.refused refused
      rw [Site.run] at ran
      have stopped : ∃ log, perform config.qubitLimit st line (nextStatement st line rest).1 =
          (st, ⟨log, .error fault⟩) := by
        rw [perform_of_runs runs]
        rcases whole : runBlock width st.macros 0 Environment.empty (nextStatement st line rest).1
          with ⟨log, result⟩
        rw [whole] at ran
        obtain rfl : result = .error fault := ran
        exact ⟨log, rfl⟩
      obtain ⟨log, performed⟩ := stopped
      have ended := visits.refused performed
      rw [interpret, interpretSource]
      simp only [Logged.result_bind, ended]
      rfl

end ComesTo
end QCircuit
