import QCircuit.Proofs.Program.Statements
import QCircuit.Proofs.Register.Running
import QCircuit.CommandLine.Perform
/-! What an accepted program can rely on.

Each statement keeps the width of the circuit between one and the limit, and adds only operations
that fit it and whose angle is finite. So an accepted program always runs to its end, and the tool
runs a file exactly if it finds the file valid. -/
namespace QCircuit

/-- An operation fits a register and its angle, if it has one, is finite. -/
structure Operation.Ready (op : Operation Float) (width : Nat) : Prop where
  fits : op.Fits width
  finite : ∀ angle, op.gate.angle? = some angle → angle.isFinite = true

theorem Expands.ready {width : Nat} {macros : List Macro} {env : Environment} {lines : List Line}
    {gates : List (Gate Float)} (expands : Expands width macros env lines gates) :
    ∀ op ∈ Gate.leavesOf gates, op.Ready width := by
  induction expands with
  | done => simp [Gate.leavesOf]
  | gate _ placed _ ih =>
      simp only [Gate.leavesOf, Gate.leaves, List.cons_append, List.nil_append, List.forall_mem_cons]
      exact ⟨⟨placed.fits, fun _ => placed.angle_finite⟩, ih⟩
  | call _ _ _ _ _ ihBody ihRest =>
      simp only [Gate.leavesOf, Gate.leaves, List.mem_append]
      rintro op (inside | later)
      · exact ihBody op inside
      · exact ihRest op later
  | loop _ _ _ _ _ ihBody ihAfter =>
      simp only [Gate.leavesOf_append, List.mem_append]
      rintro op (inside | later)
      · obtain ⟨g, member, leaf⟩ := Gate.mem_leavesOf.mp inside
        obtain ⟨i, below, turn⟩ := List.mem_flatMap.mp member
        exact ihBody i (List.mem_range.mp below) op (Gate.mem_leavesOf.mpr ⟨g, turn, leaf⟩)
      · exact ihAfter op later

/-- The circuit, once it has been initialised, is within the limit and its gates fit it. -/
structure State.Sound (limit : Nat) (st : State) : Prop where
  width : ∀ width, st.width? = some width → 1 ≤ width ∧ width ≤ limit
  gates : ∀ op ∈ Gate.leavesOf st.gates, ∃ width, st.width? = some width ∧ op.Ready width

theorem initialWidth_range {limit : Nat} {line : Line} {width : Nat}
    (asks : initialWidth limit line = .ok width) : 1 ≤ width ∧ width ≤ limit := by
  unfold initialWidth at asks
  split at asks
  · simp at asks
  · split at asks
    · simp at asks
    · rename_i n _
      by_cases zero : n = 0
      · simp [zero] at asks
      · by_cases above : limit < n
        · simp [zero, above] at asks
        · simp only [zero, above, if_false, bind_eq_ok, Except.ok.injEq] at asks
          obtain ⟨_, _, rfl⟩ := asks
          omega

theorem Step.sound {limit : Nat} {st next : State} {line : Line} {statement : List Line}
    (step : Step limit st line statement next) (sound : st.Sound limit) : next.Sound limit := by
  cases step with
  | capture | close | define => exact ⟨sound.width, sound.gates⟩
  | @initialise width _ _ fresh asks =>
      constructor
      · rintro _ ⟨rfl⟩
        exact initialWidth_range asks
      · intro op inside
        obtain ⟨_, found, _⟩ := sound.gates op inside
        rw [fresh] at found
        cases found
  | add _ _ found _ expands =>
      refine ⟨sound.width, fun op inside => ?_⟩
      rw [Gate.leavesOf_append, List.mem_append] at inside
      rcases inside with old | new
      · exact sound.gates op old
      · exact ⟨_, found, expands.ready op new⟩

theorem interpretSource_sound {config : Config} {source : Source} {p : Program}
    (accepted : (interpretSource config source).result = .ok p) :
    (1 ≤ p.numQubits ∧ p.numQubits ≤ config.qubitLimit) ∧
      ∀ op ∈ Gate.leavesOf p.gates, op.Ready p.numQubits := by
  obtain ⟨last, reached, _, found, same⟩ := interpretSource_eq_ok.mp accepted
  have start : State.empty.Sound config.qubitLimit :=
    ⟨by simp [State.empty], by simp [State.empty, Gate.leavesOf]⟩
  have kept : ∀ {st next : State} {line : Line} {statement : List Line},
      Step config.qubitLimit st line statement next → True → st.Sound config.qubitLimit →
        next.Sound config.qubitLimit := fun step _ => step.sound
  have sound := reached.invariant kept (fun _ _ => trivial) start
  refine ⟨sound.width _ found, fun op inside => ?_⟩
  rw [← same] at inside
  obtain ⟨width, found', ready⟩ := sound.gates op inside
  rw [found, Option.some.injEq] at found'
  exact found' ▸ ready

theorem interpret_executes {config : Config} {text : String} {p : Program}
    (accepted : (interpret config text).result = .ok p) : p.execute.2 = none := by
  rw [Program.execute, Register.run_completes_iff]
  intro g inside
  rw [Gate.validate_ok_iff]
  intro op leaf
  exact ((interpretSource_sound accepted).2 op (Gate.mem_leavesOf.mpr ⟨g, inside, leaf⟩)).fits

theorem execute_of_accepted {config : Config} {text : String} {p : Program}
    (accepted : (interpret config text).result = .ok p) :
    p.execute = (Register.performAll p.gates p.register, none) := by
  have completes := interpret_executes accepted
  exact Prod.ext (Register.run_of_completes completes) completes

namespace CommandLine

theorem loadSource_toUTF8 (path text : String) : loadSource path (.bytes text.toUTF8) = .ok text := by
  have read : String.fromUTF8? text.toUTF8 = some text := by
    simp [String.fromUTF8?, String.fromUTF8, String.toUTF8, text.isValidUTF8]
  rw [loadSource, read]

theorem performCheck_status {level : Level} {input format : String} {config : Config}
    {content : Content} (known : format = "summary" ∨ format = "json") :
    (performCheck level input format config content).status = 0 ↔
      ∃ text p, loadSource input content = .ok text ∧ (interpret config text).result = .ok p := by
  have named : ¬ (format ≠ "summary" ∧ format ≠ "json") := by tauto
  simp only [performCheck, named, if_false, withProgram]
  cases loadSource input content with
  | error message => simp [failure]
  | ok text =>
      cases run : (interpret config text).result with
      | error fault => simp [run, failure]
      | ok p =>
          simp only [run, Except.ok.injEq, exists_and_left, exists_eq_left', exists_eq', iff_true]
          split <;> rfl

theorem performRun_status {level : Level} {input format : String} {all : Bool} {config : Config}
    {content : Content} (known : format = "table" ∨ format = "json") :
    (performRun level input format all config content).status = 0 ↔
      ∃ text p, loadSource input content = .ok text ∧ (interpret config text).result = .ok p := by
  have named : ¬ (format ≠ "table" ∧ format ≠ "json") := by tauto
  simp only [performRun, named, if_false, withProgram]
  cases loadSource input content with
  | error message => simp [failure]
  | ok text =>
      cases run : (interpret config text).result with
      | error fault => simp [run, failure]
      | ok p =>
          have done := interpret_executes run
          rcases executed : p.execute with ⟨r, e?⟩
          rw [executed] at done
          obtain rfl : e? = none := done
          simp only [run, executed, Except.ok.injEq, exists_and_left, exists_eq_left', exists_eq',
            iff_true]
          split <;> rfl

-- An accepted program asks for nothing that the register or a gate could refuse later. The second
-- half needs no hypothesis on the file: if it cannot be read or is not valid, both commands fail.
theorem accepted_program_executes (config : Config) :
    (∀ (text : String) (p : Program), (interpret config text).result = .ok p →
      (1 ≤ p.numQubits ∧ p.numQubits ≤ min config.maxQubits 30) ∧
      Register.make p.numQubits = .ok p.register ∧
      p.register.amplitudes.size = 1 <<< p.numQubits ∧
      (∀ index < 1 <<< p.numQubits, p.register.amplitudes[index]? =
        some (if index = 0 then Complex.one else Complex.zero)) ∧
      (∀ op ∈ Gate.leavesOf p.gates, op.validate p.numQubits = .ok () ∧
        ∀ angle, op.gate.angle? = some angle → angle.isFinite = true) ∧
      p.execute.2 = none) ∧
    ∀ (verbosity verbosity' : Nat) (input format format' : String) (all : Bool) (content : Content),
      (format = "table" ∨ format = "json") → (format' = "summary" ∨ format' = "json") →
      (((Command.run input format all config).perform verbosity content).status = 0 ↔
        ((Command.check input format' config).perform verbosity' content).status = 0) := by
  constructor
  · intro text p accepted
    obtain ⟨⟨low, high⟩, ready⟩ := interpretSource_sound accepted
    have narrow : ¬ Register.maxQubits < p.numQubits :=
      Nat.not_lt.mpr (Nat.le_trans high (Nat.min_le_right _ _))
    refine ⟨⟨low, high⟩, ?_, ?_, ?_, ?_, interpret_executes accepted⟩
    · rw [Register.make, if_neg narrow, Program.register]
    · exact (Register.ground_sized p.numQubits).amplitudes
    · exact Register.ground_amplitude p.numQubits
    · intro op leaf
      exact ⟨(op.validate_ok_iff _).mpr (ready op leaf).fits, (ready op leaf).finite⟩
  · intro verbosity verbosity' input format format' all content known known'
    exact (performRun_status known).trans (performCheck_status known').symm

theorem accepted_program_executes_twisted_pair :
    let text := "init 2\ndef m $q\nRX $q pi/2\nendef\nfor $i 1:2\nm $i\nendfor\nCX 2 | 1"
    let file : Content := .bytes text.toUTF8
    ∃ p : Program, (interpret ⟨24⟩ text).result = .ok p ∧ p.numQubits = 2 ∧
      (Gate.leavesOf p.gates).length = 3 ∧ p.execute.2 = none ∧
      ((Command.run "a" "table" false ⟨24⟩).perform 0 file).status = 0 ∧
      ((Command.check "a" "json" ⟨24⟩).perform 1 file).status = 0 := by
  intro text file
  have evaluated : ((interpret ⟨24⟩ text).result.toOption.map
      fun p => (p.numQubits, (Gate.leavesOf p.gates).length)) = some (2, 3) := by
    decide +kernel
  cases ran : (interpret ⟨24⟩ text).result with
  | error fault => simp [ran, Except.toOption] at evaluated
  | ok p =>
      simp only [ran, Except.toOption, Option.map_some, Option.some.injEq, Prod.mk.injEq] at evaluated
      have runs : ((Command.run "a" "table" false ⟨24⟩).perform 0 file).status = 0 :=
        (performRun_status (.inl rfl)).mpr ⟨text, p, loadSource_toUTF8 "a" text, ran⟩
      obtain ⟨executes, together⟩ := accepted_program_executes ⟨24⟩
      have valid := (together 0 1 "a" "table" "json" false file (.inl rfl) (.inr rfl)).mp runs
      exact ⟨p, rfl, evaluated.1, evaluated.2, (executes text p ran).2.2.2.2.2, runs, valid⟩

end CommandLine
end QCircuit
