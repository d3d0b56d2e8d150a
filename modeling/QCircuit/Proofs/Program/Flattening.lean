import QCircuit.Gate.Text
import QCircuit.Proofs.Expr.PlainText
import QCircuit.Proofs.Program.Acceptance
import QCircuit.Proofs.Program.Spelling
import QCircuit.Proofs.Program.TopLevel
import QCircuit.Proofs.Register.Rejection
/-! Programs that are written from their operations.

The text of an operation is a line of words: the name of its gate, the qubits and the angle in front
of the bar, and the controls behind it. Each of these words is read back as what it was written for,
so the line places the operation again, and a list of operations with the width in front of it is a
program with exactly these operations. -/
namespace QCircuit
open Text

/-- A word that is written like a number. -/
def Numeric (word : String) : Prop :=
  word.toList ≠ [] ∧ ∀ c ∈ word.toList, Literal.isChar c = true

theorem Literal.numeric_bare (l : Literal) : Numeric l.bare := ⟨l.bare_ne_nil, l.bare_chars⟩

theorem Qubit.numeric_text (q : Qubit) : Numeric q.text := by
  rw [text, ← Literal.bare_ofNat]
  exact (Literal.ofInt q.number).numeric_bare

theorem Numeric.solid {word : String} (numeric : Numeric word) : Solid word.toList :=
  ⟨numeric.1, fun c inside => Literal.isBlank_of_isChar (numeric.2 c inside)⟩

theorem Numeric.ne_bar {word : String} (numeric : Numeric word) : word ≠ "|" := by
  rintro rfl
  have char : Literal.isChar '|' = true := numeric.2 '|' (by decide)
  cases char

/-- The number of a qubit names it. -/
theorem Qubit.named_text {q : Qubit} {width : Nat} (range : 1 ≤ q.number ∧ q.number ≤ width)
    (narrow : width ≤ 2 ^ 53) (env : Environment) : NamesQubit width env q.text q := by
  have value := Literal.value_ofInt q.number
  have exact : Decimal.integer? (Float.ofInt q.number) = some (q.number : Int) :=
    Decimal.integer?_ofInt (by omega)
  have finite : (Literal.ofInt q.number).value.isFinite = true := by
    rw [value]
    exact Decimal.isFinite_of_integer? exact
  refine ⟨Float.ofInt q.number, ?_, exact, range⟩
  rw [text, ← Literal.bare_ofNat, ← value]
  exact Literal.evaluate_bare _ finite env

namespace Operation
variable (op : Operation Float)

/-- What the first word of the line says. -/
def mnemonic : Mnemonic := ⟨op.gate.kind, !op.controls.isEmpty⟩

/-- The words in front of the bar. -/
def front : List String :=
  op.target.text :: (op.gate.partner?.toList.map Qubit.text ++
    op.gate.angle?.toList.map Decimal.plainText)

/-- The bar and the words behind it. -/
def back : List String :=
  if op.controls.isEmpty then [] else "|" :: op.controls.qubits.map Qubit.text

/-- The line that places the operation. -/
def line : Line :=
  ⟨0, (if op.controls.isEmpty then "" else "C") ++ op.gate.name, op.front ++ op.back⟩

theorem controlsText_toList (controls : Controls) : (controlsText controls).toList =
    (if controls.isEmpty then [] else "|" :: controls.qubits.map Qubit.text).flatMap
      fun word => ' ' :: word.toList := by
  by_cases none : controls.isEmpty = true
  · simp [controlsText, none]
  · simp [controlsText, none, String.toList_join, List.flatMap_map]

theorem text_eq : op.text = String.ofList op.line.text := by
  rw [← String.toList_inj, String.toList_ofList, Line.text, Line.words, List.map_cons, spaced_cons]
  simp only [text, line, front, back, String.toList_append, controlsText_toList]
  cases op.gate.partner? <;> cases op.gate.angle? <;> simp [List.flatMap_map]

theorem role_line : op.line.role = .gate op.mnemonic := by
  have known : ∀ (kind : GateKind) (none : Bool),
      Role.ofWord ((if none then "" else "C") ++ kind.name) = .gate ⟨kind, !none⟩ := by
    intro kind none
    cases kind <;> cases none <;> decide +kernel
  exact known op.gate.kind op.controls.isEmpty

variable {op}

section Ready
variable {width : Nat} (ready : op.Ready width)
include ready

theorem front_numeric : ∀ word ∈ op.front, Numeric word := by
  intro word inside
  simp only [front, List.mem_cons, List.mem_append, List.mem_map, Option.mem_toList] at inside
  rcases inside with rfl | ⟨partner, _, rfl⟩ | ⟨angle, turned, rfl⟩
  · exact op.target.numeric_text
  · exact partner.numeric_text
  · obtain ⟨l, same, _⟩ := exists_bare (ready.finite angle turned)
    rw [same]
    exact l.numeric_bare

theorem written_line : op.line.Written := by
  have head : ∀ (kind : GateKind) (none : Bool),
      Solid ((if none then "" else "C") ++ kind.name).toList ∧
        startsComment ((if none then "" else "C") ++ kind.name).toList = false := by
    intro kind none
    cases kind <;> cases none <;> exact ⟨by decide, by decide⟩
  refine ⟨fun word inside => ?_, (head op.gate.kind op.controls.isEmpty).2⟩
  rcases List.mem_cons.mp inside with rfl | operand
  · exact (head op.gate.kind op.controls.isEmpty).1
  · rcases List.mem_append.mp operand with infront | behind
    · exact (front_numeric ready word infront).solid
    · by_cases none : op.controls.isEmpty = true
      · simp [back, none] at behind
      · simp only [back, none, List.mem_cons, List.mem_map, Bool.false_eq_true, if_false] at behind
        rcases behind with rfl | ⟨q, _, rfl⟩
        · decide
        · exact q.numeric_text.solid

theorem operandFits_front (narrow : width ≤ 2 ^ 53) (env : Environment) :
    OperandFits width env (op.gate.partner?.toList.map Qubit.text ++
      op.gate.angle?.toList.map Decimal.plainText) op.gate := by
  have turned : ∀ angle, op.gate.angle? = some angle →
      evaluate (Decimal.plainText angle) env = .ok angle := by
    intro angle named
    have finite := ready.finite angle named
    obtain ⟨l, same, rfl⟩ := exists_bare finite
    rw [same]
    exact l.evaluate_bare finite env
  have paired : ∀ partner, op.gate.partner? = some partner →
      NamesQubit width env partner.text partner := by
    intro partner named
    have range := ready.fits.inRange partner (List.mem_append_left _ (mem_active_of_partner named))
    exact partner.named_text range narrow env
  cases gate : op.gate with
  | i | h | x | y | z => rfl
  | p angle | rx angle | ry angle | rz angle =>
      rw [gate] at turned
      exact ⟨_, angle, rfl, turned angle rfl, rfl⟩
  | swap partner =>
      rw [gate] at paired
      exact ⟨_, partner, rfl, paired partner rfl, rfl⟩

theorem controlsFit_back (narrow : width ≤ 2 ^ 53) (env : Environment) :
    ControlsFit width env op.mnemonic.controlled (splitControls op.back).2 op.controls := by
  have named : ∀ q ∈ op.controls.qubits, NamesQubit width env q.text q := fun q inside =>
    q.named_text (ready.fits.inRange q (List.mem_append_right _ inside)) narrow env
  cases qubits : op.controls.qubits with
  | nil =>
      have none : op.controls = .none := congrArg Controls.mk qubits
      simp only [mnemonic, back, none]
      rfl
  | cons first rest =>
      have some : op.controls.isEmpty = false := by simp [Controls.isEmpty, qubits]
      have behind : (splitControls op.back).2 = Option.some ((first :: rest).map Qubit.text) := by
        simp [back, some, qubits, splitControls]
      rw [qubits] at named
      rw [mnemonic, some, behind]
      refine ⟨by simp, ?_⟩
      rw [qubits, List.forall₂_map_left_iff, List.forall₂_same]
      exact named

theorem places_line (narrow : width ≤ 2 ^ 53) (env : Environment) :
    Places width env op.line.operands op.mnemonic op := by
  have bar : (splitControls op.back).1 = [] := by
    rw [back]
    split <;> rfl
  have plain : "|" ∉ op.front := fun inside => (front_numeric ready _ inside).ne_bar rfl
  have split : splitControls op.line.operands = (op.front, (splitControls op.back).2) := by
    rw [line, splitControls_append plain, bar, List.append_nil]
  have target := ready.fits.inRange op.target (List.mem_append_left _ List.mem_cons_self)
  refine ⟨rfl, ?_, ?_, ready.fits.distinct⟩
  · rw [split]
    exact ⟨_, _, rfl, op.target.named_text target narrow env,
      operandFits_front ready narrow env⟩
  · rw [split]
    exact controlsFit_back ready narrow env

end Ready
end Operation

/-- The line that begins a circuit. -/
def initLine (n : Nat) : Line := ⟨0, "init", [toString n]⟩

theorem initialWidth_initLine {limit n : Nat} (some : 1 ≤ n) (within : n ≤ limit)
    (small : n < wordLimit) : initialWidth limit (initLine n) = .ok n := by
  simp only [initialWidth, initLine, word32?_toString small]
  rw [if_neg (by omega), if_neg (by omega)]
  rfl

/-- A program with the width and a line for each operation. -/
def flatText (n : Nat) (ops : List (Operation Float)) : String :=
  "init " ++ toString n ++ "\n" ++ String.join (ops.map fun op => op.text ++ "\n")

/-- The lines of such a program. -/
def flatLines (n : Nat) (ops : List (Operation Float)) : List Line :=
  initLine n :: ops.map Operation.line

theorem flatText_eq (n : Nat) (ops : List (Operation Float)) :
    flatText n ops = textOf (flatLines n ops) := by
  rw [← String.toList_inj, textOf, String.toList_ofList]
  simp [flatText, flatLines, stacked, Line.text, Line.words, initLine, spaced, Operation.text_eq,
    String.toList_join, List.flatMap_map]

section Flat
variable {n : Nat} {ops : List (Operation Float)} (ready : ∀ op ∈ ops, op.Ready n)
include ready

theorem flatLines_written : ∀ line ∈ flatLines n ops, line.Written := by
  have first : (initLine n).Written := by
    have numeric : Numeric (toString n) := Qubit.numeric_text ⟨n⟩
    have counts : startsComment "init".toList = false := by decide
    refine ⟨?_, counts⟩
    simp only [Line.words, initLine, List.mem_cons, List.not_mem_nil, or_false]
    rintro word (rfl | rfl)
    · decide
    · exact numeric.solid
  rw [flatLines, List.forall_mem_cons, List.forall_mem_map]
  exact ⟨first, fun op inside => Operation.written_line (ready op inside)⟩

theorem expands_lines (narrow : n ≤ 2 ^ 53) :
    Expands n [] Environment.empty (ops.map Operation.line) (ops.map .standard) := by
  induction ops with
  | nil => exact .done
  | cons op rest ih =>
      rw [List.forall_mem_cons] at ready
      exact .gate op.role_line (Operation.places_line ready.1 narrow _) (ih ready.2)

theorem accepts_flatLines {limit : Nat} (some : 1 ≤ n) (within : n ≤ limit) (small : n < wordLimit) :
    Accepts limit (flatLines n ops) ⟨n, ops.map .standard⟩ := by
  have narrow : n ≤ 2 ^ 53 := by
    rw [wordLimit] at small
    omega
  have role : (initLine n).role = .keyword .init := rfl
  have other : (initLine n).role ≠ .keyword .loop := by simp [role]
  let begun : State := { State.empty with width? := n }
  have step : Step limit State.empty (initLine n) [initLine n] begun :=
    .initialise rfl role rfl (initialWidth_initLine some within small)
  have flat : Balanced (ops.map Operation.line) := by
    have single : ∀ op ∈ ops, Balanced [op.line] := fun op _ =>
      .line (by simp [Line.Flat, op.role_line]) .nil
    rw [List.map_eq_flatMap]
    exact .flatMap single
  have plain : DefinesNothing (ops.map Operation.line) := by
    rw [DefinesNothing, List.forall_mem_map]
    intro op _
    simp [op.role_line]
  have later : Reaches limit begun (ops.map Operation.line) (begun.add (ops.map .standard)) := by
    rw [← List.append_nil (ops.map Operation.line), reaches_block_iff flat plain rfl rfl]
    exact ⟨_, expands_lines ready narrow, .stay _⟩
  have reached : Reaches limit State.empty (flatLines n ops) (begun.add (ops.map .standard)) := by
    apply Reaches.next
    · rw [nextStatement_other _ other]
      exact step
    · rw [nextStatement_other _ other]
      exact later
  exact ⟨_, reached, rfl, rfl, rfl⟩

theorem interpret_flatText {config : Config} (some : 1 ≤ n) (within : n ≤ config.qubitLimit) :
    (interpret config (flatText n ops)).result = .ok ⟨n, ops.map .standard⟩ := by
  have limit : config.qubitLimit ≤ 30 := Nat.min_le_right _ _
  have small : n < wordLimit := by
    rw [wordLimit]
    omega
  rw [interpret, flatText_eq, interpretSource_eq_ok,
    accepts_congr (spells_textOf (flatLines_written ready))]
  exact accepts_flatLines ready some within small

end Flat

/-- Operations that fit a register and have finite angles are read back from their text. So an
accepted program has the same execution as the flat program of its operations. -/
theorem flat_program_reads_back (config : Config) :
    (∀ (n : Nat) (ops : List (Operation Float)), 1 ≤ n → n ≤ config.qubitLimit →
      (∀ op ∈ ops, op.validate n = .ok () ∧
        ∀ angle, op.gate.angle? = some angle → angle.isFinite = true) →
      (interpret config (flatText n ops)).result = .ok ⟨n, ops.map .standard⟩) ∧
    ∀ (text : String) (p : Program), (interpret config text).result = .ok p →
      ∃ flat : Program,
        (interpret config (flatText p.numQubits (Gate.leavesOf p.gates))).result = .ok flat ∧
        flat.numQubits = p.numQubits ∧ flat.gates = (Gate.leavesOf p.gates).map .standard ∧
        flat.execute = p.execute := by
  constructor
  · intro n ops some within each
    have ready : ∀ op ∈ ops, op.Ready n := fun op inside =>
      ⟨(op.validate_ok_iff n).mp (each op inside).1, (each op inside).2⟩
    exact interpret_flatText ready some within
  · intro text p accepted
    obtain ⟨⟨some, within⟩, ready⟩ := interpretSource_sound accepted
    have accepted' := interpret_flatText ready some within
    refine ⟨_, accepted', rfl, rfl, ?_⟩
    rw [execute_of_accepted accepted, execute_of_accepted accepted', Register.performAll_eq_operate,
      Register.performAll_eq_operate, Gate.leavesOf_standard]
    rfl

-- An angle with a sign and many places, one that is a negative zero, and a program with a group.
theorem flat_program_reads_back_tiny_turn :
    let ops : List (Operation Float) :=
      [⟨.rz (-3e-7), ⟨2⟩, ⟨[⟨3⟩, ⟨1⟩]⟩⟩, ⟨.swap ⟨1⟩, ⟨3⟩, .none⟩, ⟨.p (-0.0), ⟨1⟩, .none⟩]
    flatText 3 ops = "init 3\nCRZ 2 -0.0000003 | 3 1\nSWAP 3 1\nP 1 -0\n" ∧
      (∀ op ∈ ops, op.validate 3 = .ok () ∧
        ∀ angle, op.gate.angle? = some angle → angle.isFinite = true) ∧
      (interpret ⟨24⟩ (flatText 3 ops)).result = .ok ⟨3, ops.map .standard⟩ ∧
      ∃ p flat : Program,
        (interpret ⟨24⟩ "init 2\ndef m $q\nRX $q pi/2\nendef\nm 2\nCX 1 | 2").result = .ok p ∧
        (interpret ⟨24⟩ (flatText p.numQubits (Gate.leavesOf p.gates))).result = .ok flat ∧
        flat.execute = p.execute := by
  intro ops
  have each : ∀ op ∈ ops, op.validate 3 = .ok () ∧
      ∀ angle, op.gate.angle? = some angle → angle.isFinite = true := by
    simp only [ops, List.forall_mem_cons, StandardGate.angle?, Option.some.injEq, forall_eq']
    decide +kernel
  have accepted : ((interpret ⟨24⟩
      "init 2\ndef m $q\nRX $q pi/2\nendef\nm 2\nCX 1 | 2").result.toOption.isSome) = true := by
    decide +kernel
  obtain ⟨read, flattened⟩ := flat_program_reads_back ⟨24⟩
  refine ⟨by decide +kernel, each, read 3 ops (by decide) (by decide) each, ?_⟩
  cases ran : (interpret ⟨24⟩ "init 2\ndef m $q\nRX $q pi/2\nendef\nm 2\nCX 1 | 2").result with
  | error fault => simp [ran, Except.toOption] at accepted
  | ok p =>
      obtain ⟨flat, ran', _, _, same⟩ := flattened _ p ran
      exact ⟨p, flat, rfl, ran', same⟩

end QCircuit
