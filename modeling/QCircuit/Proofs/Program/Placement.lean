import QCircuit.Proofs.Expr.Evaluation
import QCircuit.Proofs.Gate.Validity
import QCircuit.Program.GateLine
/-! Which lines place a gate.

A gate line is accepted exactly if its words are the operands that its gate takes: a target, an
angle or a second qubit where the shape asks for one, and controls where the mnemonic has them. All
qubits are distinct qubits of the register, so the operation that is placed always fits. -/
namespace QCircuit

@[simp] theorem refuse_ne_ok {α : Type} {line : Nat} {cause : Cause} {a : α} :
    ¬ refuse line cause = .ok a := by
  simp [refuse]

theorem refuseTrailing_eq_ok {line : Nat} {words : List String} {u : Unit} :
    refuseTrailing line words = .ok u ↔ words = [] := by
  cases words <;> simp [refuseTrailing]

theorem evalOperand_eq_ok {line : Nat} {env : Environment} {word : String} {value : Float} :
    evalOperand line env word = .ok value ↔ evaluate word env = .ok value := by
  unfold evalOperand
  cases evaluate word env <;> simp

/-- A word has an integer as its value that is a qubit of a register. -/
def NamesQubit (width : Nat) (env : Environment) (word : String) (q : Qubit) : Prop :=
  ∃ value, evaluate word env = .ok value ∧ Decimal.integer? value = some (q.number : Int) ∧
    1 ≤ q.number ∧ q.number ≤ width

theorem qubitOperand_eq_ok {line width : Nat} {env : Environment} {role : QubitRole} {word : String}
    {q : Qubit} : qubitOperand line width env role word = .ok q ↔ NamesQubit width env word q := by
  simp only [qubitOperand, bind_eq_ok, evalOperand_eq_ok, NamesQubit]
  refine exists_congr fun value => and_congr_right fun _ => ?_
  cases Decimal.integer? value with
  | none => simp
  | some n =>
      obtain ⟨number⟩ := q
      by_cases inside : 1 ≤ n ∧ n ≤ width
      · simp only [inside, and_self, if_true, Except.ok.injEq, Qubit.mk.injEq, Option.some.injEq]
        omega
      · simp only [inside, if_false, refuse_ne_ok, Option.some.injEq, false_iff]
        omega

/-- Words in front without a bar are kept, and the first bar behind them splits the line. -/
theorem splitControls_append {front : List String} (plain : "|" ∉ front) (back : List String) :
    splitControls (front ++ back) = (front ++ (splitControls back).1, (splitControls back).2) := by
  induction front with
  | nil => rfl
  | cons word rest ih =>
      rw [List.mem_cons, not_or] at plain
      rw [List.cons_append, splitControls, if_neg (Ne.symm plain.1), ih plain.2]
      rfl

/-- The words behind the target are what a gate takes besides its target. -/
def OperandFits (width : Nat) (env : Environment) (words : List String)
    (gate : StandardGate Float) : Prop :=
  match gate.kind.shape with
  | .single => words = []
  | .angle => ∃ word angle, words = [word] ∧ evaluate word env = .ok angle ∧
      gate.angle? = some angle
  | .pair => ∃ word partner, words = [word] ∧ NamesQubit width env word partner ∧
      gate.partner? = some partner

/-- The words behind the bar, if there is one, are the controls of a mnemonic. -/
def ControlsFit (width : Nat) (env : Environment) (controlled : Bool) (words? : Option (List String))
    (controls : Controls) : Prop :=
  match controlled, words? with
  | true, some words => words ≠ [] ∧ List.Forall₂ (NamesQubit width env) words controls.qubits
  | false, none => controls = .none
  | _, _ => False

/-- The words of a line place an operation. -/
structure Places (width : Nat) (env : Environment) (operands : List String) (m : Mnemonic)
    (op : Operation Float) : Prop where
  kind : op.gate.kind = m.kind
  front : ∃ word words, (splitControls operands).1 = word :: words ∧
    NamesQubit width env word op.target ∧ OperandFits width env words op.gate
  controls : ControlsFit width env m.controlled (splitControls operands).2 op.controls
  distinct : op.qubits.Nodup

theorem range_of_named {width : Nat} {env : Environment} {words : List String}
    {qubits : List Qubit} (named : List.Forall₂ (NamesQubit width env) words qubits) :
    ∀ q ∈ qubits, 1 ≤ q.number ∧ q.number ≤ width := by
  induction named with
  | nil => simp
  | cons first _ ih =>
      obtain ⟨_, _, _, range⟩ := first
      exact List.forall_mem_cons.mpr ⟨range, ih⟩

theorem angleOperand_eq_ok {env : Environment} {line : Line}
    {build : Float → StandardGate Float} {words rest : List String} {gate : StandardGate Float} :
    angleOperand env line build words = .ok (gate, rest) ↔
      ∃ word angle, words = word :: rest ∧ evaluate word env = .ok angle ∧ gate = build angle := by
  cases words with
  | nil => simp [angleOperand]
  | cons word later =>
      simp only [angleOperand, bind_eq_ok, evalOperand_eq_ok, Except.ok.injEq, Prod.mk.injEq,
        List.cons.injEq]
      constructor
      · rintro ⟨angle, evaluated, rfl, rfl⟩
        exact ⟨word, angle, ⟨rfl, rfl⟩, evaluated, rfl⟩
      · rintro ⟨_, angle, ⟨rfl, rfl⟩, evaluated, rfl⟩
        exact ⟨angle, evaluated, rfl, rfl⟩

theorem partnerOperand_eq_ok {width : Nat} {env : Environment} {line : Line}
    {words rest : List String} {gate : StandardGate Float} :
    partnerOperand width env line words = .ok (gate, rest) ↔
      ∃ word partner, words = word :: rest ∧ NamesQubit width env word partner ∧
        gate = .swap partner := by
  cases words with
  | nil => simp [partnerOperand]
  | cons word later =>
      simp only [partnerOperand, bind_eq_ok, qubitOperand_eq_ok, Except.ok.injEq, Prod.mk.injEq,
        List.cons.injEq]
      constructor
      · rintro ⟨partner, named, rfl, rfl⟩
        exact ⟨word, partner, ⟨rfl, rfl⟩, named, rfl⟩
      · rintro ⟨_, partner, ⟨rfl, rfl⟩, named, rfl⟩
        exact ⟨partner, named, rfl, rfl⟩

-- The words are used up by the operand exactly if they are the operand.
theorem gateOperand_eq_ok {width : Nat} {env : Environment} {line : Line} {kind : GateKind}
    {words : List String} {gate : StandardGate Float} :
    gateOperand width env line kind words = .ok (gate, []) ↔
      gate.kind = kind ∧ OperandFits width env words gate := by
  have angle : ∀ build : Float → StandardGate Float,
      angleOperand env line build words = .ok (gate, []) ↔
        ∃ word a, words = [word] ∧ evaluate word env = .ok a ∧ gate = build a :=
    fun build => angleOperand_eq_ok
  cases kind <;> simp only [gateOperand, angle, partnerOperand_eq_ok, Except.ok.injEq, Prod.mk.injEq] <;>
    cases gate <;>
    simp [OperandFits, StandardGate.kind, GateKind.shape, StandardGate.angle?,
      StandardGate.partner?]

theorem controlOperands_eq_ok {width : Nat} {env : Environment} {line : Line} {m : Mnemonic}
    {words? : Option (List String)} {controls : Controls} :
    controlOperands width env line m words? = .ok controls ↔
      ControlsFit width env m.controlled words? controls ∧ controls.qubits.Nodup := by
  cases words? with
  | none =>
      cases controlled : m.controlled with
      | false =>
          simp only [controlOperands, controlled, ControlsFit, Bool.false_eq_true, if_false,
            Except.ok.injEq]
          constructor
          · rintro rfl
            exact ⟨rfl, List.nodup_nil⟩
          · rintro ⟨rfl, -⟩
            rfl
      | true => simp [controlOperands, controlled, ControlsFit]
  | some words =>
      cases controlled : m.controlled with
      | false => simp [controlOperands, controlled, ControlsFit]
      | true =>
          by_cases empty : words = []
          · simp [controlOperands, controlled, ControlsFit, empty]
          · simp only [controlOperands, controlled, ControlsFit, empty, if_true, if_false,
              bind_eq_ok, mapM_eq_ok, qubitOperand_eq_ok, ne_eq, not_false_eq_true, true_and]
            constructor
            · rintro ⟨qubits, named, taken⟩
              cases made : Controls.ofQubits qubits with
              | error e => simp [made] at taken
              | ok made' =>
                  simp only [made, Except.ok.injEq] at taken
                  subst taken
                  obtain ⟨rfl, _, distinct⟩ := (Controls.ofQubits_eq_ok_iff qubits made').mp made
                  exact ⟨named, distinct⟩
            · rintro ⟨named, distinct⟩
              have nonzero : ∀ q ∈ controls.qubits, q.number ≠ 0 := fun q inside => by
                have low := (range_of_named named q inside).1
                omega
              have made : Controls.ofQubits controls.qubits = .ok controls :=
                (Controls.ofQubits_eq_ok_iff _ _).mpr ⟨rfl, nonzero, distinct⟩
              exact ⟨controls.qubits, named, by simp [made]⟩

-- The active qubits of an accepted line are named by its words, so none of them is zero.
theorem Places.range {width : Nat} {env : Environment} {operands : List String} {m : Mnemonic}
    {op : Operation Float} (placed : Places width env operands m op) :
    ∀ q ∈ op.qubits, 1 ≤ q.number ∧ q.number ≤ width := by
  obtain ⟨word, words, _, ⟨_, _, _, targetRange⟩, operand⟩ := placed.front
  have partnerRange : ∀ q, op.gate.partner? = some q → 1 ≤ q.number ∧ q.number ≤ width := by
    intro q found
    cases gate : op.gate with
    | swap partner =>
        rw [gate] at found operand
        obtain ⟨_, other, _, ⟨_, _, _, range⟩, same⟩ := operand
        simp only [StandardGate.partner?, Option.some.injEq] at found same
        rw [← found, same]
        exact range
    | _ => simp [gate, StandardGate.partner?] at found
  have controlRange : ∀ q ∈ op.controls.qubits, 1 ≤ q.number ∧ q.number ≤ width := by
    have fits := placed.controls
    unfold ControlsFit at fits
    split at fits
    · exact range_of_named fits.2
    · simp [fits, Controls.none]
    · exact fits.elim
  intro q inside
  simp only [Operation.qubits, Operation.active, List.cons_append, List.mem_cons, List.mem_append,
    Option.mem_toList] at inside
  rcases inside with rfl | partner | control
  · exact targetRange
  · exact partnerRange q partner
  · exact controlRange q control

theorem Places.fits {width : Nat} {env : Environment} {operands : List String} {m : Mnemonic}
    {op : Operation Float} (placed : Places width env operands m op) : op.Fits width :=
  ⟨placed.distinct, placed.range⟩

theorem Places.angle_finite {width : Nat} {env : Environment} {operands : List String} {m : Mnemonic}
    {op : Operation Float} (placed : Places width env operands m op) {angle : Float}
    (turned : op.gate.angle? = some angle) : angle.isFinite = true := by
  obtain ⟨_, _, _, _, operand⟩ := placed.front
  unfold OperandFits at operand
  split at operand
  · rename_i shape
    cases gate : op.gate <;> simp [gate, StandardGate.angle?, StandardGate.kind, GateKind.shape] at turned shape
  · obtain ⟨word, value, _, evaluated, same⟩ := operand
    rw [turned, Option.some.injEq] at same
    exact same ▸ evaluate_finite evaluated
  · rename_i shape
    cases gate : op.gate <;> simp [gate, StandardGate.angle?, StandardGate.kind, GateKind.shape] at turned shape

theorem placeGate_eq_ok {width : Nat} {env : Environment} {line : Line} {m : Mnemonic}
    {op : Operation Float} :
    placeGate width env line m = .ok op ↔ Places width env line.operands m op := by
  rcases split : splitControls line.operands with ⟨front, words?⟩
  unfold placeGate
  simp only [split, bind_eq_ok, controlOperands_eq_ok]
  constructor
  · rintro ⟨controls, ⟨fit, _⟩, placed⟩
    cases front with
    | nil => simp at placed
    | cons word words =>
        simp only [bind_eq_ok, qubitOperand_eq_ok, refuseTrailing_eq_ok] at placed
        obtain ⟨target, named, ⟨gate, rest⟩, operand, _, rfl, made⟩ := placed
        rw [gateOperand_eq_ok] at operand
        cases built : Operation.make gate target controls with
        | error e => simp [built] at made
        | ok op' =>
            simp only [built, Except.ok.injEq] at made
            subst made
            obtain ⟨rfl, _, distinct⟩ := (Operation.make_eq_ok_iff gate target controls op').mp built
            refine ⟨operand.1, ⟨word, words, by rw [split], named, operand.2⟩, ?_, distinct⟩
            rw [split]
            exact fit
  · intro placed
    obtain ⟨word, words, whole, named, operand⟩ := placed.front
    have fit := placed.controls
    rw [split] at whole fit
    simp only at whole fit
    have controlsDistinct : op.controls.qubits.Nodup :=
      placed.distinct.sublist (List.sublist_append_right _ _)
    have nonzero : ∀ q ∈ op.active, q.number ≠ 0 := fun q active => by
      have low := (placed.range q (List.mem_append_left _ active)).1
      omega
    have built : Operation.make op.gate op.target op.controls = .ok op :=
      (Operation.make_eq_ok_iff _ _ _ _).mpr ⟨rfl, nonzero, placed.distinct⟩
    refine ⟨op.controls, ⟨fit, controlsDistinct⟩, ?_⟩
    subst whole
    simp only [bind_eq_ok, qubitOperand_eq_ok, refuseTrailing_eq_ok]
    exact ⟨op.target, named, (op.gate, []), gateOperand_eq_ok.mpr ⟨placed.kind, operand⟩, (), rfl,
      by simp [built]⟩

end QCircuit
