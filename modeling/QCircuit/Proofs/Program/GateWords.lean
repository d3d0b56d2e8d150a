import QCircuit.Proofs.Program.Placement
/-! The words of a gate line.

Its first word is the target. An angle or a second qubit follows where the gate takes one, and behind
a bar the controls where the mnemonic has them. Which words these are is settled by the mnemonic and
the first bar, so a line can be taken apart before any of its words is evaluated. It is accepted
exactly if it has these words, the angle has a value, and the others name distinct qubits. -/
namespace QCircuit

/-- The bar and the words behind it, if there is one. -/
def barred : Option (List String) → List String
  | none => []
  | some words => "|" :: words

theorem splitControls_parts (words : List String) :
    words = (splitControls words).1 ++ barred (splitControls words).2 ∧
      "|" ∉ (splitControls words).1 := by
  induction words with
  | nil => exact ⟨rfl, List.not_mem_nil⟩
  | cons word rest ih =>
      rw [splitControls]
      by_cases bar : word = "|"
      · rw [if_pos bar, bar]
        exact ⟨rfl, List.not_mem_nil⟩
      · rw [if_neg bar, List.cons_append, ← ih.1, List.mem_cons, not_or]
        exact ⟨rfl, Ne.symm bar, ih.2⟩

theorem splitControls_barred {front : List String} (plain : "|" ∉ front)
    (back? : Option (List String)) : splitControls (front ++ barred back?) = (front, back?) := by
  rw [splitControls_append plain]
  cases back? with
  | none => rw [barred, splitControls, List.append_nil]
  | some words => rw [barred, splitControls, if_pos rfl, List.append_nil]

/-- The words of a gate line by what they stand for. -/
structure GateWords where
  target : String
  angle? : Option String
  partner? : Option String
  controls? : Option (List String)

namespace GateWords

/-- The words in front of the bar. -/
def front (w : GateWords) : List String := w.target :: (w.angle?.toList ++ w.partner?.toList)

/-- The words as they are written. -/
def written (w : GateWords) : List String := w.front ++ barred w.controls?

/-- The words that stand for qubits, the controls last. -/
def qubitWords (w : GateWords) : List String :=
  w.target :: (w.partner?.toList ++ w.controls?.getD [])

/-- The words are those that a mnemonic takes. -/
structure Suits (w : GateWords) (m : Mnemonic) : Prop where
  plain : "|" ∉ w.front
  angle : w.angle?.isSome = true ↔ m.shape = .angle
  partner : w.partner?.isSome = true ↔ m.shape = .pair
  controls : w.controls?.isSome = m.controlled
  filled : w.controls? ≠ some []

/-- The angle has a value, and the other words name distinct qubits of the register. -/
structure HasValues (w : GateWords) (width : Nat) (env : Environment) : Prop where
  angle : ∀ word, w.angle? = some word → ∃ angle, evaluate word env = .ok angle
  qubits : ∃ qubits, List.Forall₂ (NamesQubit width env) w.qubitWords qubits ∧ qubits.Nodup

/-- The words stand for the parts of an operation, one by one and in order. -/
structure Means (w : GateWords) (width : Nat) (env : Environment) (op : Operation Float) : Prop where
  target : NamesQubit width env w.target op.target
  angle : Option.Rel (fun word angle => evaluate word env = .ok angle) w.angle? op.gate.angle?
  partner : Option.Rel (NamesQubit width env) w.partner? op.gate.partner?
  controls : List.Forall₂ (NamesQubit width env) (w.controls?.getD []) op.controls.qubits

end GateWords

/-- A gate has an angle or a partner as its shape says. -/
theorem StandardGate.shape_cases (gate : StandardGate Float) :
    (gate.kind.shape = .single ∧ gate.angle? = none ∧ gate.partner? = none) ∨
      (∃ angle, gate.kind.shape = .angle ∧ gate.angle? = some angle ∧ gate.partner? = none) ∨
      ∃ partner, gate.kind.shape = .pair ∧ gate.angle? = none ∧ gate.partner? = some partner := by
  cases gate <;> simp [kind, GateKind.shape, angle?, partner?]

theorem operandFits_iff {width : Nat} {env : Environment} {words : List String}
    {gate : StandardGate Float} :
    OperandFits width env words gate ↔ ∃ angle? partner? : Option String,
      words = angle?.toList ++ partner?.toList ∧
      (angle?.isSome = true ↔ gate.kind.shape = .angle) ∧
      (partner?.isSome = true ↔ gate.kind.shape = .pair) ∧
      Option.Rel (fun word angle => evaluate word env = .ok angle) angle? gate.angle? ∧
      Option.Rel (NamesQubit width env) partner? gate.partner? := by
  rcases gate.shape_cases with ⟨shape, angle, partner⟩ | ⟨a, shape, angle, partner⟩ |
    ⟨q, shape, angle, partner⟩
  · simp only [OperandFits, shape, angle, partner]
    constructor
    · rintro rfl
      exact ⟨none, none, rfl, by simp, by simp, .none, .none⟩
    · rintro ⟨_, _, rfl, -, -, ⟨⟩, ⟨⟩⟩
      rfl
  · simp only [OperandFits, shape, angle, partner]
    constructor
    · rintro ⟨word, a', rfl, evaluated, same⟩
      cases same
      exact ⟨some word, none, rfl, by simp, by simp, .some evaluated, .none⟩
    · rintro ⟨_, _, rfl, -, -, ⟨evaluated⟩, ⟨⟩⟩
      exact ⟨_, a, rfl, evaluated, rfl⟩
  · simp only [OperandFits, shape, angle, partner]
    constructor
    · rintro ⟨word, q', rfl, named, same⟩
      cases same
      exact ⟨none, some word, rfl, by simp, by simp, .none, .some named⟩
    · rintro ⟨_, _, rfl, -, -, ⟨⟩, ⟨named⟩⟩
      exact ⟨_, q, rfl, named, rfl⟩

theorem controlsFit_iff {width : Nat} {env : Environment} {controlled : Bool}
    {words? : Option (List String)} {controls : Controls} :
    ControlsFit width env controlled words? controls ↔ words?.isSome = controlled ∧
      words? ≠ some [] ∧
      List.Forall₂ (NamesQubit width env) (words?.getD []) controls.qubits := by
  cases words? with
  | none =>
      cases controlled with
      | true => simp [ControlsFit]
      | false =>
        obtain ⟨qubits⟩ := controls
        simp [ControlsFit, Controls.none]
  | some words => cases controlled <;> simp [ControlsFit]

/-- A gate line places the operation that its words mean. -/
theorem places_iff_means {width : Nat} {env : Environment} {operands : List String} {m : Mnemonic}
    {op : Operation Float} :
    Places width env operands m op ↔ ∃ w : GateWords, operands = w.written ∧ w.Suits m ∧
      op.gate.kind = m.kind ∧ w.Means width env op ∧ op.qubits.Nodup := by
  constructor
  · rintro ⟨kind, ⟨word, words, front, named, operand⟩, controls, distinct⟩
    obtain ⟨whole, plain⟩ := splitControls_parts operands
    obtain ⟨angle?, partner?, rfl, angle, partner, turned, paired⟩ := operandFits_iff.mp operand
    obtain ⟨controlled, filled, listed⟩ := controlsFit_iff.mp controls
    rw [front] at whole plain
    rw [kind] at angle partner
    exact ⟨⟨word, angle?, partner?, (splitControls operands).2⟩, whole,
      ⟨plain, angle, partner, controlled, filled⟩, kind, ⟨named, turned, paired, listed⟩, distinct⟩
  · rintro ⟨w, rfl, suits, kind, means, distinct⟩
    have split := splitControls_barred suits.plain w.controls?
    have angle := suits.angle
    have partner := suits.partner
    rw [Mnemonic.shape, ← kind] at angle partner
    refine ⟨kind, ⟨w.target, _, congrArg Prod.fst split, means.target, ?_⟩, ?_, distinct⟩
    · exact operandFits_iff.mpr
        ⟨w.angle?, w.partner?, rfl, angle, partner, means.angle, means.partner⟩
    · rw [GateWords.written, split]
      exact controlsFit_iff.mpr ⟨suits.controls, suits.filled, means.controls⟩

theorem rel_toList {α β : Type} {r : α → β → Prop} {a? : Option α} {b? : Option β}
    (related : Option.Rel r a? b?) : List.Forall₂ r a?.toList b?.toList := by
  cases related with
  | none => exact .nil
  | some first => exact .cons first .nil

theorem rel_isSome {α β : Type} {r : α → β → Prop} {a? : Option α} {b? : Option β}
    (related : Option.Rel r a? b?) : b?.isSome = a?.isSome := by
  cases related <;> rfl

theorem exists_rel {α β : Type} {r : α → β → Prop} {a? : Option α}
    (total : ∀ a, a? = some a → ∃ b, r a b) : ∃ b?, Option.Rel r a? b? := by
  cases a? with
  | none => exact ⟨none, .none⟩
  | some a =>
      obtain ⟨b, related⟩ := total a rfl
      exact ⟨some b, .some related⟩

theorem forall₂_toList_append {α β : Type} {r : α → β → Prop} {a? : Option α} {as : List α}
    {bs : List β} (related : List.Forall₂ r (a?.toList ++ as) bs) :
    ∃ b? rest, bs = b?.toList ++ rest ∧ Option.Rel r a? b? ∧ List.Forall₂ r as rest := by
  cases a? with
  | none => exact ⟨none, bs, rfl, .none, related⟩
  | some a =>
      obtain ⟨b, rest, first, later, rfl⟩ := List.forall₂_cons_left_iff.mp related
      exact ⟨some b, rest, rfl, .some first, later⟩

theorem GateWords.Means.hasValues {w : GateWords} {width : Nat} {env : Environment}
    {op : Operation Float} (means : w.Means width env op) (distinct : op.qubits.Nodup) :
    w.HasValues width env := by
  refine ⟨fun word written => ?_, op.qubits, ?_, distinct⟩
  · have angle := means.angle
    rw [written] at angle
    cases turned : op.gate.angle? with
    | none =>
        rw [turned] at angle
        cases angle
    | some a =>
        rw [turned] at angle
        cases angle with
        | some evaluated => exact ⟨a, evaluated⟩
  · exact .cons means.target (List.rel_append (rel_toList means.partner) means.controls)

theorem instantiate?_isSome_iff (kind : GateKind) (angle? : Option Float) (partner? : Option Qubit) :
    (kind.instantiate? angle? partner?).isSome = true ↔
      (angle?.isSome = true ↔ kind.shape = .angle) ∧ (partner?.isSome = true ↔ kind.shape = .pair) := by
  cases kind <;> cases angle? <;> cases partner? <;> simp [GateKind.instantiate?, GateKind.shape]

theorem instantiate?_parts {kind : GateKind} {angle? : Option Float} {partner? : Option Qubit}
    {gate : StandardGate Float} (built : kind.instantiate? angle? partner? = some gate) :
    gate.kind = kind ∧ gate.angle? = angle? ∧ gate.partner? = partner? := by
  unfold GateKind.instantiate? at built
  split at built <;> cases built <;> exact ⟨rfl, rfl, rfl⟩

-- The values of the words are the parts of an operation, and there is a gate of the kind for them.
theorem GateWords.HasValues.means {w : GateWords} {m : Mnemonic} (suits : w.Suits m) {width : Nat}
    {env : Environment} (values : w.HasValues width env) :
    ∃ op, op.gate.kind = m.kind ∧ w.Means width env op ∧ op.qubits.Nodup := by
  obtain ⟨valued, qubits, named, distinct⟩ := values
  obtain ⟨angle?, turned⟩ := exists_rel valued
  obtain ⟨target, others, first, later, rfl⟩ := List.forall₂_cons_left_iff.mp named
  obtain ⟨partner?, controls, rfl, paired, listed⟩ := forall₂_toList_append later
  have shaped : (m.kind.instantiate? angle? partner?).isSome = true := by
    rw [instantiate?_isSome_iff, rel_isSome turned, rel_isSome paired]
    exact ⟨suits.angle, suits.partner⟩
  obtain ⟨gate, built⟩ := Option.isSome_iff_exists.mp shaped
  obtain ⟨kind, rfl, rfl⟩ := instantiate?_parts built
  exact ⟨⟨gate, target, ⟨controls⟩⟩, kind, ⟨first, turned, paired, listed⟩, distinct⟩

/-- A gate line is accepted exactly if its words are those that the mnemonic takes, the angle has a
value, and the others name distinct qubits of the register. The operation is then the one that the
words mean: the gate of this kind with the value of the angle, the target, the second qubit, and the
controls in the order in which they are written. -/
theorem placeGate_accepts_iff (width : Nat) (env : Environment) (line : Line) (m : Mnemonic) :
    ((∃ op, placeGate width env line m = .ok op) ↔
      ∃ w : GateWords, line.operands = w.written ∧ w.Suits m ∧ w.HasValues width env) ∧
    ∀ op, placeGate width env line m = .ok op ↔
      ∃ w : GateWords, line.operands = w.written ∧ w.Suits m ∧ op.gate.kind = m.kind ∧
        w.Means width env op ∧ op.qubits.Nodup := by
  have placed : ∀ op, placeGate width env line m = .ok op ↔
      ∃ w : GateWords, line.operands = w.written ∧ w.Suits m ∧ op.gate.kind = m.kind ∧
        w.Means width env op ∧ op.qubits.Nodup :=
    fun op => placeGate_eq_ok.trans places_iff_means
  refine ⟨⟨?_, ?_⟩, placed⟩
  · rintro ⟨op, accepted⟩
    obtain ⟨w, written, suits, -, means, distinct⟩ := (placed op).mp accepted
    exact ⟨w, written, suits, means.hasValues distinct⟩
  · rintro ⟨w, written, suits, values⟩
    obtain ⟨op, kind, means, distinct⟩ := values.means suits
    exact ⟨op, (placed op).mpr ⟨w, written, suits, kind, means, distinct⟩⟩

end QCircuit
