import QCircuit.Proofs.Program.Expansion
/-! What operands are refused for.

Reading the operands of a line fails because of these operands alone: their number, their values, or
an expression that has none. A fault in the structure of the text, in a name or in a word without a
meaning never comes from here. -/
namespace QCircuit

/-- The operands of a line are wrong, or an expression among them has no value. -/
def Fault.OfOperands (fault : Fault) : Prop :=
  fault.cause.kind = .argument ∨ fault.cause.kind = .evaluation

/-- If there is no value, it is for the operands of a line. -/
def BlamesOperands {α : Type} (result : Except Fault α) : Prop :=
  ∀ fault, result = .error fault → fault.OfOperands

namespace BlamesOperands
variable {α β : Type}

theorem ok (a : α) : BlamesOperands (.ok a) := by
  rintro _ ⟨⟩

theorem argument {line : Nat} {cause : Cause} (kind : cause.kind = .argument) :
    BlamesOperands (refuse line cause : Except Fault α) := by
  rintro _ ⟨⟩
  exact Or.inl kind

theorem evaluation {line : Nat} {cause : Cause} (kind : cause.kind = .evaluation) :
    BlamesOperands (refuse line cause : Except Fault α) := by
  rintro _ ⟨⟩
  exact Or.inr kind

theorem bind {first : Except Fault α} {next : α → Except Fault β} (blames : BlamesOperands first)
    (later : ∀ a, BlamesOperands (next a)) : BlamesOperands (first >>= next) := by
  cases first with
  | error fault =>
      rintro _ ⟨⟩
      exact blames fault rfl
  | ok a => exact later a

theorem mapM {read : α → Except Fault β} (blames : ∀ a, BlamesOperands (read a)) (items : List α) :
    BlamesOperands (items.mapM read) := by
  induction items with
  | nil => exact ok []
  | cons a rest ih =>
      rw [List.mapM_cons]
      exact (blames a).bind fun b => ih.bind fun later => ok (b :: later)

theorem logged_bind {first : Logged α} {next : α → Logged β} (blames : BlamesOperands first.result)
    (later : ∀ a, BlamesOperands (next a).result) : BlamesOperands (first >>= next).result := by
  rw [Logged.result_bind]
  exact blames.bind later

end BlamesOperands

section Operands
variable {env : Environment} {line : Line} {width : Nat}

theorem evalOperand_blames (number : Nat) (word : String) :
    BlamesOperands (evalOperand number env word) := by
  unfold evalOperand
  cases evaluate word env with
  | ok value => exact .ok value
  | error e => exact .evaluation rfl

theorem refuseTrailing_blames (number : Nat) (words : List String) :
    BlamesOperands (refuseTrailing number words) := by
  cases words with
  | nil => exact .ok ()
  | cons word rest => exact .argument rfl

theorem qubitOperand_blames (number : Nat) (role : QubitRole) (word : String) :
    BlamesOperands (qubitOperand number width env role word) := by
  refine (evalOperand_blames number word).bind fun value => ?_
  cases Decimal.integer? value with
  | none => exact .argument rfl
  | some n =>
      by_cases inside : 1 ≤ n ∧ n ≤ width
      · simp only [inside, and_self, if_true]
        exact .ok _
      · simp only [inside, if_false]
        exact .argument rfl

theorem boundOperand_blames (number : Nat) (word : String) :
    BlamesOperands (boundOperand number env word) := by
  refine (evalOperand_blames number word).bind fun value => ?_
  cases Decimal.integer? value with
  | none => exact .argument rfl
  | some n => exact .ok _

theorem controlOperands_blames (m : Mnemonic) (words? : Option (List String)) :
    BlamesOperands (controlOperands width env line m words?) := by
  unfold controlOperands
  split
  · split
    · split
      · exact .argument rfl
      · refine (BlamesOperands.mapM (qubitOperand_blames _ _) _).bind fun qubits => ?_
        cases Controls.ofQubits qubits with
        | ok controls => exact .ok controls
        | error e => exact .argument rfl
    · exact .argument rfl
  · split
    · exact .argument rfl
    · exact .ok _

theorem angleOperand_blames (build : Float → StandardGate Float) (words : List String) :
    BlamesOperands (angleOperand env line build words) := by
  cases words with
  | nil => exact .argument rfl
  | cons word rest => exact (evalOperand_blames _ word).bind fun _ => .ok _

theorem partnerOperand_blames (words : List String) :
    BlamesOperands (partnerOperand width env line words) := by
  cases words with
  | nil => exact .argument rfl
  | cons word rest => exact (qubitOperand_blames _ _ word).bind fun _ => .ok _

theorem gateOperand_blames (kind : GateKind) (words : List String) :
    BlamesOperands (gateOperand width env line kind words) := by
  cases kind with
  | i | h | x | y | z => exact .ok _
  | p | rx | ry | rz => exact angleOperand_blames _ words
  | swap => exact partnerOperand_blames words

theorem placeGate_blames (m : Mnemonic) : BlamesOperands (placeGate width env line m) := by
  refine (controlOperands_blames m _).bind fun controls => ?_
  split
  · exact .argument rfl
  · refine (qubitOperand_blames _ _ _).bind fun target => ?_
    refine (gateOperand_blames m.kind _).bind fun read => ?_
    refine (refuseTrailing_blames _ _).bind fun _ => ?_
    cases Operation.make read.1 target controls with
    | ok op => exact .ok op
    | error e => exact .argument rfl

theorem bindArguments_blames (m : Macro) : BlamesOperands (bindArguments env line m) := by
  unfold bindArguments
  split
  · exact .argument rfl
  · exact (BlamesOperands.mapM (evalOperand_blames _) _).bind fun _ => .ok _

theorem readHeader_blames : BlamesOperands (readHeader env line) := by
  unfold readHeader
  split
  · exact .argument rfl
  · split
    · exact .argument rfl
    · split
      · exact .argument rfl
      · refine (boundOperand_blames _ _).bind fun start => ?_
        exact (boundOperand_blames _ _).bind fun stop => .ok _

-- A loop that has an end is only refused for the words of its first and its last line.
theorem openLoop_blames {rest body after : List Line} {closing : Line}
    (closed : splitLoop 0 rest = some (body, closing, after)) :
    BlamesOperands (openLoop env line rest) := by
  refine readHeader_blames.bind fun header => ?_
  simp only [closed]
  exact (refuseTrailing_blames _ _).bind fun _ => .ok _

end Operands

theorem repeatFrom_blames {α : Type} {body : Int → Logged (List α)}
    (blames : ∀ k, BlamesOperands (body k).result) (k : Int) (count : Nat) :
    BlamesOperands (repeatFrom body k count).result := by
  induction count generalizing k with
  | zero => exact .ok []
  | succ count ih =>
      rw [repeatFrom_succ]
      exact (blames k).logged_bind fun new => (ih (k + 1)).logged_bind fun later => .ok _

theorem unroll_blames {α : Type} {line depth : Nat} {header : LoopHeader}
    {body : Int → Logged (List α)} (blames : ∀ k, BlamesOperands (body k).result) :
    BlamesOperands (unroll line depth header body).result := by
  have turns := repeatFrom_blames blames header.start header.count
  unfold unroll
  split
  · exact (BlamesOperands.ok ()).logged_bind fun _ => (BlamesOperands.ok ()).logged_bind fun _ => turns
  · exact (BlamesOperands.ok ()).logged_bind fun _ => turns

end QCircuit
