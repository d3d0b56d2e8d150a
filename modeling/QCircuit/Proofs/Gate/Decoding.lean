import QCircuit.Gate.Codec
import QCircuit.Proofs.Json.Printing
import QCircuit.Proofs.Program.Acceptance
/-! Gates that are read from their JSON text.

Reading undoes writing, for single gates by their variants and for groups by their members. Only an
angle that is not finite is lost, since it is written as a null, and then nothing is read. The gates
of an accepted program have no such angle. -/
namespace QCircuit
open Text

/-- The angle of the operation, if it has one, is finite. -/
def Operation.FiniteAngle (op : Operation Float) : Prop :=
  ∀ angle, op.gate.angle? = some angle → angle.isFinite = true

theorem Operation.finiteAngle_iff (op : Operation Float) :
    op.gate.angle?.all Float.isFinite = true ↔ op.FiniteAngle := by
  cases angle : op.gate.angle? <;> simp [FiniteAngle, angle]

instance (op : Operation Float) : Decidable op.FiniteAngle :=
  decidable_of_iff _ op.finiteAngle_iff

/-- The numbers of the qubits are held in 32 bits. -/
def Operation.Held (op : Operation Float) : Prop := ∀ q ∈ op.qubits, q.number < wordLimit

namespace Json

theorem reread_natural {n : Nat} (held : n < wordLimit) : (natural n).reread = natural n := by
  rw [wordLimit] at held
  have held' : holdsInteger n = true := by
    simp only [holdsInteger, Bool.and_eq_true, decide_eq_true_eq]
    omega
  rw [natural, reread, Numeral.ofNat_json held']

theorem asWord32?_natural {n : Nat} (held : n < wordLimit) : (natural n).asWord32? = some n := by
  rw [wordLimit] at held
  rw [natural, asWord32?, if_pos (by omega), Int.toNat_natCast]

end Json

theorem StandardGate.ofJson?_reread {g : StandardGate Float}
    (held : ∀ q, g.partner? = some q → q.number < wordLimit) :
    ofJson? g.toJson.reread = if g.angle?.all Float.isFinite then some g else none := by
  cases g with
  | i | h | x | y | z => rfl
  | p angle | rx angle | ry angle | rz angle =>
      by_cases finite : angle.isFinite = true <;>
        simp [toJson, Json.reread, Json.rereadMembers, ofJson?, ofMember?, Json.asFloat?, angle?, finite]
  | swap q =>
      have small := held q rfl
      simp [toJson, Json.reread_natural small, Json.asWord32?_natural small, Json.reread,
        Json.rereadMembers, ofJson?, ofMember?, angle?]

theorem Controls.ofJson?_reread {controls : Controls}
    (held : ∀ q ∈ controls.qubits, q.number < wordLimit) :
    ofJson? controls.toJson.reread = some controls := by
  obtain ⟨qubits⟩ := controls
  have items : Json.rereadItems (qubits.map fun q => .natural q.number) =
      qubits.map fun q => .natural q.number := by
    induction qubits with
    | nil => rfl
    | cons q rest ih =>
        rw [List.forall_mem_cons] at held
        rw [List.map_cons, Json.rereadItems, Json.reread_natural held.1, ih held.2]
  have numbers : (qubits.map fun q => Json.natural q.number).mapM Json.asWord32? =
      some (qubits.map Qubit.number) := by
    clear items
    induction qubits with
    | nil => rfl
    | cons q rest ih =>
        rw [List.forall_mem_cons] at held
        rw [List.map_cons, List.mapM_cons, Json.asWord32?_natural held.1, ih held.2]
        rfl
  have same : Qubit.mk ∘ Qubit.number = id := rfl
  simp [toJson, Json.reread, items, ofJson?, Json.asArray?, numbers, same]

namespace Operation
variable {op : Operation Float}

theorem ofFields?_reread (held : op.Held) {controls? : Option Json}
    (read : controls?.elim (some Controls.none) Controls.ofJson? = some op.controls) :
    ofFields? op.gate.toJson.reread (Json.natural op.target.number).reread controls? =
      if op.FiniteAngle then some op else none := by
  have target : op.target.number < wordLimit := held op.target (by simp [qubits, active])
  have gate := StandardGate.ofJson?_reread (g := op.gate) fun q named =>
    held q (by simp [qubits, active, named])
  rw [ofFields?, gate, Json.reread_natural target, Json.asWord32?_natural target]
  by_cases finite : op.FiniteAngle
  · rw [if_pos (op.finiteAngle_iff.mpr finite), if_pos finite]
    cases controls? with
    | none =>
        have same : Controls.none = op.controls := Option.some.inj read
        exact congrArg (fun controls => some (⟨op.gate, op.target, controls⟩ : Operation Float)) same
    | some json =>
        have read' : Controls.ofJson? json = some op.controls := read
        simp [read']
  · rw [if_neg fun all => finite (op.finiteAngle_iff.mp all), if_neg finite]
    rfl

theorem ofJson?_reread (held : op.Held) :
    ofJson? op.toJson.reread = if op.FiniteAngle then some op else none := by
  have controls : Controls.ofJson? op.controls.toJson.reread = some op.controls :=
    Controls.ofJson?_reread fun q inside => held q (by simp [qubits, inside])
  by_cases empty : op.controls.isEmpty = true
  · have absent : some Controls.none = some op.controls :=
      congrArg (fun qubits => some (⟨qubits⟩ : Controls)) (List.isEmpty_iff.mp empty).symm
    rw [← @ofFields?_reread op held none absent]
    simp [toJson, empty, Json.reread, Json.rereadMembers, ofJson?, Json.field?, Json.valuesOf]
  · rw [← @ofFields?_reread op held (some op.controls.toJson.reread) controls]
    simp [toJson, empty, Json.reread, Json.rereadMembers, ofJson?, Json.field?, Json.valuesOf]

end Operation

namespace Gate

mutual

theorem ofJson?_reread : ∀ g : Gate Float, (∀ op ∈ g.leaves, op.Held) →
    ofJson? g.toJson.reread = if ∀ op ∈ g.leaves, op.FiniteAngle then some g else none
  | standard op => by
      intro held
      have read := Operation.ofJson?_reread (held op List.mem_cons_self)
      simp only [leaves, List.forall_mem_singleton]
      by_cases finite : op.FiniteAngle <;>
        simp [toJson, Json.reread, Json.rereadMembers, ofJson?, read, finite]
  | composite name members => by
      intro held
      have inside := ofJsonAll?_reread members held
      rw [leaves]
      by_cases finite : ∀ op ∈ leavesOf members, op.FiniteAngle
      · rw [if_pos finite] at inside ⊢
        simp [toJson, Json.reread, Json.rereadMembers, ofJson?, compositeOfJson?, fieldsOfJson?,
          Json.asString?, membersOfJson?, inside]
      · rw [if_neg finite] at inside ⊢
        simp [toJson, Json.reread, Json.rereadMembers, ofJson?, compositeOfJson?, fieldsOfJson?,
          membersOfJson?, inside]

theorem ofJsonAll?_reread : ∀ gates : List (Gate Float), (∀ op ∈ leavesOf gates, op.Held) →
    ofJsonAll? (Json.rereadItems (toJsonAll gates)) =
      if ∀ op ∈ leavesOf gates, op.FiniteAngle then some gates else none
  | [] => fun _ => rfl
  | g :: rest => by
      intro held
      rw [leavesOf, List.forall_mem_append] at held
      have first := ofJson?_reread g held.1
      have later := ofJsonAll?_reread rest held.2
      have both : (∀ op ∈ leavesOf (g :: rest), op.FiniteAngle) ↔
          (∀ op ∈ g.leaves, op.FiniteAngle) ∧ ∀ op ∈ leavesOf rest, op.FiniteAngle := by
        rw [leavesOf, List.forall_mem_append]
      rw [toJsonAll, Json.rereadItems, ofJsonAll?, first, later]
      by_cases finite : ∀ op ∈ g.leaves, op.FiniteAngle
      · by_cases finite' : ∀ op ∈ leavesOf rest, op.FiniteAngle
        · rw [if_pos finite, if_pos finite', if_pos (both.mpr ⟨finite, finite'⟩)]
          rfl
        · rw [if_pos finite, if_neg finite', if_neg fun all => finite' (both.mp all).2]
          rfl
      · rw [if_neg finite, if_neg fun all => finite (both.mp all).1]
        rfl

end

/-- The gate of a JSON text. -/
def ofText? (text : String) : Option (Gate Float) := (Json.parse? text).bind ofJson?

/-- The gates of a JSON text that is an array of them. -/
def allOfText? (text : String) : Option (List (Gate Float)) := (Json.parse? text).bind membersOfJson?

end Gate

namespace CommandLine

theorem perform_check_json {input text : String} {config : Config} {content : Content} {p : Program}
    (verbosity : Nat) (loaded : loadSource input content = .ok text)
    (accepted : (interpret config text).result = .ok p) :
    ∃ log, (Command.check input "json" config).perform verbosity content =
      ⟨[(programJson p).pretty], log, 0⟩ := by
  have known : ¬ ("json" ≠ "summary" ∧ "json" ≠ "json") := by decide
  refine ⟨shownLog (Level.ofVerbosity verbosity) (interpret config text).log, ?_⟩
  rw [Command.perform, performCheck, if_neg known, withProgram, loaded]
  simp only [accepted]
  rfl

/-- A gate is read back from the text that it is written in if its angles are finite, and otherwise
nothing is read. So the gates of an accepted program are read from what the tool prints of it. -/
theorem gate_text_round_trip :
    (∀ g : Gate Float, (∀ op ∈ g.leaves, op.Held) →
      ∀ text ∈ [g.toJson.compact, g.toJson.pretty],
        ((∀ op ∈ g.leaves, op.FiniteAngle) → Gate.ofText? text = some g) ∧
        ((∃ op ∈ g.leaves, ¬ op.FiniteAngle) → Gate.ofText? text = none)) ∧
    ∀ (verbosity : Nat) (input : String) (config : Config) (content : Content) (text : String)
      (p : Program), loadSource input content = .ok text → (interpret config text).result = .ok p →
        ((Command.check input "json" config).perform verbosity content).status = 0 ∧
        Gate.allOfText? ((Command.check input "json" config).perform verbosity content).outputText =
          some p.gates := by
  constructor
  · intro g held text written
    have parsed : Json.parse? text = some g.toJson.reread := by
      rcases List.mem_pair.mp written with rfl | rfl
      · exact Json.parse?_compact _
      · exact Json.parse?_pretty _
    have read : Gate.ofText? text = Gate.ofJson? g.toJson.reread := by
      rw [Gate.ofText?, parsed, Option.bind_some]
    rw [read, Gate.ofJson?_reread g held]
    constructor
    · intro finite
      rw [if_pos finite]
    · rintro ⟨op, leaf, wild⟩
      rw [if_neg fun finite => wild (finite op leaf)]
  · intro verbosity input config content text p loaded accepted
    obtain ⟨log, printed⟩ := perform_check_json verbosity loaded accepted
    obtain ⟨⟨_, narrow⟩, ready⟩ := interpretSource_sound accepted
    have limit : config.qubitLimit ≤ Register.maxQubits := Nat.min_le_right _ _
    have held : ∀ op ∈ Gate.leavesOf p.gates, op.Held := by
      intro op leaf q inside
      have range := (ready op leaf).fits.inRange q inside
      exact lt_of_le_of_lt (range.2.trans (narrow.trans limit)) (by decide)
    have finite : ∀ op ∈ Gate.leavesOf p.gates, op.FiniteAngle := fun op leaf => (ready op leaf).finite
    have output : (Printed.mk [(programJson p).pretty] log 0).outputText =
        (programJson p).pretty ++ "\n" := by
      simp [Printed.outputText]
    rw [printed, output, Gate.allOfText?, Json.parse?_pretty_line, programJson, Json.reread,
      Option.bind_some, Gate.membersOfJson?, Gate.ofJsonAll?_reread p.gates held, if_pos finite]
    exact ⟨rfl, rfl⟩

/-- A group with a group inside, whose operation no register would take. -/
def oddGate (angle : Float) : Gate Float :=
  .composite "a\"b\\\n" [.composite "" [.standard ⟨.rx angle, ⟨0⟩, ⟨[⟨2⟩, ⟨2⟩, ⟨0⟩]⟩⟩],
    .standard ⟨.swap ⟨1⟩, ⟨1⟩, .none⟩]

theorem gate_text_round_trip_odd :
    Gate.ofText? (oddGate (-0.0)).toJson.compact = some (oddGate (-0.0)) ∧
      Gate.ofText? (oddGate 1e-7).toJson.pretty = some (oddGate 1e-7) ∧
      Gate.ofText? (oddGate (1 / 0)).toJson.compact = none ∧
      ∃ p : Program, p.gates.length = 1 ∧ Gate.allOfText?
        ((Command.check "a" "json" ⟨24⟩).perform 0 (.bytes "init 1\nRX 1 pi/2".toUTF8)).outputText =
          some p.gates := by
  have held : ∀ angle, ∀ op ∈ (oddGate angle).leaves, op.Held := by
    intro angle
    simp [oddGate, Gate.leaves, Gate.leavesOf, Operation.Held, Operation.qubits, Operation.active,
      StandardGate.partner?, Controls.none, wordLimit]
  have finite : ∀ op ∈ (oddGate (-0.0)).leaves, op.FiniteAngle := by decide +kernel
  have finite' : ∀ op ∈ (oddGate 1e-7).leaves, op.FiniteAngle := by decide +kernel
  have wild : ∃ op ∈ (oddGate (1 / 0)).leaves, ¬ op.FiniteAngle := by decide +kernel
  have count : (interpret ⟨24⟩ "init 1\nRX 1 pi/2").result.toOption.map (·.gates.length) = some 1 := by
    decide +kernel
  cases ran : (interpret ⟨24⟩ "init 1\nRX 1 pi/2").result with
  | error fault => simp [ran, Except.toOption] at count
  | ok p =>
      simp only [ran, Except.toOption, Option.map_some, Option.some.injEq] at count
      exact ⟨(gate_text_round_trip.1 _ (held _) _ List.mem_cons_self).1 finite,
        (gate_text_round_trip.1 _ (held _) _ (List.mem_pair.mpr (.inr rfl))).1 finite',
        (gate_text_round_trip.1 _ (held _) _ List.mem_cons_self).2 wild, p, count,
        (gate_text_round_trip.2 0 "a" ⟨24⟩ _ _ p (loadSource_toUTF8 "a" _) ran).2⟩

end CommandLine
end QCircuit
