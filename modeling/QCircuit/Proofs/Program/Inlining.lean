import QCircuit.Proofs.Expr.IntegerLiteral
import QCircuit.Proofs.Program.Acceptance
import QCircuit.Proofs.Program.Definitions
/-! Inlining a call.

A call outside definitions is a group of the gates that the body of the definition expands to, with
the parameters bound to the values of the arguments. Where the body stands in place of the call, with
literals of these values in place of the parameters, its gates stand in place of the group. -/
namespace QCircuit

/-- A call of a text outside definitions. The lines before it are accepted, it names a definition
with as many parameters as it has arguments, and the arguments have the values of the literals. -/
structure CallSite (config : Config) (text : String) where
  before : List Line
  call : Line
  after : List Line
  definition : Macro
  older : List Macro
  literals : List Literal
  whole : (Source.ofText text).lines = before ++ call :: after
  prepared : Prepares config.qubitLimit before
  registered : findMacro call.head (stateAfter config.qubitLimit before).macros =
    some (definition, older)
  count : call.operands.length = definition.params.length
  reads : List.Forall₂ (fun word (l : Literal) => ∃ value,
    evaluate word Environment.empty = .ok value ∧
      evaluate (String.ofList l.text) Environment.empty = .ok value) call.operands literals

namespace CallSite
variable {config : Config} {text : String} (site : CallSite config text)

/-- The state at the call. -/
def state : State := stateAfter config.qubitLimit site.before

/-- The literals for the parameters. -/
def arguments : Substitution := site.definition.params.zip site.literals

/-- The lines of the text with the body of the definition in place of the call. -/
def inlined : List Line :=
  site.before ++ (rewrite site.arguments [] site.definition.body ++ site.after)

/-- The second program has the members of the group of the call in its place. -/
def Inlines (p p' : Program) : Prop :=
  p'.numQubits = p.numQubits ∧ ∃ members later : List (Gate Float),
    p.gates = site.state.gates ++ .composite site.definition.name members :: later ∧
      p'.gates = site.state.gates ++ (members ++ later)

theorem written : (∀ line ∈ site.before, line.Written) ∧ ∀ line ∈ site.after, line.Written := by
  have written := ofText_written text
  rw [site.whole, List.forall_mem_append, List.forall_mem_cons] at written
  exact ⟨written.1, written.2.2⟩

theorem macros_registered : Registered site.state.macros :=
  site.prepared.registered site.written.1

theorem defines : Defines site.older site.definition.name site.definition.params
    site.definition.body := (site.macros_registered.found site.registered).2.1

theorem balanced : Balanced site.definition.body :=
  (site.macros_registered.found site.registered).2.2

theorem name : site.definition.name = site.call.head :=
  (site.macros_registered.found site.registered).1

theorem role : site.call.role = .name :=
  site.macros_registered.role (Option.isSome_iff_exists.mpr ⟨_, site.registered⟩)

theorem evaluated : List.Forall₂ (fun word value => evaluate word Environment.empty = .ok value)
    site.call.operands (site.literals.map Literal.value) := by
  rw [List.forall₂_map_right_iff]
  refine site.reads.imp ?_
  rintro word l ⟨value, evaluated, read⟩
  rw [l.evaluate_text, Expr.finite_eq_ok] at read
  rwa [read.1]

theorem bound_iff (bound : Environment) :
    Binds Environment.empty site.call.operands site.definition.params bound ↔
      bound = site.arguments.bindAll Environment.empty := by
  rw [arguments, ← Substitution.ofBindings_zip]
  constructor
  · rintro ⟨_, values, evaluated, rfl⟩
    have unique : Relator.RightUnique fun word value =>
        evaluate word Environment.empty = Except.ok value := by
      intro word value value' first second
      rw [first] at second
      exact Except.ok.inj second
    rw [List.right_unique_forall₂' unique evaluated site.evaluated]
  · rintro rfl
    exact ⟨site.count, _, site.evaluated, rfl⟩

theorem distinct : (site.arguments.map Prod.fst).Nodup := by
  have length : site.definition.params.length ≤ site.literals.length := by
    rw [← site.count, site.reads.length_eq]
  rw [arguments, List.map_fst_zip length]
  exact site.defines.distinct

theorem expands_call (width : Nat) (gates : List (Gate Float)) :
    Expands width site.state.macros Environment.empty [site.call] gates ↔ ∃ members,
      Expands width site.state.macros Environment.empty
        (rewrite site.arguments [] site.definition.body) members ∧
          gates = [.composite site.definition.name members] := by
  have known : ∀ line ∈ site.definition.body, line.role = .name →
      findMacro line.head site.state.macros = findMacro line.head site.older :=
    fun line inside role => site.macros_registered.findMacro_older site.registered
      (site.defines.known line inside role)
  have body : ∀ members, Expands width site.state.macros Environment.empty
      (rewrite site.arguments [] site.definition.body) members ↔
        Expands width site.older (site.arguments.bindAll Environment.empty) site.definition.body
          members :=
    expands_rewrite site.balanced known
      (Substitution.replaces_bindAll site.distinct Environment.empty)
  simp only [expands_call_iff site.role, body]
  constructor
  · rintro ⟨m, older, bound, members, later, found, binds, inner, ended, rfl⟩
    rw [state, site.registered] at found
    cases found
    rw [expands_nil_iff] at ended
    rw [site.bound_iff] at binds
    exact ⟨members, binds ▸ inner, by rw [ended]⟩
  · rintro ⟨members, inner, rfl⟩
    exact ⟨_, _, _, members, [], site.registered, (site.bound_iff _).mpr rfl, inner, .done, rfl⟩

theorem accepts_iff {width : Nat} (found : site.state.width? = some width) (p : Program) :
    Accepts config.qubitLimit (Source.ofText text).lines p ↔ ∃ members later,
      Expands width site.state.macros Environment.empty
        (rewrite site.arguments [] site.definition.body) members ∧
        Adds config.qubitLimit site.state site.after p.numQubits later ∧
          p.gates = site.state.gates ++ .composite site.definition.name members :: later := by
  have flat : site.call.Flat := by simp [Line.Flat, site.role]
  have plain : DefinesNothing [site.call] := by simp [DefinesNothing, site.role]
  have split : (Source.ofText text).lines = site.before ++ ([site.call] ++ site.after) := site.whole
  rw [split, site.prepared.accepts_block_iff found (.line flat .nil) plain]
  constructor
  · rintro ⟨_, later, call, adds, whole⟩
    obtain ⟨members, inner, rfl⟩ := (site.expands_call width _).mp call
    exact ⟨members, later, inner, adds, whole⟩
  · rintro ⟨members, later, inner, adds, whole⟩
    exact ⟨_, later, (site.expands_call width _).mpr ⟨members, inner, rfl⟩, adds, whole⟩

theorem accepts_inlined_iff {width : Nat} (found : site.state.width? = some width) (p : Program) :
    Accepts config.qubitLimit site.inlined p ↔ ∃ members later,
      Expands width site.state.macros Environment.empty
        (rewrite site.arguments [] site.definition.body) members ∧
        Adds config.qubitLimit site.state site.after p.numQubits later ∧
          p.gates = site.state.gates ++ (members ++ later) :=
  site.prepared.accepts_block_iff found (site.balanced.rewrite _ _)
    (site.defines.plain.rewrite _ _) p

-- Each of the two programs gives the other, so they are accepted together.
theorem accepts_inlined {p : Program} (accepts : Accepts config.qubitLimit (Source.ofText text).lines p) :
    ∃ p', Accepts config.qubitLimit site.inlined p' ∧ site.Inlines p p' := by
  obtain ⟨width, found⟩ := Option.isSome_iff_exists.mp site.prepared.initialised
  obtain ⟨members, later, inner, adds, whole⟩ := (site.accepts_iff found p).mp accepts
  have accepts' := (site.accepts_inlined_iff found
    ⟨p.numQubits, site.state.gates ++ (members ++ later)⟩).mpr ⟨members, later, inner, adds, rfl⟩
  exact ⟨_, accepts', rfl, members, later, whole, rfl⟩

theorem accepts_of_inlined {p' : Program} (accepts : Accepts config.qubitLimit site.inlined p') :
    ∃ p, Accepts config.qubitLimit (Source.ofText text).lines p := by
  obtain ⟨width, found⟩ := Option.isSome_iff_exists.mp site.prepared.initialised
  obtain ⟨members, later, inner, adds, _⟩ := (site.accepts_inlined_iff found p').mp accepts
  exact ⟨_, (site.accepts_iff found ⟨p'.numQubits,
    site.state.gates ++ .composite site.definition.name members :: later⟩).mpr
      ⟨members, later, inner, adds, rfl⟩⟩

theorem inlined_written : ∀ line ∈ site.inlined, line.Written := by
  rw [inlined, List.forall_mem_append, List.forall_mem_append]
  exact ⟨site.written.1, written_rewrite site.defines.written _ _, site.written.2⟩

theorem Inlines.performAll {p p' : Program} (inlines : site.Inlines p p')
    (r : Register Float) : Register.performAll p.gates r = Register.performAll p'.gates r := by
  obtain ⟨_, members, later, whole, whole'⟩ := inlines
  rw [whole, whole', Register.performAll_flatten]

end CallSite

/-- A call can be replaced by the body of its definition. The program then has the members of the
group in place of the group, and its execution ends in the same register. -/
theorem inlined_call_same_execution {config : Config} {text : String} (site : CallSite config text) :
    (∃ text', Spells text' site.inlined) ∧
      ∀ text', Spells text' site.inlined →
        ((∃ p, (interpret config text).result = .ok p) ↔
          ∃ p', (interpret config text').result = .ok p') ∧
        ∀ p p', (interpret config text).result = .ok p → (interpret config text').result = .ok p' →
          site.Inlines p p' ∧ p'.execute = p.execute := by
  refine ⟨⟨textOf site.inlined, spells_textOf site.inlined_written⟩, fun text' spelled => ?_⟩
  have writes : ∀ p : Program, (interpret config text).result = .ok p ↔
      Accepts config.qubitLimit (Source.ofText text).lines p := fun _ => interpretSource_eq_ok
  have writes' : ∀ p : Program, (interpret config text').result = .ok p ↔
      Accepts config.qubitLimit site.inlined p := by
    intro p
    rw [interpret, interpretSource_eq_ok, accepts_congr spelled]
  constructor
  · constructor
    · rintro ⟨p, accepted⟩
      obtain ⟨p', accepts, _⟩ := site.accepts_inlined ((writes p).mp accepted)
      exact ⟨p', (writes' p').mpr accepts⟩
    · rintro ⟨p', accepted⟩
      obtain ⟨p, accepts⟩ := site.accepts_of_inlined ((writes' p').mp accepted)
      exact ⟨p, (writes p).mpr accepts⟩
  · intro p p' accepted accepted'
    obtain ⟨other, accepts, inlines⟩ := site.accepts_inlined ((writes p).mp accepted)
    have same : other = p' := by
      have second := (writes' other).mpr accepts
      rw [accepted'] at second
      exact (Except.ok.inj second).symm
    subst same
    have register : other.register = p.register := by
      rw [Program.register, Program.register, inlines.1]
    refine ⟨inlines, ?_⟩
    rw [execute_of_accepted accepted, execute_of_accepted accepted', register,
      inlines.performAll site]

-- A call with a negative angle of a definition in which a loop binds a parameter again.
def turnText : String :=
  "init 2\ndef m $q $t\nRX $q $t\nfor $q 1:$q\nX $q\nendfor\nendef\nm 2 -pi/2\nH 1"

def turnInlined : String :=
  "init 2\ndef m $q $t\nRX $q $t\nfor $q 1:$q\nX $q\nendfor\nendef
RX (2) (-1.5707963267948966)\nfor $q 1:(2)\nX $q\nendfor\nH 1"

def quarterTurn : Literal where
  negative := true
  digits := "1.5707963267948966".toList
  magnitude := 1.5707963267948966
  reads := by decide +kernel

def turnCall : CallSite ⟨24⟩ turnText where
  before := [⟨1, "init", ["2"]⟩, ⟨2, "def", ["m", "$q", "$t"]⟩, ⟨3, "RX", ["$q", "$t"]⟩,
    ⟨4, "for", ["$q", "1:$q"]⟩, ⟨5, "X", ["$q"]⟩, ⟨6, "endfor", []⟩, ⟨7, "endef", []⟩]
  call := ⟨8, "m", ["2", "-pi/2"]⟩
  after := [⟨9, "H", ["1"]⟩]
  definition := ⟨"m", ["$q", "$t"], [⟨3, "RX", ["$q", "$t"]⟩, ⟨4, "for", ["$q", "1:$q"]⟩,
    ⟨5, "X", ["$q"]⟩, ⟨6, "endfor", []⟩], 2, 7⟩
  older := []
  literals := [Literal.ofInt 2, quarterTurn]
  whole := by decide +kernel
  prepared := ⟨by decide +kernel, by decide +kernel, by decide +kernel⟩
  registered := by decide +kernel
  count := rfl
  reads := .cons ⟨2, by decide +kernel, by decide +kernel⟩
    (.cons ⟨-1.5707963267948966, by decide +kernel, by decide +kernel⟩ .nil)

theorem inlined_call_same_execution_turn :
    Spells turnInlined turnCall.inlined ∧ ∃ p p' : Program, p.gates.length = 2 ∧
      (interpret ⟨24⟩ turnText).result = .ok p ∧ (interpret ⟨24⟩ turnInlined).result = .ok p' ∧
        turnCall.Inlines p p' ∧ p'.execute = p.execute := by
  have spelled : Spells turnInlined turnCall.inlined := by
    unfold Spells SameWords
    decide +kernel
  have count : (interpret ⟨24⟩ turnText).result.toOption.map (·.gates.length) = some 2 := by
    decide +kernel
  have same := (inlined_call_same_execution turnCall).2 turnInlined spelled
  cases ran : (interpret ⟨24⟩ turnText).result with
  | error fault => simp [ran, Except.toOption] at count
  | ok p =>
      simp only [ran, Except.toOption, Option.map_some, Option.some.injEq] at count
      obtain ⟨p', ran'⟩ := same.1.mp ⟨p, ran⟩
      exact ⟨spelled, p, p', count, rfl, ran', same.2 p p' ran ran'⟩

end QCircuit
