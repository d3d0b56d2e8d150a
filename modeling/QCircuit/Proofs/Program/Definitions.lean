import QCircuit.Proofs.Program.Spelling
import QCircuit.Proofs.Program.TopLevel
/-! Definitions that have been accepted.

What is checked while a definition is read holds of every definition of every state that is reached:
its name is new, its parameters are distinct, its loops are closed, and it only calls definitions
before it. So a name has one definition for good, and a body means the same wherever it is run. -/
namespace QCircuit

/-- What has been checked of a definition and of the lines taken into it. -/
structure Defines (older : List Macro) (name : String) (params : List String)
    (body : List Line) : Prop where
  free : isReserved name = false
  fresh : findMacro name older = none
  distinct : params.Nodup
  plain : DefinesNothing body
  known : ∀ line ∈ body, line.role = .name → (findMacro line.head older).isSome = true
  written : ∀ line ∈ body, line.Written

/-- Definitions that were accepted one after the other. -/
inductive Registered : List Macro → Prop where
  | nil : Registered []
  | cons {m : Macro} {older : List Macro} (contents : Defines older m.name m.params m.body)
      (balanced : Balanced m.body) (others : Registered older) : Registered (m :: older)

structure State.Defined (st : State) : Prop where
  registered : Registered st.macros
  contents : ∀ d, st.open? = some d → Defines st.macros d.name d.params d.captured.reverse
  nested : ∀ d, st.open? = some d → LeavesOpen d.depth d.captured.reverse

theorem checkName_ok {macros : List Macro} {line : Nat} {name : String}
    (checked : checkName macros line name = .ok ()) :
    isReserved name = false ∧ findMacro name macros = none := by
  unfold checkName at checked
  by_cases taken : (isReserved name || (findMacro name macros).isSome) = true
  · simp [taken] at checked
  · simpa using taken

theorem checkParams_ok {line : Nat} {seen words : List String}
    (checked : checkParams line seen words = .ok ()) :
    words.Nodup ∧ ∀ word ∈ words, word ∉ seen := by
  induction words generalizing seen with
  | nil => simp
  | cons word rest ih =>
      unfold checkParams at checked
      by_cases named : Expr.isVariable word = true
      · by_cases repeated : word ∈ seen
        · simp [named, repeated] at checked
        · have fresh : seen.contains word = false := by simpa using repeated
          simp only [named, fresh, Bool.not_true, Bool.false_eq_true, if_false] at checked
          obtain ⟨distinct, apart⟩ := ih checked
          constructor
          · rw [List.nodup_cons]
            refine ⟨?_, distinct⟩
            intro inside
            exact apart word inside List.mem_cons_self
          · rw [List.forall_mem_cons]
            refine ⟨repeated, ?_⟩
            intro other inside
            exact fun old => apart other inside (List.mem_cons_of_mem word old)
      · simp [named] at checked

theorem openDefinition_ok {macros : List Macro} {line : Line} {d : OpenDefinition}
    (opens : openDefinition macros line = .ok d) :
    Defines macros d.name d.params d.captured.reverse ∧ LeavesOpen d.depth d.captured.reverse := by
  unfold openDefinition at opens
  cases operands : line.operands with
  | nil => simp [operands] at opens
  | cons name params =>
      simp only [operands, bind_eq_ok, Except.ok.injEq] at opens
      obtain ⟨_, named, _, listed, rfl⟩ := opens
      obtain ⟨free, fresh⟩ := checkName_ok named
      exact ⟨⟨free, fresh, (checkParams_ok listed).1, by simp [DefinesNothing], by simp, by simp⟩,
        .none .nil⟩

theorem Defines.append {older : List Macro} {name : String} {params : List String}
    {body more : List Line} (defines : Defines older name params body)
    (plain : DefinesNothing more)
    (known : ∀ line ∈ more, line.role = .name → (findMacro line.head older).isSome = true)
    (written : ∀ line ∈ more, line.Written) : Defines older name params (body ++ more) where
  free := defines.free
  fresh := defines.fresh
  distinct := defines.distinct
  plain := List.forall_mem_append.mpr ⟨defines.plain, plain⟩
  known := List.forall_mem_append.mpr ⟨defines.known, known⟩
  written := List.forall_mem_append.mpr ⟨defines.written, written⟩

/-- A line that is taken into a definition. -/
structure Takes (macros : List Macro) (d next : OpenDefinition) (line : Line) : Prop where
  name : next.name = d.name
  params : next.params = d.params
  captured : next.captured = line :: d.captured
  plain : line.role ≠ .keyword .define ∧ line.role ≠ .keyword .endDefine
  known : line.role = .name → (findMacro line.head macros).isSome = true
  nested : LeavesOpen d.depth d.captured.reverse → LeavesOpen next.depth (d.captured.reverse ++ [line])

theorem Captures.takes {macros : List Macro} {d next : OpenDefinition} {line : Line}
    (captures : Captures macros d line (.more next)) : Takes macros d next line := by
  cases captures with
  | gate role =>
      have flat : line.Flat := by simp [Line.Flat, role]
      exact ⟨rfl, rfl, rfl, by simp [role], by simp [role], fun left => left.append (.line flat .nil)⟩
  | call role _ known =>
      have flat : line.Flat := by simp [Line.Flat, role]
      exact ⟨rfl, rfl, rfl, by simp [role], fun _ => known, fun left => left.append (.line flat .nil)⟩
  | opens role => exact ⟨rfl, rfl, rfl, by simp [role], by simp [role], fun left => left.opens role⟩
  | closes role deep =>
      refine ⟨rfl, rfl, rfl, by simp [role], by simp [role], fun left => ?_⟩
      rw [deep] at left
      exact left.closes role

theorem Step.defined {limit : Nat} {st next : State} {line : Line} {statement : List Line}
    (step : Step limit st line statement next) (written : line.Written) (defined : st.Defined) :
    next.Defined := by
  cases step with
  | @capture d next inside taken =>
      have takes := (captureLine_eq_ok.mp taken).takes
      have contents := defined.contents d inside
      refine ⟨defined.registered, ?_, ?_⟩
      · rintro _ ⟨⟩
        rw [takes.name, takes.params, takes.captured, List.reverse_cons]
        exact contents.append (by simpa [DefinesNothing] using takes.plain)
          (by simpa using takes.known) (by simpa using written)
      · rintro _ ⟨⟩
        rw [takes.captured, List.reverse_cons]
        exact takes.nested (defined.nested d inside)
  | @close d m inside taken =>
      cases captureLine_eq_ok.mp taken with
      | ends role top bare =>
          have nested := defined.nested d inside
          rw [top] at nested
          refine ⟨.cons (defined.contents d inside) nested.balanced defined.registered, ?_, ?_⟩
          · rintro _ ⟨⟩
          · rintro _ ⟨⟩
  | define outside role opens =>
      have opened := openDefinition_ok opens
      refine ⟨defined.registered, ?_, ?_⟩
      · rintro _ ⟨⟩
        exact opened.1
      · rintro _ ⟨⟩
        exact opened.2
  | initialise | add => exact ⟨defined.registered, defined.contents, defined.nested⟩

theorem State.empty_defined : State.empty.Defined := by
  refine ⟨.nil, ?_, ?_⟩
  · rintro _ ⟨⟩
  · rintro _ ⟨⟩

theorem Prepares.registered {limit : Nat} {before : List Line} (prepared : Prepares limit before)
    (written : ∀ line ∈ before, line.Written) : Registered (stateAfter limit before).macros :=
  (prepared.reaches.invariant Step.defined written State.empty_defined).registered

namespace Registered
variable {name : String} {macros older : List Macro} {m : Macro}

theorem found (registered : Registered macros) (found : findMacro name macros = some (m, older)) :
    m.name = name ∧ Defines older m.name m.params m.body ∧ Balanced m.body := by
  induction registered with
  | nil => cases found
  | @cons first rest contents balanced _ ih =>
      unfold findMacro at found
      by_cases same : first.name = name
      · rw [if_pos same] at found
        cases found
        exact ⟨same, contents, balanced⟩
      · rw [if_neg same] at found
        exact ih found

-- A later definition never hides one that an earlier definition could call.
theorem findMacro_older (registered : Registered macros)
    (found : findMacro name macros = some (m, older)) {other : String}
    (known : (findMacro other older).isSome = true) :
    findMacro other macros = findMacro other older := by
  induction registered with
  | nil => cases found
  | @cons first rest contents _ _ ih =>
      have hidden : ∀ rest', (findMacro other rest').isSome = true →
          findMacro first.name rest' = none → first.name ≠ other := by
        rintro rest' some none rfl
        rw [none] at some
        cases some
      unfold findMacro at found
      by_cases same : first.name = name
      · rw [if_pos same] at found
        cases found
        rw [findMacro, if_neg (hidden _ known contents.fresh)]
      · rw [if_neg same] at found
        have kept := ih found
        have some : (findMacro other rest).isSome = true := by rw [kept, known]
        rw [findMacro, if_neg (hidden _ some contents.fresh), kept]

end Registered

theorem Defines.role {older : List Macro} {params : List String} {body : List Line} {line : Line}
    (defines : Defines older line.head params body) : line.role = .name := by
  have free := defines.free
  rw [isReserved, Bool.or_eq_false_iff, Option.isSome_eq_false_iff, Option.isSome_eq_false_iff,
    Option.isNone_iff_eq_none, Option.isNone_iff_eq_none] at free
  rw [Line.role, Role.ofWord, free.1, free.2]

-- A name that has a definition is no reserved word.
theorem Registered.role {macros : List Macro} {line : Line} (registered : Registered macros)
    (known : (findMacro line.head macros).isSome = true) : line.role = .name := by
  obtain ⟨⟨m, older⟩, found⟩ := Option.isSome_iff_exists.mp known
  obtain ⟨named, contents, -⟩ := registered.found found
  rw [named] at contents
  exact contents.role

end QCircuit
