import QCircuit.Proofs.Program.Site
/-! What a call means.

The body of a definition sees its parameters and the definitions before its own. These never change,
so a call gives the same group, or the same fault, wherever it stands: whatever the variables around
it are, inside any loops and calls, and whatever has been defined in between. -/
namespace QCircuit

theorem argument_count {env : Environment} {call : Line} {values : List Float}
    (evaluates : argumentValues call env = .ok values) : call.operands.length = values.length :=
  ((mapM_eq_ok _ _ _).mp evaluates).length_eq

theorem bindArguments_values {env : Environment} {call : Line} {m : Macro} {values : List Float}
    (evaluates : argumentValues call env = .ok values) (count : values.length = m.params.length) :
    bindArguments env call m = .ok (Environment.ofBindings (m.params.zip values)) := by
  have given := (argument_count evaluates).trans count
  rw [bindArguments, if_neg (not_not_intro given), evaluates]
  rfl

section Call
variable {width depth : Nat} {macros older : List Macro} {env : Environment} {call : Line}
  {m : Macro} {values : List Float} (role : call.role = .name)
  (found : findMacro call.head macros = some (m, older))
  (evaluates : argumentValues call env = .ok values)
include role found evaluates

theorem call_result (count : values.length = m.params.length) :
    (runBlock width macros depth env [call]).result = (do
      let members ← (runBlock width older 0 (Environment.ofBindings (m.params.zip values))
        m.body).result
      pure [.composite m.name members]) := by
  rw [runBlock_call role found, Logged.result_bind, Logged.result_ofResult,
    bindArguments_values evaluates count]
  show Logged.result (_ >>= _) = _
  rw [Logged.result_bind, runBlock_anyDepth 0, runBlock]
  rfl

theorem call_refused (count : values.length ≠ m.params.length) (rest : List Line) :
    (runBlock width macros depth env (call :: rest)).result =
      refuse call.number (.argumentCount call.head m.params.length values.length) := by
  have given := argument_count evaluates
  have refused : bindArguments env call m =
      refuse call.number (.argumentCount call.head m.params.length values.length) := by
    rw [bindArguments, given, if_pos count]
  rw [runBlock_call role found, Logged.result_bind, Logged.result_ofResult, refused]
  rfl

end Call

theorem Registered.findMacro_of_suffix {name : String} {macros fewer : List Macro}
    {found : Macro × List Macro} (registered : Registered macros) (suffix : fewer <:+ macros)
    (known : findMacro name fewer = some found) : findMacro name macros = some found := by
  induction registered with
  | nil =>
      rw [List.suffix_nil] at suffix
      rw [← suffix, known]
  | @cons m older contents _ _ ih =>
      rcases List.suffix_cons_iff.mp suffix with rfl | inside
      · exact known
      · have kept := ih inside
        have other : m.name ≠ name := by
          rintro rfl
          rw [contents.fresh] at kept
          cases kept
        rw [findMacro, if_neg other, kept]

theorem Step.suffix {limit : Nat} {st next : State} {line : Line} {statement : List Line}
    (step : Step limit st line statement next) : st.macros <:+ next.macros := by
  cases step with
  | close => exact List.suffix_cons _ _
  | capture | initialise | define | add => exact List.suffix_refl _

namespace Visits
variable {limit : Nat} {st a b : State} {lines left left' : List Line}

-- Of two states of an interpretation, one comes after the other.
theorem compare (visits : Visits limit st lines a left) (visits' : Visits limit st lines b left') :
    Visits limit a left b left' ∨ Visits limit b left' a left := by
  induction visits with
  | here => exact Or.inl visits'
  | next step later ih =>
      cases visits' with
      | here => exact Or.inr (.next step later)
      | next step' later' =>
          rw [step'.deterministic step] at later'
          exact ih later'

theorem suffix (visits : Visits limit a left b left') : a.macros <:+ b.macros :=
  visits.invariant (P := fun st _ => a.macros <:+ st.macros) (fun step kept => kept.trans step.suffix)
    (List.suffix_refl _)

theorem width {width : Nat} (visits : Visits limit a left b left')
    (begun : a.width? = some width) : b.width? = some width :=
  visits.invariant (P := fun st _ => st.width? = some width) (fun step begun => step.width begun) begun

end Visits

theorem State.runs?_width {st : State} {line : Line} {width : Nat}
    (runs : st.runs? line = some width) : st.width? = some width := by
  unfold State.runs? at runs
  split at runs
  · exact runs
  · exact runs
  · rw [Option.ite_none_right_eq_some] at runs
    exact runs.2
  · cases runs

namespace ComesTo
variable {config : Config} {text : String} {all all₁ all₂ : List Macro} {s s₁ s₂ : Site}

theorem visits (reached : ComesTo config text all s) : ∃ st left,
    Visits config.qubitLimit State.empty (Source.ofText text).lines st left ∧
      st.macros = all ∧ st.width? = some s.width := by
  cases reached with
  | between visits begun => exact ⟨_, _, visits, rfl, begun⟩
  | inside visits runs passes =>
      refine ⟨_, _, visits, rfl, ?_⟩
      rw [passes.width]
      exact State.runs?_width runs

theorem registered (reached : ComesTo config text all s) : Registered all := by
  obtain ⟨st, left, visits, rfl, -⟩ := reached.visits
  exact visits.defined.registered

-- A definition stays what it is, and so does the circuit.
theorem same_definition {name : String} (at₁ : ComesTo config text all₁ s₁)
    (at₂ : ComesTo config text all₂ s₂) (known₁ : (findMacro name all₁).isSome = true)
    (known₂ : (findMacro name all₂).isSome = true) :
    findMacro name all₁ = findMacro name all₂ ∧ s₁.width = s₂.width := by
  have registered₁ := at₁.registered
  have registered₂ := at₂.registered
  obtain ⟨st₁, left₁, visits₁, rfl, begun₁⟩ := at₁.visits
  obtain ⟨st₂, left₂, visits₂, rfl, begun₂⟩ := at₂.visits
  obtain ⟨found₁, lookup₁⟩ := Option.isSome_iff_exists.mp known₁
  obtain ⟨found₂, lookup₂⟩ := Option.isSome_iff_exists.mp known₂
  rcases visits₁.compare visits₂ with later | later
  · have width := later.width begun₁
    rw [begun₂, Option.some.injEq] at width
    exact ⟨by rw [lookup₁, registered₂.findMacro_of_suffix later.suffix lookup₁], width.symm⟩
  · have width := later.width begun₂
    rw [begun₁, Option.some.injEq] at width
    exact ⟨by rw [lookup₂, registered₁.findMacro_of_suffix later.suffix lookup₂], width⟩

end ComesTo

/-- The call is the next line of the site, with its variables. -/
def Site.Makes (s : Site) (env : Environment) (call : Line) : Prop :=
  env = s.env ∧ ∃ rest, s.lines = call :: rest

/-- What a call gives at a site when there are these definitions. -/
structure Answers (all : List Macro) (s : Site) (env : Environment) (call : Line)
    (result : Except Fault (List (Gate Float))) : Prop where
  run : (runBlock s.width all s.depth env [call]).result = result
  /-- It is the same if names in bodies are looked up among all definitions. -/
  lookup : ∀ stray before, (∀ m ∈ all, m.openedAt < before) →
    (runBlockBefore stray s.width all before s.depth env [call]).result = result
  /-- It is what the interpretation does with its own call. -/
  made : s.Makes env call → (runBlock s.width s.macros s.depth s.env [call]).result = result

theorem ComesTo.descends {config : Config} {text : String} {all : List Macro} {s : Site}
    (reached : ComesTo config text all s) :
    all.Pairwise fun later earlier => earlier.openedAt < later.openedAt := by
  obtain ⟨st, left, visits, rfl, -⟩ := reached.visits
  exact visits.ordered.descends

section Sites
variable {config : Config} {text : String} {all : List Macro} {s : Site}
  (reached : ComesTo config text all s)
include reached

-- The line that comes next sees the definition that its name has among all.
theorem ComesTo.made {env : Environment} {call : Line} (makes : s.Makes env call)
    (role : call.role = .name) : findMacro call.head s.macros = findMacro call.head all := by
  obtain ⟨-, rest, lines⟩ := makes
  refine (reached.sees.agree call ?_ role).symm
  rw [lines]
  exact List.mem_cons_self

theorem ComesTo.answers {env : Environment} {call : Line}
    (known : (findMacro call.head all).isSome = true) :
    Answers all s env call (runBlock s.width all s.depth env [call]).result := by
  have registered := reached.registered
  have role := registered.role known
  obtain ⟨⟨m, older⟩, found⟩ := Option.isSome_iff_exists.mp known
  refine ⟨rfl, fun stray before above => ?_, fun makes => ?_⟩
  · rw [runBlockBefore_eq registered above reached.descends (fun _ _ => rfl) fun _ _ _ => rfl]
  · have found' := (reached.made makes role).trans found
    rw [makes.1, runBlock_call role found, runBlock_call role found']
    simp only [runBlock]

theorem ComesTo.refuses {env : Environment} {call : Line} {m : Macro} {older : List Macro}
    {values : List Float} (makes : s.Makes env call) (role : call.role = .name)
    (found : findMacro call.head all = some (m, older))
    (evaluates : argumentValues call env = .ok values) (count : values.length ≠ m.params.length) :
    (interpret config text).result =
      refuse call.number (.argumentCount call.head m.params.length values.length) := by
  have found' := (reached.made makes role).trans found
  obtain ⟨rfl, rest, lines⟩ := makes
  apply reached.refused
  rw [Site.run, lines, call_refused role found' evaluates count]
  rfl

end Sites

/-- Wherever an interpretation has come to, calls of a definition with the same values give the same
group, or are refused for the same fault on the same line. A call with a wrong number of values is
refused on its own line; an interpretation that makes one makes no other. -/
theorem call_means_the_same {config : Config} {text : String} {all₁ all₂ : List Macro}
    {s₁ s₂ : Site} (at₁ : ComesTo config text all₁ s₁) (at₂ : ComesTo config text all₂ s₂)
    {env₁ env₂ : Environment} {call₁ call₂ : Line} {values : List Float}
    (name : call₁.head = call₂.head) (known₁ : (findMacro call₁.head all₁).isSome = true)
    (known₂ : (findMacro call₂.head all₂).isSome = true)
    (evaluates₁ : argumentValues call₁ env₁ = .ok values)
    (evaluates₂ : argumentValues call₂ env₂ = .ok values) :
    ∃ m older result₁ result₂, findMacro call₁.head all₁ = some (m, older) ∧
      findMacro call₂.head all₂ = some (m, older) ∧
      Answers all₁ s₁ env₁ call₁ result₁ ∧ Answers all₂ s₂ env₂ call₂ result₂ ∧
      (values.length = m.params.length ∨ s₁.Makes env₁ call₁ ∧ s₂.Makes env₂ call₂ →
        result₁ = result₂) ∧
      (values.length ≠ m.params.length → ∃ cause,
        result₁ = refuse call₁.number cause ∧ result₂ = refuse call₂.number cause) := by
  have role₁ := at₁.registered.role known₁
  have role₂ := at₂.registered.role known₂
  obtain ⟨⟨m, older⟩, found₁⟩ := Option.isSome_iff_exists.mp known₁
  have same := at₁.same_definition at₂ known₁ (by rw [name, known₂])
  have found₂ : findMacro call₂.head all₂ = some (m, older) := by rw [← name, ← same.1, found₁]
  refine ⟨m, older, _, _, found₁, found₂, at₁.answers known₁, at₂.answers known₂, ?_, ?_⟩
  · by_cases count : values.length = m.params.length
    · intro _
      rw [call_result role₁ found₁ evaluates₁ count, call_result role₂ found₂ evaluates₂ count, same.2]
    · rintro (fits | ⟨makes₁, makes₂⟩)
      · exact absurd fits count
      -- Each of them ends the interpretation, which has one fault.
      · have ended := at₁.refuses makes₁ role₁ found₁ evaluates₁ count
        rw [at₂.refuses makes₂ role₂ found₂ evaluates₂ count] at ended
        have line : call₂.number = call₁.number := congrArg Fault.line (Except.error.inj ended)
        rw [call_refused role₁ found₁ evaluates₁ count [], call_refused role₂ found₂ evaluates₂ count [],
          line, name]
  · intro count
    refine ⟨.argumentCount call₁.head m.params.length values.length, ?_, ?_⟩
    · exact call_refused role₁ found₁ evaluates₁ count []
    · rw [name]
      exact call_refused role₂ found₂ evaluates₂ count []

def entangleText : String :=
  "init 3\ndef pair $a $b\nH $a\nCX $b | $a\nendef\ndef chain $n
for $i 1:$n\npair $i $i+1\nendfor\nendef\nchain 2\ndef late\npair 1 2\nendef\npair 2 3"

def pairMacro : Macro :=
  ⟨"pair", ["$a", "$b"], [⟨3, "H", ["$a"]⟩, ⟨4, "CX", ["$b", "|", "$a"]⟩], 2, 5⟩

def chainMacro : Macro :=
  ⟨"chain", ["$n"], [⟨7, "for", ["$i", "1:$n"]⟩, ⟨8, "pair", ["$i", "$i+1"]⟩, ⟨9, "endfor", []⟩],
    6, 10⟩

/-- The lines in front of the call of the longer definition, and those in front of the last call. -/
def entangleFront : List Line :=
  [⟨1, "init", ["3"]⟩, ⟨2, "def", ["pair", "$a", "$b"]⟩] ++ pairMacro.body ++
    [⟨5, "endef", []⟩, ⟨6, "def", ["chain", "$n"]⟩] ++ chainMacro.body ++ [⟨10, "endef", []⟩]

def entangleBack : List Line :=
  [⟨11, "chain", ["2"]⟩, ⟨12, "def", ["late"]⟩, ⟨13, "pair", ["1", "2"]⟩, ⟨14, "endef", []⟩]

-- The second turn of a loop inside a call, and a line of its own behind another definition.
theorem call_means_the_same_twice : ∃ all₁ all₂ s₁ s₂ result,
    ComesTo ⟨24⟩ entangleText all₁ s₁ ∧ ComesTo ⟨24⟩ entangleText all₂ s₂ ∧
      s₁.Makes s₁.env ⟨8, "pair", ["$i", "$i+1"]⟩ ∧ s₂.Makes s₂.env ⟨15, "pair", ["2", "3"]⟩ ∧
      s₁.depth = 1 ∧ s₂.depth = 0 ∧ all₁.length = 2 ∧ all₂.length = 3 ∧ refusal? result = none ∧
      Answers all₁ s₁ s₁.env ⟨8, "pair", ["$i", "$i+1"]⟩ result ∧
      Answers all₂ s₂ s₂.env ⟨15, "pair", ["2", "3"]⟩ result := by
  have whole : (Source.ofText entangleText).lines =
      entangleFront ++ (entangleBack ++ [⟨15, "pair", ["2", "3"]⟩]) := by decide +kernel
  have front : Prepares 24 entangleFront := ⟨by decide +kernel, by decide +kernel, by decide +kernel⟩
  have both : Prepares 24 (entangleFront ++ entangleBack) :=
    ⟨by decide +kernel, by decide +kernel, by decide +kernel⟩
  have visits₁ := front.reaches.visits_front (entangleBack ++ [⟨15, "pair", ["2", "3"]⟩])
  have visits₂ := both.reaches.visits_front [⟨15, "pair", ["2", "3"]⟩]
  rw [← whole] at visits₁
  rw [List.append_assoc, ← whole] at visits₂
  have macros : (stateAfter 24 entangleFront).macros = [chainMacro, pairMacro] := by decide +kernel
  have runs₁ : (stateAfter 24 entangleFront).runs? ⟨11, "chain", ["2"]⟩ = some 3 := by decide +kernel
  have runs₂ : (stateAfter 24 (entangleFront ++ entangleBack)).runs? ⟨15, "pair", ["2", "3"]⟩ =
      some 3 := by decide +kernel
  have loose₁ : (⟨11, "chain", ["2"]⟩ : Line).role ≠ .keyword .loop := by decide
  have loose₂ : (⟨15, "pair", ["2", "3"]⟩ : Line).role ≠ .keyword .loop := by decide
  have values₁ : argumentValues ⟨8, "pair", ["$i", "$i+1"]⟩ ((Environment.ofBindings [("$n", 2)]).bind
      "$i" (Float.ofInt (1 + (1 : Nat)))) = .ok [2, 3] := by decide +kernel
  have values₂ : argumentValues ⟨15, "pair", ["2", "3"]⟩ Environment.empty = .ok [2, 3] := by
    decide +kernel
  have called : argumentValues ⟨11, "chain", ["2"]⟩ Environment.empty = .ok [2] := by decide +kernel
  have opened : openLoop (Environment.ofBindings [("$n", 2)]) ⟨7, "for", ["$i", "1:$n"]⟩
      [⟨8, "pair", ["$i", "$i+1"]⟩, ⟨9, "endfor", []⟩] =
        .ok ⟨⟨"$i", 1, 2⟩, [⟨8, "pair", ["$i", "$i+1"]⟩], []⟩ :=
    openLoop_eq_ok.mpr ⟨readHeader_eq_ok.mp (by decide +kernel), ⟨9, "endfor", []⟩,
      by decide +kernel, rfl⟩
  have turned : refusal? (runBlock 3 [pairMacro] 1 ((Environment.ofBindings [("$n", 2)]).bind "$i"
      (Float.ofInt (1 + (0 : Nat)))) [⟨8, "pair", ["$i", "$i+1"]⟩]).result = none := by
    decide +kernel
  obtain ⟨gates, turned⟩ := refusal?_eq_none_iff.mp turned
  have second : (1 : Nat) < (⟨"$i", 1, 2⟩ : LoopHeader).count := by decide
  have found : findMacro "chain" [chainMacro, pairMacro] = some (chainMacro, [pairMacro]) := by decide
  have passes : Passes ⟨3, [chainMacro, pairMacro], 0, Environment.empty, [⟨11, "chain", ["2"]⟩]⟩
      ⟨3, [pairMacro], 1, (Environment.ofBindings [("$n", 2)]).bind "$i" (Float.ofInt (1 + (1 : Nat))),
        [⟨8, "pair", ["$i", "$i+1"]⟩]⟩ := by
    refine .inCall rfl (by decide) found (bindArguments_values called rfl) ?_
    refine @Passes.inLoop _ _ _ _ _ 1 (fun _ => gates) rfl (by decide) opened second ?_ (.here _)
    intro j before
    obtain rfl : j = 0 := by omega
    exact turned
  rw [← macros] at passes
  have at₁ : ComesTo ⟨24⟩ entangleText _ _ := .insideLine visits₁ runs₁ loose₁ passes
  have at₂ : ComesTo ⟨24⟩ entangleText _ _ := .insideLine visits₂ runs₂ loose₂ (.here _)
  have name : (⟨8, "pair", ["$i", "$i+1"]⟩ : Line).head = (⟨15, "pair", ["2", "3"]⟩ : Line).head := rfl
  obtain ⟨m, older, result₁, result₂, -, -, answers₁, answers₂, same, -⟩ :=
    call_means_the_same at₁ at₂ name (by rw [macros]; decide) (by decide +kernel) values₁ values₂
  obtain rfl : result₁ = result₂ := same (.inr ⟨⟨rfl, [], rfl⟩, ⟨rfl, [], rfl⟩⟩)
  have accepted : refusal? result₁ = none := by
    rw [← answers₂.run]
    decide +kernel
  exact ⟨_, _, _, _, result₁, at₁, at₂, ⟨rfl, [], rfl⟩, ⟨rfl, [], rfl⟩, rfl, rfl, by rw [macros]; rfl,
    by decide +kernel, accepted, answers₁, answers₂⟩

end QCircuit
