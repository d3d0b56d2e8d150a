import QCircuit.Proofs.Expr.Replacement
import QCircuit.Proofs.Expr.SubstitutedText
import QCircuit.Proofs.Program.Sequencing
/-! Lines with literals in place of variables.

The operands of gates and calls, and the bounds of loops, are rewritten. Inside a loop the variable
that it binds is left alone, and behind the loop it is replaced again. The lines expand to the same
gates as before, in an environment that need not have the replaced variables. -/
namespace QCircuit

-- The words of a header, with the bounds in one word.
def Substitution.applyHeader (σ : Substitution) : List String → List String
  | [] => []
  | counter :: words =>
    let bounds := σ.apply (words.flatMap String.toList)
    if bounds = [] then [counter] else [counter, String.ofList bounds]

/-- The lines with the literals of `σ`, and behind the end of each loop around them with those of the
next of `outer`. -/
def rewrite (σ : Substitution) (outer : List Substitution) : List Line → List Line
  | [] => []
  | line :: rest =>
    match line.role with
    | .keyword .loop =>
      { line with operands := σ.applyHeader line.operands } ::
        rewrite (σ.without (line.operands.headD "")) (σ :: outer) rest
    | .keyword .endLoop => line :: rewrite (outer.headD σ) outer.tail rest
    | .keyword _ => line :: rewrite σ outer rest
    | _ => { line with operands := line.operands.map σ.applyWord } :: rewrite σ outer rest

theorem rewrite_roles (σ : Substitution) (outer : List Substitution) (lines : List Line) :
    (rewrite σ outer lines).map Line.role = lines.map Line.role := by
  induction lines generalizing σ outer with
  | nil => rfl
  | cons line rest ih =>
      unfold rewrite
      split <;> simp [ih, Line.role]

theorem Balanced.rewrite {lines : List Line} (balanced : Balanced lines) (σ : Substitution)
    (outer : List Substitution) : Balanced (rewrite σ outer lines) :=
  balanced.congr (rewrite_roles σ outer lines).symm

theorem DefinesNothing.rewrite {lines : List Line} (plain : DefinesNothing lines)
    (σ : Substitution) (outer : List Substitution) :
    DefinesNothing (rewrite σ outer lines) := by
  intro line inside
  have role : line.role ∈ (QCircuit.rewrite σ outer lines).map Line.role := List.mem_map_of_mem inside
  rw [rewrite_roles] at role
  obtain ⟨original, member, same⟩ := List.mem_map.mp role
  rw [← same]
  exact plain original member

section Lines
variable {σ : Substitution} {outer : List Substitution} {line : Line} {rest : List Line}

theorem rewrite_loop (opens : line.role = .keyword .loop) :
    rewrite σ outer (line :: rest) = { line with operands := σ.applyHeader line.operands } ::
      rewrite (σ.without (line.operands.headD "")) (σ :: outer) rest := by
  rw [rewrite, opens]

theorem rewrite_endLoop (closes : line.role = .keyword .endLoop) :
    rewrite σ outer (line :: rest) = line :: rewrite (outer.headD σ) outer.tail rest := by
  rw [rewrite, closes]

theorem rewrite_gate {m : Mnemonic} (role : line.role = .gate m) :
    rewrite σ outer (line :: rest) =
      { line with operands := line.operands.map σ.applyWord } :: rewrite σ outer rest := by
  rw [rewrite, role]

theorem rewrite_call (role : line.role = .name) :
    rewrite σ outer (line :: rest) =
      { line with operands := line.operands.map σ.applyWord } :: rewrite σ outer rest := by
  rw [rewrite, role]

theorem rewrite_keyword {k : Keyword} (role : line.role = .keyword k) (flat : line.Flat) :
    rewrite σ outer (line :: rest) = line :: rewrite σ outer rest := by
  rw [rewrite, role]
  cases k with
  | loop => exact absurd role flat.1
  | endLoop => exact absurd role flat.2
  | init | define | endDefine => rfl

end Lines

-- What is written for balanced lines does not depend on the loops around them.
theorem rewrite_append {first : List Line} (balanced : Balanced first) (σ : Substitution)
    (outer : List Substitution) (second : List Line) :
    rewrite σ outer (first ++ second) = rewrite σ [] first ++ rewrite σ outer second := by
  induction balanced generalizing σ outer second with
  | nil => rfl
  | @line line rest flat _ ih =>
      rw [List.cons_append]
      cases role : line.role with
      | keyword k => rw [rewrite_keyword role flat, rewrite_keyword role flat, ih, List.cons_append]
      | gate m => rw [rewrite_gate role, rewrite_gate role, ih, List.cons_append]
      | name => rw [rewrite_call role, rewrite_call role, ih, List.cons_append]
  | @loop head closing body after opens closes _ _ ihBody ihAfter =>
      have reassociate : head :: (body ++ closing :: after) ++ second =
          head :: (body ++ closing :: (after ++ second)) := by simp
      rw [reassociate, rewrite_loop opens, rewrite_loop opens, ihBody, ihBody,
        rewrite_endLoop closes, rewrite_endLoop closes]
      simp only [List.headD_cons, List.tail_cons, ihAfter σ outer second, List.cons_append,
        List.append_assoc]

section Operands
variable {σ : Substitution} {env env' : Environment} (replaces : σ.Replaces env env')
include replaces

theorem namesQubit_applyWord (width : Nat) (word : String) (q : Qubit) :
    NamesQubit width env' (σ.applyWord word) q ↔ NamesQubit width env word q := by
  simp only [NamesQubit, replaces.evaluate_applyWord]

theorem operandFits_applyWord (width : Nat) (words : List String) (gate : StandardGate Float) :
    OperandFits width env' (words.map σ.applyWord) gate ↔ OperandFits width env words gate := by
  unfold OperandFits
  cases gate.kind.shape with
  | single => simp
  | angle =>
      simp only [List.map_eq_singleton_iff]
      constructor
      · rintro ⟨_, angle, ⟨word, rfl, rfl⟩, evaluated, same⟩
        exact ⟨word, angle, rfl, (replaces.evaluate_applyWord _ _).mp evaluated, same⟩
      · rintro ⟨word, angle, rfl, evaluated, same⟩
        exact ⟨_, angle, ⟨word, rfl, rfl⟩, (replaces.evaluate_applyWord _ _).mpr evaluated, same⟩
  | pair =>
      simp only [List.map_eq_singleton_iff]
      constructor
      · rintro ⟨_, partner, ⟨word, rfl, rfl⟩, named, same⟩
        exact ⟨word, partner, rfl, (namesQubit_applyWord replaces _ _ _).mp named, same⟩
      · rintro ⟨word, partner, rfl, named, same⟩
        exact ⟨_, partner, ⟨word, rfl, rfl⟩, (namesQubit_applyWord replaces _ _ _).mpr named, same⟩

theorem controlsFit_applyWord (width : Nat) (controlled : Bool) (words? : Option (List String))
    (controls : Controls) :
    ControlsFit width env' controlled (words?.map (List.map σ.applyWord)) controls ↔
      ControlsFit width env controlled words? controls := by
  cases controlled <;> cases words? <;>
    simp [ControlsFit, List.forall₂_map_left_iff, namesQubit_applyWord replaces]

omit replaces in
theorem splitControls_applyWord (words : List String) :
    splitControls (words.map σ.applyWord) = ((splitControls words).1.map σ.applyWord,
      (splitControls words).2.map (List.map σ.applyWord)) := by
  induction words with
  | nil => rfl
  | cons word rest ih =>
      have bar : σ.applyWord word = "|" ↔ word = "|" := by
        have characters : "|".toList = ['|'] := rfl
        rw [← String.toList_inj, ← String.toList_inj, Substitution.applyWord, String.toList_ofList,
          characters, Substitution.apply_eq_bar_iff]
      by_cases same : word = "|"
      · rw [List.map_cons, splitControls, splitControls, if_pos (bar.mpr same), if_pos same]
        rfl
      · rw [List.map_cons, splitControls, splitControls, if_neg (mt bar.mp same), if_neg same, ih]
        rfl

theorem places_applyWord (width : Nat) (operands : List String) (m : Mnemonic)
    (op : Operation Float) :
    Places width env' (operands.map σ.applyWord) m op ↔ Places width env operands m op := by
  constructor
  · rintro ⟨kind, ⟨_, _, whole, named, operand⟩, controls, distinct⟩
    rw [splitControls_applyWord] at whole controls
    obtain ⟨word, words, front, rfl, rfl⟩ := List.map_eq_cons_iff.mp whole
    exact ⟨kind, ⟨word, words, front, (namesQubit_applyWord replaces _ _ _).mp named,
      (operandFits_applyWord replaces _ _ _).mp operand⟩,
      (controlsFit_applyWord replaces _ _ _ _).mp controls, distinct⟩
  · rintro ⟨kind, ⟨word, words, front, named, operand⟩, controls, distinct⟩
    refine ⟨kind, ⟨σ.applyWord word, words.map σ.applyWord, ?_,
      (namesQubit_applyWord replaces _ _ _).mpr named,
      (operandFits_applyWord replaces _ _ _).mpr operand⟩, ?_, distinct⟩
    · rw [splitControls_applyWord, front, List.map_cons]
    · rw [splitControls_applyWord]
      exact (controlsFit_applyWord replaces _ _ _ _).mpr controls

theorem binds_applyWord (operands params : List String) (bound : Environment) :
    Binds env' (operands.map σ.applyWord) params bound ↔ Binds env operands params bound := by
  simp only [Binds, List.length_map, List.forall₂_map_left_iff, replaces.evaluate_applyWord]

theorem namesBound_apply (text : List Char) (bound : Int) :
    NamesBound env' (σ.apply text) bound ↔ NamesBound env text bound := by
  have word : String.ofList (σ.apply text) = σ.applyWord (String.ofList text) := by
    rw [Substitution.applyWord, String.toList_ofList]
  simp only [NamesBound, word, replaces.evaluate_applyWord]

end Operands

theorem splitAtColon_eq_some_iff {cs before after : List Char} :
    splitAtColon cs = some (before, after) ↔ cs = before ++ ':' :: after ∧ ':' ∉ before := by
  induction cs generalizing before with
  | nil => simp [splitAtColon]
  | cons c rest ih =>
      by_cases colon : c = ':'
      · subst colon
        simp only [splitAtColon, if_true, Option.some.injEq, Prod.mk.injEq]
        constructor
        · rintro ⟨rfl, rfl⟩
          simp
        · rintro ⟨whole, absent⟩
          cases before with
          | nil =>
              rw [List.nil_append, List.cons.injEq] at whole
              exact ⟨rfl, whole.2⟩
          | cons d before =>
              rw [List.cons_append, List.cons.injEq] at whole
              exact absurd (whole.1 ▸ List.mem_cons_self) absent
      · simp only [splitAtColon, colon, if_false, Option.map_eq_some_iff, Prod.exists, Prod.mk.injEq]
        constructor
        · rintro ⟨front, back, found, rfl, rfl⟩
          obtain ⟨rfl, absent⟩ := ih.mp found
          refine ⟨rfl, ?_⟩
          rw [List.mem_cons, not_or]
          exact ⟨Ne.symm colon, absent⟩
        · rintro ⟨whole, absent⟩
          cases before with
          | nil =>
              rw [List.nil_append, List.cons.injEq] at whole
              exact absurd whole.1 colon
          | cons d before =>
              rw [List.cons_append, List.cons.injEq] at whole
              rw [List.mem_cons, not_or] at absent
              obtain ⟨rfl, rfl⟩ := whole
              exact ⟨before, after, ih.mpr ⟨rfl, absent.2⟩, rfl, rfl⟩

theorem colon_mem_apply_iff (σ : Substitution) (cs : List Char) : ':' ∈ σ.apply cs ↔ ':' ∈ cs := by
  constructor
  · intro inside
    rcases σ.apply_chars cs ':' inside with own | literal
    · exact own
    · cases literal
  · intro inside
    obtain ⟨before, after, rfl⟩ := List.append_of_mem inside
    rw [σ.apply_colon]
    simp

theorem splitAtColon_apply (σ : Substitution) (cs : List Char) :
    splitAtColon (σ.apply cs) = (splitAtColon cs).map fun sides => (σ.apply sides.1, σ.apply sides.2) := by
  cases found : splitAtColon cs with
  | some sides =>
      obtain ⟨before, after⟩ := sides
      obtain ⟨rfl, absent⟩ := splitAtColon_eq_some_iff.mp found
      rw [Option.map_some, splitAtColon_eq_some_iff, colon_mem_apply_iff]
      exact ⟨σ.apply_colon before after, absent⟩
  | none =>
      rw [Option.map_none, Option.eq_none_iff_forall_ne_some]
      rintro ⟨before, after⟩ found'
      obtain ⟨whole, _⟩ := splitAtColon_eq_some_iff.mp found'
      have colon : ':' ∈ cs := by
        rw [← colon_mem_apply_iff σ, whole]
        simp
      obtain ⟨front, back, split, absent⟩ := List.eq_append_cons_of_mem colon
      rw [splitAtColon_eq_some_iff.mpr ⟨split, absent⟩] at found
      cases found

theorem applyHeader_bounds (σ : Substitution) (counter : String) (words : List String) :
    ∃ words', σ.applyHeader (counter :: words) = counter :: words' ∧
      words'.flatMap String.toList = σ.apply (words.flatMap String.toList) := by
  by_cases empty : σ.apply (words.flatMap String.toList) = []
  · exact ⟨[], by simp only [Substitution.applyHeader, empty, if_true], by simp [empty]⟩
  · refine ⟨[String.ofList (σ.apply (words.flatMap String.toList))], ?_, by simp⟩
    simp only [Substitution.applyHeader, empty, if_false]

theorem heads_applyHeader {σ : Substitution} {env env' : Environment}
    (replaces : σ.Replaces env env') (operands : List String) (header : LoopHeader) :
    Heads env' (σ.applyHeader operands) header ↔ Heads env operands header := by
  cases operands with
  | nil =>
      constructor
      · rintro ⟨⟨_, whole, _⟩, _⟩
        cases whole
      · rintro ⟨⟨_, whole, _⟩, _⟩
        cases whole
  | cons counter words =>
      obtain ⟨words', rewritten, bounds⟩ := applyHeader_bounds σ counter words
      rw [rewritten]
      constructor
      · rintro ⟨⟨_, whole, low, high, split, lower, upper⟩, named⟩
        rw [List.cons.injEq] at whole
        obtain ⟨rfl, rfl⟩ := whole
        rw [bounds, splitAtColon_apply, Option.map_eq_some_iff] at split
        obtain ⟨⟨low, high⟩, split, sides⟩ := split
        cases sides
        exact ⟨⟨words, rfl, low, high, split, (namesBound_apply replaces _ _).mp lower,
          (namesBound_apply replaces _ _).mp upper⟩, named⟩
      · rintro ⟨⟨_, whole, low, high, split, lower, upper⟩, named⟩
        rw [List.cons.injEq] at whole
        obtain ⟨rfl, rfl⟩ := whole
        refine ⟨⟨words', rfl, σ.apply low, σ.apply high, ?_,
          (namesBound_apply replaces _ _).mpr lower, (namesBound_apply replaces _ _).mpr upper⟩, named⟩
        rw [bounds, splitAtColon_apply, split, Option.map_some]

/-- Balanced lines with literals expand to the gates of the lines themselves, where the replaced
variables are bound to the values of the literals and each name has the same definition. -/
theorem expands_rewrite {width : Nat} {macros macros' : List Macro} {lines : List Line}
    (balanced : Balanced lines)
    (known : ∀ line ∈ lines, line.role = .name →
      findMacro line.head macros' = findMacro line.head macros)
    {σ : Substitution} {env env' : Environment} (replaces : σ.Replaces env env')
    (gates : List (Gate Float)) :
    Expands width macros' env' (rewrite σ [] lines) gates ↔
      Expands width macros env lines gates := by
  induction balanced generalizing σ env env' gates with
  | nil => rw [rewrite, expands_nil_iff, expands_nil_iff]
  | @line line rest flat _ ih =>
      rw [List.forall_mem_cons] at known
      have later := ih known.2 replaces
      cases role : line.role with
      | keyword k =>
          have other : k ≠ .loop := fun same => flat.1 (same ▸ role)
          rw [rewrite_keyword role flat]
          simp only [not_expands_keyword role other]
      | gate m =>
          have role' : ({ line with operands := line.operands.map σ.applyWord } : Line).role =
            .gate m := role
          rw [rewrite_gate role, expands_gate_iff role', expands_gate_iff role]
          simp only [places_applyWord replaces, later]
      | name =>
          have role' : ({ line with operands := line.operands.map σ.applyWord } : Line).role =
            .name := role
          rw [rewrite_call role, expands_call_iff role', expands_call_iff role]
          simp only [binds_applyWord replaces, later, known.1 role]
  | @loop head closing body after opens closes inner _ ihBody ihAfter =>
      have bodyKnown : ∀ line ∈ body, line.role = .name →
          findMacro line.head macros' = findMacro line.head macros :=
        fun line inside => known line (by simp [inside])
      have afterKnown : ∀ line ∈ after, line.role = .name →
          findMacro line.head macros' = findMacro line.head macros :=
        fun line inside => known line (by simp [inside])
      have opens' : ({ head with operands := σ.applyHeader head.operands } : Line).role =
        .keyword .loop := opens
      rw [rewrite_loop opens, rewrite_append inner, rewrite_endLoop closes, List.headD_cons,
        List.tail_cons, expands_loop_iff opens' closes (inner.rewrite _ _),
        expands_loop_iff opens closes inner]
      refine exists_congr fun header => exists_congr fun turns => exists_congr fun later => ?_
      rw [heads_applyHeader replaces, ihAfter afterKnown replaces]
      refine and_congr_right fun heads => and_congr_right fun _ => ?_
      have counter : head.operands.headD "" = header.counter := by
        obtain ⟨_, whole, _⟩ := heads.counter
        rw [whole, List.headD_cons]
      rw [counter]
      refine and_congr ?_ Iff.rfl
      refine forall₂_congr fun i _ => ?_
      exact ihBody bodyKnown (replaces.bind header.counter _) (turns i)

end QCircuit
