import QCircuit.Proofs.Program.Placement
import QCircuit.Program.Block
/-! The gates that lines expand to.

`Expands` tells what running lines in an initialised circuit means without the log, the count of
open loops and the line numbers: a gate line is the operation that it places, a call is a group with
the gates of the body in the environment of the arguments, and a loop is its turns one after the
other. `runBlock_eq_ok` says that running succeeds exactly with these gates. -/
namespace QCircuit

@[simp] theorem result_refuse {α : Type} {line : Nat} {cause : Cause} :
    (Logged.refuse line cause : Logged α).result = refuse line cause := rfl

/-- A text has an integer as its value, which a bound holds. -/
def NamesBound (env : Environment) (text : List Char) (bound : Int) : Prop :=
  ∃ value n, evaluate (String.ofList text) env = .ok value ∧ Decimal.integer? value = some n ∧
    bound = clampBound n

theorem boundOperand_eq_ok {line : Nat} {env : Environment} {text : List Char} {bound : Int} :
    boundOperand line env (String.ofList text) = .ok bound ↔ NamesBound env text bound := by
  simp only [boundOperand, bind_eq_ok, evalOperand_eq_ok, NamesBound]
  refine exists_congr fun value => ?_
  cases Decimal.integer? value with
  | none => simp
  | some n => simp [eq_comm]

/-- The words of a line are the header of a loop. -/
structure Heads (env : Environment) (operands : List String) (header : LoopHeader) : Prop where
  counter : ∃ words, operands = header.counter :: words ∧ ∃ low high,
    splitAtColon (words.flatMap String.toList) = some (low, high) ∧
    NamesBound env low header.start ∧ NamesBound env high header.stop
  named : Expr.isVariable header.counter = true

theorem readHeader_eq_ok {env : Environment} {line : Line} {header : LoopHeader} :
    readHeader env line = .ok header ↔ Heads env line.operands header := by
  unfold readHeader
  cases operands : line.operands with
  | nil =>
      simp only [refuse_ne_ok, false_iff]
      rintro ⟨⟨words, whole, _⟩, _⟩
      simp at whole
  | cons counter words =>
      by_cases named : Expr.isVariable counter = true
      · cases split : splitAtColon (words.flatMap String.toList) with
        | none =>
            simp only [named, split, Bool.not_true, Bool.false_eq_true, if_false, refuse_ne_ok,
              false_iff]
            rintro ⟨⟨words', whole, low, high, split', _⟩, _⟩
            simp only [List.cons.injEq] at whole
            obtain ⟨_, rfl⟩ := whole
            simp [split] at split'
        | some sides =>
            obtain ⟨low, high⟩ := sides
            simp only [named, split, Bool.not_true, Bool.false_eq_true, if_false, bind_eq_ok,
              boundOperand_eq_ok, Except.ok.injEq]
            constructor
            · rintro ⟨start, lower, stop, upper, rfl⟩
              exact ⟨⟨words, rfl, low, high, split, lower, upper⟩, named⟩
            · rintro ⟨⟨words', whole, low', high', split', lower, upper⟩, _⟩
              simp only [List.cons.injEq] at whole
              obtain ⟨same, rfl⟩ := whole
              rw [split, Option.some.injEq, Prod.mk.injEq] at split'
              obtain ⟨rfl, rfl⟩ := split'
              exact ⟨header.start, lower, header.stop, upper, by rw [same]⟩
      · simp only [named, Bool.not_false, if_true, refuse_ne_ok, false_iff]
        rintro ⟨⟨words', whole, _⟩, known⟩
        simp only [List.cons.injEq] at whole
        exact named (whole.1 ▸ known)

/-- The lines behind a header begin with the body of its loop and a line that only closes it. -/
def Closes (rest body after : List Line) : Prop :=
  ∃ closing, splitLoop 0 rest = some (body, closing, after) ∧ closing.operands = []

theorem openLoop_eq_ok {env : Environment} {line : Line} {rest : List Line} {loop : Loop} :
    openLoop env line rest = .ok loop ↔
      Heads env line.operands loop.header ∧ Closes rest loop.body loop.after := by
  simp only [openLoop, bind_eq_ok, readHeader_eq_ok, Closes]
  cases split : splitLoop 0 rest with
  | none => simp
  | some parts =>
      obtain ⟨body, closing, after⟩ := parts
      simp only [bind_eq_ok, refuseTrailing_eq_ok, Except.ok.injEq, Option.some.injEq,
        Prod.mk.injEq]
      constructor
      · rintro ⟨header, heads, _, bare, rfl⟩
        exact ⟨heads, closing, ⟨rfl, rfl, rfl⟩, bare⟩
      · rintro ⟨heads, closing', ⟨rfl, rfl, rfl⟩, bare⟩
        exact ⟨loop.header, heads, (), bare, rfl⟩

theorem openLoop_lines {env : Environment} {line : Line} {rest : List Line} {loop : Loop}
    (opened : openLoop env line rest = .ok loop) :
    (∀ other ∈ loop.body, other ∈ rest) ∧ ∀ other ∈ loop.after, other ∈ rest := by
  obtain ⟨-, closing, found, -⟩ := openLoop_eq_ok.mp opened
  rw [splitLoop_append found]
  constructor
  · exact fun other inside => List.mem_append_left _ inside
  · exact fun other inside => List.mem_append_right _ (List.mem_cons_of_mem closing inside)

/-- The parameters are bound to the values of the words of a call. -/
def Binds (env : Environment) (operands params : List String) (bound : Environment) : Prop :=
  operands.length = params.length ∧ ∃ values : List Float,
    List.Forall₂ (fun word value => evaluate word env = .ok value) operands values ∧
      bound = Environment.ofBindings (params.zip values)

theorem bindArguments_eq_ok {env : Environment} {line : Line} {m : Macro} {bound : Environment} :
    bindArguments env line m = .ok bound ↔ Binds env line.operands m.params bound := by
  unfold bindArguments Binds
  by_cases count : line.operands.length = m.params.length
  · simp only [count, ne_eq, not_true, if_false, bind_eq_ok, argumentValues, mapM_eq_ok,
      evalOperand_eq_ok, Except.ok.injEq, true_and]
    exact exists_congr fun values => and_congr_right fun _ => eq_comm
  · simp [count]

/-- The gates that lines give in a circuit of `width` qubits. -/
inductive Expands (width : Nat) :
    List Macro → Environment → List Line → List (Gate Float) → Prop where
  | done {macros env} : Expands width macros env [] []
  | gate {macros env line rest m op gates} (role : line.role = .gate m)
      (placed : Places width env line.operands m op) (later : Expands width macros env rest gates) :
      Expands width macros env (line :: rest) (.standard op :: gates)
  | call {macros older env line rest m bound members gates} (role : line.role = .name)
      (found : findMacro line.head macros = some (m, older))
      (binds : Binds env line.operands m.params bound) (inner : Expands width older bound m.body members)
      (later : Expands width macros env rest gates) :
      Expands width macros env (line :: rest) (.composite m.name members :: gates)
  | loop {macros env line rest header body after gates} {turns : Nat → List (Gate Float)}
      (role : line.role = .keyword .loop) (heads : Heads env line.operands header)
      (closes : Closes rest body after)
      (inner : ∀ i < header.count, Expands width macros
        (env.bind header.counter (Float.ofInt (header.start + i))) body (turns i))
      (later : Expands width macros env after gates) :
      Expands width macros env (line :: rest) ((List.range header.count).flatMap turns ++ gates)

theorem repeatFrom_eq_ok {α : Type} {body : Int → Logged (List α)} {k : Int} {count : Nat}
    {items : List α} :
    (repeatFrom body k count).result = .ok items ↔ ∃ turns : Nat → List α,
      (∀ i < count, (body (k + i)).result = .ok (turns i)) ∧
        items = (List.range count).flatMap turns := by
  induction count generalizing k items with
  | zero => simp [repeatFrom_zero, eq_comm]
  | succ count ih =>
      simp only [repeatFrom_succ, Logged.bind_eq_ok, ih, Logged.result_pure, Except.ok.injEq]
      constructor
      · rintro ⟨first, ran, later, ⟨turns, others, rfl⟩, rfl⟩
        refine ⟨fun i => if i = 0 then first else turns (i - 1), ?_, ?_⟩
        · intro i below
          cases i with
          | zero => simpa using ran
          | succ i =>
              have turn := others i (by omega)
              simpa [Int.add_assoc, Int.add_comm 1] using turn
        · simp [List.range_succ_eq_map, List.flatMap_map]
      · rintro ⟨turns, ran, rfl⟩
        refine ⟨turns 0, by simpa using ran 0 (by omega), _,
          ⟨fun i => turns (i + 1), ?_, rfl⟩, ?_⟩
        · intro i below
          have turn := ran (i + 1) (by omega)
          simpa [Int.add_assoc, Int.add_comm 1] using turn
        · simp [List.range_succ_eq_map, List.flatMap_map]

theorem unroll_result {α : Type} {line depth : Nat} {header : LoopHeader}
    {body : Int → Logged (List α)} : (unroll line depth header body).result =
      (repeatFrom body header.start header.count).result := by
  unfold unroll
  split <;> rfl

theorem unroll_eq_ok {α : Type} {line depth : Nat} {header : LoopHeader}
    {body : Int → Logged (List α)} {items : List α} :
    (unroll line depth header body).result = .ok items ↔ ∃ turns : Nat → List α,
      (∀ i < header.count, (body (header.start + i)).result = .ok (turns i)) ∧
        items = (List.range header.count).flatMap turns := by
  rw [unroll_result, repeatFrom_eq_ok]

section Equations
variable {width depth : Nat} {macros older : List Macro} {env : Environment} {line : Line}
  {rest : List Line}

theorem runBlock_loop {loop : Loop} (role : line.role = .keyword .loop)
    (opened : openLoop env line rest = .ok loop) :
    runBlock width macros depth env (line :: rest) = (do
      let inner ← unroll line.number (depth + 1) loop.header fun k =>
        runBlock width macros (depth + 1) (env.bind loop.header.counter (Float.ofInt k)) loop.body
      let later ← runBlock width macros depth env loop.after
      pure (inner ++ later)) := by
  rw [runBlock]
  simp only [role]
  split
  · rename_i refused
    rw [opened] at refused
    cases refused
  · rename_i other
    rw [opened] at other
    cases other
    rfl

theorem runBlock_loop_refused {fault : Fault} (role : line.role = .keyword .loop)
    (refused : openLoop env line rest = .error fault) :
    runBlock width macros depth env (line :: rest) = ⟨[], .error fault⟩ := by
  rw [runBlock]
  simp only [role]
  split
  · rename_i other
    rw [refused] at other
    cases other
    rfl
  · rename_i opened
    rw [refused] at opened
    cases opened

theorem runBlock_call {m : Macro} (role : line.role = .name)
    (known : findMacro line.head macros = some (m, older)) :
    runBlock width macros depth env (line :: rest) = (do
      let bound ← Logged.ofResult (bindArguments env line m)
      let members ← runBlock width older depth bound m.body
      Logged.emit (.macroExpanded line.head line.operands.length members.length)
      let later ← runBlock width macros depth env rest
      pure (.composite m.name members :: later)) := by
  rw [runBlock]
  simp only [role]
  split
  · rename_i missing
    rw [known] at missing
    cases missing
  · rename_i other
    rw [known] at other
    cases other
    rfl

theorem runBlock_unknown (role : line.role = .name) (missing : findMacro line.head macros = none) :
    runBlock width macros depth env (line :: rest) =
      .refuse line.number (.unknownSymbol line.head) := by
  rw [runBlock]
  simp only [role]
  split
  · rfl
  · rename_i other
    rw [missing] at other
    cases other

theorem runBlock_gate {m : Mnemonic} (role : line.role = .gate m) :
    runBlock width macros depth env (line :: rest) = (do
      let op ← Logged.ofResult (placeGate width env line m)
      Logged.emit (.gatePlaced line.number op)
      let later ← runBlock width macros depth env rest
      pure (.standard op :: later)) := by
  rw [runBlock]
  simp only [role]

end Equations

theorem expands_of_runBlock {width : Nat} {macros : List Macro} {depth : Nat} {env : Environment}
    {lines : List Line} {gates : List (Gate Float)}
    (ran : (runBlock width macros depth env lines).result = .ok gates) :
    Expands width macros env lines gates := by
  induction macros, depth, env, lines using runBlock.induct generalizing gates with
  | case1 macros depth env =>
      rw [runBlock, Logged.result_pure, Except.ok.injEq] at ran
      exact ran ▸ .done
  | case2 macros depth env line rest role | case3 macros depth env line rest role
  | case4 macros depth env line rest role | case5 macros depth env line rest role =>
      rw [runBlock] at ran
      simp [role] at ran
  | case6 macros depth env line rest role fault refused =>
      simp [runBlock_loop_refused role refused] at ran
  | case7 macros depth env line rest role loop opened ihBody ihAfter =>
      simp only [runBlock_loop role opened, Logged.bind_eq_ok, unroll_eq_ok, Logged.result_pure,
        Except.ok.injEq] at ran
      obtain ⟨_, ⟨turns, inner, rfl⟩, later, after, rfl⟩ := ran
      obtain ⟨heads, closes⟩ := openLoop_eq_ok.mp opened
      exact .loop role heads closes (fun i below => ihBody _ (inner i below)) (ihAfter after)
  | case8 macros depth env line rest m role ih =>
      simp only [runBlock_gate role, Logged.bind_eq_ok, Logged.result_ofResult, placeGate_eq_ok,
        Logged.result_pure, Except.ok.injEq] at ran
      obtain ⟨op, placed, _, _, later, after, rfl⟩ := ran
      exact .gate role placed (ih after)
  | case9 macros depth env line rest role missing =>
      simp [runBlock_unknown role missing] at ran
  | case10 macros depth env line rest role m older found ihBody ihRest =>
      simp only [runBlock_call role found, Logged.bind_eq_ok, Logged.result_ofResult,
        bindArguments_eq_ok, Logged.result_pure, Except.ok.injEq] at ran
      obtain ⟨bound, binds, members, inner, _, _, later, after, rfl⟩ := ran
      exact .call role found binds (ihBody bound inner) (ihRest after)

theorem runBlock_of_expands {width : Nat} {macros : List Macro} {env : Environment}
    {lines : List Line} {gates : List (Gate Float)} (expands : Expands width macros env lines gates)
    (depth : Nat) : (runBlock width macros depth env lines).result = .ok gates := by
  induction expands generalizing depth with
  | done => rw [runBlock, Logged.result_pure]
  | gate role placed _ ih =>
      simp only [runBlock_gate role, Logged.bind_eq_ok, Logged.result_ofResult, placeGate_eq_ok,
        Logged.result_pure, Except.ok.injEq]
      exact ⟨_, placed, (), rfl, _, ih depth, rfl⟩
  | call role found binds _ _ ihBody ihRest =>
      simp only [runBlock_call role found, Logged.bind_eq_ok, Logged.result_ofResult,
        bindArguments_eq_ok, Logged.result_pure, Except.ok.injEq]
      exact ⟨_, binds, _, ihBody depth, (), rfl, _, ihRest depth, rfl⟩
  | @loop _ env line rest header body after _ turns role heads closes _ _ ihBody ihAfter =>
      have opened : openLoop env line rest = .ok ⟨header, body, after⟩ :=
        openLoop_eq_ok.mpr ⟨heads, closes⟩
      simp only [runBlock_loop role opened, Logged.bind_eq_ok, unroll_eq_ok, Logged.result_pure,
        Except.ok.injEq]
      exact ⟨_, ⟨turns, fun i below => ihBody i below (depth + 1), rfl⟩, _, ihAfter depth, rfl⟩

theorem runBlock_eq_ok {width : Nat} {macros : List Macro} {env : Environment} {lines : List Line}
    {gates : List (Gate Float)} (depth : Nat) :
    (runBlock width macros depth env lines).result = .ok gates ↔
      Expands width macros env lines gates :=
  ⟨expands_of_runBlock, fun expands => runBlock_of_expands expands depth⟩

end QCircuit
