import QCircuit.Proofs.Program.Expansion
import QCircuit.Proofs.Program.Nesting
/-! Putting lines one after the other.

What lines expand to can be read off their first line, and balanced lines in front of others expand
on their own: nothing behind them can close a loop of theirs. -/
namespace QCircuit

section Cases
variable {width : Nat} {macros : List Macro} {env : Environment} {line : Line} {rest : List Line}
  {gates : List (Gate Float)}

theorem expands_nil_iff : Expands width macros env [] gates ↔ gates = [] := by
  constructor
  · intro expands
    cases expands
    rfl
  · rintro rfl
    exact .done

theorem expands_gate_iff {m : Mnemonic} (role : line.role = .gate m) :
    Expands width macros env (line :: rest) gates ↔ ∃ op later,
      Places width env line.operands m op ∧ Expands width macros env rest later ∧
        gates = .standard op :: later := by
  constructor
  · intro expands
    cases expands with
    | gate role' placed later =>
        rw [role, Role.gate.injEq] at role'
        subst role'
        exact ⟨_, _, placed, later, rfl⟩
    | call role' => simp [role] at role'
    | loop role' => simp [role] at role'
  · rintro ⟨op, later, placed, expands, rfl⟩
    exact .gate role placed expands

theorem expands_call_iff (role : line.role = .name) :
    Expands width macros env (line :: rest) gates ↔ ∃ m older bound members later,
      findMacro line.head macros = some (m, older) ∧ Binds env line.operands m.params bound ∧
        Expands width older bound m.body members ∧ Expands width macros env rest later ∧
          gates = .composite m.name members :: later := by
  constructor
  · intro expands
    cases expands with
    | gate role' => simp [role] at role'
    | call _ found binds inner later => exact ⟨_, _, _, _, _, found, binds, inner, later, rfl⟩
    | loop role' => simp [role] at role'
  · rintro ⟨m, older, bound, members, later, found, binds, inner, expands, rfl⟩
    exact .call role found binds inner expands

theorem not_expands_keyword {k : Keyword} (role : line.role = .keyword k) (other : k ≠ .loop) :
    ¬ Expands width macros env (line :: rest) gates := by
  intro expands
  cases expands with
  | gate role' => simp [role] at role'
  | call role' => simp [role] at role'
  | loop role' =>
      rw [role, Role.keyword.injEq] at role'
      exact other role'

theorem closes_iff {body after body' after' : List Line} {closing : Line} (balanced : Balanced body)
    (closes : closing.role = .keyword .endLoop) :
    Closes (body ++ closing :: after) body' after' ↔
      body' = body ∧ after' = after ∧ closing.operands = [] := by
  have found : splitLoop 0 (body ++ closing :: after) = some (body, closing, after) :=
    splitLoop_eq_some_iff.mpr ⟨rfl, balanced, closes⟩
  simp only [Closes, found, Option.some.injEq, Prod.mk.injEq]
  constructor
  · rintro ⟨_, ⟨rfl, rfl, rfl⟩, bare⟩
    exact ⟨rfl, rfl, bare⟩
  · rintro ⟨rfl, rfl, bare⟩
    exact ⟨closing, ⟨rfl, rfl, rfl⟩, bare⟩

theorem expands_loop_iff {head closing : Line} {body after : List Line}
    (opens : head.role = .keyword .loop) (closes : closing.role = .keyword .endLoop)
    (balanced : Balanced body) :
    Expands width macros env (head :: (body ++ closing :: after)) gates ↔
      ∃ (header : LoopHeader) (turns : Nat → List (Gate Float)) (later : List (Gate Float)),
        Heads env head.operands header ∧ closing.operands = [] ∧
        (∀ i < header.count, Expands width macros
          (env.bind header.counter (Float.ofInt (header.start + i))) body (turns i)) ∧
        Expands width macros env after later ∧
        gates = (List.range header.count).flatMap turns ++ later := by
  constructor
  · intro expands
    cases expands with
    | gate role' => simp [opens] at role'
    | call role' => simp [opens] at role'
    | loop _ heads found inner later =>
        obtain ⟨rfl, rfl, bare⟩ := (closes_iff balanced closes).mp found
        exact ⟨_, _, _, heads, bare, inner, later, rfl⟩
  · rintro ⟨header, turns, later, heads, bare, inner, expands, rfl⟩
    exact .loop opens heads ((closes_iff balanced closes).mpr ⟨rfl, rfl, bare⟩) inner expands

end Cases

theorem expands_append_iff {width : Nat} {macros : List Macro} {env : Environment}
    {first second : List Line} {gates : List (Gate Float)} (balanced : Balanced first) :
    Expands width macros env (first ++ second) gates ↔ ∃ front back,
      Expands width macros env first front ∧ Expands width macros env second back ∧
        gates = front ++ back := by
  induction balanced generalizing gates with
  | nil => simp [expands_nil_iff]
  | @line line rest flat _ ih =>
      rw [List.cons_append]
      cases role : line.role with
      | keyword k =>
          have other : k ≠ .loop := fun same => flat.1 (same ▸ role)
          simp [not_expands_keyword role other]
      | gate m =>
          simp only [expands_gate_iff role, ih]
          constructor
          · rintro ⟨op, _, placed, ⟨front, back, expands, expands', rfl⟩, rfl⟩
            exact ⟨_, back, ⟨op, front, placed, expands, rfl⟩, expands', rfl⟩
          · rintro ⟨_, back, ⟨op, front, placed, expands, rfl⟩, expands', rfl⟩
            exact ⟨op, _, placed, ⟨front, back, expands, expands', rfl⟩, rfl⟩
      | name =>
          simp only [expands_call_iff role, ih]
          constructor
          · rintro ⟨m, older, bound, members, _, found, binds, inner,
              ⟨front, back, expands, expands', rfl⟩, rfl⟩
            exact ⟨_, back, ⟨m, older, bound, members, front, found, binds, inner, expands, rfl⟩,
              expands', rfl⟩
          · rintro ⟨_, back, ⟨m, older, bound, members, front, found, binds, inner, expands, rfl⟩,
              expands', rfl⟩
            exact ⟨m, older, bound, members, _, found, binds, inner,
              ⟨front, back, expands, expands', rfl⟩, rfl⟩
  | loop opens closes inner _ _ ih =>
      rw [List.cons_append, List.append_assoc, List.cons_append]
      simp only [expands_loop_iff opens closes inner, ih]
      constructor
      · rintro ⟨header, turns, _, heads, bare, ran, ⟨front, back, expands, expands', rfl⟩, rfl⟩
        refine ⟨_, back, ⟨header, turns, front, heads, bare, ran, expands, rfl⟩, expands', ?_⟩
        rw [List.append_assoc]
      · rintro ⟨_, back, ⟨header, turns, front, heads, bare, ran, expands, rfl⟩, expands', rfl⟩
        refine ⟨header, turns, _, heads, bare, ran, ⟨front, back, expands, expands', rfl⟩, ?_⟩
        rw [List.append_assoc]

-- Blocks one after the other expand to the gates of each, in order.
theorem expands_range_iff {width : Nat} {macros : List Macro} {env : Environment} {count : Nat}
    {block : Nat → List Line} (balanced : ∀ i, Balanced (block i)) {gates : List (Gate Float)} :
    Expands width macros env ((List.range count).flatMap block) gates ↔
      ∃ turns : Nat → List (Gate Float),
        (∀ i < count, Expands width macros env (block i) (turns i)) ∧
          gates = (List.range count).flatMap turns := by
  induction count generalizing gates with
  | zero => simp [expands_nil_iff]
  | succ count ih =>
      have front : Balanced ((List.range count).flatMap block) :=
        .flatMap fun i _ => balanced i
      simp only [List.range_succ, List.flatMap_append, List.flatMap_cons, List.flatMap_nil,
        List.append_nil, expands_append_iff front, ih]
      constructor
      · rintro ⟨_, last, ⟨turns, ran, rfl⟩, ended, rfl⟩
        -- The gates of the last block are put behind those of the blocks before it.
        obtain ⟨joined, atEnd, earlier⟩ : ∃ joined : Nat → List (Gate Float),
            joined count = last ∧ ∀ i < count, joined i = turns i := by
          refine ⟨fun i => if i = count then last else turns i, if_pos rfl, ?_⟩
          intro i below
          exact if_neg (Nat.ne_of_lt below)
        refine ⟨joined, ?_, ?_⟩
        · intro i below
          by_cases same : i = count
          · rw [same, atEnd]
            exact ended
          · have below' : i < count := by omega
            rw [earlier i below']
            exact ran i below'
        · rw [atEnd, List.flatMap_congr fun i inside => earlier i (List.mem_range.mp inside)]
      · rintro ⟨turns, ran, rfl⟩
        exact ⟨_, turns count, ⟨turns, fun i below => ran i (by omega), rfl⟩, ran count (by omega),
          rfl⟩

end QCircuit
