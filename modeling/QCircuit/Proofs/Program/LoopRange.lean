import QCircuit.Proofs.Double.Integers
import QCircuit.Program.Interpreter
import QCircuit.Proofs.Program.Expansion
/-! The turns of a loop.

The bounds of a loop are doubles that are integers. The body is run once for each integer from the
one to the other, if 64 bits hold both. The counter is a double again, so between the turns of a loop
far from zero its value may stay the same. -/
namespace QCircuit

/-- The integers for which the body of a loop is run, in this order. -/
def LoopHeader.values (header : LoopHeader) : List Int :=
  (List.range header.count).map fun i : Nat => header.start + i

theorem LoopHeader.mem_values_iff {header : LoopHeader} {k : Int} :
    k ∈ header.values ↔ header.start ≤ k ∧ k ≤ header.stop := by
  rw [values, List.mem_map, count]
  constructor
  · rintro ⟨i, turn, rfl⟩
    rw [List.mem_range] at turn
    omega
  · rintro ⟨low, high⟩
    refine ⟨(k - header.start).toNat, ?_, by omega⟩
    rw [List.mem_range]
    omega

theorem LoopHeader.values_ascending (header : LoopHeader) : header.values.Pairwise (· < ·) := by
  rw [values, List.pairwise_map]
  exact List.pairwise_lt_range.imp fun before => by omega

theorem repeatFrom_eq_mapM {α : Type} (body : Int → Logged (List α)) (k : Int) (count : Nat) :
    repeatFrom body k count = (do
      let turns ← ((List.range count).map fun i : Nat => k + i).mapM body
      pure turns.flatten) := by
  induction count generalizing k with
  | zero => rfl
  | succ count ih =>
      have later : ((List.range count).map Nat.succ).map (fun i : Nat => k + i) =
          (List.range count).map fun i : Nat => k + 1 + i := by
        rw [List.map_map]
        apply List.map_congr_left
        intro i _
        simp only [Function.comp_apply]
        omega
      rw [repeatFrom_succ, ih, List.range_succ_eq_map, List.map_cons, later, List.mapM_cons]
      simp

/-- The two sides of the colon of a header have these integers as their values. -/
def BoundsAre (env : Environment) (operands : List String) (s e : Int) : Prop :=
  ∃ counter words low high lower upper, operands = counter :: words ∧
    splitAtColon (words.flatMap String.toList) = some (low, high) ∧
    evaluate (String.ofList low) env = .ok lower ∧ Decimal.integer? lower = some s ∧
    evaluate (String.ofList high) env = .ok upper ∧ Decimal.integer? upper = some e

theorem BoundsAre.unique {env : Environment} {operands : List String} {s e s' e' : Int}
    (bounds : BoundsAre env operands s e) (bounds' : BoundsAre env operands s' e') :
    s = s' ∧ e = e' := by
  obtain ⟨counter, words, low, high, lower, upper, rfl, split, read, exact, read', exact'⟩ := bounds
  obtain ⟨_, _, _, _, _, _, same, split', again, value, again', value'⟩ := bounds'
  cases same
  cases split.symm.trans split'
  cases read.symm.trans again
  cases read'.symm.trans again'
  exact ⟨Option.some.inj (exact.symm.trans value), Option.some.inj (exact'.symm.trans value')⟩

theorem Heads.bounds {env : Environment} {operands : List String} {header : LoopHeader}
    (heads : Heads env operands header) :
    ∃ s e, BoundsAre env operands s e ∧ header.start = clampBound s ∧ header.stop = clampBound e := by
  obtain ⟨⟨words, rfl, low, high, split, ⟨lower, s, read, exact, start⟩,
    ⟨upper, e, read', exact', stop⟩⟩, -⟩ := heads
  exact ⟨s, e, ⟨_, words, low, high, lower, upper, rfl, split, read, exact, read', exact'⟩, start, stop⟩

/-- The integers that a signed word of 64 bits holds. -/
def InWord (n : Int) : Prop := -0x8000000000000000 ≤ n ∧ n ≤ 0x7fffffffffffffff

instance (n : Int) : Decidable (InWord n) :=
  inferInstanceAs (Decidable (_ ∧ _))

theorem clampBound_of_inWord {n : Int} (held : InWord n) : clampBound n = n := by
  obtain ⟨low, high⟩ := held
  unfold clampBound
  omega

/-- Between bounds that 64 bits hold, the counter takes all integers in ascending order, each as the
double that it is converted to. This double has its value if any double has. -/
theorem loop_takes_its_range {width depth : Nat} {macros : List Macro} {env : Environment}
    {line : Line} {rest : List Line} {loop : Loop} (role : line.role = .keyword .loop)
    (opened : openLoop env line rest = .ok loop) :
    (∃ s e, BoundsAre env line.operands s e) ∧
      ∀ s e, BoundsAre env line.operands s e → InWord s → InWord e →
        line.operands.head? = some loop.header.counter ∧
        (∀ k, k ∈ loop.header.values ↔ s ≤ k ∧ k ≤ e) ∧
        loop.header.values.Pairwise (· < ·) ∧
        (∀ k : Int, (k.natAbs ≤ 2 ^ 53 ∨ ∃ x, Decimal.integer? x = some k) →
          Decimal.integer? (Float.ofInt k) = some k) ∧
        runBlock width macros depth env (line :: rest) = (do
          if e < s then Logged.emit (.emptyLoop line.number s e)
          Logged.emit (.loopUnrolled loop.header.counter s e (depth + 1))
          let turns ← loop.header.values.mapM fun k =>
            runBlock width macros (depth + 1) (env.bind loop.header.counter (Float.ofInt k)) loop.body
          let later ← runBlock width macros depth env loop.after
          pure (turns.flatten ++ later)) := by
  have heads := (openLoop_eq_ok.mp opened).1
  obtain ⟨s, e, bounds, start, stop⟩ := heads.bounds
  refine ⟨⟨s, e, bounds⟩, fun s' e' bounds' held held' => ?_⟩
  obtain ⟨rfl, rfl⟩ := bounds.unique bounds'
  rw [clampBound_of_inWord held] at start
  rw [clampBound_of_inWord held'] at stop
  refine ⟨?_, fun k => ?_, loop.header.values_ascending, ?_, ?_⟩
  · obtain ⟨words, whole, -⟩ := heads.counter
    rw [whole, List.head?_cons]
  · rw [LoopHeader.mem_values_iff, start, stop]
  · rintro k (small | ⟨x, value⟩)
    · exact Decimal.integer?_ofInt small
    · by_cases none : k = 0
      · exact Decimal.integer?_ofInt (by omega)
      · rw [Decimal.ofInt_of_integer? value none, value]
  · rw [runBlock_loop role opened, unroll, repeatFrom_eq_mapM, ← LoopHeader.values, start, stop]
    by_cases empty : e < s
    · simp [empty]
    · simp [empty]

theorem loop_takes_its_range_quarter_turns :
    let line : Line := ⟨1, "for", ["$i", "1-2", ":", "4/2"]⟩
    let rest : List Line := [⟨2, "RZ", ["1", "$i*pi/2"]⟩, ⟨3, "endfor", []⟩]
    let loop : Loop := ⟨⟨"$i", -1, 2⟩, [⟨2, "RZ", ["1", "$i*pi/2"]⟩], []⟩
    line.role = .keyword .loop ∧ openLoop Environment.empty line rest = .ok loop ∧
      BoundsAre Environment.empty line.operands (-1) 2 ∧ InWord (-1) ∧ InWord 2 ∧
      (∀ k, k ∈ loop.header.values ↔ -1 ≤ k ∧ k ≤ 2) ∧
      Decimal.integer? (Float.ofInt (-1)) = some (-1) := by
  intro line rest loop
  have role : line.role = .keyword .loop := by decide +kernel
  have heads : Heads Environment.empty line.operands loop.header :=
    readHeader_eq_ok.mp (show readHeader _ line = _ by decide +kernel)
  have opened : openLoop Environment.empty line rest = .ok loop :=
    openLoop_eq_ok.mpr ⟨heads, ⟨3, "endfor", []⟩, by decide +kernel, rfl⟩
  have bounds : BoundsAre Environment.empty line.operands (-1) 2 := by
    obtain ⟨s, e, bounds, start, stop⟩ := heads.bounds
    have first : s = -1 := by
      change -1 = clampBound s at start
      unfold clampBound at start
      omega
    have last : e = 2 := by
      change 2 = clampBound e at stop
      unfold clampBound at stop
      omega
    rwa [first, last] at bounds
  have held : InWord (-1) := by decide
  have held' : InWord 2 := by decide
  obtain ⟨-, taken, -, exact, -⟩ :=
    (@loop_takes_its_range 1 0 [] _ _ _ _ role opened).2 (-1) 2 bounds held held'
  exact ⟨role, opened, bounds, held, held', taken, exact (-1) (.inl (by decide))⟩

/-- A loop that turns a qubit by each value of its counter. -/
def turningText (s e : Nat) : String :=
  "init 1\nfor $i " ++ toString s ++ ":" ++ toString e ++ "\nRZ 1 $i\nendfor"

/-- The angles of a text that are integers. -/
def integerAngles (text : String) : Option (List Int) :=
  (interpret ⟨1⟩ text).result.toOption.map fun p =>
    (Gate.leavesOf p.gates).filterMap fun op => op.gate.angle?.bind Decimal.integer?

-- Between two neighbouring doubles lies an integer that the counter does not take. Of bounds beyond 64
-- bits, where a loop that should have no turn has one, the theorem above says nothing: this is a defect.
theorem counter_misses_integers :
    integerAngles (turningText 9007199254740992 9007199254740994) =
        some [9007199254740992, 9007199254740992, 9007199254740994] ∧
      integerAngles (turningText 9007199254740992 9007199254740994) ≠
        some [9007199254740992, 9007199254740993, 9007199254740994] ∧
      integerAngles (turningText 36893488147419103232 18446744073709551616) =
        some [9223372036854775808] ∧
      integerAngles (turningText 36893488147419103232 18446744073709551616) ≠ some [] := by
  have between : integerAngles (turningText 9007199254740992 9007199254740994) =
      some [9007199254740992, 9007199254740992, 9007199254740994] := by decide +kernel
  have beyond : integerAngles (turningText 36893488147419103232 18446744073709551616) =
      some [9223372036854775808] := by decide +kernel
  rw [between, beyond]
  exact ⟨rfl, by decide, rfl, by decide⟩

end QCircuit
