import QCircuit.Program.Logged
import QCircuit.Program.Operand
/-! Loops.

A header binds a variable and gives two bounds, which are the two sides of the first colon in the
words after the variable, put together without spaces. The body is run once for each integer from
the first bound to the second. -/
namespace QCircuit

/-- The lines in front of the one that closes the current loop, that line, and those behind it.
`depth` loops that were opened on the way have to be closed first. -/
def splitLoop (depth : Nat) : List Line → Option (List Line × Line × List Line)
  | [] => none
  | line :: rest =>
    let deeper (inner : Nat) := (splitLoop inner rest).map fun (body, closing, after) =>
      (line :: body, closing, after)
    match line.role, depth with
    | .keyword .loop, _ => deeper (depth + 1)
    | .keyword .endLoop, 0 => some ([], line, rest)
    | .keyword .endLoop, inner + 1 => deeper inner
    | _, _ => deeper depth

theorem splitLoop_append {depth : Nat} {lines body after : List Line} {closing : Line}
    (found : splitLoop depth lines = some (body, closing, after)) :
    lines = body ++ closing :: after := by
  induction lines generalizing depth body with
  | nil => simp [splitLoop] at found
  | cons line rest ih =>
    have deeper : ∀ inner, (splitLoop inner rest).map (fun (body, closing, after) =>
        (line :: body, closing, after)) = some (body, closing, after) →
        line :: rest = body ++ closing :: after := by
      intro inner same
      obtain ⟨⟨innerBody, innerClosing, innerAfter⟩, inside, equal⟩ := Option.map_eq_some_iff.mp same
      simp only [Prod.mk.injEq] at equal
      obtain ⟨rfl, rfl, rfl⟩ := equal
      rw [ih inside, List.cons_append]
    unfold splitLoop at found
    split at found
    · exact deeper _ found
    · simp only [Option.some.injEq, Prod.mk.injEq] at found
      obtain ⟨rfl, rfl, rfl⟩ := found
      rfl
    · exact deeper _ found
    · exact deeper _ found

/-- The two sides of the first colon, if there is one. -/
def splitAtColon : List Char → Option (List Char × List Char)
  | [] => none
  | c :: rest =>
    if c = ':' then some ([], rest)
    else (splitAtColon rest).map fun (before, after) => (c :: before, after)

structure LoopHeader where
  counter : String
  start : Int
  stop : Int
deriving DecidableEq, Repr

def readHeader (env : Environment) (line : Line) : Except Fault LoopHeader :=
  match line.operands with
  | [] => refuse line.number .noLoopVariable
  | counter :: words =>
    if !Expr.isVariable counter then refuse line.number (.invalidLoopVariable counter)
    else match splitAtColon (words.flatMap String.toList) with
      | none => refuse line.number .noRangeSeparator
      | some (low, high) => do
        let start ← boundOperand line.number env (String.ofList low)
        let stop ← boundOperand line.number env (String.ofList high)
        .ok ⟨counter, start, stop⟩

/-- A loop with its body and the lines behind it. -/
structure Loop where
  header : LoopHeader
  body : List Line
  after : List Line

/-- The loop that a header line opens, given the lines behind it. -/
def openLoop (env : Environment) (line : Line) (rest : List Line) : Except Fault Loop := do
  let header ← readHeader env line
  match splitLoop 0 rest with
  | none => refuse line.number .loopNotClosed
  | some (body, closing, after) =>
    refuseTrailing closing.number closing.operands
    .ok ⟨header, body, after⟩

theorem openLoop_shorter {env : Environment} {line : Line} {rest : List Line} {loop : Loop}
    (opened : openLoop env line rest = .ok loop) :
    loop.body.length < rest.length ∧ loop.after.length < rest.length := by
  simp only [openLoop, bind, Except.bind] at opened
  split at opened
  · simp at opened
  · split at opened
    · simp [refuse] at opened
    · rename_i found
      split at opened
      · simp at opened
      · simp only [Except.ok.injEq] at opened
        subst opened
        have split := congrArg List.length (splitLoop_append found)
        simp only [List.length_append, List.length_cons] at split
        constructor <;> simp only <;> omega

/-- How often the body is run. -/
def LoopHeader.count (header : LoopHeader) : Nat := (header.stop - header.start + 1).toNat

-- The log and the gates so far are given latest first.
def repeatOnto {α : Type} (body : Int → Logged (List α)) (log : List Event) (items : List α) :
    Int → Nat → Logged (List α)
  | _, 0 => ⟨log.reverse, .ok items.reverse⟩
  | k, count + 1 =>
    match body k with
    | ⟨more, .error fault⟩ => ⟨log.reverse ++ more, .error fault⟩
    | ⟨more, .ok new⟩ => repeatOnto body (more.reverse ++ log) (new.reverse ++ items) (k + 1) count

/-- Runs a body for `count` integers from `k` on and puts the results together. -/
def repeatFrom {α : Type} (body : Int → Logged (List α)) (k : Int) (count : Nat) :
    Logged (List α) := repeatOnto body [] [] k count

theorem repeatOnto_eq {α : Type} (body : Int → Logged (List α)) (log : List Event)
    (items : List α) (k : Int) (count : Nat) :
    repeatOnto body log items k count =
      ⟨log.reverse ++ (repeatFrom body k count).log,
        (repeatFrom body k count).result.map (items.reverse ++ ·)⟩ := by
  induction count generalizing log items k with
  | zero => simp [repeatFrom, repeatOnto, Except.map]
  | succ count ih =>
    simp only [repeatFrom, repeatOnto]
    match body k with
    | ⟨more, .error fault⟩ => simp [Except.map]
    | ⟨more, .ok new⟩ =>
      simp only []
      rw [ih (more.reverse ++ log), ih (more.reverse ++ [])]
      cases (repeatFrom body (k + 1) count).result <;> simp [Except.map]

theorem repeatFrom_zero {α : Type} (body : Int → Logged (List α)) (k : Int) :
    repeatFrom body k 0 = pure [] := rfl

theorem repeatFrom_succ {α : Type} (body : Int → Logged (List α)) (k : Int) (count : Nat) :
    repeatFrom body k (count + 1) = (do
      let new ← body k
      let later ← repeatFrom body (k + 1) count
      pure (new ++ later)) := by
  show repeatOnto body [] [] k (count + 1) = Logged.andThen _ _
  simp only [repeatOnto, Logged.andThen]
  match body k with
  | ⟨more, .error fault⟩ => simp
  | ⟨more, .ok new⟩ =>
    simp only [repeatOnto_eq]
    show _ = (⟨more ++ (Logged.andThen _ _).log, (Logged.andThen _ _).result⟩ : Logged (List α))
    cases run : (repeatFrom body (k + 1) count).result <;>
      simp [Logged.andThen, run, Except.map, pure]

/-- Runs the body of a loop. A loop without a value is logged as a warning. -/
def unroll {α : Type} (line depth : Nat) (header : LoopHeader) (body : Int → Logged (List α)) :
    Logged (List α) := do
  if header.stop < header.start then Logged.emit (.emptyLoop line header.start header.stop)
  Logged.emit (.loopUnrolled header.counter header.start header.stop depth)
  repeatFrom body header.start header.count

end QCircuit
