import QCircuit.Proofs.Expr.IntegerLiteral
import QCircuit.Proofs.Program.Spelling
import QCircuit.Proofs.Program.TopLevel
/-! Unrolling a loop.

A loop outside definitions writes the same gates as copies of its body, one for each value of its
counter in ascending order, in which the counter is replaced by that value. -/
namespace QCircuit

/-- Copies of a body for the values of a counter. -/
def copies (header : LoopHeader) (body : List Line) : List Line :=
  (List.range header.count).flatMap fun i : Nat =>
    rewrite [(header.counter, Literal.ofInt (header.start + i))] [] body

theorem copies_empty {header : LoopHeader} (empty : header.stop < header.start) (body : List Line) :
    copies header body = [] := by
  have none : header.count = 0 := by
    rw [LoopHeader.count]
    omega
  rw [copies, none, List.range_zero, List.flatMap_nil]

theorem Balanced.copies {body : List Line} (balanced : Balanced body) (header : LoopHeader) :
    Balanced (copies header body) := .flatMap fun _ _ => balanced.rewrite _ _

theorem DefinesNothing.copies {body : List Line} (plain : DefinesNothing body)
    (header : LoopHeader) : DefinesNothing (copies header body) := by
  intro line inside
  obtain ⟨i, _, copy⟩ := List.mem_flatMap.mp inside
  exact plain.rewrite _ _ line copy

theorem Line.Written.copies {body : List Line} (written : ∀ line ∈ body, line.Written)
    (header : LoopHeader) : ∀ line ∈ QCircuit.copies header body, line.Written := by
  intro line inside
  obtain ⟨i, _, copy⟩ := List.mem_flatMap.mp inside
  exact written_rewrite written _ _ line copy

-- This holds in every environment, so also for a loop in a body that is not at its first turn.
theorem expands_copies_iff {width : Nat} {macros : List Macro} {env : Environment}
    {head closing : Line} {body : List Line} {header : LoopHeader}
    (opens : head.role = .keyword .loop) (closes : closing.role = .keyword .endLoop)
    (balanced : Balanced body) (heads : Heads env head.operands header)
    (bare : closing.operands = []) (gates : List (Gate Float)) :
    Expands width macros env (head :: (body ++ [closing])) gates ↔
      Expands width macros env (copies header body) gates := by
  have turn : ∀ (i : Nat) (turn : List (Gate Float)),
      Expands width macros env (rewrite [(header.counter, Literal.ofInt (header.start + i))] [] body)
        turn ↔ Expands width macros (env.bind header.counter (Float.ofInt (header.start + i))) body
          turn := by
    intro i turn
    exact expands_rewrite balanced (fun _ _ _ => rfl) (replaces_counter env _ _) turn
  rw [expands_loop_iff opens closes balanced, copies,
    expands_range_iff fun _ => balanced.rewrite _ _]
  simp only [turn]
  constructor
  · rintro ⟨header', turns, later, heads', _, ran, ended, rfl⟩
    have same : header' = header := by
      have read := readHeader_eq_ok.mpr heads
      rw [readHeader_eq_ok.mpr heads'] at read
      exact Except.ok.inj read
    subst same
    rw [expands_nil_iff] at ended
    subst ended
    exact ⟨turns, ran, List.append_nil _⟩
  · rintro ⟨turns, ran, rfl⟩
    exact ⟨header, turns, [], heads, bare, ran, .done, (List.append_nil _).symm⟩

/-- A loop of a text outside definitions. The lines before it are accepted, its header is read and
its end is found. -/
structure LoopSite (config : Config) (text : String) where
  before : List Line
  head : Line
  body : List Line
  closing : Line
  after : List Line
  header : LoopHeader
  whole : (Source.ofText text).lines = before ++ head :: (body ++ closing :: after)
  prepared : Prepares config.qubitLimit before
  opens : head.role = .keyword .loop
  opened : openLoop Environment.empty head (body ++ closing :: after) = .ok ⟨header, body, after⟩
  plain : DefinesNothing body

namespace LoopSite
variable {config : Config} {text : String} (site : LoopSite config text)

/-- The lines of the text with copies of the body in place of the loop. -/
def unrolled : List Line := site.before ++ (copies site.header site.body ++ site.after)

theorem heads : Heads Environment.empty site.head.operands site.header :=
  (openLoop_eq_ok.mp site.opened).1

theorem closes : Balanced site.body ∧ site.closing.role = .keyword .endLoop ∧
    site.closing.operands = [] := by
  obtain ⟨closing, split, bare⟩ := (openLoop_eq_ok.mp site.opened).2
  obtain ⟨whole, balanced, closes⟩ := splitLoop_eq_some_iff.mp split
  have same : site.closing = closing := by simpa using whole
  rw [same]
  exact ⟨balanced, closes, bare⟩

theorem unrolled_written : ∀ line ∈ site.unrolled, line.Written := by
  have written := ofText_written text
  rw [site.whole] at written
  simp only [List.forall_mem_append, List.forall_mem_cons] at written
  simp only [unrolled, List.forall_mem_append]
  exact ⟨written.1, Line.Written.copies written.2.2.1 site.header, written.2.2.2.2⟩

theorem accepts_unrolled_iff (p : Program) :
    Accepts config.qubitLimit (Source.ofText text).lines p ↔
      Accepts config.qubitLimit site.unrolled p := by
  obtain ⟨balanced, closes, bare⟩ := site.closes
  have loop : Balanced (site.head :: (site.body ++ [site.closing])) :=
    .loop site.opens closes balanced .nil
  have plain : DefinesNothing (site.head :: (site.body ++ [site.closing])) := by
    have inside := site.plain
    simp only [DefinesNothing, List.forall_mem_cons, List.forall_mem_append] at inside ⊢
    simpa [site.opens, closes] using inside
  have split : (Source.ofText text).lines =
      site.before ++ (site.head :: (site.body ++ [site.closing]) ++ site.after) := by
    rw [site.whole]
    simp
  obtain ⟨width, found⟩ := Option.isSome_iff_exists.mp site.prepared.initialised
  rw [split, unrolled, site.prepared.accepts_block_iff found loop plain,
    site.prepared.accepts_block_iff found (balanced.copies site.header) (site.plain.copies site.header)]
  simp only [expands_copies_iff site.opens closes balanced site.heads bare]

end LoopSite

/-- A loop can be unrolled without a change to the program, and without any lines if its range is
empty. -/
theorem unrolled_loop_same_program {config : Config} {text : String} (site : LoopSite config text) :
    (site.header.stop < site.header.start → copies site.header site.body = []) ∧
      (∃ text', Spells text' site.unrolled) ∧
      ∀ text', Spells text' site.unrolled → ∀ p : Program,
        (interpret config text).result = .ok p ↔ (interpret config text').result = .ok p := by
  refine ⟨fun empty => copies_empty empty site.body,
    ⟨textOf site.unrolled, spells_textOf site.unrolled_written⟩, ?_⟩
  intro text' spelled p
  rw [interpret, interpret, interpretSource_eq_ok, interpretSource_eq_ok, accepts_congr spelled p]
  exact site.accepts_unrolled_iff p

-- A loop with an inner one that uses its counter in a bound and binds it again.
def nestedText : String :=
  "init 2\nfor $i 1:2\nX $i\nfor $i $i:2\nZ $i\nendfor\nendfor\nH 1"

def nestedUnrolled : String :=
  "init 2\n// unrolled\nX (1)\nfor $i (1):2\nZ $i\nendfor\nX (2)\nfor $i (2):2\nZ $i\nendfor\n\nH 1"

def nestedLoop : LoopSite ⟨24⟩ nestedText where
  before := [⟨1, "init", ["2"]⟩]
  head := ⟨2, "for", ["$i", "1:2"]⟩
  body := [⟨3, "X", ["$i"]⟩, ⟨4, "for", ["$i", "$i:2"]⟩, ⟨5, "Z", ["$i"]⟩, ⟨6, "endfor", []⟩]
  closing := ⟨7, "endfor", []⟩
  after := [⟨8, "H", ["1"]⟩]
  header := ⟨"$i", 1, 2⟩
  whole := by decide +kernel
  prepared := ⟨by decide +kernel, by decide +kernel, by decide +kernel⟩
  opens := by decide +kernel
  opened := openLoop_eq_ok.mpr
    ⟨readHeader_eq_ok.mp (by decide +kernel), ⟨7, "endfor", []⟩, by decide +kernel, rfl⟩
  plain := by
    unfold DefinesNothing
    decide +kernel

theorem unrolled_loop_same_program_nested :
    Spells nestedUnrolled nestedLoop.unrolled ∧ ∃ p : Program, p.gates.length = 6 ∧
      (interpret ⟨24⟩ nestedUnrolled).result = .ok p ∧ (interpret ⟨24⟩ nestedText).result = .ok p := by
  have spelled : Spells nestedUnrolled nestedLoop.unrolled := by
    unfold Spells SameWords
    decide +kernel
  have count : (interpret ⟨24⟩ nestedUnrolled).result.toOption.map (·.gates.length) = some 6 := by
    decide +kernel
  cases ran : (interpret ⟨24⟩ nestedUnrolled).result with
  | error fault => simp [ran, Except.toOption] at count
  | ok p =>
      simp only [ran, Except.toOption, Option.map_some, Option.some.injEq] at count
      have same := (unrolled_loop_same_program nestedLoop).2.2 nestedUnrolled spelled p
      exact ⟨spelled, p, count, rfl, same.mpr ran⟩

end QCircuit
