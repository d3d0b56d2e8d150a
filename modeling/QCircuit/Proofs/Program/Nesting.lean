import QCircuit.Program.Loop
/-! Lines with closed loops.

In balanced lines every loop is closed and no closing line is left over. They are the bodies that
`splitLoop` finds, and it passes over them when they stand in front of other lines. -/
namespace QCircuit

/-- The line neither opens nor closes a loop. -/
def Line.Flat (line : Line) : Prop :=
  line.role ≠ .keyword .loop ∧ line.role ≠ .keyword .endLoop

inductive Balanced : List Line → Prop where
  | nil : Balanced []
  | line {line : Line} {rest : List Line} (flat : line.Flat) (later : Balanced rest) :
      Balanced (line :: rest)
  | loop {head closing : Line} {body after : List Line} (opens : head.role = .keyword .loop)
      (closes : closing.role = .keyword .endLoop) (inner : Balanced body) (later : Balanced after) :
      Balanced (head :: (body ++ closing :: after))

theorem Balanced.append {first second : List Line} (balanced : Balanced first)
    (balanced' : Balanced second) : Balanced (first ++ second) := by
  induction balanced with
  | nil => exact balanced'
  | line flat _ ih => exact .line flat ih
  | loop opens closes inner _ _ ih =>
      rw [List.cons_append, List.append_assoc]
      exact .loop opens closes inner ih

theorem Balanced.flatMap {α : Type} {items : List α} {block : α → List Line}
    (balanced : ∀ a ∈ items, Balanced (block a)) : Balanced (items.flatMap block) := by
  induction items with
  | nil => exact .nil
  | cons a rest ih =>
      rw [List.forall_mem_cons] at balanced
      exact balanced.1.append (ih balanced.2)

-- Whether lines are balanced is decided by their roles.
theorem Balanced.congr {lines lines' : List Line} (balanced : Balanced lines)
    (same : lines.map Line.role = lines'.map Line.role) : Balanced lines' := by
  induction balanced generalizing lines' with
  | nil =>
      rw [List.map_nil, eq_comm, List.map_eq_nil_iff] at same
      exact same ▸ .nil
  | @line line rest flat _ ih =>
      rw [List.map_cons, eq_comm, List.map_eq_cons_iff] at same
      obtain ⟨line', rest', rfl, role, roles⟩ := same
      refine .line ?_ (ih roles.symm)
      rw [Line.Flat, role]
      exact flat
  | @loop head closing body after opens closes _ _ ihBody ihAfter =>
      rw [List.map_cons, List.map_append, List.map_cons, eq_comm, List.map_eq_cons_iff] at same
      obtain ⟨head', rest', rfl, headRole, roles⟩ := same
      obtain ⟨body', rest', rfl, bodyRoles, roles⟩ := List.map_eq_append_iff.mp roles
      obtain ⟨closing', after', rfl, closingRole, afterRoles⟩ := List.map_eq_cons_iff.mp roles
      exact .loop (headRole.trans opens) (closingRole.trans closes) (ihBody bodyRoles.symm)
        (ihAfter afterRoles.symm)

/-- Neither end of a definition is among the lines. -/
def DefinesNothing (lines : List Line) : Prop :=
  ∀ line ∈ lines, line.role ≠ .keyword .define ∧ line.role ≠ .keyword .endDefine

-- Puts lines in front of the body of a loop that has been split off.
def inFront (front : List Line) (parts : List Line × Line × List Line) :
    List Line × Line × List Line := (front ++ parts.1, parts.2)

theorem map_inFront (first second : List Line) (parts? : Option (List Line × Line × List Line)) :
    (parts?.map (inFront second)).map (inFront first) = parts?.map (inFront (first ++ second)) := by
  rw [Option.map_map]
  congr 1
  funext parts
  simp [inFront]

theorem splitLoop_opens {line : Line} (opens : line.role = .keyword .loop) (depth : Nat)
    (rest : List Line) :
    splitLoop depth (line :: rest) = (splitLoop (depth + 1) rest).map (inFront [line]) := by
  conv => lhs; unfold splitLoop
  rw [opens]
  rfl

theorem splitLoop_closes {line : Line} (closes : line.role = .keyword .endLoop) (depth : Nat)
    (rest : List Line) :
    splitLoop (depth + 1) (line :: rest) = (splitLoop depth rest).map (inFront [line]) := by
  conv => lhs; unfold splitLoop
  rw [closes]
  rfl

theorem splitLoop_closes_last {line : Line} (closes : line.role = .keyword .endLoop)
    (rest : List Line) : splitLoop 0 (line :: rest) = some ([], line, rest) := by
  unfold splitLoop
  rw [closes]

theorem splitLoop_flat {line : Line} (flat : line.Flat) (depth : Nat) (rest : List Line) :
    splitLoop depth (line :: rest) = (splitLoop depth rest).map (inFront [line]) := by
  conv => lhs; unfold splitLoop
  obtain ⟨opens, closes⟩ := flat
  cases role : line.role with
  | keyword k =>
      rw [role] at opens closes
      cases k <;> first | rfl | contradiction
  | gate m => rfl
  | name => rfl

theorem Balanced.splitLoop_append {lines : List Line} (balanced : Balanced lines) (depth : Nat)
    (rest : List Line) :
    splitLoop depth (lines ++ rest) = (splitLoop depth rest).map (inFront lines) := by
  induction balanced generalizing depth rest with
  | nil =>
      rw [List.nil_append]
      cases splitLoop depth rest <;> rfl
  | line flat _ ih =>
      rw [List.cons_append, splitLoop_flat flat, ih, map_inFront]
      rfl
  | @loop head closing body after opens closes _ _ ihBody ihAfter =>
      rw [List.cons_append, List.append_assoc, List.cons_append, splitLoop_opens opens, ihBody,
        splitLoop_closes closes, ihAfter, map_inFront, map_inFront, map_inFront]
      simp

-- The lines behind the opening of `depth` loops, up to the line that closes the loop around them.
inductive Unwinds : Nat → List Line → Prop where
  | last {lines : List Line} (balanced : Balanced lines) : Unwinds 0 lines
  | more {depth : Nat} {lines after : List Line} {closing : Line} (balanced : Balanced lines)
      (closes : closing.role = .keyword .endLoop) (later : Unwinds depth after) :
      Unwinds (depth + 1) (lines ++ closing :: after)

theorem Unwinds.append {depth : Nat} {first second : List Line} (balanced : Balanced first)
    (unwinds : Unwinds depth second) : Unwinds depth (first ++ second) := by
  cases unwinds with
  | last balanced' => exact .last (balanced.append balanced')
  | more balanced' closes later =>
      rw [← List.append_assoc]
      exact .more (balanced.append balanced') closes later

theorem splitLoop_unwinds {depth : Nat} {lines body after : List Line} {closing : Line}
    (found : splitLoop depth lines = some (body, closing, after)) :
    Unwinds depth body ∧ closing.role = .keyword .endLoop := by
  induction lines generalizing depth body with
  | nil => simp [splitLoop] at found
  | cons line rest ih =>
      by_cases opens : line.role = .keyword .loop
      · rw [splitLoop_opens opens, Option.map_eq_some_iff] at found
        obtain ⟨⟨inner, _, _⟩, inside, same⟩ := found
        cases same
        obtain ⟨unwinds, closes⟩ := ih inside
        cases unwinds with
        | more balanced closes' later =>
            have loop : Balanced (line :: (_ ++ [_])) := .loop opens closes' balanced .nil
            have whole := later.append loop
            rw [List.cons_append, List.append_assoc] at whole
            exact ⟨whole, closes⟩
      · by_cases closes : line.role = .keyword .endLoop
        · cases depth with
          | zero =>
              rw [splitLoop_closes_last closes, Option.some.injEq] at found
              cases found
              exact ⟨.last .nil, closes⟩
          | succ depth =>
              rw [splitLoop_closes closes, Option.map_eq_some_iff] at found
              obtain ⟨⟨inner, _, _⟩, inside, same⟩ := found
              cases same
              obtain ⟨unwinds, last⟩ := ih inside
              exact ⟨.more .nil closes unwinds, last⟩
        · have flat : line.Flat := ⟨opens, closes⟩
          rw [splitLoop_flat flat, Option.map_eq_some_iff] at found
          obtain ⟨⟨inner, _, _⟩, inside, same⟩ := found
          cases same
          obtain ⟨unwinds, last⟩ := ih inside
          exact ⟨.append (.line flat .nil) unwinds, last⟩

theorem splitLoop_eq_some_iff {lines body after : List Line} {closing : Line} :
    splitLoop 0 lines = some (body, closing, after) ↔
      lines = body ++ closing :: after ∧ Balanced body ∧ closing.role = .keyword .endLoop := by
  constructor
  · intro found
    obtain ⟨unwinds, closes⟩ := splitLoop_unwinds found
    cases unwinds with
    | last balanced => exact ⟨splitLoop_append found, balanced, closes⟩
  · rintro ⟨rfl, balanced, closes⟩
    rw [balanced.splitLoop_append, splitLoop_closes_last closes]
    simp [inFront]

namespace Balanced
variable {line : Line} {rest : List Line}

theorem not_closing (balanced : Balanced (line :: rest)) : line.role ≠ .keyword .endLoop := by
  cases balanced with
  | line flat _ => exact flat.2
  | loop opens _ _ _ => simp [opens]

theorem tail (balanced : Balanced (line :: rest)) (role : line.role ≠ .keyword .loop) :
    Balanced rest := by
  cases balanced with
  | line _ later => exact later
  | loop opens _ _ _ => exact absurd opens role

theorem splitLoop (balanced : Balanced (line :: rest)) (opens : line.role = .keyword .loop) :
    ∃ body closing after, splitLoop 0 rest = some (body, closing, after) ∧ Balanced body ∧
      Balanced after := by
  cases balanced with
  | line flat _ => exact absurd opens flat.1
  | loop _ closes inner later =>
      exact ⟨_, _, _, splitLoop_eq_some_iff.mpr ⟨rfl, inner, closes⟩, inner, later⟩

end Balanced

-- Lines in which `depth` loops have been opened and not closed.
inductive LeavesOpen : Nat → List Line → Prop where
  | none {lines : List Line} (balanced : Balanced lines) : LeavesOpen 0 lines
  | more {depth : Nat} {lines body : List Line} {head : Line} (earlier : LeavesOpen depth lines)
      (opens : head.role = .keyword .loop) (balanced : Balanced body) :
      LeavesOpen (depth + 1) (lines ++ head :: body)

namespace LeavesOpen
variable {depth : Nat} {lines : List Line} {line : Line}

theorem append {more : List Line} (left : LeavesOpen depth lines) (balanced : Balanced more) :
    LeavesOpen depth (lines ++ more) := by
  cases left with
  | none balanced' => exact .none (balanced'.append balanced)
  | more earlier opens balanced' =>
      rw [List.append_assoc, List.cons_append]
      exact .more earlier opens (balanced'.append balanced)

theorem opens (left : LeavesOpen depth lines) (role : line.role = .keyword .loop) :
    LeavesOpen (depth + 1) (lines ++ [line]) := .more left role .nil

theorem closes (left : LeavesOpen (depth + 1) lines) (role : line.role = .keyword .endLoop) :
    LeavesOpen depth (lines ++ [line]) := by
  cases left with
  | more earlier opens balanced =>
      rw [List.append_assoc, List.cons_append]
      exact earlier.append (.loop opens role balanced .nil)

theorem balanced (left : LeavesOpen 0 lines) : Balanced lines := by
  cases left with
  | none balanced => exact balanced

end LeavesOpen
end QCircuit
