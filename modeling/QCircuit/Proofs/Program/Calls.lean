import QCircuit.Proofs.Program.Visiting
/-! Calls between definitions.

A definition calls those that its lines name. Each of them was closed before it was opened, so a
chain of calls runs up the source and is no longer than there are definitions, and groups of gates
are nested no deeper. -/
namespace QCircuit

namespace Registered
variable {name : String} {macros older : List Macro} {m : Macro}

-- A name is given once, so every definition is the one that is found under its name.
theorem findMacro_of_mem (registered : Registered macros) (known : m ∈ macros) :
    ∃ older, findMacro m.name macros = some (m, older) := by
  induction registered with
  | nil => cases known
  | @cons first rest contents _ _ ih =>
      rcases List.mem_cons.mp known with rfl | later
      · exact ⟨rest, if_pos rfl⟩
      · obtain ⟨older, found⟩ := ih later
        have other : first.name ≠ m.name := by
          intro same
          rw [← same, contents.fresh] at found
          cases found
        exact ⟨older, by rw [findMacro, if_neg other, found]⟩

theorem of_found (registered : Registered macros) (found : findMacro name macros = some (m, older)) :
    Registered older := by
  induction registered with
  | nil => cases found
  | @cons first rest _ _ others ih =>
      unfold findMacro at found
      by_cases same : first.name = name
      · rw [if_pos same] at found
        cases found
        exact others
      · rw [if_neg same] at found
        exact ih found

end Registered

theorem findMacro_suffix {name : String} {macros older : List Macro} {m : Macro}
    (found : findMacro name macros = some (m, older)) : (m :: older).IsSuffix macros := by
  induction macros with
  | nil => cases found
  | cons first rest ih =>
      unfold findMacro at found
      by_cases same : first.name = name
      · rw [if_pos same] at found
        cases found
        exact List.suffix_refl _
      · rw [if_neg same] at found
        exact (ih found).trans (List.suffix_cons first rest)

/-- A line of one definition names the other. -/
structure Calls (macros : List Macro) (d e : Macro) : Prop where
  caller : d ∈ macros
  names : ∃ line ∈ d.body, line.role = .name ∧ ∃ older, findMacro line.head macros = some (e, older)

section Order
variable {macros : List Macro} (registered : Registered macros)
  (apart : macros.Pairwise fun later earlier => earlier.closedAt < later.openedAt)
include registered apart

theorem named_earlier {d : Macro} (known : d ∈ macros) {line : Line} (inside : line ∈ d.body)
    (role : line.role = .name) :
    ∃ e older, findMacro line.head macros = some (e, older) ∧ e.closedAt < d.openedAt := by
  obtain ⟨before, found⟩ := registered.findMacro_of_mem known
  obtain ⟨-, contents, -⟩ := registered.found found
  have named := contents.known line inside role
  rw [registered.findMacro_older found named]
  obtain ⟨⟨e, older⟩, found'⟩ := Option.isSome_iff_exists.mp named
  have below := List.pairwise_cons.mp (apart.sublist (findMacro_suffix found).sublist)
  exact ⟨e, older, found', below.1 e ((findMacro_suffix found').subset List.mem_cons_self)⟩

theorem Calls.earlier {d e : Macro} (calls : Calls macros d e)
    (spans : ∀ m ∈ macros, m.openedAt < m.closedAt) : e.openedAt < d.openedAt := by
  obtain ⟨line, inside, role, older, found⟩ := calls.names
  obtain ⟨e', older', found', before⟩ := named_earlier registered apart calls.caller inside role
  rw [found, Option.some.injEq, Prod.mk.injEq] at found'
  rw [← found'.1] at before
  exact (spans e ((findMacro_suffix found).subset List.mem_cons_self)).trans before

theorem calls_ascend {chain : List Macro} (known : ∀ d ∈ chain, d ∈ macros)
    (calls : chain.IsChain (Calls macros)) (spans : ∀ m ∈ macros, m.openedAt < m.closedAt) :
    chain.Pairwise (fun d e => e.openedAt < d.openedAt) ∧ chain.length ≤ macros.length := by
  have ascends : chain.Pairwise fun d e => e.openedAt < d.openedAt := by
    have linked := calls.imp fun _ _ called => called.earlier registered apart spans
    rw [← List.isChain_map (fun d : Macro => d.openedAt) (R := fun i j => j < i)] at linked
    exact List.pairwise_map.mp (List.isChain_iff_pairwise.mp linked)
  have distinct : chain.Nodup := ascends.imp fun before same => by
    rw [same] at before
    exact Nat.lt_irrefl _ before
  exact ⟨ascends, distinct.length_le_of_subset known⟩

end Order

namespace Gate
variable {R : Type}

mutual

/-- How many groups stand one in the other. -/
def nesting : Gate R → Nat
  | standard _ => 0
  | composite _ members => nestingOf members + 1

def nestingOf : List (Gate R) → Nat
  | [] => 0
  | g :: rest => max g.nesting (nestingOf rest)

end

theorem nestingOf_le_iff {gates : List (Gate R)} {depth : Nat} :
    nestingOf gates ≤ depth ↔ ∀ g ∈ gates, g.nesting ≤ depth := by
  induction gates with
  | nil => simp [nestingOf]
  | cons g rest ih => rw [nestingOf, Nat.max_le, ih, List.forall_mem_cons]

end Gate

-- Each call leaves fewer definitions to its body.
theorem Expands.nesting {width : Nat} {macros : List Macro} {env : Environment} {lines : List Line}
    {gates : List (Gate Float)} (expands : Expands width macros env lines gates) :
    ∀ g ∈ gates, g.nesting ≤ macros.length := by
  induction expands with
  | done => simp
  | gate _ _ _ ih => exact List.forall_mem_cons.mpr ⟨by simp [Gate.nesting], ih⟩
  | call _ found _ _ _ ihBody ihRest =>
      refine List.forall_mem_cons.mpr ⟨?_, ihRest⟩
      have fewer := (findMacro_suffix found).length_le
      rw [List.length_cons] at fewer
      have members := Gate.nestingOf_le_iff.mpr ihBody
      rw [Gate.nesting]
      omega
  | loop _ _ _ _ _ ihBody ihAfter =>
      rw [List.forall_mem_append]
      refine ⟨?_, ihAfter⟩
      intro g inside
      obtain ⟨i, turn, member⟩ := List.mem_flatMap.mp inside
      exact ihBody i (List.mem_range.mp turn) g member

theorem Step.nesting {limit : Nat} {st next : State} {line : Line} {statement : List Line}
    (step : Step limit st line statement next)
    (nested : ∀ g ∈ st.gates, g.nesting ≤ st.macros.length) :
    ∀ g ∈ next.gates, g.nesting ≤ next.macros.length := by
  cases step with
  | capture | initialise | define => exact nested
  | close => exact fun g inside => (nested g inside).trans (Nat.le_succ _)
  | add _ _ _ _ expands => exact List.forall_mem_append.mpr ⟨nested, expands.nesting⟩

end QCircuit
