import Mathlib.Order.Nat
import QCircuit.Gate.Basic
/-! Gates from their listing.

The members of a group stand right behind it, up to the first gate that is not deeper than the
group. So a listing tells the gates apart even if a group shows no more of itself than its name. -/
namespace QCircuit
namespace Gate
variable {R : Type}

/-- What a gate shows besides its members. -/
def root : Gate R → Operation R ⊕ String
  | standard op => .inl op
  | composite name _ => .inr name

def isGroup : Gate R → Bool
  | standard _ => false
  | composite _ _ => true

/-- The part of the listing of a gate at a depth that is behind the gate itself. -/
def inside (depth : Nat) : Gate R → List (Nat × Gate R)
  | standard _ => []
  | composite _ members => listingOf (depth + 1) members

-- Induction over the gates of a list and the members of each group among them.
theorem listInduction {P : List (Gate R) → Prop} (nil : P [])
    (standard : ∀ op rest, P rest → P (standard op :: rest))
    (composite : ∀ name members rest, P members → P rest → P (composite name members :: rest)) :
    ∀ gates, P gates
  | [] => nil
  | .standard op :: rest => standard op rest (listInduction nil standard composite rest)
  | .composite name members :: rest => composite name members rest
      (listInduction nil standard composite members) (listInduction nil standard composite rest)

theorem listing_eq (depth : Nat) (g : Gate R) : g.listing depth = (depth, g) :: g.inside depth := by
  cases g <;> rw [listing, inside]

theorem listingOf_cons (depth : Nat) (g : Gate R) (rest : List (Gate R)) :
    listingOf depth (g :: rest) = (depth, g) :: (g.inside depth ++ listingOf depth rest) := by
  rw [listingOf, listing_eq, List.cons_append]

theorem mem_listingOf {depth : Nat} {gates : List (Gate R)} {e : Nat × Gate R} :
    e ∈ listingOf depth gates ↔ ∃ g ∈ gates, e ∈ g.listing depth := by
  induction gates with
  | nil => simp [listingOf]
  | cons g rest ih => simp [listingOf, ih]

theorem listingOf_append (depth : Nat) (first second : List (Gate R)) :
    listingOf depth (first ++ second) = listingOf depth first ++ listingOf depth second := by
  induction first with
  | nil => simp [listingOf]
  | cons g rest ih => rw [List.cons_append, listingOf, listingOf, ih, List.append_assoc]

theorem depth_le_of_mem {gates : List (Gate R)} {depth : Nat} {e : Nat × Gate R}
    (listed : e ∈ listingOf depth gates) : depth ≤ e.1 := by
  induction gates using listInduction generalizing depth with
  | nil => simp [listingOf] at listed
  | standard op rest ih =>
      rw [listingOf_cons, inside, List.nil_append, List.mem_cons] at listed
      rcases listed with rfl | later
      · exact le_rfl
      · exact ih later
  | composite name members rest ihMembers ihRest =>
      rw [listingOf_cons, inside, List.mem_cons, List.mem_append] at listed
      rcases listed with rfl | member | later
      · exact le_rfl
      · exact Nat.le_of_succ_le (ihMembers member)
      · exact ihRest later

theorem count_operations (gates : List (Gate R)) (depth : Nat) :
    (listingOf depth gates).countP (fun e => !e.2.isGroup) = primitiveCountOf gates := by
  induction gates using listInduction generalizing depth with
  | nil => rfl
  | standard op rest ih =>
      rw [listingOf_cons, inside, List.nil_append, List.countP_cons_of_pos (by rfl), ih,
        primitiveCountOf, primitiveCount, Nat.add_comm]
  | composite name members rest ihMembers ihRest =>
      rw [listingOf_cons, inside, List.countP_cons_of_neg (by simp [isGroup]), List.countP_append,
        ihMembers, ihRest, primitiveCountOf, primitiveCount]

theorem depth_lt_of_inside {g : Gate R} {depth : Nat} {e : Nat × Gate R}
    (listed : e ∈ g.inside depth) : depth < e.1 := by
  cases g with
  | standard op => cases listed
  | composite name members => exact depth_le_of_mem listed

theorem count_top (gates : List (Gate R)) (depth : Nat) :
    (listingOf depth gates).countP (fun e => e.1 == depth) = gates.length := by
  induction gates with
  | nil => rfl
  | cons g rest ih =>
      have deeper : (g.inside depth).countP (fun e => e.1 == depth) = 0 := by
        rw [List.countP_eq_zero]
        intro e listed
        rw [beq_iff_eq]
        exact (depth_lt_of_inside listed).ne'
      rw [listingOf_cons, List.countP_cons_of_pos (by simp), List.countP_append, deeper, ih,
        Nat.zero_add, List.length_cons]

/-- Nothing is left, or it goes on at a lower depth. -/
def GoesOnBelow {α : Type} (depth : Nat) (rest : List (Nat × α)) : Prop :=
  ∀ e ∈ rest.head?, e.1 < depth

namespace GoesOnBelow
variable {α β : Type} {depth : Nat} {rest more : List (Nat × α)}

theorem append (first : GoesOnBelow depth rest) (second : GoesOnBelow depth more) :
    GoesOnBelow depth (rest ++ more) := by
  cases rest with
  | nil => exact second
  | cons e later => exact first

theorem mono {deeper : Nat} (goes : GoesOnBelow depth rest) (deep : depth ≤ deeper) :
    GoesOnBelow deeper rest := fun e first => (goes e first).trans_le deep

theorem listing (depth : Nat) (gates : List (Gate R)) :
    GoesOnBelow (depth + 1) (listingOf depth gates) := by
  cases gates with
  | nil => simp [GoesOnBelow, listingOf]
  | cons g rest => simp [GoesOnBelow, listingOf_cons]

theorem takeWhile (goes : GoesOnBelow (depth + 1) rest) :
    rest.takeWhile (fun e => decide (depth < e.1)) = [] := by
  cases rest with
  | nil => rfl
  | cons e later =>
      have first := goes e rfl
      exact List.takeWhile_cons_of_neg (by simpa using Nat.le_of_lt_succ first)

end GoesOnBelow

/-- Behind an entry stand its members, and then an entry that is not deeper. -/
def Followed (e : Nat × Gate R) (after : List (Nat × Gate R)) : Prop :=
  ∃ rest, after = e.2.inside e.1 ++ rest ∧ GoesOnBelow (e.1 + 1) rest

theorem followed_cons {g : Gate R} {rest : List (Gate R)} {depth : Nat}
    (inner : ∀ before e after, g.inside depth = before ++ e :: after → Followed e after)
    (later : ∀ before e after, listingOf depth rest = before ++ e :: after → Followed e after)
    {before after : List (Nat × Gate R)} {e : Nat × Gate R}
    (split : listingOf depth (g :: rest) = before ++ e :: after) : Followed e after := by
  rw [listingOf_cons] at split
  cases before with
  | nil =>
      cases split
      exact ⟨_, rfl, .listing depth rest⟩
  | cons first before =>
      rw [List.cons_append, List.cons.injEq] at split
      rcases List.append_eq_append_iff.mp split.2 with ⟨front, -, behind⟩ | ⟨back, whole, behind⟩
      · exact later front e after behind
      · cases back with
        | nil => exact later [] e after behind.symm
        | cons e' back =>
            cases behind
            obtain ⟨others, rfl, goes⟩ := inner before e back whole
            have deep : depth < e.1 := by
              apply depth_lt_of_inside
              rw [whole]
              exact List.mem_append_right _ List.mem_cons_self
            have goes' := (GoesOnBelow.listing depth rest).mono (Nat.succ_le_succ deep.le)
            exact ⟨_, List.append_assoc _ _ _, goes.append goes'⟩

theorem followed {gates : List (Gate R)} {depth : Nat} {before after : List (Nat × Gate R)}
    {e : Nat × Gate R} (split : listingOf depth gates = before ++ e :: after) :
    Followed e after := by
  induction gates using listInduction generalizing depth before after e with
  | nil => simp [listingOf] at split
  | standard op rest ih =>
      refine followed_cons ?_ (fun before e after => ih) split
      intro before e after inner
      simp [inside] at inner
  | composite name members rest ihMembers ihRest =>
      refine followed_cons ?_ (fun before e after => ihRest) split
      intro before e after inner
      exact ihMembers inner

/-- The number of operations of a group is read off the lines under it. -/
theorem count_under {gates members : List (Gate R)} {depth deep : Nat} {name : String}
    {before after : List (Nat × Gate R)}
    (split : listingOf depth gates = before ++ (deep, composite name members) :: after) :
    (after.takeWhile fun e => decide (deep < e.1)).countP (fun e => !e.2.isGroup) =
      primitiveCountOf members := by
  obtain ⟨rest, rfl, goes⟩ := followed split
  have under : ∀ e ∈ listingOf (deep + 1) members, decide (deep < e.1) = true :=
    fun e listed => decide_eq_true (depth_le_of_mem listed)
  rw [inside, List.takeWhile_append_of_pos under, goes.takeWhile, List.append_nil,
    count_operations]

/-- What a listing shows of the gates, with their depths. -/
def shown (entries : List (Nat × Gate R)) : List (Nat × (Operation R ⊕ String)) :=
  entries.map fun e => (e.1, e.2.root)

theorem shown_cons (depth : Nat) (g : Gate R) (rest : List (Gate R)) :
    shown (listingOf depth (g :: rest)) =
      (depth, g.root) :: (shown (g.inside depth) ++ shown (listingOf depth rest)) := by
  rw [listingOf_cons, shown, List.map_cons, List.map_append]
  rfl

theorem GoesOnBelow.shown (depth : Nat) (gates : List (Gate R)) :
    GoesOnBelow (depth + 1) (shown (listingOf depth gates)) := by
  cases gates with
  | nil => simp [GoesOnBelow, Gate.shown, listingOf]
  | cons g rest => simp [GoesOnBelow, shown_cons]

theorem GoesOnBelow.ne_shown {depth : Nat} {tail tail' : List (Nat × (Operation R ⊕ String))}
    (below : GoesOnBelow depth tail) (g : Gate R) (rest : List (Gate R)) :
    tail ≠ Gate.shown (listingOf depth (g :: rest)) ++ tail' := by
  intro same
  rw [shown_cons, List.cons_append] at same
  rw [same] at below
  exact Nat.lt_irrefl depth (below _ rfl)

-- What comes behind the gates is found too, so that the members of a group can be told from it.
theorem shown_append_injective {gates gates' : List (Gate R)} {depth : Nat}
    {tail tail' : List (Nat × (Operation R ⊕ String))} (below : GoesOnBelow depth tail)
    (below' : GoesOnBelow depth tail')
    (same : shown (listingOf depth gates) ++ tail = shown (listingOf depth gates') ++ tail') :
    gates = gates' ∧ tail = tail' := by
  induction gates using listInduction generalizing gates' depth tail tail' with
  | nil =>
      cases gates' with
      | nil => exact ⟨rfl, same⟩
      | cons g' rest' => exact absurd same (below.ne_shown g' rest')
  | standard op rest ih =>
      cases gates' with
      | nil => exact absurd same.symm (below'.ne_shown _ _)
      | cons g' rest' =>
          rw [shown_cons, shown_cons, List.cons_append, List.cons_append, List.cons.injEq,
            Prod.mk.injEq] at same
          obtain ⟨⟨-, root⟩, behind⟩ := same
          cases g' with
          | composite name' members' => cases root
          | standard op' =>
              cases root
              obtain ⟨rfl, rfl⟩ := ih below below' behind
              exact ⟨rfl, rfl⟩
  | composite name members rest ihMembers ihRest =>
      cases gates' with
      | nil => exact absurd same.symm (below'.ne_shown _ _)
      | cons g' rest' =>
          rw [shown_cons, shown_cons, List.cons_append, List.cons_append, List.cons.injEq,
            Prod.mk.injEq] at same
          obtain ⟨⟨-, root⟩, behind⟩ := same
          cases g' with
          | standard op' => cases root
          | composite name' members' =>
              cases root
              rw [List.append_assoc, List.append_assoc] at behind
              have goes := (GoesOnBelow.shown depth rest).append (below.mono (Nat.le_succ depth))
              have goes' := (GoesOnBelow.shown depth rest').append (below'.mono (Nat.le_succ depth))
              obtain ⟨rfl, later⟩ := ihMembers goes goes' behind
              obtain ⟨rfl, rfl⟩ := ihRest below below' later
              exact ⟨rfl, rfl⟩

/-- A list of gates is determined by what its listing shows. -/
theorem shown_injective {gates gates' : List (Gate R)} {depth : Nat}
    (same : shown (listingOf depth gates) = shown (listingOf depth gates')) : gates = gates' := by
  have ended : GoesOnBelow depth ([] : List (Nat × (Operation R ⊕ String))) := by
    simp [GoesOnBelow]
  rw [← List.append_nil (shown _), ← List.append_nil (shown (listingOf depth gates'))] at same
  exact (shown_append_injective ended ended same).1

end Gate
end QCircuit
