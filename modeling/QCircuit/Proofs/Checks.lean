import Mathlib.Data.List.Forall2
/-! Checks in sequence.

A sequence of checks passes if each of them passes with what the one before it gave. So an accepted
computation can be taken apart step by step. -/
namespace QCircuit
variable {ε α β : Type}

@[simp] theorem bind_eq_ok {first : Except ε α} {next : α → Except ε β} {b : β} :
    (first >>= next) = .ok b ↔ ∃ a, first = .ok a ∧ next a = .ok b := by
  cases first <;> simp [bind, Except.bind]

@[simp] theorem pure_eq_ok {a b : α} : (pure a : Except ε α) = .ok b ↔ a = b := by
  simp [pure, Except.pure]

theorem seq_eq_ok {first second : Except ε Unit} :
    (first >>= fun _ => second) = .ok () ↔ first = .ok () ∧ second = .ok () := by
  rw [bind_eq_ok]
  exact ⟨fun ⟨_, passed, next⟩ => ⟨passed, next⟩, fun ⟨passed, next⟩ => ⟨(), passed, next⟩⟩

theorem forM_eq_ok (check : α → Except ε Unit) (items : List α) :
    items.forM check = .ok () ↔ ∀ item ∈ items, check item = .ok () := by
  rw [List.forM_eq_forM]
  induction items with
  | nil => simp [pure, Except.pure]
  | cons item rest ih => rw [List.forM_cons, seq_eq_ok, List.forall_mem_cons, ← ih]

theorem forM_append (check : α → Except ε Unit) (first second : List α) :
    (first ++ second).forM check = (first.forM check >>= fun _ => second.forM check) := by
  simp only [List.forM_eq_forM, List.forM_append]

-- A sequence of checks is refused for the first of them that fails.
theorem forM_eq_error {check : α → Except ε Unit} {items : List α} {e : ε}
    (refused : items.forM check = .error e) :
    ∃ before item after, items = before ++ item :: after ∧
      (∀ earlier ∈ before, check earlier = .ok ()) ∧ check item = .error e := by
  induction items with
  | nil => cases refused
  | cons item rest ih =>
      rw [List.forM_eq_forM, List.forM_cons, ← List.forM_eq_forM] at refused
      cases checked : check item with
      | error e' =>
          rw [checked] at refused
          cases refused
          exact ⟨[], item, rest, rfl, by simp, checked⟩
      | ok =>
          rw [checked] at refused
          obtain ⟨before, misfit, after, rfl, passed, failed⟩ := ih refused
          exact ⟨item :: before, misfit, after, rfl, List.forall_mem_cons.mpr ⟨checked, passed⟩,
            failed⟩

theorem mapM_eq_ok (read : α → Except ε β) (items : List α) (values : List β) :
    items.mapM read = .ok values ↔ List.Forall₂ (fun item value => read item = .ok value) items values := by
  induction items generalizing values with
  | nil =>
      rw [List.mapM_nil, pure_eq_ok, List.forall₂_nil_left_iff]
      exact eq_comm
  | cons item rest ih =>
      simp only [List.mapM_cons, bind_eq_ok, pure_eq_ok, ih, List.forall₂_cons_left_iff]
      constructor
      · rintro ⟨value, first, later, others, rfl⟩
        exact ⟨value, later, first, others, rfl⟩
      · rintro ⟨value, later, first, others, rfl⟩
        exact ⟨value, first, later, others, rfl⟩

-- A fold stops at the first item that it refuses, in the state that the items before have led to.
theorem foldlM_eq_error {step : β → α → Except ε β} {items : List α} {start : β} {e : ε}
    (refused : items.foldlM step start = .error e) :
    ∃ before item after state, items = before ++ item :: after ∧
      before.foldlM step start = .ok state ∧ step state item = .error e := by
  induction items generalizing start with
  | nil => cases refused
  | cons item rest ih =>
      rw [List.foldlM_cons] at refused
      cases taken : step start item with
      | error e' =>
          rw [taken] at refused
          cases refused
          exact ⟨[], item, rest, start, rfl, rfl, taken⟩
      | ok next =>
          rw [taken] at refused
          obtain ⟨before, misfit, after, state, rfl, ran, failed⟩ := ih refused
          refine ⟨item :: before, misfit, after, state, rfl, ?_, failed⟩
          rw [List.foldlM_cons, taken]
          exact ran

end QCircuit
