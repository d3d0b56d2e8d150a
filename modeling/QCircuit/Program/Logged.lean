import QCircuit.Program.Event
import QCircuit.Program.Fault
/-! Computations that keep a log and may be refused.

The log of a refused computation holds what happened before the fault. -/
namespace QCircuit

structure Logged (α : Type) where
  log : List Event
  result : Except Fault α

namespace Logged
variable {α β : Type}

def ofResult (result : Except Fault α) : Logged α := ⟨[], result⟩

def refuse (line : Nat) (cause : Cause) : Logged α := ⟨[], .error ⟨line, cause⟩⟩

def emit (e : Event) : Logged Unit := ⟨[e], .ok ()⟩

def andThen (first : Logged α) (next : α → Logged β) : Logged β :=
  match first.result with
  | .error fault => ⟨first.log, .error fault⟩
  | .ok a => ⟨first.log ++ (next a).log, (next a).result⟩

instance : Monad Logged where
  pure a := ⟨[], .ok a⟩
  bind := andThen

@[simp] theorem result_pure (a : α) : (pure a : Logged α).result = .ok a := rfl

@[simp] theorem result_emit (e : Event) : (emit e).result = .ok () := rfl

@[simp] theorem result_ofResult (result : Except Fault α) : (ofResult result).result = result := rfl

-- The log has no influence on the result.
theorem result_bind (first : Logged α) (next : α → Logged β) :
    (first >>= next).result = first.result >>= fun a => (next a).result := by
  show (andThen first next).result = _
  unfold andThen
  cases first.result <;> rfl

@[simp] theorem result_map (f : α → β) (x : Logged α) : (f <$> x).result = f <$> x.result := by
  obtain ⟨log, result⟩ := x
  cases result <;> rfl

theorem bind_eq_ok {first : Logged α} {next : α → Logged β} {b : β} :
    (first >>= next).result = .ok b ↔ ∃ a, first.result = .ok a ∧ (next a).result = .ok b := by
  rw [result_bind]
  cases first.result <;> simp [bind, Except.bind]

theorem bind_eq (first : Logged α) (next : α → Logged β) :
    first >>= next = match first.result with
      | .error fault => ⟨first.log, .error fault⟩
      | .ok a => ⟨first.log ++ (next a).log, (next a).result⟩ := rfl

theorem bind_assoc {γ : Type} (first : Logged α) (next : α → Logged β) (last : β → Logged γ) :
    first >>= next >>= last = first >>= fun a => next a >>= last := by
  obtain ⟨log, result⟩ := first
  cases result with
  | error fault => rfl
  | ok a =>
    simp only [bind_eq]
    cases (next a).result with
    | error fault => rfl
    | ok b => simp only [List.append_assoc]

instance : LawfulMonad Logged := LawfulMonad.mk' _
  (fun x => by
    obtain ⟨log, result⟩ := x
    cases result with
    | error fault => rfl
    | ok a => exact congrArg (Logged.mk · _) (List.append_nil log))
  (fun _ _ => rfl)
  bind_assoc

end Logged
end QCircuit
