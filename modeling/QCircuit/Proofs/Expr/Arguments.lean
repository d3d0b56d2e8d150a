import QCircuit.Proofs.Expr.Replacement
/-! Literals as arguments.

A literal has its value in every environment, and variables that are bound to the values of literals
may be replaced by them. -/
namespace QCircuit
open QCircuit.Expr

theorem Literal.parse_text (l : Literal) : parse (String.ofList l.text) = .ok l.expr := by
  rw [parse_eq_ok, String.toList_ofList]
  have read : tokens? (l.text ++ []) = some (l.tokens ++ []) := by
    rw [l.tokens?_text, tokens?, Option.map_some]
  rw [List.append_nil, List.append_nil] at read
  refine ⟨l.tokens, read, ?_⟩
  have some : l.tokens ≠ [] := by simp [tokens]
  have folded := foldlM_literal l []
  rw [ofTokens, if_neg some, folded]
  rfl

theorem Literal.evaluate_text (l : Literal) (env : Environment) (value : Float) :
    evaluate (String.ofList l.text) env = .ok value ↔ finite l.value = .ok value := by
  simp only [evaluate_eq_ok, l.parse_text, Except.ok.injEq, exists_eq_left', eval_literal]

namespace Substitution

/-- Binds the variables to the values of their literals. -/
def bindAll (σ : Substitution) (env : Environment) : Environment :=
  σ.foldl (fun env b => env.bind b.1 b.2.value) env

theorem get?_bindAll {σ : Substitution} (distinct : (σ.map Prod.fst).Nodup) (env : Environment)
    (name : String) : (σ.bindAll env).get? name =
      ((σ.literal? name).map Literal.value).or (env.get? name) := by
  induction σ generalizing env with
  | nil => rfl
  | cons b rest ih =>
      obtain ⟨bound, l⟩ := b
      rw [List.map_cons, List.nodup_cons] at distinct
      have later : (bindAll ((bound, l) :: rest) env).get? name =
          ((rest.lookup name).map Literal.value).or ((env.bind bound l.value).get? name) :=
        ih distinct.2 (env.bind bound l.value)
      rw [later]
      by_cases same : name = bound
      · subst same
        have absent : rest.lookup name = none := by
          rw [List.lookup_eq_none_iff]
          intro other inside
          rw [bne_iff_ne]
          rintro rfl
          exact distinct.1 (List.mem_map.mpr ⟨other, inside, rfl⟩)
        simp [absent, literal?, Environment.get?_bind_self]
      · rw [Environment.get?_bind_of_ne env bound name l.value same]
        simp [literal?, List.lookup_cons, beq_false_of_ne same]

theorem replaces_bindAll {σ : Substitution} (distinct : (σ.map Prod.fst).Nodup) (env : Environment) :
    σ.Replaces (σ.bindAll env) env := by
  constructor
  · intro name l found
    rw [get?_bindAll distinct, found]
    rfl
  · intro name found
    rw [get?_bindAll distinct, found]
    rfl

theorem ofBindings_zip (params : List String) (literals : List Literal) :
    Environment.ofBindings (params.zip (literals.map Literal.value)) =
      bindAll (params.zip literals) Environment.empty := by
  rw [Environment.ofBindings, bindAll, List.zip_map_right, List.foldl_map]
  rfl

end Substitution
end QCircuit
