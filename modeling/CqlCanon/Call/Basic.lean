import CqlCanon.Term.Basic

/-!
# Calls

A call applies a function to all of a row, written `*`, or to arguments, which
are calls, terms or names.
-/

namespace CqlCanon

mutual

inductive Call where
  | star (function : Text)
  | apply (function : Text) (arguments : List Argument)

inductive Argument where
  | call (c : Call)
  | term (t : Term)
  | name (text : Text)

end

/-- The function that is called. -/
def Call.function : Call → Text
  | star f => f
  | apply f _ => f

mutual

/-- The canonical text of a call. -/
def Call.render : Call → Text
  | .star f => f ++ "(*)".toList
  | .apply f arguments => f ++ '(' :: List.intercalate ", ".toList (Argument.renderAll arguments) ++ [')']

/-- The canonical text of an argument. -/
def Argument.render : Argument → Text
  | .call c => c.render
  | .term t => t.render
  | .name text => text

/-- The canonical texts of arguments. -/
def Argument.renderAll : List Argument → List Text
  | [] => []
  | a :: as => a.render :: Argument.renderAll as

end

/-- Properties of all calls and all arguments, each of which may rest on the other. -/
theorem Call.induction {P : Call → Prop} {Q : Argument → Prop} (star : ∀ f, P (.star f))
    (apply : ∀ f as, (∀ a ∈ as, Q a) → P (.apply f as)) (call : ∀ x, P x → Q (.call x))
    (term : ∀ t, Q (.term t)) (name : ∀ t, Q (.name t)) : (∀ x, P x) ∧ ∀ a, Q a :=
  have nil : ∀ a ∈ ([] : List Argument), Q a := fun _ h => nomatch h
  have cons : ∀ (a : Argument) (as : List Argument), Q a → (∀ b ∈ as, Q b) → ∀ b ∈ a :: as, Q b :=
    fun _ _ ha has b hb => (List.mem_cons.1 hb).elim (fun e => e ▸ ha) (has b)
  ⟨@Call.rec P Q (fun as => ∀ a ∈ as, Q a) star apply call term name nil cons,
    @Argument.rec P Q (fun as => ∀ a ∈ as, Q a) star apply call term name nil cons⟩

theorem Argument.renderAll_eq_map (as : List Argument) : renderAll as = as.map render := by
  induction as with
  | nil => rfl
  | cons a as ih => simp [renderAll, ih]

end CqlCanon
