import CqlCanon.Text.Basic

/-!
# Terms

The values that a condition compares with, and that a call may take. Numbers,
strings and bind markers are kept as they are written.
-/

namespace CqlCanon

inductive Constant where
  | true
  | false
  | null
  deriving DecidableEq, Repr

def Constant.render : Constant → Text
  | true => "true".toList
  | false => "false".toList
  | null => "null".toList

inductive Term where
  | number (text : Text)
  | string (text : Text)
  /-- The marker `?`. -/
  | positional
  /-- A marker with a name, `:name`. -/
  | bind (text : Text)
  | constant (constant : Constant)
  | list (items : List Term)
  deriving Repr

namespace Term

mutual

/-- The canonical text of a term. -/
def render : Term → Text
  | number text => text
  | string text => text
  | positional => ['?']
  | bind text => text
  | constant k => k.render
  | list items => '(' :: List.intercalate ", ".toList (renderAll items) ++ [')']

/-- The canonical texts of terms. -/
def renderAll : List Term → List Text
  | [] => []
  | t :: ts => t.render :: renderAll ts

end

/-- A property of all terms holds of a list if it holds of its items. -/
theorem induction {P : Term → Prop} (number : ∀ t, P (number t)) (string : ∀ t, P (string t))
    (positional : P positional) (bind : ∀ t, P (bind t)) (constant : ∀ k, P (constant k))
    (list : ∀ ts, (∀ t ∈ ts, P t) → P (list ts)) (t : Term) : P t :=
  @Term.rec P (fun ts => ∀ t ∈ ts, P t) number string positional bind constant list
    (fun _ h => nomatch h)
    (fun _ _ ht hts u hu => (List.mem_cons.1 hu).elim (fun e => e ▸ ht) (hts u)) t

theorem renderAll_eq_map (ts : List Term) : renderAll ts = ts.map render := by
  induction ts with
  | nil => rfl
  | cons t ts ih => simp [renderAll, ih]

end Term

end CqlCanon
