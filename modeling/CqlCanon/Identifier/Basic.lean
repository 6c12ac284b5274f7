import CqlCanon.Text.Lower

/-!
# Identifiers

An identifier is kept exactly as it was written. Its value is the name that it
stands for: what is inside the quotes if it is quoted, else its lower case.
-/

namespace CqlCanon

structure Identifier where
  text : Text
  deriving DecidableEq, Repr

namespace Identifier

/-- Whether the identifier is written in double quotes. -/
def quoted (i : Identifier) : Bool := i.text.head? = some '"'

/-- Whether the identifier is written as a call, `name(…)`. -/
def functionCall (i : Identifier) : Bool := !i.quoted && i.text.getLast? = some ')'

/-- The name that the identifier stands for. -/
def value (i : Identifier) : Text :=
  if i.quoted then Text.undouble '"' i.text.tail.dropLast else Text.lower i.text

/-- The quoted identifier with a given value. -/
def quote (value : Text) : Identifier := ⟨'"' :: Text.double '"' value ++ ['"']⟩

@[simp] theorem quoted_quote (value : Text) : (quote value).quoted = true := rfl

end Identifier

end CqlCanon
