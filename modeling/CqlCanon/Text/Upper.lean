import CqlCanon.Text.Basic

/-!
# Upper case, as far as it is ASCII

Reserved and other key words are ASCII, so of the full upper case of a
character only the ASCII results matter. Ten characters beyond ASCII have one.
-/

namespace CqlCanon.Text

/-- The upper case of a character where that is ASCII; every other character stands for itself. -/
def upperChar : Char → Text
  | 'ß' => ['S', 'S']
  | 'ı' => ['I']
  | 'ſ' => ['S']
  | 'ﬀ' => ['F', 'F']
  | 'ﬁ' => ['F', 'I']
  | 'ﬂ' => ['F', 'L']
  | 'ﬃ' => ['F', 'F', 'I']
  | 'ﬄ' => ['F', 'F', 'L']
  | 'ﬅ' => ['S', 'T']
  | 'ﬆ' => ['S', 'T']
  | c => [c.toUpper]

/-- The upper case of a text, exact wherever it is ASCII. -/
def upper (t : Text) : Text := t.flatMap upperChar

/-- Characters that may not stand next to a key word. -/
def isKeywordChar (c : Char) : Bool :=
  match upperChar c with
  | [d] => d.isUpper || d.isDigit || d = '_' || d = '$'
  | _ => false

@[simp] theorem upper_nil : upper [] = [] := rfl

@[simp] theorem upper_cons (c : Char) (t : Text) : upper (c :: t) = upperChar c ++ upper t := by
  simp [upper]

end CqlCanon.Text
