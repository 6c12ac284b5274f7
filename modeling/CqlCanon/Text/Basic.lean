/-!
# Texts

A text is a list of characters. The character classes are those of unquoted
names, which are ASCII.
-/

namespace CqlCanon

/-- A text, as its characters. -/
abbrev Text := List Char

namespace Text

/-- The text with each of its `c` written twice. -/
def double (c : Char) : Text → Text
  | [] => []
  | d :: t => if d = c then d :: d :: double c t else d :: double c t

/-- The text with each `cc` written once, read from the left. -/
def undouble (c : Char) : Text → Text
  | d :: e :: t => if d = c ∧ e = c then c :: undouble c t else d :: undouble c (e :: t)
  | t => t

/-- The letters a name may start with. -/
def isLetter (c : Char) : Bool := c.isAlpha

/-- The characters of a name after its first letter. -/
def isNameChar (c : Char) : Bool := c.isAlphanum || c = '_'

theorem isNameChar_of_isLetter {c : Char} (h : isLetter c = true) : isNameChar c = true := by
  simp only [isLetter] at h
  simp [isNameChar, Char.isAlphanum, h]

/-- The length of the name at the start of a text. -/
def nameLength? : Text → Option Nat
  | c :: t => if isLetter c then some ((t.takeWhile isNameChar).length + 1) else none
  | [] => none

theorem nameLength?_eq_some_iff {t : Text} {n : Nat} :
    nameLength? t = some n ↔ ∃ c u, t = c :: u ∧ isLetter c = true ∧
      n = (u.takeWhile isNameChar).length + 1 := by
  cases t with
  | nil => simp [nameLength?]
  | cons c u =>
    simp only [nameLength?]
    split
    · rename_i h
      constructor
      · intro e
        cases e
        exact ⟨c, u, rfl, h, rfl⟩
      · rintro ⟨d, v, e, -, rfl⟩
        cases e
        rfl
    · rename_i h
      constructor
      · intro e
        cases e
      · rintro ⟨d, v, e, hd, -⟩
        cases e
        exact absurd hd h

theorem length_takeWhile_le (p : Char → Bool) (t : Text) : (t.takeWhile p).length ≤ t.length :=
  (List.takeWhile_sublist p).length_le

theorem nameLength?_bounds {t : Text} {n : Nat} (h : nameLength? t = some n) :
    0 < n ∧ n ≤ t.length := by
  obtain ⟨c, u, rfl, -, rfl⟩ := nameLength?_eq_some_iff.1 h
  have := length_takeWhile_le isNameChar u
  simp only [List.length_cons]
  omega

/-- The ASCII lower case of a text. -/
def asciiLower (t : Text) : Text := t.map Char.toLower

end Text

end CqlCanon
