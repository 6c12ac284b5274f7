import CqlCanon.Identifier.Reserved
import CqlCanon.Text.Decimal

/-!
# Tokens

`Token.length? k before t` is the length of the token `k` at the start of `t`,
if there is one. The character before `t` matters for key words alone, which
must not touch other key word characters.
-/

namespace CqlCanon

/-- The kinds of tokens. -/
inductive Token where
  /-- A key word, in any letter case. -/
  | keyword (word : Text)
  /-- A single character. -/
  | symbol (c : Char)
  /-- One of `=`, `!=`, `<`, `>`, `<=`, `>=`. -/
  | comparison
  /-- A name, reserved or not. -/
  | word
  /-- A name that is not reserved. -/
  | plainName
  /-- A text in quotes, with quotes inside doubled. -/
  | quoted (quote : Char)
  | number
  | integer
  /-- A colon and a name. -/
  | bindMarker
  deriving DecidableEq, Repr

/-- The length of a key word. At the end of the text the key word may be longer than what is left,
since some characters have a longer upper case. -/
def keywordLength? (word : Text) (before : Option Char) (t : Text) : Option Nat :=
  if Text.upper (t.take word.length) = word ∧ before.any Text.isKeywordChar = false ∧
      (t.drop word.length).head?.any Text.isKeywordChar = false then
    some word.length
  else none

theorem ne_nil_of_keywordLength? {word t : Text} {before : Option Char} {n : Nat}
    (h : keywordLength? word before t = some n) (hw : word ≠ []) : 0 < n ∧ t ≠ [] := by
  unfold keywordLength? at h
  split at h
  · rename_i hc
    cases h
    refine ⟨List.length_pos_iff.2 hw, ?_⟩
    rintro rfl
    exact hw (by simpa using hc.1.symm)
  · cases h

/-- Whether a reserved word starts the text. -/
def startsReserved (before : Option Char) (t : Text) : Bool :=
  reservedWords.any fun word => (keywordLength? word before t).isSome

/-- The length of the comparison at the start of a text. -/
def comparisonLength? : Text → Option Nat
  | '!' :: '=' :: _ => some 2
  | '<' :: '=' :: _ => some 2
  | '>' :: '=' :: _ => some 2
  | '=' :: _ => some 1
  | '<' :: _ => some 1
  | '>' :: _ => some 1
  | _ => none

theorem comparisonLength?_bounds {t : Text} {n : Nat} (h : comparisonLength? t = some n) :
    0 < n ∧ n ≤ t.length := by
  unfold comparisonLength? at h
  split at h <;> cases h <;> simp

/-- The length of a quoted text after its opening quote, up to the closing one. A doubled quote is
read as one inside the text if the text can still be closed after it. -/
def closingLength? (quote : Char) : Text → Option Nat
  | [] => none
  | [c] => if c = quote then some 1 else none
  | c :: d :: t =>
    if c = quote then
      if d = quote then
        match closingLength? quote t with
        | some n => some (n + 2)
        | none => some 1
      else some 1
    else if c = '\n' ∨ c = '\r' then none
    else (closingLength? quote (d :: t)).map (· + 1)

theorem closingLength?_bounds {quote : Char} {t : Text} {n : Nat}
    (h : closingLength? quote t = some n) : 0 < n ∧ n ≤ t.length := by
  fun_induction closingLength? quote t generalizing n with
  | case1 => cases h
  | case2 => cases h; simp
  | case3 => cases h
  | case4 t m hm ih =>
    cases h
    have := ih hm
    simp only [List.length_cons]
    omega
  | case5 => cases h; simp
  | case6 => cases h; simp
  | case7 => cases h
  | case8 c d t _ _ ih =>
    obtain ⟨m, hm, rfl⟩ := Option.map_eq_some_iff.1 h
    have := ih hm
    simp only [List.length_cons] at this ⊢
    omega

/-- The length of the token at the start of a text. -/
def Token.length? (k : Token) (before : Option Char) (t : Text) : Option Nat :=
  match k with
  | .keyword w => keywordLength? w before t
  | .symbol c => if t.head? = some c then some 1 else none
  | .comparison => comparisonLength? t
  | .word => Text.nameLength? t
  | .plainName => if startsReserved before t then none else Text.nameLength? t
  | .quoted quote =>
    if t.head? = some quote then (closingLength? quote t.tail).map (· + 1) else none
  | .number => Text.numberLength? t
  | .integer => Text.integerLength? t
  | .bindMarker => if t.head? = some ':' then (Text.nameLength? t.tail).map (· + 1) else none

theorem Token.length?_bounds {k : Token} {before : Option Char} {t : Text} {n : Nat}
    (h : k.length? before t = some n) (hk : ∀ w, k ≠ .keyword w) : 0 < n ∧ n ≤ t.length := by
  cases k with
  | keyword w => exact absurd rfl (hk w)
  | symbol c =>
    cases t <;> simp [length?] at h
    simp [← h.2]
  | comparison => exact comparisonLength?_bounds h
  | word => exact Text.nameLength?_bounds h
  | plainName =>
    simp only [length?] at h
    split at h
    · cases h
    · exact Text.nameLength?_bounds h
  | quoted quote =>
    simp only [length?] at h
    split at h
    · cases t with
      | nil => simp at *
      | cons c u =>
        obtain ⟨m, hm, rfl⟩ := Option.map_eq_some_iff.1 h
        have := closingLength?_bounds hm
        simp only [List.tail_cons] at this
        simp only [List.length_cons]
        omega
    · cases h
  | number => exact Text.numberLength?_bounds h
  | integer => exact Text.integerLength?_bounds h
  | bindMarker =>
    simp only [length?] at h
    split at h
    · cases t with
      | nil => simp at *
      | cons c u =>
        obtain ⟨m, hm, rfl⟩ := Option.map_eq_some_iff.1 h
        have := Text.nameLength?_bounds hm
        simp only [List.tail_cons] at this
        simp only [List.length_cons]
        omega
    · cases h

end CqlCanon
