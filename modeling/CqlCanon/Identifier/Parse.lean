import CqlCanon.Identifier.Basic
import CqlCanon.Identifier.Reserved
import CqlCanon.Span
import CqlCanon.Text.Display

/-!
# Which texts are identifiers

A text is an identifier in one of three forms: quoted, a name that is not
reserved, or a call of a function that is not reserved. A text in none of them
is refused, with the reason and with the span where it stood.
-/

namespace CqlCanon

namespace Identifier

/-- Why a text is not an identifier, or not a name. -/
inductive Reason where
  | reserved
  | empty
  | malformed
  | functionCall
  deriving DecidableEq, Repr

def Reason.render : Reason → Text
  | reserved => "reserved keyword".toList
  | empty => "empty identifier".toList
  | malformed => "not a valid identifier".toList
  | functionCall => "function call is not a name".toList

/-- Whether a text that follows a quote is closed by its last character, with every quote before
that one doubled. -/
def closesQuote : Text → Bool
  | [] => false
  | [c] => c = '"'
  | c :: d :: t => if c = '"' then d = '"' && closesQuote t else closesQuote (d :: t)

/-- The form `"…"`, with something inside the quotes. -/
def isQuotedForm : Text → Bool
  | c :: t => c = '"' && closesQuote t && t != ['"']
  | [] => false

/-- The form of a name: a letter, then name characters. -/
def isNameForm (t : Text) : Bool := Text.nameLength? t = some t.length

/-- The function of a text in the form `name(…)`. -/
def function? (t : Text) : Option Text :=
  match Text.nameLength? t with
  | none => none
  | some n =>
    if (t.drop n).head? = some '(' ∧ (t.drop (n + 1)).getLast? = some ')' then some (t.take n)
    else none

/-- What is wrong with a text as an identifier. -/
def fault? (t : Text) : Option Reason :=
  if isQuotedForm t then none
  else if isNameForm t then if isReserved t then some .reserved else none
  else match function? t with
    | some f => if isReservedFunction f then some .reserved else none
    | none => if t.isEmpty then some .empty else some .malformed

/-- What is wrong with a text as a name, which is an identifier other than a call. -/
def nameFault? (t : Text) : Option Reason :=
  match fault? t with
  | some reason => some reason
  | none => if (Identifier.mk t).functionCall then some .functionCall else none

end Identifier

/-- A refused identifier, with the span it is reported at. -/
structure InvalidIdentifier where
  text : Text
  span : Span
  reason : Identifier.Reason
  deriving DecidableEq, Repr

def InvalidIdentifier.render (e : InvalidIdentifier) : Text :=
  "Invalid identifier ".toList ++ e.text.display ++ " at ".toList ++ e.span.render ++
    ": ".toList ++ e.reason.render

namespace Identifier

/-- The text as an identifier. -/
def parse (t : Text) (span : Span) : Except InvalidIdentifier Identifier :=
  match fault? t with
  | none => .ok ⟨t⟩
  | some reason => .error ⟨t, span, reason⟩

/-- The text as a name. -/
def parseName (t : Text) (span : Span) : Except InvalidIdentifier Identifier :=
  match nameFault? t with
  | none => .ok ⟨t⟩
  | some reason => .error ⟨t, span, reason⟩

theorem parse_eq_ok_iff {t : Text} {span : Span} {i : Identifier} :
    parse t span = .ok i ↔ fault? t = none ∧ i = ⟨t⟩ := by
  unfold parse
  cases fault? t <;> simp [eq_comm]

theorem parse_eq_error_iff {t : Text} {span : Span} {e : InvalidIdentifier} :
    parse t span = .error e ↔ ∃ reason, fault? t = some reason ∧ e = ⟨t, span, reason⟩ := by
  unfold parse
  cases fault? t <;> simp [eq_comm]

theorem parseName_eq_ok_iff {t : Text} {span : Span} {i : Identifier} :
    parseName t span = .ok i ↔ nameFault? t = none ∧ i = ⟨t⟩ := by
  unfold parseName
  cases nameFault? t <;> simp [eq_comm]

theorem parseName_eq_error_iff {t : Text} {span : Span} {e : InvalidIdentifier} :
    parseName t span = .error e ↔
      ∃ reason, nameFault? t = some reason ∧ e = ⟨t, span, reason⟩ := by
  unfold parseName
  cases nameFault? t <;> simp [eq_comm]

end Identifier

end CqlCanon
