import CqlCanon.Draft.Read
import CqlCanon.Statement.Render

/-!
# Statements from texts and as texts

A text is read as a draft first, and then its names are checked: what cannot be
read wins over every name that is not an identifier. A statement is written as
its canonical text, unless its limit has more digits than may be read.
-/

namespace CqlCanon.Select

/-- The statement that a text holds. -/
def parse (t : Text) : Except ReadError Select :=
  match Draft.read t with
  | .error e => .error e
  | .ok draft =>
    match draft.check with
    | .error e => .error (.invalidIdentifier e)
    | .ok s => .ok s

/-- The text of a statement. Nothing bounds the limit of a statement that is not read, and a limit
with too many digits is not written. -/
def write (s : Select) : Except ReadError Text :=
  if ∀ z ∈ s.limit, (Text.ofNat z.natAbs).length ≤ maxLimitDigits then .ok (render s)
  else .error .limitTooLong

/-- What the text of a statement holds. -/
def reread (s : Select) : Except ReadError Select := write s >>= parse

theorem parse_eq_ok_iff {t : Text} {s : Select} :
    parse t = .ok s ↔ ∃ draft, Draft.read t = .ok draft ∧ draft.check = .ok s := by
  unfold parse
  cases Draft.read t with
  | error e => simp
  | ok draft => cases h : Draft.check draft <;> simp [h]

/-- What cannot be read is reported as the reader reports it; only the check refuses names. -/
theorem parse_eq_error_iff {t : Text} {e : ReadError} (he : ∀ i, e ≠ .invalidIdentifier i) :
    parse t = .error e ↔ Draft.read t = .error e := by
  unfold parse
  cases Draft.read t with
  | error f => simp
  | ok draft =>
    cases h : Draft.check draft with
    | error i => simpa [h] using (he i).symm
    | ok s => simp [h]

end CqlCanon.Select
