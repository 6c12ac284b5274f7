import CqlCanon.Statement.Check

/-!
# Drafts

A draft is a statement as it stands in a text: its names are located, but not
yet checked.
-/

namespace CqlCanon

/-- A name or call, with the position it is reported at. -/
structure Located where
  text : Text
  start : Nat
  deriving DecidableEq, Repr

/-- The span from the position on, as long as the canonical text. -/
def Located.span (l : Located) : Span := Span.startingAt l.start l.text

def Located.check (l : Located) : Except InvalidIdentifier Identifier :=
  Identifier.parse l.text l.span

/-- A statement whose names are located, but not checked. -/
abbrev Draft := Statement Located

/-- The statement of a draft, if its names are identifiers. -/
def Draft.check (d : Draft) : Except InvalidIdentifier Select := d.traverse Located.check

end CqlCanon
