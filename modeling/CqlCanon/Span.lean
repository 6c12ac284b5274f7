import CqlCanon.Text.Decimal

/-!
# Spans

A span is the part of a text from `start` up to, not including, `stop`. Both are
positions in a text, far from the numbers with too many digits to be written.
-/

namespace CqlCanon

structure Span where
  start : Int
  stop : Int
  deriving DecidableEq, Repr

namespace Span

/-- The span of a whole text. -/
def of (t : Text) : Span := ⟨0, t.length⟩

/-- The span of a text that stands at a position. -/
def startingAt (start : Nat) (t : Text) : Span := ⟨start, start + t.length⟩

def render (s : Span) : Text := Text.ofInt s.start ++ "..".toList ++ Text.ofInt s.stop

end Span

end CqlCanon
