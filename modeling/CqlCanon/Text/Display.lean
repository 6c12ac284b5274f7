import CqlCanon.Text.Printable

/-!
# Texts inside messages

A message shows a text between quotes, with escapes for the quote, the
backslash and every character that would not print.
-/

namespace CqlCanon.Text

/-- The quote around a shown text: the double one if the text holds only single ones. -/
def displayQuote (t : Text) : Char :=
  if t.contains '\'' && !t.contains '"' then '"' else '\''

/-- The lower-case hexadecimal digits of a number, padded to a width. -/
def hexDigits : Nat → Nat → Text
  | 0, _ => []
  | width + 1, n => hexDigits width (n / 16) ++ [Nat.digitChar (n % 16)]

/-- A code point as an escape, with the shortest of three widths. -/
def escapeCode (n : Nat) : Text :=
  if n < 0x100 then '\\' :: 'x' :: hexDigits 2 n
  else if n < 0x10000 then '\\' :: 'u' :: hexDigits 4 n
  else '\\' :: 'U' :: hexDigits 8 n

/-- A character of a text that is shown between `quote`s. -/
def displayChar (quote c : Char) : Text :=
  if c = quote ∨ c = '\\' then ['\\', c]
  else if c = '\t' then ['\\', 't']
  else if c = '\n' then ['\\', 'n']
  else if c = '\r' then ['\\', 'r']
  else if isPrintable c then [c]
  else escapeCode c.toNat

/-- The text as a message shows it. -/
def display (t : Text) : Text :=
  let quote := displayQuote t
  quote :: t.flatMap (displayChar quote) ++ [quote]

end CqlCanon.Text
