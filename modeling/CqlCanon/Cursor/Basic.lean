import CqlCanon.Layout
import CqlCanon.Token

/-!
# Cursors

A cursor is a place in a text: its position, the character before it and the
text from there on. Reading a token skips the layout before it.
-/

namespace CqlCanon

structure Cursor where
  position : Nat
  before : Option Char
  rest : Text
  deriving DecidableEq, Repr

namespace Cursor

/-- The start of a text. -/
def start (t : Text) : Cursor := ⟨0, none, t⟩

/-- How much text is left. -/
def size (c : Cursor) : Nat := c.rest.length

/-- The cursor `n` characters further on. The position counts on past the end of the text. -/
def advance (n : Nat) (c : Cursor) : Cursor :=
  ⟨c.position + n, (c.rest.take n).getLast?.or c.before, c.rest.drop n⟩

/-- The cursor after the layout. -/
def skip (c : Cursor) : Cursor := c.advance (layoutLength c.rest)

/-- The position after the last comment of the layout; blanks after that are left. -/
def commentsEnd (c : Cursor) : Nat := c.position + commentsLength c.rest

/-- Reads a token after the layout. -/
def token? (k : Token) (c : Cursor) : Option (Text × Cursor) :=
  (k.length? c.skip.before c.skip.rest).map fun n => (c.skip.rest.take n, c.skip.advance n)

/-- Passes a token of which only the presence matters. -/
def pass? (k : Token) (c : Cursor) : Option Cursor := (c.token? k).map Prod.snd

def keyword? (word : String) (c : Cursor) : Option Cursor := c.pass? (.keyword word.toList)

def symbol? (s : Char) (c : Cursor) : Option Cursor := c.pass? (.symbol s)

/-- Reads a name, quoted or not. -/
def name? (c : Cursor) : Option (Text × Cursor) :=
  c.token? (.quoted '"') <|> c.token? .plainName

/-- Where a missing key word is reported: at the key word, or at the key word character that it
touches. -/
def keywordFault (word : String) (c : Cursor) : Nat :=
  if Text.upper (c.skip.rest.take word.toList.length) ≠ word.toList then c.skip.position
  else if c.skip.before.any Text.isKeywordChar then c.skip.position - 1
  else c.skip.position + word.toList.length

@[simp] theorem size_advance (n : Nat) (c : Cursor) : (c.advance n).size = c.size - n := by
  simp [advance, size]

theorem size_advance_le (n : Nat) (c : Cursor) : (c.advance n).size ≤ c.size := by simp

theorem size_skip_le (c : Cursor) : c.skip.size ≤ c.size := size_advance_le _ _

theorem token?_eq_some_iff {k : Token} {c d : Cursor} {t : Text} :
    c.token? k = some (t, d) ↔ ∃ n, k.length? c.skip.before c.skip.rest = some n ∧
      t = c.skip.rest.take n ∧ d = c.skip.advance n := by
  rw [token?, Option.map_eq_some_iff]
  exact ⟨fun ⟨n, h, e⟩ => by cases e; exact ⟨n, h, rfl, rfl⟩,
    fun ⟨n, h, ht, hd⟩ => ⟨n, h, by rw [ht, hd]⟩⟩

theorem token?_size_lt_skip {k : Token} {c d : Cursor} {t : Text} (h : c.token? k = some (t, d))
    (hk : k ≠ .keyword []) : d.size < c.skip.size := by
  obtain ⟨n, hn, -, rfl⟩ := token?_eq_some_iff.1 h
  have : 0 < n ∧ 0 < c.skip.size := by
    by_cases hw : ∃ w, k = .keyword w
    · obtain ⟨w, rfl⟩ := hw
      obtain ⟨h1, h2⟩ := ne_nil_of_keywordLength? hn (fun e => hk (by rw [e]))
      exact ⟨h1, List.length_pos_iff.2 h2⟩
    · obtain ⟨h1, h2⟩ := Token.length?_bounds hn (fun w e => hw ⟨w, e⟩)
      exact ⟨h1, Nat.lt_of_lt_of_le h1 h2⟩
  rw [size_advance]
  omega

theorem token?_size_lt {k : Token} {c d : Cursor} {t : Text} (h : c.token? k = some (t, d))
    (hk : k ≠ .keyword []) : d.size < c.size :=
  Nat.lt_of_lt_of_le (token?_size_lt_skip h hk) (size_skip_le c)

theorem pass?_size_lt {k : Token} {c d : Cursor} (h : c.pass? k = some d)
    (hk : k ≠ .keyword []) : d.size < c.size := by
  obtain ⟨⟨t, e⟩, he, rfl⟩ := Option.map_eq_some_iff.1 h
  exact token?_size_lt he hk

theorem symbol?_size_lt {s : Char} {c d : Cursor} (h : c.symbol? s = some d) : d.size < c.size :=
  pass?_size_lt h (by simp)

theorem keyword?_size_lt {word : String} {c d : Cursor} (h : c.keyword? word = some d)
    (hw : word.toList ≠ []) : d.size < c.size :=
  pass?_size_lt h (by simpa using hw)

end Cursor

end CqlCanon
