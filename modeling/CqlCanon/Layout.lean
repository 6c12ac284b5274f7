import CqlCanon.Text.Basic

/-!
# Layout

Between tokens a text may have blanks and comments. A comment runs from `--` to
the end of the line, and only a line feed ends a line.
-/

namespace CqlCanon

def isBlank (c : Char) : Bool := c = ' ' || c = '\n' || c = '\t' || c = '\r'

/-- Whether a comment starts at `c`, which is followed by `t`. -/
def startsComment (c : Char) (t : Text) : Bool := c = '-' && t.head? = some '-'

/-! ## All of the layout -/

mutual

/-- The length of the layout at the start of a text. -/
def layoutLength : Text → Nat
  | [] => 0
  | c :: t =>
    if isBlank c then layoutLength t + 1
    else if startsComment c t then commentLength t + 1
    else 0

/-- The length of the rest of a comment, with the layout after it. -/
def commentLength : Text → Nat
  | [] => 0
  | c :: t => if c = '\n' then layoutLength t + 1 else commentLength t + 1

end

mutual

theorem layoutLength_le : (t : Text) → layoutLength t ≤ t.length
  | [] => by simp [layoutLength]
  | c :: t => by
    have := layoutLength_le t
    have := commentLength_le t
    rw [layoutLength, List.length_cons]
    split
    · omega
    · split <;> omega

theorem commentLength_le : (t : Text) → commentLength t ≤ t.length
  | [] => by simp [commentLength]
  | c :: t => by
    have := layoutLength_le t
    have := commentLength_le t
    rw [commentLength, List.length_cons]
    split <;> omega

end

/-! ## Up to the end of the last comment -/

mutual

/-- The length of the layout at the start of a text without the blanks after its last comment. -/
def commentsLength : Text → Nat
  | [] => 0
  | c :: t =>
    if isBlank c then match commentsLength t with
      | 0 => 0
      | n + 1 => n + 2
    else if startsComment c t then lastCommentLength t + 1
    else 0

/-- The same inside a comment. -/
def lastCommentLength : Text → Nat
  | [] => 0
  | c :: t =>
    if c = '\n' then match commentsLength t with
      | 0 => 0
      | n + 1 => n + 2
    else lastCommentLength t + 1

end

mutual

theorem commentsLength_le : (t : Text) → commentsLength t ≤ layoutLength t
  | [] => by simp [commentsLength]
  | c :: t => by
    have := commentsLength_le t
    have := lastCommentLength_le t
    rw [commentsLength, layoutLength]
    split
    · split <;> omega
    · split <;> omega

theorem lastCommentLength_le : (t : Text) → lastCommentLength t ≤ commentLength t
  | [] => by simp [lastCommentLength]
  | c :: t => by
    have := commentsLength_le t
    have := lastCommentLength_le t
    rw [lastCommentLength, commentLength]
    split
    · split <;> omega
    · omega

end

end CqlCanon
