import CqlCanon.Proofs.Fault.Call

/-!
# Positions in a text

What starts at a position of a text ends at a position of the same text. A token
other than a key word ends further on, and not past the end. A key word does so
too, unless it is the end of the text and one of its characters has an upper
case that is longer than the character; the key words inside terms, calls,
selectors, conditions and order keys have no such spelling.
-/

namespace CqlCanon

open Cursor Lexeme

/-! ## Layout -/

mutual

theorem layoutLength_drop_layout : (t : Text) → layoutLength (t.drop (layoutLength t)) = 0
  | [] => rfl
  | c :: t => by
    rw [layoutLength]
    split
    · exact layoutLength_drop_layout t
    · split
      · exact layoutLength_drop_comment t
      · rename_i hb hc
        simp [layoutLength, hb, hc]

theorem layoutLength_drop_comment : (t : Text) → layoutLength (t.drop (commentLength t)) = 0
  | [] => rfl
  | c :: t => by
    rw [commentLength]
    split
    · exact layoutLength_drop_layout t
    · exact layoutLength_drop_comment t

end

theorem layoutLength_eq_zero_iff {t : Text} :
    layoutLength t = 0 ↔ t.head?.any isBlank = false ∧ ¬ ['-', '-'] <+: t := by
  have hcomment : ∀ (c : Char) (u : Text), ['-', '-'] <+: c :: u ↔ startsComment c u = true := by
    intro c u
    cases u <;> simp [startsComment, List.cons_prefix_cons, eq_comm (a := '-')]
  cases t with
  | nil => simp [layoutLength]
  | cons c u =>
    rw [hcomment, layoutLength]
    split
    · simp [*]
    · split <;> simp [*]

/-! ## Cursors at a position -/

namespace Text

/-- The cursor at a position of a text. -/
def cursorAt (x : Text) (p : Nat) : Cursor := (start x).advance p

variable {x : Text} {p : Nat}

@[simp] theorem position_cursorAt (x : Text) (p : Nat) : (x.cursorAt p).position = p := Nat.zero_add p

@[simp] theorem rest_cursorAt (x : Text) (p : Nat) : (x.cursorAt p).rest = x.drop p := rfl

theorem before_cursorAt (x : Text) (p : Nat) : (x.cursorAt p).before = (x.take p).getLast? :=
  Option.or_none

theorem advance_cursorAt (x : Text) (p n : Nat) : (x.cursorAt p).advance n = x.cursorAt (p + n) := by
  have hbefore : ((x.drop p).take n).getLast?.or (x.take p).getLast? = (x.take (p + n)).getLast? := by
    rw [List.take_add, List.getLast?_append]
  simp [cursorAt, advance, start, hbefore]

theorem skip_cursorAt (x : Text) (p : Nat) :
    (x.cursorAt p).skip = x.cursorAt (p + layoutLength (x.drop p)) :=
  advance_cursorAt x p _

/-- The layout from a position of a text ends at a position where neither a blank nor a comment
starts, and skipping layout again stays there. -/
theorem exists_skip_cursorAt (h : p ≤ x.length) : ∃ q, (x.cursorAt p).skip = x.cursorAt q ∧ p ≤ q ∧
    q ≤ x.length ∧ (x.drop q).head?.any isBlank = false ∧ ¬ ['-', '-'] <+: x.drop q ∧
    (x.cursorAt q).skip = x.cursorAt q := by
  have hle := layoutLength_le (x.drop p)
  rw [List.length_drop] at hle
  have hlayout : layoutLength (x.drop (p + layoutLength (x.drop p))) = 0 := by
    rw [← List.drop_drop]
    exact layoutLength_drop_layout _
  obtain ⟨hblank, hcomment⟩ := layoutLength_eq_zero_iff.1 hlayout
  exact ⟨_, skip_cursorAt x p, Nat.le_add_right p _, by omega, hblank, hcomment,
    skip_of_layoutLength hlayout⟩

/-- The cursor is at a position of the text, after the given one. -/
def Ahead (x : Text) (p : Nat) (d : Cursor) : Prop := ∃ q, d = x.cursorAt q ∧ p < q ∧ q ≤ x.length

theorem Ahead.trans {q : Nat} {d : Cursor} (h : x.Ahead q d) (hq : p ≤ q) : x.Ahead p d := by
  obtain ⟨r, rfl, hr, hle⟩ := h
  exact ⟨r, rfl, by omega, hle⟩

/-- What the reader reads at the position ends after it. -/
def Progress {α : Type} (x : Text) (p : Nat) (read : Cursor → Option (α × Cursor)) : Prop :=
  ∀ a d, read (x.cursorAt p) = some (a, d) → x.Ahead p d

/-! ## Tokens -/

/-- A token ends after the position, and the text that it was read from is what is passed, as far as
there is one. -/
theorem token?_cursorAt {k : Token} {t : Text} {d : Cursor} (hk : k ≠ .keyword [])
    (h : (x.cursorAt p).token? k = some (t, d)) : ∃ q n, p ≤ q ∧ 0 < n ∧ q < x.length ∧
      k.length? (x.cursorAt q).before (x.drop q) = some n ∧ t = (x.drop q).take n ∧
      d = x.cursorAt (q + n) := by
  have hsize := token?_size_lt_skip h hk
  obtain ⟨n, hn, rfl, rfl⟩ := token?_eq_some_iff.1 h
  rw [skip_cursorAt] at hn hsize ⊢
  simp only [advance_cursorAt, size, rest_cursorAt, List.length_drop] at hsize
  exact ⟨_, n, Nat.le_add_right p _, by omega, by omega, hn, rfl, advance_cursorAt x _ n⟩

theorem token?_ahead {k : Token} {t : Text} {d : Cursor} (hk : k ≠ .keyword []) (hexact : k.Exact)
    (h : (x.cursorAt p).token? k = some (t, d)) : x.Ahead p d := by
  have hfull := token?_full_of_exact h hexact
  obtain ⟨q, n, hpq, hpos, hq, hn, ht, rfl⟩ := token?_cursorAt hk h
  have hle : n ≤ (x.drop q).length := by
    rw [← Token.length_take_of_full hn (ht ▸ hfull)]
    exact List.length_take_le' n _
  rw [List.length_drop] at hle
  exact ⟨q + n, rfl, by omega, by omega⟩

theorem progress_token {k : Token} (hk : ∀ w, k ≠ .keyword w) : x.Progress p (token? k) :=
  fun _ _ h => token?_ahead (hk []) (Token.exact_of_ne hk) h

theorem symbol?_ahead {s : Char} {d : Cursor} (h : (x.cursorAt p).symbol? s = some d) :
    x.Ahead p d := by
  obtain ⟨t, ht⟩ := token?_of_pass? h
  exact progress_token (by simp) t d ht

theorem progress_name : x.Progress p name? := by
  intro t d h
  rcases name?_eq_some_iff.1 h with h | h
  · exact progress_token (by simp) t d h
  · exact progress_token (by simp) t d h

/-- Upper case has no fewer characters, and more only where a character has a longer upper case. -/
theorem length_lt_upper_iff {t : Text} : t.length < (upper t).length ↔
    ∃ c ∈ t, 1 < (upperChar c).length := by
  have hpos : ∀ c, 0 < (upperChar c).length := fun c => List.length_pos_iff.2 (upperChar_ne_nil c)
  have hle : ∀ u : Text, u.length ≤ (upper u).length := by
    intro u
    induction u with
    | nil => exact Nat.le_refl _
    | cons c u ih =>
      have := hpos c
      rw [upper_cons, List.length_append, List.length_cons]
      omega
  induction t with
  | nil => simp [upper]
  | cons c t ih =>
    have h1 := hpos c
    have h2 := hle t
    simp only [upper_cons, List.length_append, List.length_cons, List.exists_mem_cons_iff, ← ih]
    omega

/-- A key word ends past the end of the text exactly if it is the end of the text, and is spelled with
a character that has a longer upper case. -/
theorem keyword_cursorAt {w t : Text} {d : Cursor} (hw : w ≠ [])
    (h : (x.cursorAt p).token? (.keyword w) = some (t, d)) : ∃ q, d = x.cursorAt q ∧ p < q ∧
      (x.length < q ↔ t <:+ x ∧ ∃ c ∈ t, 1 < (upperChar c).length) := by
  obtain ⟨q, n, hpq, hpos, hq, hn, rfl, rfl⟩ := token?_cursorAt (by simpa using hw) h
  obtain ⟨hupper, -, -, rfl⟩ := keywordLength?_eq_some_iff.1 hn
  refine ⟨_, rfl, by omega, ?_⟩
  rw [← length_lt_upper_iff, hupper, List.length_take, List.length_drop]
  constructor
  · intro hlt
    refine ⟨?_, by omega⟩
    rw [List.take_of_length_le (by rw [List.length_drop]; omega)]
    exact List.drop_suffix q x
  · rintro ⟨-, hlt⟩
    omega

/-! ## Tokens one after another -/

end Text

/-- A token that is as long as its text, and longer than nothing. -/
abbrev Lexeme.Measured : Lexeme → Prop := Over fun w => w.toList ≠ [] ∧ Text.Exact w.toList

theorem Lexeme.Over.mono {Q R : String → Prop} (hQR : ∀ w, Q w → R w) {y : Lexeme} (h : y.Over Q) :
    y.Over R := by
  cases h with
  | symbol c => exact .symbol c
  | keyword hw => exact .keyword (hQR _ hw)
  | comparison o => exact .comparison o
  | value t hk => exact .value t hk

theorem Lexeme.Over.kind_ne {y : Lexeme} (h : y.Over (fun w => w.toList ≠ [])) : y.kind ≠ .keyword [] := by
  cases h with
  | symbol c => simp [Lexeme.symbol]
  | keyword hw => simpa [Lexeme.keyword] using hw
  | comparison o => simp
  | value t hk =>
    rintro rfl
    cases hk

theorem Constant.measured (k : Constant) : k.word.toList ≠ [] ∧ Text.Exact k.word.toList := by
  cases k <;> decide

namespace Text

variable {x : Text} {p : Nat} {d : Cursor}

theorem passes_ahead {l : List Lexeme} (hl : ∀ y ∈ l, y.Measured) (hne : l ≠ [])
    (h : (x.cursorAt p).Passes l d) : x.Ahead p d := by
  induction l generalizing p with
  | nil => exact absurd rfl hne
  | cons y l ih =>
    obtain ⟨t, e, he, -, h⟩ := h
    obtain ⟨hy, hl⟩ := List.forall_mem_cons.1 hl
    have hfirst := token?_ahead (hy.mono fun _ hw => hw.1).kind_ne (hy.mono fun _ hw => hw.2).exact he
    cases l with
    | nil => exact (show e = d from h) ▸ hfirst
    | cons z l =>
      obtain ⟨q, rfl, hq, -⟩ := hfirst
      exact (ih hl (by simp) h).trans (Nat.le_of_lt hq)

end Text

end CqlCanon
