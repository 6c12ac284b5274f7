import CqlCanon.Proofs.Lexeme.Inner
import CqlCanon.Proofs.Lexeme.Last

/-!
# Texts that can be gone on with

A text that was read up to a cursor is gone on with from there: a line feed and
the tokens that are missing make it a statement. Where the last token is a name
that the next character sticks to, the name gets one more character first, so
that it is neither reserved nor a constant.
-/

namespace CqlCanon

open Cursor Lexeme

/-- A statement starts with the text. -/
def Text.Viable (t : Text) : Prop := ∃ z draft, Draft.read (t ++ z) = .ok draft

/-- The position is one of the text, and a statement starts with the text up to there. -/
def Text.ViableTo (t : Text) (p : Nat) : Prop := p ≤ t.length ∧ Viable (t.take p)

/-! ## Layout that is left open -/

mutual

theorem layoutLength_line (u : Text) : (t : Text) →
    layoutLength (t.take (layoutLength t) ++ '\n' :: u) = layoutLength t + 1 + layoutLength u
  | [] => by
    rw [layoutLength, List.take_zero, List.nil_append, layoutLength, if_pos (by decide)]
    omega
  | c :: t => by
    rw [layoutLength]
    split
    · rename_i hc
      rw [List.take_succ_cons, List.cons_append, layoutLength, if_pos hc, layoutLength_line u t]
      omega
    · split
      · rename_i hb hc
        have hopen : startsComment c (t.take (commentLength t) ++ '\n' :: u) = true := by
          simp only [startsComment, Bool.and_eq_true, decide_eq_true_eq] at hc ⊢
          obtain ⟨rfl, hhead⟩ := hc
          obtain ⟨t, rfl⟩ := List.head?_eq_some_iff.1 hhead
          exact ⟨rfl, by rw [commentLength, if_neg (by decide)]; rfl⟩
        rw [List.take_succ_cons, List.cons_append, layoutLength, if_neg hb, if_pos hopen,
          commentLength_line u t]
        omega
      · rw [List.take_zero, List.nil_append, layoutLength, if_pos (by decide)]
        omega

theorem commentLength_line (u : Text) : (t : Text) →
    commentLength (t.take (commentLength t) ++ '\n' :: u) = commentLength t + 1 + layoutLength u
  | [] => by
    rw [commentLength, List.take_zero, List.nil_append, commentLength, if_pos rfl]
    omega
  | c :: t => by
    rw [commentLength]
    split
    · rename_i hc
      rw [List.take_succ_cons, List.cons_append, commentLength, if_pos hc, layoutLength_line u t]
      omega
    · rename_i hc
      rw [List.take_succ_cons, List.cons_append, commentLength, if_neg hc, commentLength_line u t]
      omega

end

theorem Text.breaks_of_layout {t : Text} (h : layoutLength t ≠ 0) : t.Breaks := by
  intro x hx
  cases t with
  | nil => cases hx
  | cons c t =>
    obtain rfl : c = x := by simpa using hx
    rw [layoutLength] at h
    split at h
    · rename_i hb
      rcases eq_of_isBlank hb with rfl | rfl | rfl | rfl <;> simp
    · split at h
      · rename_i hc
        simp only [startsComment, Bool.and_eq_true, decide_eq_true_eq] at hc
        simp [hc.1]
      · exact absurd rfl h

theorem Text.breaks_line (t u : Text) : Text.Breaks (t.take (layoutLength t) ++ '\n' :: u) := by
  by_cases h : layoutLength t = 0
  · rw [h]
    intro x hx
    obtain rfl : '\n' = x := by simpa using hx
    simp
  · refine Text.breaks_of_layout ?_
    rw [layoutLength_line]
    omega

namespace Cursor

variable {c d : Cursor} {l : List Lexeme} {ps : List Piece} {t u : Text}

theorem skip_line (hu : layoutLength u = 0) (hc : c.rest = t.take (layoutLength t) ++ '\n' :: u) :
    c.skip.rest = u ∧ c.skip.before = some '\n' := by
  have hlen : (t.take (layoutLength t) ++ ['\n']).length = layoutLength t + 1 := by
    simp [List.length_take_of_le (layoutLength_le t)]
  have hsplit : c.rest = (t.take (layoutLength t) ++ ['\n']) ++ u := by simp [hc]
  have hlayout : layoutLength c.rest = layoutLength t + 1 := by
    rw [hc, layoutLength_line, hu]
  simp only [skip, advance, hlayout]
  rw [hsplit, List.drop_left' hlen, List.take_left' hlen]
  simp

/-- Tokens are read alike wherever the same text comes after the layout. -/
theorem Passes.of_skip {c' : Cursor} (h : c.Passes l d) (hr : c'.skip.rest = c.skip.rest)
    (hb : c'.skip.before = c.skip.before) :
    ∃ d', c'.Passes l d' ∧ d'.skip.rest = d.skip.rest := by
  cases l with
  | nil => exact ⟨c', rfl, (show c = d from h) ▸ hr⟩
  | cons x l =>
    obtain ⟨t, e, he, ht, h⟩ := h
    obtain ⟨n, hn, rfl, rfl⟩ := token?_eq_some_iff.1 he
    obtain ⟨ps, hfit, hps⟩ := h.reads
    have hadv : (c'.skip.advance n).rest = (c.skip.advance n).rest ∧
        (c'.skip.advance n).before = (c.skip.advance n).before := by
      simp only [advance, hr, hb, and_self]
    obtain ⟨d', hd', hrest, -⟩ := hps.moved hadv.1 hadv.2
    refine ⟨d', ⟨_, _, token?_eq_some_iff.2 ⟨n, ?_, ?_, rfl⟩, ht, hd'.passes hfit⟩, ?_⟩
    · rw [hr, hb, hn]
    · rw [hr]
    · simp only [skip, advance, hrest]

end Cursor

/-! ## Missing tokens -/

/-- At the start of a line the text is read as the tokens, and nothing is left of it. -/
structure Text.Completes (u : Text) (m : List Lexeme) : Prop where
  solid : layoutLength u = 0
  tab : '\t' ∉ u
  passes : ∃ e, (⟨0, some '\n', u⟩ : Cursor).Passes m e ∧ e.skip.rest = []

namespace Text.Completes

variable {u : Text} {m : List Lexeme}

theorem nil : Completes [] [] := ⟨rfl, List.not_mem_nil, _, rfl, rfl⟩

theorem table : Completes "t".toList [name "t".toList] :=
  ⟨by decide, by decide, _, ⟨_, _, rfl, fun _ h => Option.some.inj h, rfl⟩, rfl⟩

theorem source : Completes "FROM t".toList [keyword "FROM", name "t".toList] :=
  ⟨by decide, by decide, _, ⟨_, _, rfl, nofun, _, _, rfl, fun _ h => Option.some.inj h, rfl⟩, rfl⟩

theorem closing : Completes ") FROM t".toList [symbol ')', keyword "FROM", name "t".toList] :=
  ⟨by decide, by decide, _, ⟨_, _, rfl, nofun, _, _, rfl, nofun, _, _, rfl,
    fun _ h => Option.some.inj h, rfl⟩, rfl⟩

theorem arguments : Completes "(*) FROM t".toList
    [symbol '(', symbol '*', symbol ')', keyword "FROM", name "t".toList] :=
  ⟨by decide, by decide, _, ⟨_, _, rfl, nofun, _, _, rfl, nofun, _, _, rfl, nofun, _, _, rfl, nofun,
    _, _, rfl, fun _ h => Option.some.inj h, rfl⟩, rfl⟩

theorem columns : Completes "* FROM t".toList [symbol '*', keyword "FROM", name "t".toList] :=
  ⟨by decide, by decide, _, ⟨_, _, rfl, nofun, _, _, rfl, nofun, _, _, rfl,
    fun _ h => Option.some.inj h, rfl⟩, rfl⟩

theorem statement : Completes "SELECT * FROM t".toList
    [keyword "SELECT", symbol '*', keyword "FROM", name "t".toList] :=
  ⟨by decide, by decide, _, ⟨_, _, rfl, nofun, _, _, rfl, nofun, _, _, rfl, nofun, _, _, rfl,
    fun _ h => Option.some.inj h, rfl⟩, rfl⟩

theorem passes_line (h : Completes u m) {c : Cursor} {t : Text}
    (hc : c.rest = t.take (layoutLength t) ++ '\n' :: u) :
    ∃ e, c.Passes m e ∧ e.skip.rest = [] := by
  obtain ⟨e, he, hend⟩ := h.passes
  obtain ⟨hrest, hbefore⟩ := skip_line h.solid hc
  have hskip : (⟨0, some '\n', u⟩ : Cursor).skip = ⟨0, some '\n', u⟩ := skip_of_layoutLength h.solid
  obtain ⟨d, hd, hdrest⟩ := he.of_skip (hrest.trans (by rw [hskip])) (hbefore.trans (by rw [hskip]))
  exact ⟨d, hd, hdrest.trans hend⟩

end Text.Completes

end CqlCanon
