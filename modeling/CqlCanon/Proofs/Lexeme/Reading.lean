import CqlCanon.Proofs.Lexeme.Statement
import CqlCanon.Select

/-!
# A text as its tokens

A piece is a token of a text with the layout before it. The pieces of a reading
of a statement, and the layout after the last of them, make up the text.
-/

namespace CqlCanon

open Cursor Lexeme

/-- A token that was read, with the layout that was skipped before it. -/
structure Piece where
  gap : Text
  kind : Token
  text : Text
  deriving DecidableEq, Repr

/-- The token is of the kind that is asked for, and has the text. -/
def Lexeme.Fits (x : Lexeme) (p : Piece) : Prop := p.kind = x.kind ∧ ∀ t ∈ x.text?, p.text = t

theorem Lexeme.fits_kinds {l : List Lexeme} {ps : List Piece} (h : List.Forall₂ Fits l ps) :
    l.map Lexeme.kind = ps.map Piece.kind := by
  induction h with
  | nil => rfl
  | cons h _ ih => rw [List.map_cons, List.map_cons, ih, h.1]

theorem Lexeme.fits_append {l m : List Lexeme} {ps qs : List Piece}
    (h : List.Forall₂ Fits (l ++ m) (ps ++ qs)) (hlen : l.length = ps.length) :
    List.Forall₂ Fits l ps ∧ List.Forall₂ Fits m qs := by
  have hl := List.forall₂_take_append _ _ _ h
  have hm := List.forall₂_drop_append _ _ _ h
  rw [← hlen] at hl hm
  rw [List.take_left] at hl
  rw [List.drop_left] at hm
  exact ⟨hl, hm⟩

/-- The text that the pieces make up. -/
def Piece.spread (ps : List Piece) : Text := ps.flatMap fun p => p.gap ++ p.text

theorem Piece.spread_cons (p : Piece) (ps : List Piece) :
    spread (p :: ps) = p.gap ++ (p.text ++ spread ps) := by simp [spread]

theorem Piece.spread_append (ps qs : List Piece) : spread (ps ++ qs) = spread ps ++ spread qs := by
  simp [spread]

namespace Cursor

/-- The pieces are read one after another. -/
def Reads : List Piece → Cursor → Cursor → Prop
  | [], c, d => c = d
  | p :: ps, c, d => ∃ e, p.gap = c.rest.take (layoutLength c.rest) ∧
      c.token? p.kind = some (p.text, e) ∧ e.Reads ps d

variable {c d : Cursor} {l : List Lexeme} {ps : List Piece}

theorem Passes.reads (h : c.Passes l d) : ∃ ps, List.Forall₂ Fits l ps ∧ c.Reads ps d := by
  induction l generalizing c with
  | nil => exact ⟨[], .nil, h⟩
  | cons x l ih =>
    obtain ⟨t, e, he, ht, h⟩ := h
    obtain ⟨ps, hfit, hps⟩ := ih h
    exact ⟨⟨c.rest.take (layoutLength c.rest), x.kind, t⟩ :: ps, .cons ⟨rfl, ht⟩ hfit,
      e, rfl, he, hps⟩

theorem Reads.passes (hfit : List.Forall₂ Fits l ps) (h : c.Reads ps d) : c.Passes l d := by
  induction hfit generalizing c with
  | nil => exact h
  | cons hp _ ih =>
    obtain ⟨e, -, he, h⟩ := h
    exact ⟨_, e, hp.1 ▸ he, hp.2, ih h⟩

theorem reads_append {qs : List Piece} :
    c.Reads (ps ++ qs) d ↔ ∃ e, c.Reads ps e ∧ e.Reads qs d := by
  induction ps generalizing c with
  | nil => exact ⟨fun h => ⟨c, rfl, h⟩, fun ⟨_, h, hqs⟩ => (show c = _ from h) ▸ hqs⟩
  | cons p ps ih =>
    constructor
    · rintro ⟨e, hgap, he, h⟩
      obtain ⟨f, hf, hqs⟩ := ih.1 h
      exact ⟨f, ⟨e, hgap, he, hf⟩, hqs⟩
    · rintro ⟨f, ⟨e, hgap, he, hf⟩, hqs⟩
      exact ⟨e, hgap, he, ih.2 ⟨f, hf, hqs⟩⟩

/-- A token is read wherever the text and the character before it are the same. -/
theorem token?_moved {k : Token} {t : Text} {c' : Cursor} (h : c.token? k = some (t, d))
    (hr : c'.rest = c.rest) (hb : c'.before = c.before) :
    ∃ d', c'.token? k = some (t, d') ∧ d'.rest = d.rest ∧ d'.before = d.before := by
  obtain ⟨n, hn, rfl, rfl⟩ := token?_eq_some_iff.1 h
  have hrest : c'.skip.rest = c.skip.rest := by simp only [skip, advance, hr]
  have hbefore : c'.skip.before = c.skip.before := by simp only [skip, advance, hr, hb]
  refine ⟨c'.skip.advance n, token?_eq_some_iff.2 ⟨n, ?_, ?_, rfl⟩, ?_, ?_⟩
  · rw [hrest, hbefore]
    exact hn
  · rw [hrest]
  · simp only [advance, hrest]
  · simp only [advance, hrest, hbefore]

theorem Reads.moved {c' : Cursor} (h : c.Reads ps d) (hr : c'.rest = c.rest)
    (hb : c'.before = c.before) :
    ∃ d', c'.Reads ps d' ∧ d'.rest = d.rest ∧ d'.before = d.before := by
  induction ps generalizing c c' with
  | nil =>
    obtain rfl : c = d := h
    exact ⟨c', rfl, hr, hb⟩
  | cons p ps ih =>
    obtain ⟨e, hgap, he, h⟩ := h
    obtain ⟨e', he', herest, hebefore⟩ := token?_moved he hr hb
    obtain ⟨d', hd', hd⟩ := ih h herest hebefore
    exact ⟨d', ⟨e', hr ▸ hgap, he', hd'⟩, hd⟩

theorem rest_eq_append {k : Token} {t : Text} (h : c.token? k = some (t, d)) :
    c.rest = c.rest.take (layoutLength c.rest) ++ (t ++ d.rest) := by
  rw [← token?_split h]
  exact (List.take_append_drop _ _).symm

theorem Reads.spread (h : c.Reads ps d) : c.rest = Piece.spread ps ++ d.rest := by
  induction ps generalizing c with
  | nil => exact (show c = d from h) ▸ rfl
  | cons p ps ih =>
    obtain ⟨e, hgap, he, h⟩ := h
    rw [rest_eq_append he, ih h, ← hgap]
    simp [Piece.spread]

end Cursor

namespace Statement

/-- The tokens of the text, read from its start on, spell the statement; only layout comes after
them. -/
def Reading (s : Statement Text) (t : Text) (ps : List Piece) (tail : Text) : Prop :=
  ∃ l d, s.Spelled l ∧ List.Forall₂ Fits l ps ∧ (start t).Reads ps d ∧ d.rest = tail ∧
    d.skip.rest = []

variable {s : Statement Text} {t tail : Text} {ps : List Piece}

theorem Stands.reading (h : s.Stands t) (ht : ¬ LimitTooLong t) :
    ∃ ps tail, s.Reading (Text.expandTabs t) ps tail := by
  obtain ⟨l, d, hl, hp, hd⟩ := h.passes ht
  obtain ⟨ps, hfit, hps⟩ := hp.reads
  exact ⟨ps, _, l, d, hl, hfit, hps, rfl, hd⟩

theorem Reading.eq_spread (h : s.Reading t ps tail) : t = Piece.spread ps ++ tail := by
  obtain ⟨l, d, -, -, hps, rfl, -⟩ := h
  exact hps.spread

theorem Reading.read (h : s.Reading t ps tail) (ht : '\t' ∉ t) :
    ∃ draft, Draft.read t = .ok draft ∧ draft.contents = s := by
  obtain ⟨l, d, hl, hfit, hps, -, hd⟩ := h
  exact hl.read ht (hps.passes hfit) hd

end Statement

theorem Select.reading_of_parse {s : Select} {t : Text} (h : parse t = .ok s) :
    ∃ ps tail, (s.map Identifier.text).Reading (Text.expandTabs t) ps tail :=
  (stands_of_parse h).reading (not_limitTooLong_of_parse h)

end CqlCanon
