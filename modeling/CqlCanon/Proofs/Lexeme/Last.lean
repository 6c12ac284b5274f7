import CqlCanon.Proofs.Lexeme.Recast
import CqlCanon.Proofs.Relayout

/-!
# Another last token

What comes after the last token of a reading may change that token alone: a name
or a number goes on, a quote that is doubled no longer closes a text. The tokens
before it are read as they were.
-/

namespace CqlCanon

open Cursor Lexeme

namespace Lexeme

variable {l : List Lexeme} {ps : List Piece} {p : Piece}

theorem fits_concat (h : List.Forall₂ Fits l (ps ++ [p])) :
    ∃ m x, l = m ++ [x] ∧ List.Forall₂ Fits m ps ∧ x.Fits p := by
  have hlen := h.length_eq
  rw [List.length_append, List.length_singleton] at hlen
  obtain rfl | ⟨m, x, rfl⟩ := l.eq_nil_or_concat'
  · cases hlen
  · rw [List.length_append, List.length_singleton] at hlen
    obtain ⟨hm, hx⟩ := fits_append h (by omega)
    cases hx with
    | cons hx _ => exact ⟨m, x, rfl, hm, hx⟩

theorem concat_fits {x : Lexeme} (h : List.Forall₂ Fits (l ++ [x]) ps) :
    ∃ qs p, ps = qs ++ [p] ∧ List.Forall₂ Fits l qs ∧ x.Fits p := by
  obtain rfl | ⟨qs, p, rfl⟩ := ps.eq_nil_or_concat'
  · exact absurd h.length_eq (by simp)
  · obtain ⟨m, y, heq, hm, hy⟩ := fits_concat h
    obtain ⟨rfl, hxy⟩ := List.append_inj' heq rfl
    obtain rfl : x = y := List.singleton_inj.1 hxy
    exact ⟨qs, p, rfl, hm, hy⟩

theorem Alternating.piece_sorts (hl : Alternating l) (h : List.Forall₂ Fits l ps) :
    ∀ p ∈ ps, p.kind.isMark = true ∨ p.kind.isValue = true := by
  induction h with
  | nil => exact List.forall_mem_nil _
  | cons hp _ ih =>
    exact List.forall_mem_cons.2 ⟨hp.1 ▸ hl.sorts _ List.mem_cons_self, ih hl.tail⟩

end Lexeme

namespace Cursor

variable {c c' d e : Cursor} {l : List Lexeme} {ps : List Piece} {x : Lexeme} {p : Piece} {r : Text}

theorem Reads.rest_ne_nil (hp : p.kind.isMark = true ∨ p.kind.isValue = true)
    (h : c.Reads (p :: ps) d) : c.rest ≠ [] := by
  obtain ⟨e, -, he, -⟩ := h
  intro hnil
  have hsplit := rest_eq_append he
  rw [hnil, List.take_nil, List.nil_append] at hsplit
  exact token?_ne_nil he (Token.ne_keyword_nil hp) (List.append_eq_nil_iff.1 hsplit.symm).1

theorem Reads.last_full (h : c.Reads ps d) (hd : d.rest ≠ []) :
    ∀ p ∈ ps.getLast?, p.kind.Full p.text := by
  intro p hp
  obtain ⟨qs, rfl⟩ := List.getLast?_eq_some_iff.1 hp
  obtain ⟨e, -, f, -, hf, rfl⟩ := reads_append.1 h
  exact token?_full hf hd

/-- What is read is as long as the text that it makes up, unless the last token is longer than its
text. -/
theorem Reads.position (hsort : ∀ p ∈ ps, p.kind.isMark = true ∨ p.kind.isValue = true)
    (h : c.Reads ps d) (hfull : ∀ p ∈ ps.getLast?, p.kind.Full p.text) :
    d.position = c.position + (Piece.spread ps).length := by
  induction ps generalizing c with
  | nil => exact (show c = d from h) ▸ rfl
  | cons p ps ih =>
    obtain ⟨e, hgap, he, h⟩ := h
    obtain ⟨hp, hps⟩ := List.forall_mem_cons.1 hsort
    have hptext : p.kind.Full p.text := by
      cases ps with
      | nil => exact hfull p rfl
      | cons q ps => exact token?_full he (h.rest_ne_nil (hps q (by simp)))
    have hpos : e.position = c.position + p.gap.length + p.text.length := by
      obtain ⟨n, hn, htext, rfl⟩ := token?_eq_some_iff.1 he
      rw [htext] at hptext
      rw [htext, Token.length_take_of_full hn hptext, hgap,
        List.length_take_of_le (layoutLength_le _)]
      rfl
    have hlast : ∀ q ∈ ps.getLast?, q.kind.Full q.text := fun q hq =>
      hfull q (by rw [List.getLast?_cons, Option.mem_def.1 hq]; rfl)
    rw [ih hps h hlast, hpos, Piece.spread_cons]
    simp only [List.length_append]
    omega

/-- No word goes on into the last token. -/
theorem Reads.parted_last (hl : Alternating (l ++ [x])) (hfit : List.Forall₂ Fits l ps)
    (hx : x.Fits p) (h : c.Reads ps e) (he : e.Reads [p] d) (hc : c.Parted) : e.Parted := by
  obtain rfl | ⟨qs, q, rfl⟩ := ps.eq_nil_or_concat'
  · exact (show c = e from h) ▸ hc
  · obtain ⟨m, y, rfl, -, hy⟩ := fits_concat hfit
    obtain ⟨f, -, g, -, hg, rfl⟩ := reads_append.1 h
    rw [List.append_assoc] at hl
    have hlast : List.Forall₂ Fits [x] [p] := .cons hx .nil
    exact (he.passes hlast).parted hl.of_append.2 (hy.1 ▸ hg) nofun

/-- Before the last token nothing changes, whatever comes after it. -/
theorem Reads.before_last (hl : Alternating (l ++ [x])) (hfit : List.Forall₂ Fits l ps)
    (hx : x.Fits p) (h : c.Reads ps e) (he : e.Reads [p] d) (hclean : c.Clean) (hc : c.Parted)
    (hrest : c'.rest = Piece.spread ps ++ (p.gap ++ (p.text ++ r))) (hb : c'.before = c.before) :
    ∃ e', c'.Reads ps e' ∧ e'.skip.rest = p.text ++ r ∧ (e.skip.Fresh → e'.skip.Fresh) ∧
      e'.skip.position = c'.position + (Piece.spread ps).length + p.gap.length := by
  have hlast : List.Forall₂ Fits [x] [p] := .cons hx .nil
  obtain ⟨hl₀, hl₁⟩ := hl.of_append
  have hgap : Filler p.gap := he.filler hl₁ hlast (hclean.passes (h.passes hfit)) p (by simp)
  have hsorts := hl₀.piece_sorts hfit
  have before : ∀ q ∈ ps.getLast?, (q.kind = .plainName → ¬ e.Stuck) ∧
      q.kind.Follows q.text e.rest (p.gap ++ (p.text ++ r)) := by
    intro q hq
    obtain ⟨qs, rfl⟩ := List.getLast?_eq_some_iff.1 hq
    obtain ⟨m, y, rfl, -, hy⟩ := fits_concat hfit
    obtain ⟨f, -, g, -, hg, rfl⟩ := reads_append.1 h
    rw [List.append_assoc] at hl
    have hpair : Alternating [y, x] := hl.of_append.2
    rw [hy.1] at hg ⊢
    refine ⟨fun hk => ?_, ?_⟩
    · exact (he.passes hlast).not_stuck hpair (by rw [hk]; rfl) nofun
    · have := he.follows (r := r) hpair hlast hg (.cons (.refl hgap) .nil) nofun
      simpa [Piece.spread] using this
  obtain ⟨e', he', herest, hebefore⟩ := h.elsewhere hl₀ hfit hclean hc
    (fun q hq => (before q hq).1) (fun q hq => (before q hq).2) hrest hb
  obtain ⟨g, hgapeq, hg, rfl⟩ := he
  have hsort := hl₁.piece_sorts hlast p (by simp)
  have hne := token?_ne_nil hg (Token.ne_keyword_nil hsort)
  obtain ⟨hlayout, hskip⟩ := skip_of_filler hgap herest (token?_solid hsort hg _)
  refine ⟨e', he', hskip, fresh_skip_moved (fun hzero => ?_) hebefore ?_, ?_⟩
  · exact layoutLength_of_gap hgapeq (List.eq_nil_of_length_eq_zero (hlayout ▸ hzero))
  · obtain ⟨z, u, hz⟩ := List.exists_cons_of_ne_nil hne
    simp [next, hskip, hz]
  · have hfull : ∀ q ∈ ps.getLast?, q.kind.Full q.text := by
      intro q hq
      obtain ⟨qs, rfl⟩ := List.getLast?_eq_some_iff.1 hq
      obtain ⟨f, -, g, -, hg, rfl⟩ := reads_append.1 he'
      refine token?_full hg fun hnil => hne ?_
      rw [hnil] at herest
      exact (List.append_eq_nil_iff.1 (List.append_eq_nil_iff.1 herest.symm).2).1
    have := he'.position hsorts hfull
    simp only [skip, advance, hlayout]
    omega

end Cursor

/-- Tokens with other texts, as far as their kinds admit them, spell a statement again. -/
theorem Statement.Spelled.exists_recast {s : Statement Text} {l l' : List Lexeme} (hs : s.Spelled l)
    (h : List.Forall₂ Recast l l') : ∃ s' : Statement Text, s'.Spelled l' := by
  have hR : Keeps Recast (fun _ => ()) (fun _ => ()) fun _ => [] :=
    ⟨fun _ _ h => h, fun _ _ _ => rfl, fun _ _ _ _ _ => rfl, fun _ _ _ _ _ => rfl⟩
  obtain ⟨s', hs', -⟩ := hs.recast hR h
  exact ⟨s', hs'⟩

/-- A single token gets another text. -/
theorem Statement.Spelled.exists_recast_at {s : Statement Text} {l m : List Lexeme} {x y : Lexeme}
    (hs : s.Spelled (l ++ x :: m)) (h : x.Recast y) :
    ∃ s' : Statement Text, s'.Spelled (l ++ y :: m) :=
  hs.exists_recast (List.rel_append (List.forall₂_same.2 fun _ _ => .same)
    (.cons h (List.forall₂_same.2 fun _ _ => .same)))

end CqlCanon
