import CqlCanon.Proofs.Located.Draft
import CqlCanon.Proofs.Lexeme.Last
import CqlCanon.Proofs.Refusal

/-!
# Where refused names and calls stand

The span of a refusal is as long as the name or call that is refused, and starts
in the layout before it. A call is always reported where it stands, and a name
only if no part of that layout comes after the place that is reported.
-/

namespace CqlCanon

open Cursor Lexeme

/-- What is not seen of the layout before a name does not start as a quoted name does. -/
theorem Token.Reports.head?_ne {k : Token} {seen unseen : Text} (h : k.Reports seen unseen)
    (hgap : Filler (seen ++ unseen)) : unseen.head? ≠ some '"' := by
  intro hq
  cases h with
  | first => cases hq
  | joined =>
    have hbreaks := hgap.breaks (by rintro rfl; cases hq) []
    exact absurd (hbreaks '"' (by simpa using hq)) (by decide)
  | listed _ hsplit => exact absurd (hsplit.1 '"' (List.mem_of_mem_head? hq)) (by decide)

theorem Lexeme.lastKind_of_fits (k : Token) {l : List Lexeme} {ps : List Piece} {q : Piece}
    (h : List.Forall₂ Fits l (ps ++ [q])) : lastKind k l = q.kind := by
  obtain ⟨m, x, rfl, -, hx⟩ := fits_concat h
  rw [lastKind_append, hx.1]
  rfl

theorem Statement.Reading.text_ne_nil {s : Statement Text} {t tail : Text} {ps : List Piece}
    (h : s.Reading t ps tail) : ∀ p ∈ ps, p.text ≠ [] := by
  obtain ⟨l, d, hl, hfit, hps, -⟩ := h
  intro p hp
  obtain ⟨qs, rs, rfl⟩ := List.mem_iff_append.1 hp
  obtain ⟨c, -, e, -, he, -⟩ := reads_append.1 hps
  exact token?_ne_nil he (Token.ne_keyword_nil (hl.alternating.piece_sorts hfit p hp))

/-- Where a gap is split, the text goes on with the token exactly if no layout is left, as long as
the layout that is left does not start with the same character. -/
theorem Statement.Reading.getElem?_eq_head?_iff {s : Statement Text} {t tail seen unseen : Text}
    {before after : List Piece} {p : Piece} (h : s.Reading t (before ++ p :: after) tail)
    (hgap : p.gap = seen ++ unseen) (hne : unseen ≠ [] → unseen.head? ≠ p.text.head?) :
    t[(Piece.spread before ++ seen).length]? = p.text.head? ↔ unseen = [] := by
  have hsplit : t = (Piece.spread before ++ seen) ++
      (unseen ++ (p.text ++ (Piece.spread after ++ tail))) := by
    rw [h.eq_spread]
    simp [Piece.spread, hgap]
  have hnth : t[(Piece.spread before ++ seen).length]? =
      (unseen ++ (p.text ++ (Piece.spread after ++ tail))).head? := by
    conv_lhs => rw [hsplit]
    rw [List.getElem?_append_right (Nat.le_refl _), Nat.sub_self, List.head?_eq_getElem?]
  rw [hnth]
  constructor
  · intro hhead
    cases unseen with
    | nil => rfl
    | cons x u => exact absurd hhead (hne (List.cons_ne_nil x u))
  · rintro rfl
    exact List.head?_append_of_ne_nil _ (h.text_ne_nil p (by simp))

/-- Some of the tokens that spell a statement, as pieces of the text between the pieces before and
after them. -/
theorem Statement.Spelled.reading_at {s : Statement Text} {l₁ m l₂ : List Lexeme} {t : Text}
    {e d : Cursor} (h : s.Spelled (l₁ ++ (m ++ l₂))) (h₁ : (start t).Passes l₁ e)
    (h₂ : e.Passes (m ++ l₂) d) (hd : d.skip.rest = []) (hne₁ : l₁ ≠ []) (hne : m ≠ []) :
    ∃ before q p ps after, s.Reading t (before ++ q :: p :: (ps ++ after)) d.rest ∧
      List.Forall₂ Fits l₁ (before ++ [q]) ∧ List.Forall₂ Fits m (p :: ps) ∧
      p.gap = e.rest.take (layoutLength e.rest) ∧
      e.position = (Piece.spread (before ++ [q])).length := by
  obtain ⟨f, hm, hafter⟩ := passes_append.1 h₂
  obtain ⟨ps₁, hfit₁, hps₁⟩ := h₁.reads
  obtain ⟨ps₂, hfit₂, hps₂⟩ := hm.reads
  obtain ⟨after, hfit₃, hps₃⟩ := hafter.reads
  obtain ⟨before, q, rfl⟩ : ∃ before q, ps₁ = before ++ [q] := by
    refine ps₁.eq_nil_or_concat'.resolve_left ?_
    rintro rfl
    exact hne₁ (List.forall₂_nil_right_iff.1 hfit₁)
  obtain ⟨p, ps, rfl⟩ : ∃ p ps, ps₂ = p :: ps := by
    refine List.exists_cons_of_ne_nil ?_
    rintro rfl
    exact hne (List.forall₂_nil_right_iff.1 hfit₂)
  have hfit := List.rel_append hfit₁ (List.rel_append hfit₂ hfit₃)
  have hsorts := h.alternating.piece_sorts hfit
  have hposition := hps₁.position (fun r hr => hsorts r (List.mem_append_left _ hr))
    (hps₁.last_full (hps₂.rest_ne_nil (hsorts p (by simp))))
  refine ⟨before, q, p, ps, after, ⟨_, d, h, by simpa using hfit, ?_, rfl, hd⟩, hfit₁, hfit₂, ?_,
    hposition.trans (Nat.zero_add _)⟩
  · simpa using reads_append.2 ⟨e, hps₁, reads_append.2 ⟨f, hps₂, hps₃⟩⟩
  · obtain ⟨_, hgap, -⟩ := hps₂
    exact hgap

theorem Call.lexemes_ne_nil (x : Call) : x.lexemes ≠ [] := by
  cases x <;> simp [lexemes]

namespace Draft

/-- Each name and call of a draft stands in the text, and its position is the end of the part of
the layout before it that the token before that decides on. -/
theorem reading_of_mem {t : Text} {draft : Draft} (h : read t = .ok draft) {i : Located}
    (hi : i ∈ draft.identifiers) : ∃ before q p ps after tail seen unseen,
    draft.contents.Reading (Text.expandTabs t) (before ++ q :: p :: (ps ++ after)) tail ∧
      p.gap = seen ++ unseen ∧ i.start = (Piece.spread (before ++ [q]) ++ seen).length ∧
      (ps = [] ∧ p.text = i.text ∧ i.text.IsNameToken ∧ q.kind.Reports seen unseen ∨
        unseen = [] ∧ ∃ x : Call, x.Canonical ∧ x.render = i.text ∧
          List.Forall₂ Fits x.lexemes (p :: ps)) := by
  obtain ⟨l, c, d, hspelled, hselect, hlocates, hd⟩ := read_locates h
  obtain ⟨l₁, m, l₂, e, rfl, h₁, h₂, seen, unseen, hgap, hstart, hreported⟩ := hlocates.2 i hi
  have hbefore : (start (Text.expandTabs t)).Passes (keyword "SELECT" :: l₁) e :=
    passes_cons.2 ⟨c, hselect, h₁⟩
  have hspelled : draft.contents.Spelled ((keyword "SELECT" :: l₁) ++ (m ++ l₂)) := hspelled
  have hne : m ≠ [] := by
    rcases hreported with ⟨rfl, -⟩ | ⟨-, x, -, -, rfl⟩
    · simp
    · exact x.lexemes_ne_nil
  obtain ⟨before, q, p, ps, after, hreading, hfit₁, hfit, hpgap, hposition⟩ :=
    hspelled.reading_at hbefore h₂ hd (by simp) hne
  refine ⟨before, q, p, ps, after, d.rest, seen, unseen, hreading, hpgap.trans hgap, ?_, ?_⟩
  · rw [hstart, hposition, List.length_append]
  have hkind := lastKind_of_fits (.keyword "SELECT".toList) hfit₁
  change lastKind (.keyword "SELECT".toList) l₁ = q.kind at hkind
  rcases hreported with ⟨rfl, hreports⟩ | ⟨hnil, x, hx, hr, rfl⟩
  · have hname := (passes_append.2 ⟨e, hbefore, h₂⟩).isNameToken hspelled.alternating
      (parted_start _) (not_stuck_of_end hd) (t := i.text) (by simp)
    obtain ⟨hp, hps⟩ := List.forall₂_cons.1 hfit
    exact .inl ⟨List.forall₂_nil_left_iff.1 hps, hp.2 _ rfl, hname, hkind ▸ hreports⟩
  · exact .inr ⟨hnil, x, hx, hr, hfit⟩

end Draft

theorem Select.parse_eq_invalidIdentifier_iff {t : Text} {e : InvalidIdentifier} :
    parse t = .error (.invalidIdentifier e) ↔
      ∃ draft, Draft.read t = .ok draft ∧ draft.check = .error e := by
  unfold parse
  cases h : Draft.read t with
  | ok draft => cases hc : draft.check <;> simp [hc]
  | error f =>
    have hf : f ≠ .invalidIdentifier e := by
      rcases Draft.read_error h with ⟨p, rfl⟩ | ⟨rfl, -⟩ <;> simp
    simp [hf]

/-- Where a name or call of a text is refused, it stands in the text, with its tabs expanded. The
layout before it falls into the part that was `seen` and the part that was not: the span starts
between the two, and is as long as what is refused. A call is reported where it stands. The empty
name in quotes is reported as the token before it decides, and that is at its first quote exactly if
all of the layout was seen. -/
theorem Select.parse_refusal_span {t : Text} {e : InvalidIdentifier}
    (h : parse t = .error (.invalidIdentifier e)) :
    ∃ (s : Statement Text) (before : List Piece) (q p : Piece) (ps after : List Piece)
      (tail seen unseen : Text),
      s.Reading (Text.expandTabs t) (before ++ q :: p :: (ps ++ after)) tail ∧
      p.gap = seen ++ unseen ∧
      e.span = Span.startingAt (Piece.spread (before ++ [q]) ++ seen).length e.text ∧
      (e.text = "\"\"".toList ∧ p.text = e.text ∧ q.kind.Reports seen unseen ∨
        unseen = [] ∧ ∃ x : Call, x.Canonical ∧ x.render = e.text ∧
          isReservedFunction x.function = true ∧ List.Forall₂ Fits x.lexemes (p :: ps)) ∧
      ((Text.expandTabs t)[e.span.start.toNat]? = p.text.head? ↔ unseen = []) := by
  obtain ⟨draft, hread, hcheck⟩ := parse_eq_invalidIdentifier_iff.1 h
  rw [← refusal?_eq_some_iff, Draft.refusal?_check] at hcheck
  obtain ⟨i, hi, hrefused⟩ := List.exists_of_findSome?_eq_some hcheck
  obtain ⟨reason, hfault, rfl⟩ := Draft.refusal?_located.1 hrefused
  obtain ⟨before, q, p, ps, after, tail, seen, unseen, hreading, hgap, hstart, hcase⟩ :=
    Draft.reading_of_mem hread hi
  have hrefused : i.text = "\"\"".toList ∧ p.text = i.text ∧ q.kind.Reports seen unseen ∨
      unseen = [] ∧ ∃ x : Call, x.Canonical ∧ x.render = i.text ∧
        isReservedFunction x.function = true ∧ List.Forall₂ Fits x.lexemes (p :: ps) := by
    rcases hcase with ⟨-, htext, hname, hreports⟩ | ⟨hnil, x, hx, hr, hfit⟩
    · rw [Identifier.fault?_of_isNameToken hname] at hfault
      split at hfault
      · exact .inl ⟨‹_›, htext, hreports⟩
      · cases hfault
    · rw [← hr, hx.fault?] at hfault
      split at hfault
      · exact .inr ⟨hnil, x, hx, hr, ‹_›, hfit⟩
      · cases hfault
  refine ⟨draft.contents, before, q, p, ps, after, tail, seen, unseen, hreading, hgap,
    congrArg (Span.startingAt · i.text) hstart, hrefused, ?_⟩
  change (Text.expandTabs t)[i.start]? = p.text.head? ↔ unseen = []
  rw [hstart]
  have hreading : draft.contents.Reading (Text.expandTabs t) ((before ++ [q]) ++ p :: (ps ++ after))
      tail := by simpa using hreading
  refine hreading.getElem?_eq_head?_iff hgap fun hne => ?_
  rcases hrefused with ⟨hempty, htext, hreports⟩ | ⟨hnil, -⟩
  · rw [htext, hempty]
    exact hreports.head?_ne
      (hgap ▸ hreading.filler (Text.tab_not_mem_expandTabs t) p (by simp))
  · exact absurd hnil hne

/-- After `AS` a name is reported at the end of that word, whatever layout comes next. -/
theorem Select.parse_refusal_span_of_alias :
    parse "SELECT a AS -- b\n\"\" FROM t".toList =
      .error (.invalidIdentifier ⟨"\"\"".toList, ⟨11, 13⟩, .malformed⟩) ∧
    ∃ (s : Statement Text) (before : List Piece) (p : Piece) (after : List Piece)
      (tail seen unseen : Text),
      s.Reading (Text.expandTabs "SELECT a AS -- b\n\"\" FROM t".toList) (before ++ p :: after)
        tail ∧
      p.text = "\"\"".toList ∧ p.gap = seen ++ unseen ∧ unseen ≠ [] := by
  have h : parse "SELECT a AS -- b\n\"\" FROM t".toList =
      .error (.invalidIdentifier ⟨"\"\"".toList, ⟨11, 13⟩, .malformed⟩) := by decide +kernel
  obtain ⟨s, before, q, p, ps, after, tail, seen, unseen, hreading, hgap, -, hcase, hnth⟩ :=
    parse_refusal_span h
  have hblank : (Text.expandTabs "SELECT a AS -- b\n\"\" FROM t".toList)[11]? = some ' ' := by
    decide +kernel
  rcases hcase with ⟨-, htext, -⟩ | ⟨-, x, hx, hr, hreserved, -⟩
  · refine ⟨h, s, before ++ [q], p, ps ++ after, tail, seen, unseen, by simpa using hreading, htext,
      hgap, fun hnil => ?_⟩
    have hquote : some ' ' = p.text.head? := hblank.symm.trans (hnth.2 hnil)
    rw [htext] at hquote
    exact absurd hquote (by decide)
  · have hfault := hx.fault?
    rw [hr, if_pos hreserved] at hfault
    exact absurd hfault (by decide)

/-- The span starts at the blanks before the empty name, which stands at position 12. -/
theorem Select.not_at_token_of_blanks : ∃ e : InvalidIdentifier,
    parse "SELECT a,   \"\" FROM t".toList = .error (.invalidIdentifier e) ∧ e.span = ⟨9, 11⟩ ∧
    "SELECT a,   \"\" FROM t".toList[12]? = e.text.head? ∧
    (Text.expandTabs "SELECT a,   \"\" FROM t".toList)[e.span.start.toNat]? ≠ e.text.head? := by
  refine ⟨⟨"\"\"".toList, ⟨9, 11⟩, .malformed⟩, ?_⟩
  decide +kernel

end CqlCanon
