import CqlCanon.Proofs.Case.Scan
import CqlCanon.Proofs.Lexeme.Inner
import CqlCanon.Proofs.Lexeme.Quoted
import CqlCanon.Proofs.Lexeme.Recast
import CqlCanon.Proofs.RoundTrip
import CqlCanon.Proofs.Verbatim

/-!
# Letter case and statements

ASCII letters outside quotes may be written in either case: the same tokens are
read at the same places, and they spell a statement that differs from the first
one in the case of such letters only.
-/

namespace CqlCanon

open Cursor Lexeme

/-! ## Texts with quotes in them -/

namespace Text

/-- The text with its ASCII letters outside quotes in lower case. -/
def foldCase : Text → Text
  | [] => []
  | x :: t =>
    if x = '"' ∨ x = '\'' then
      match closingLength? x t with
      | some n => x :: (t.take n ++ foldCase (t.drop n))
      | none => x :: foldCase t
    else x.toLower :: foldCase t
termination_by t => t.length
decreasing_by
  · simp only [List.length_drop, List.length_cons]
    omega
  · simp
  · simp

theorem isLetter_of_quote {x : Char} (hx : x = '"' ∨ x = '\'') : isLetter x = false := by
  rcases hx with rfl | rfl <;> rfl

theorem eq_of_toLower {x y : Char} (hx : isLetter x = false) (h : x.toLower = y.toLower) : x = y := by
  rw [toLower_eq_self hx, eq_comm] at h
  exact ((toLower_eq_iff hx).1 h).symm

/-- Texts with the same letters in lower case and the same quoted parts are the same but for the
case of letters outside quotes. -/
theorem foldCase_eq {t u : Text} (hlower : asciiLower t = asciiLower u)
    (hquoted : quotedParts t = quotedParts u) : foldCase t = foldCase u := by
  -- the induction follows the scan of `t`; that of `u` stops at the same quotes
  have split : ∀ {x : Char} {t u : Text}, asciiLower (x :: t) = asciiLower u →
      ∃ y v, u = y :: v ∧ x.toLower = y.toLower ∧ asciiLower t = asciiLower v := by
    intro x t u h
    cases u with
    | nil => cases h
    | cons y v => exact ⟨y, v, rfl, (List.cons.inj h).1, (List.cons.inj h).2⟩
  have closing : ∀ {x : Char} {t v : Text}, isLetter x = false → asciiLower t = asciiLower v →
      closingLength? x v = closingLength? x t := by
    intro x t v hx h
    rw [← closingLength?_asciiLower hx t, h, closingLength?_asciiLower hx]
  fun_induction foldCase t generalizing u with
  | case1 =>
    obtain rfl : u = [] := by simpa [asciiLower] using hlower.symm
    rw [foldCase]
  | case2 x t hx n hn ih =>
    obtain ⟨y, v, rfl, hxy, htv⟩ := split hlower
    obtain rfl := eq_of_toLower (isLetter_of_quote hx) hxy
    have hv := (closing (isLetter_of_quote hx) htv).trans hn
    rw [quotedParts, quotedParts, if_pos hx, if_pos hx, hn, hv] at hquoted
    obtain ⟨hpart, hrest⟩ := List.cons.inj hquoted
    have hdrop : asciiLower (t.drop n) = asciiLower (v.drop n) := by
      rw [← asciiLower_drop, ← asciiLower_drop, htv]
    rw [foldCase, if_pos hx, hv]
    simp only [ih hdrop hrest, (List.cons.inj hpart).2]
  | case3 x t hx hn ih =>
    obtain ⟨y, v, rfl, hxy, htv⟩ := split hlower
    obtain rfl := eq_of_toLower (isLetter_of_quote hx) hxy
    have hv := (closing (isLetter_of_quote hx) htv).trans hn
    rw [quotedParts, quotedParts, if_pos hx, if_pos hx, hn, hv] at hquoted
    rw [foldCase, if_pos hx, hv]
    simp only [ih htv hquoted]
  | case4 x t hx ih =>
    obtain ⟨y, v, rfl, hxy, htv⟩ := split hlower
    have hy : ¬ (y = '"' ∨ y = '\'') := fun hy =>
      hx ((eq_of_toLower (isLetter_of_quote hy) hxy.symm) ▸ hy)
    rw [quotedParts, quotedParts, if_neg hx, if_neg hy] at hquoted
    rw [foldCase, if_neg hy, ih htv hquoted, hxy]

end Text

/-! ## Names -/

namespace Identifier

theorem closesQuote_asciiLower (t : Text) : closesQuote (Text.asciiLower t) = closesQuote t := by
  have hquote : ∀ c : Char, c.toLower = '"' ↔ c = '"' := fun c => Text.toLower_eq_iff (by decide)
  fun_induction closesQuote t <;> simp_all [closesQuote]

theorem isNameForm_asciiLower (t : Text) : isNameForm (Text.asciiLower t) = isNameForm t := by
  rw [isNameForm, isNameForm, Text.nameLength?_asciiLower, Text.length_asciiLower]

theorem isQuotedForm_asciiLower (t : Text) :
    isQuotedForm (Text.asciiLower t) = isQuotedForm t := by
  cases t with
  | nil => rfl
  | cons c t =>
    have hempty : (Text.asciiLower t != ['"']) = (t != ['"']) := by
      rw [Bool.eq_iff_iff, bne_iff_ne, bne_iff_ne]
      cases t with
      | nil => simp
      | cons d t => simp (disch := decide) [Text.asciiLower, Text.toLower_eq_iff]
    simp (disch := decide) only [Text.asciiLower_cons, isQuotedForm, Text.toLower_eq_iff,
      closesQuote_asciiLower, hempty]

theorem function?_asciiLower (t : Text) :
    function? (Text.asciiLower t) = (function? t).map Text.asciiLower := by
  simp (disch := decide) only [function?, Text.nameLength?_asciiLower, Text.asciiLower_drop,
    Text.asciiLower_take, Text.head?_asciiLower_eq_iff, Text.getLast?_asciiLower_eq_iff]
  cases Text.nameLength? t with
  | none => rfl
  | some n =>
    simp only
    split <;> rfl

theorem fault?_asciiLower (t : Text) : fault? (Text.asciiLower t) = fault? t := by
  have hempty : (Text.asciiLower t).isEmpty = t.isEmpty := by cases t <;> rfl
  rw [fault?, fault?, isQuotedForm_asciiLower, isNameForm_asciiLower, Text.isReserved_asciiLower,
    function?_asciiLower, hempty]
  cases function? t with
  | none => rfl
  | some f =>
    have hreserved : isReservedFunction (Text.asciiLower f) = isReservedFunction f := by
      rw [isReservedFunction, Text.isReserved_asciiLower, Text.upper_asciiLower, isReservedFunction]
    simp only [Option.map_some, hreserved]

end Identifier

/-! ## Cursors -/

namespace Cursor

/-- The cursor in the text in lower case. -/
def lower (c : Cursor) : Cursor := ⟨c.position, c.before.map Char.toLower, Text.asciiLower c.rest⟩

variable {c d c' : Cursor} {t : Text} {k : Token} {ps : List Piece}

theorem advance_lower (n : Nat) (c : Cursor) : c.lower.advance n = (c.advance n).lower := by
  simp only [advance, lower, Text.asciiLower_take, Text.asciiLower_drop, Text.getLast?_asciiLower]
  cases (c.rest.take n).getLast? <;> rfl

theorem skip_lower (c : Cursor) : c.lower.skip = c.skip.lower := by
  rw [skip, skip, ← advance_lower]
  exact congrArg (fun n => advance n c.lower) (Text.layoutLength_asciiLower c.rest)

theorem lower_start (t : Text) : (start t).lower = start (Text.asciiLower t) := rfl

/-- Where a token of a statement is read, one of its kind is read in each other letter case. -/
theorem token?_of_lower (hk : k.isMark = true ∨ k.isValue = true) (h : c.token? k = some (t, d))
    (hc : c'.lower = c.lower) : ∃ t' d', c'.token? k = some (t', d') ∧
      Text.asciiLower t' = Text.asciiLower t ∧ d'.lower = d.lower := by
  obtain ⟨n, hn, rfl, rfl⟩ := token?_eq_some_iff.1 h
  have hskip : c'.skip.lower = c.skip.lower := by rw [← skip_lower, ← skip_lower, hc]
  have hrest : Text.asciiLower c'.skip.rest = Text.asciiLower c.skip.rest := congrArg Cursor.rest hskip
  have hbefore : c'.skip.before.map Char.toLower = c.skip.before.map Char.toLower :=
    congrArg Cursor.before hskip
  refine ⟨_, _, token?_eq_some_iff.2 ⟨n, ?_, rfl, rfl⟩, ?_, ?_⟩
  · rw [← Token.length?_asciiLower hk, hrest, hbefore, Token.length?_asciiLower hk, hn]
  · rw [← Text.asciiLower_take, hrest, Text.asciiLower_take]
  · rw [← advance_lower, ← advance_lower, hskip]

end Cursor

/-- The same token with letters in other case, after a gap of which the same holds. -/
structure Piece.Recased (p q : Piece) : Prop where
  kind : q.kind = p.kind
  gap : Text.asciiLower q.gap = Text.asciiLower p.gap
  text : Text.asciiLower q.text = Text.asciiLower p.text

namespace Cursor

variable {c d c' : Cursor} {ps : List Piece}

theorem Reads.recased (hsort : ∀ p ∈ ps, p.kind.isMark = true ∨ p.kind.isValue = true)
    (h : c.Reads ps d) (hc : c'.lower = c.lower) :
    ∃ qs d', List.Forall₂ Piece.Recased ps qs ∧ c'.Reads qs d' ∧ d'.lower = d.lower := by
  induction ps generalizing c c' with
  | nil =>
    obtain rfl : c = d := h
    exact ⟨[], c', .nil, rfl, hc⟩
  | cons p ps ih =>
    obtain ⟨e, hgap, he, h⟩ := h
    obtain ⟨hp, hps⟩ := List.forall_mem_cons.1 hsort
    obtain ⟨t', e', he', ht', helower⟩ := token?_of_lower hp he hc
    obtain ⟨qs, d', hqs, hd', hdlower⟩ := ih hps h helower
    have hrest : Text.asciiLower c'.rest = Text.asciiLower c.rest := congrArg Cursor.rest hc
    refine ⟨⟨c'.rest.take (layoutLength c'.rest), p.kind, t'⟩ :: qs, d', .cons ⟨rfl, ?_, ht'⟩ hqs,
      ⟨e', rfl, he', hd'⟩, hdlower⟩
    rw [hgap, ← Text.asciiLower_take, ← Text.asciiLower_take, hrest,
      ← Text.layoutLength_asciiLower c'.rest, hrest, Text.layoutLength_asciiLower]

end Cursor

/-! ## Lexemes -/

namespace Lexeme

/-- The token with letters in other case, but not inside quotes. -/
structure Recased (x y : Lexeme) : Prop where
  recast : x.Recast y
  text : y.text?.map Text.asciiLower = x.text?.map Text.asciiLower
  quoted : y.quoted? = x.quoted?

/-- The token as it is written in a canonical text. -/
def written (x : Lexeme) : Text :=
  match x.text?, x.kind with
  | some t, _ => t
  | none, .symbol c => if c = ',' then ", ".toList else [c]
  | none, .keyword w => Text.asciiLower w
  | none, _ => []

theorem written_separated {α : Type} {f : α → Text} {g : α → List Lexeme} {as : List α}
    (h : ∀ a ∈ as, f a = (g a).flatMap written) :
    List.intercalate ", ".toList (as.map f) = (separated (symbol ',') (as.map g)).flatMap written := by
  cases as with
  | nil => rfl
  | cons a as =>
    obtain ⟨ha, has⟩ := List.forall_mem_cons.1 h
    rw [Text.intercalate_map_cons, List.map_cons, separated, List.flatMap_append, ha]
    congr 1
    rw [List.flatMap_map, List.flatMap_assoc]
    exact List.flatMap_congr fun b hb => by rw [List.flatMap_cons, has b hb]; rfl

theorem Recased.written {x y : Lexeme} (h : x.Recased y) :
    Text.asciiLower y.written = Text.asciiLower x.written := by
  cases hx : x.text? with
  | none => rw [h.recast.eq_of_text? hx]
  | some t =>
    have ht := h.text
    rw [hx] at ht
    obtain ⟨t', hy, ht'⟩ := Option.map_eq_some_iff.1 ht
    simp only [Lexeme.written, hx, hy, ht']

variable {l l' : List Lexeme}

theorem asciiLower_written (h : List.Forall₂ Recased l l') :
    Text.asciiLower (l'.flatMap written) = Text.asciiLower (l.flatMap written) := by
  induction h with
  | nil => rfl
  | cons h _ ih => simp only [List.flatMap_cons, Text.asciiLower_append, h.written, ih]

theorem quotedTexts_recased (h : List.Forall₂ Recased l l') : quotedTexts l' = quotedTexts l := by
  induction h with
  | nil => rfl
  | cons h _ ih =>
    rw [quotedTexts, quotedTexts, List.filterMap_cons, List.filterMap_cons, h.quoted]
    rw [quotedTexts, quotedTexts] at ih
    rw [ih]

end Lexeme

theorem Term.render_eq_written (v : Term) : v.render = v.lexemes.flatMap written := by
  induction v using Term.induction with
  | constant k => cases k <;> decide +kernel
  | list ts ih =>
    rw [render, lexemes, renderAll_eq_map, lexemesAll_eq_map, written_separated ih]
    simp [Lexeme.written, symbol]
  | _ => simp [render, lexemes, Lexeme.written, symbol]

theorem Call.render_eq_written : (∀ x : Call, x.render = x.lexemes.flatMap written) ∧
    ∀ a : Argument, a.render = a.lexemes.flatMap written := by
  apply Call.induction
  case star => exact fun f => by simp [Call.render, Call.lexemes, Lexeme.written, symbol]
  case apply =>
    intro f as ih
    rw [Call.render, Call.lexemes, Argument.renderAll_eq_map, Argument.lexemesAll_eq_map,
      written_separated ih]
    simp [Lexeme.written, symbol]
  case call => exact fun x hx => hx
  case term => exact fun t => t.render_eq_written
  case name => exact fun t => by simp [Argument.render, Argument.lexemes, Lexeme.written, name]

/-! ## Tokens in other case -/

namespace Text

theorem isLetter_of_isDigit {c : Char} (h : isDigit c = true) : isLetter c = false := by
  cases hc : isLetter c with
  | false => rfl
  | true =>
    have := startsWord_of_isLetter hc
    rw [not_startsWord_of_isDigit h] at this
    cases this

theorem eq_of_asciiLower {t u : Text} (ht : ∀ c ∈ t, isLetter c = false)
    (h : asciiLower u = asciiLower t) : u = t := by
  induction t generalizing u with
  | nil => simpa [asciiLower] using h
  | cons c t ih =>
    cases u with
    | nil => cases h
    | cons d u =>
      obtain ⟨hdc, hut⟩ := List.cons.inj h
      obtain ⟨hc, ht⟩ := List.forall_mem_cons.1 ht
      rw [eq_of_toLower hc hdc.symm, ih ht hut]

theorem isLetter_of_integerLength? {t : Text} {n : Nat} (h : integerLength? t = some n) :
    ∀ c ∈ t.take n, isLetter c = false := by
  intro c hc
  rcases mem_of_integerLength? h c hc with rfl | rfl | hc
  · rfl
  · rfl
  · exact isLetter_of_isDigit hc

theorem isLetter_of_comparisonLength? {t : Text} {n : Nat} (h : comparisonLength? t = some n) :
    ∀ c ∈ t.take n, isLetter c = false := by
  unfold comparisonLength? at h
  split at h <;> cases h <;> simp <;> decide

end Text

namespace Token

variable {k : Token} {c c' d d' : Cursor} {t t' : Text}

theorem admits_of_lower (hk : k = .comparison ∨ k.isValue = true) (h : c.token? k = some (t, d))
    (h' : c'.token? k = some (t', d')) (hlower : Text.asciiLower t' = Text.asciiLower t)
    (hquoted : ∀ q, k = .quoted q → t' = t) : t' = t ∨ k.Admits t t' := by
  have word : c.token? .word = some (t, d) → c'.token? .word = some (t', d') →
      Token.word.Admits t t' := by
    intro h h'
    have hform := whole_word_iff.1 (whole_of_token? trivial h')
    have hres : isReserved t' = isReserved t := by
      rw [← Text.isReserved_asciiLower, hlower, Text.isReserved_asciiLower]
    have hupper : Text.upper t' = Text.upper t := by
      rw [← Text.upper_asciiLower, hlower, Text.upper_asciiLower]
    exact ⟨hform, fun hr => hres ▸ hr, fun k hk => hupper ▸ hk⟩
  cases k with
  | word => exact .inr (word h h')
  | plainName => exact .inr (word (word_of_plainName h) (word_of_plainName h'))
  | quoted q => exact .inl (hquoted q rfl)
  | number => exact .inr (whole_of_token? trivial h')
  | bindMarker => exact .inr (whole_of_token? trivial h')
  | comparison =>
    obtain ⟨n, hn, rfl, -⟩ := token?_eq_some_iff.1 h
    exact .inl (Text.eq_of_asciiLower (Text.isLetter_of_comparisonLength? hn) hlower)
  | integer =>
    obtain ⟨n, hn, rfl, -⟩ := token?_eq_some_iff.1 h
    exact .inl (Text.eq_of_asciiLower (Text.isLetter_of_integerLength? hn) hlower)
  | keyword w => simp [isValue] at hk
  | symbol s => simp [isValue] at hk

end Token

/-- What a piece in other case fits is the token that the piece fits, in other case. -/
theorem Lexeme.Fits.recased {x : Lexeme} {p q : Piece} {c c' d d' : Cursor} (hx : x.Fits p)
    (hask : x.text? = none ∨ x.kind = .comparison ∨ x.kind.isValue = true)
    (h : c.token? p.kind = some (p.text, d)) (h' : c'.token? q.kind = some (q.text, d'))
    (hpq : p.Recased q) (hquoted : q.quoted? = p.quoted?) : ∃ y, x.Recased y ∧ y.Fits q := by
  have hkind := hpq.kind.trans hx.1
  have same : (∀ t ∈ x.text?, q.text = t) → ∃ y, x.Recased y ∧ y.Fits q := fun ht =>
    ⟨x, ⟨.same, rfl, rfl⟩, hkind, ht⟩
  cases ht : x.text? with
  | none => exact same fun t h => absurd (ht.symm.trans h) (by simp)
  | some t =>
    obtain rfl := hx.2 t ht
    rw [hx.1] at h
    rw [hkind] at h'
    have hwhole : ∀ r, x.kind = .quoted r → q.text = p.text := by
      intro r hr
      rw [Piece.quoted?, Piece.quoted?, hkind, hx.1, hr] at hquoted
      exact Option.some.inj hquoted
    rcases Token.admits_of_lower (hask.resolve_left (by simp [ht])) h h' hpq.text hwhole with
      heq | hadmits
    · exact same fun t h => heq.trans (Option.some.inj (ht.symm.trans h))
    · refine ⟨⟨x.kind, some q.text⟩, ⟨.text ht hadmits, ?_, ?_⟩, hkind,
        fun t h => Option.some.inj h⟩
      · simp [ht, hpq.text]
      · simp only [Lexeme.quoted?, ht]
        cases hr : x.kind with
        | quoted r => rw [hwhole r hr]
        | _ => rfl

theorem Cursor.Reads.lexemes {l : List Lexeme} {ps qs : List Piece} {c c' d d' : Cursor}
    (hasks : ∀ x ∈ l, x.text? = none ∨ x.kind = .comparison ∨ x.kind.isValue = true)
    (hfit : List.Forall₂ Fits l ps) (h : c.Reads ps d) (h' : c'.Reads qs d')
    (hrel : List.Forall₂ (fun p q => Piece.Recased p q ∧ q.quoted? = p.quoted?) ps qs) :
    ∃ l', List.Forall₂ Recased l l' ∧ List.Forall₂ Fits l' qs := by
  induction hrel generalizing l c c' with
  | nil =>
    cases hfit
    exact ⟨[], .nil, .nil⟩
  | @cons p q ps qs hpq _ ih =>
    cases hfit with
    | @cons x _ l _ hx hfit =>
    obtain ⟨e, -, he, h⟩ := h
    obtain ⟨e', -, he', h'⟩ := h'
    obtain ⟨hpq, hquoted⟩ := hpq
    obtain ⟨hask, hasks⟩ := List.forall_mem_cons.1 hasks
    obtain ⟨l', hl, hfits⟩ := ih hasks hfit h h'
    obtain ⟨y, hxy, hy⟩ := hx.recased hask he he' hpq hquoted
    exact ⟨y :: l', .cons hxy hl, .cons hy hfits⟩

end CqlCanon
