import CqlCanon.Proofs.Lexeme.Recast
import CqlCanon.Proofs.Lexeme.Elsewhere

/-!
# Tokens whose text goes on

A text after a token that goes on with no word and no digits still may change
the token: a number gets decimal places or an exponent, and a quote that closed
a text becomes the first of two. The token gets longer by it, and stays one of
its kind. All other tokens end where they did.
-/

namespace CqlCanon

open Lexeme

namespace Text

variable {t r : Text}

/-- The text is empty, or its first character goes on with no word and no digits. -/
def Severs (t : Text) : Prop := ∀ x ∈ t.head?, isWordLike x = false ∧ isDigit x = false

theorem severs_of_ascii (h : ∀ x ∈ t.head?, x.toNat < 128 ∧ x.isAlphanum = false ∧ x ≠ '_' ∧ x ≠ '$') :
    t.Severs := by
  intro x hx
  obtain ⟨hascii, halnum, hunder, hdollar⟩ := h x hx
  have := ascii_forall (p := fun x => x.isAlphanum || x = '_' || x = '$' ||
    (!isWordLike x && !isDigit x)) (by decide +kernel) hascii
  simpa [halnum, hunder, hdollar] using this

namespace Severs

theorem any_eq_false (h : t.Severs) {p : Char → Bool} (hp : ∀ x, p x = true → isWordLike x = true) :
    t.head?.any p = false := by
  cases hx : t.head? with
  | none => rfl
  | some x =>
    cases hpx : p x with
    | false => simp [hpx]
    | true =>
      have := (h x hx).1
      rw [hp x hpx] at this
      cases this

theorem any_isKeywordChar (h : t.Severs) : t.head?.any isKeywordChar = false :=
  h.any_eq_false fun _ => isWordLike_of_isKeywordChar

theorem any_isNameChar (h : t.Severs) : t.head?.any isNameChar = false :=
  h.any_eq_false fun _ hx => isWordLike_of_isKeywordChar (isKeywordChar_of_isNameChar hx)

theorem any_isDigit (h : t.Severs) : t.head?.any isDigit = false := by
  cases hx : t.head? with
  | none => rfl
  | some x => exact (h x hx).2

end Severs

/-! ## Numbers and quoted texts -/

theorem numberLength?_grows (h : numberLength? t = some t.length) (hr : r.head?.any isDigit = false) :
    ∃ n, numberLength? (t ++ r) = some n ∧ t.length ≤ n := by
  obtain ⟨m, hm, hlen⟩ := numberLength?_eq_some_iff.1 h
  have hmle := (integerLength?_bounds hm).2
  refine ⟨_, numberLength?_eq_some_iff.2 ⟨m, integerLength?_append hm hr, rfl⟩, ?_⟩
  rw [List.drop_append_of_le_length hmle]
  have hu : (t.drop m).length = t.length - m := List.length_drop
  rw [← List.drop_drop] at hlen
  rw [← List.drop_drop, List.drop_append_of_le_length hmle]
  generalize t.drop m = u at hlen hu
  by_cases hnil : u = []
  · rw [hnil, List.length_nil] at hu
    omega
  · have hple := placesLength_le u
    rw [placesLength_append_of_ne hnil hr, List.drop_append_of_le_length hple]
    have hw : (u.drop (placesLength u)).length = u.length - placesLength u := List.length_drop
    generalize u.drop (placesLength u) = w at hlen hw
    by_cases hwnil : w = []
    · rw [hwnil, List.length_nil] at hw
      omega
    · rw [exponentLength_append_of_ne (by omega) hwnil hr]
      omega

theorem closingLength?_grows {q : Char} (h : closingLength? q t = some t.length) (r : Text) :
    ∃ n, closingLength? q (t ++ r) = some n ∧ t.length ≤ n := by
  fun_induction closingLength? q t with
  | case1 => cases h
  | case2 =>
    cases r with
    | nil => exact ⟨1, by simp [closingLength?], Nat.le_refl 1⟩
    | cons x r =>
      rw [List.singleton_append, closingLength?, if_pos rfl]
      split
      · split
        · exact ⟨_, rfl, by simp⟩
        · exact ⟨_, rfl, Nat.le_refl 1⟩
      · exact ⟨_, rfl, Nat.le_refl 1⟩
  | case3 => cases h
  | case4 t m hm ih =>
    obtain rfl : m = t.length := by simpa using h
    obtain ⟨n, hn, hle⟩ := ih hm
    exact ⟨n + 2, by simp [closingLength?, hn], by simpa using hle⟩
  | case5 => simp at h
  | case6 => simp at h
  | case7 => cases h
  | case8 c d t hc hline ih =>
    obtain ⟨m, hm, hlen⟩ := Option.map_eq_some_iff.1 h
    obtain ⟨n, hn, hle⟩ := ih (by simpa [hm] using hlen)
    rw [List.cons_append] at hn
    refine ⟨n + 1, ?_, by simpa using hle⟩
    rw [List.cons_append, List.cons_append, closingLength?, if_neg hc, if_neg hline, hn]
    rfl

end Text

namespace Token

variable {k : Token} {t r : Text}

/-- A whole token is one, or grows into one, where a severing text comes after it. -/
theorem Whole.grows (h : k.Whole t) (hk : k.Plain) (hc : k ≠ .comparison) (hr : r.Severs)
    (htab : '\t' ∉ t ++ r) (b : Option Char) : ∃ n, k.length? b (t ++ r) = some n ∧ t.length ≤ n ∧
      ((t ++ r).take n = t ∨ k.Admits t ((t ++ r).take n)) := by
  have same : k.length? b (t ++ r) = some t.length → ∃ n, k.length? b (t ++ r) = some n ∧
      t.length ≤ n ∧ ((t ++ r).take n = t ∨ k.Admits t ((t ++ r).take n)) := fun h =>
    ⟨t.length, h, Nat.le_refl _, .inl List.take_left⟩
  cases k with
  | keyword _ => cases hk
  | plainName => cases hk
  | comparison => exact absurd rfl hc
  | symbol s =>
    have hx : t.head? = some s ∧ 1 = t.length := by simpa [Whole, length?] using h
    exact same (by simp only [length?, (Text.append_of_head hx.1 r).1, if_true, hx.2])
  | word => exact same (Text.nameLength?_append h hr.any_isNameChar)
  | integer => exact same (Text.integerLength?_append h hr.any_isDigit)
  | bindMarker =>
    obtain ⟨hx, m, hm, hlen⟩ := bindLength?_eq_some_iff.1 h
    refine same (bindLength?_eq_some_iff.2 ⟨(Text.append_of_head hx r).1, m, ?_, hlen⟩)
    rw [(Text.append_of_head hx r).2]
    exact Text.nameLength?_append hm hr.any_isNameChar
  | number =>
    obtain ⟨n, hn, hle⟩ := Text.numberLength?_grows h hr.any_isDigit
    exact ⟨n, hn, hle, .inr (Whole.of_length? (b := b) hk hn)⟩
  | quoted q =>
    obtain ⟨u, rfl, hu⟩ := h.quoted_cons
    obtain ⟨n, hn, hle⟩ := Text.closingLength?_grows hu r
    have hlength : (quoted q).length? b (q :: u ++ r) = some (n + 1) :=
      quotedLength?_eq_some_iff.2 ⟨rfl, n, hn, rfl⟩
    exact ⟨n + 1, hlength, by simpa using hle, .inr ⟨Whole.of_length? hk hlength,
      fun ht => absurd (List.mem_of_mem_take ht) htab⟩⟩

end Token

namespace Cursor

variable {k : Token} {c c' d : Cursor} {t r : Text}

/-- A token is read, or one of its kind that it grows into, where a severing text comes after
it. -/
theorem token?_grows (hk : k.isMark = true ∨ k.isValue = true) (hc : k ≠ .comparison)
    (h : c.token? k = some (t, d)) (hfull : k.Full t) (hname : k = .plainName → isReserved t = false)
    (hfresh : c.skip.Fresh → c'.skip.Fresh) (hrest : c'.skip.rest = t ++ r) (hr : r.Severs)
    (htab : '\t' ∉ t ++ r) : ∃ t' d', c'.token? k = some (t', d') ∧ (t' = t ∨ k.Admits t t') ∧
      c'.skip.position + t.length ≤ d'.position := by
  have plain : k.Plain → ∃ t' d', c'.token? k = some (t', d') ∧ (t' = t ∨ k.Admits t t') ∧
      c'.skip.position + t.length ≤ d'.position := by
    intro hplain
    obtain ⟨n, hn, hle, hadmits⟩ := (whole_of_token? hplain h).grows hplain hc hr htab c'.skip.before
    rw [← hrest] at hn hadmits
    exact ⟨_, _, token?_eq_some_iff.2 ⟨n, hn, rfl, rfl⟩, hadmits, Nat.add_le_add_left hle _⟩
  have htake : (t ++ r).take t.length = t := List.take_left
  cases k with
  | keyword w =>
    obtain ⟨n, hn, rfl, -⟩ := token?_eq_some_iff.1 h
    obtain ⟨hw, hb, -, rfl⟩ := keywordLength?_eq_some_iff.1 hn
    have hlen := hfull w rfl
    refine ⟨_, _, token?_eq_some_iff.2 ⟨w.length, keywordLength?_eq_some_iff.2
      ⟨?_, hfresh hb, ?_, rfl⟩, rfl, rfl⟩, .inl ?_, ?_⟩
    · rwa [hrest, List.take_left' hlen]
    · rw [hrest, List.drop_left' hlen]
      exact hr.any_isKeywordChar
    · rw [hrest, List.take_left' hlen]
    · exact Nat.add_le_add_left (Nat.le_of_eq hlen) _
  | plainName =>
    have hform : Token.word.Whole t := whole_of_token? trivial (word_of_plainName h)
    have hword : c'.token? .word = some (t, c'.skip.advance t.length) := by
      refine token?_eq_some_iff.2 ⟨_, ?_, by rw [hrest, htake], rfl⟩
      rw [hrest]
      exact Text.nameLength?_append hform hr.any_isNameChar
    refine ⟨t, _, plainName_of_word hword ?_ (hname rfl), .inl rfl, Nat.le_refl _⟩
    rintro ⟨-, hlike⟩
    rw [advance, hrest, List.drop_left, hr.any_eq_false fun _ hx => hx] at hlike
    cases hlike
  | quoted q => exact plain (Token.quote_of_sorts hk)
  | _ => exact plain trivial

end Cursor

end CqlCanon
