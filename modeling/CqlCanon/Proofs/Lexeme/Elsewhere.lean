import CqlCanon.Proofs.Lexeme.Adjacent

/-!
# A token in another text

A token that was read in one text is read in another one where the text goes on
with the token. What follows it need not be the same: it has to start with the
same character, or with one that breaks tokens off. Only numbers and quoted
texts look further than that character, so what they may be followed by is
narrower.
-/

namespace CqlCanon

namespace Text

/-! ## What follows a token that was read -/

theorem head?_drop_nameLength? {t : Text} {n : Nat} (h : nameLength? t = some n) :
    (t.drop n).head?.any isNameChar = false := by
  obtain ⟨name, rest, rfl, rfl, -, -, hrest⟩ := nameLength?_split h
  rwa [List.drop_left]

theorem head?_drop_integerLength? {t : Text} {n : Nat} (h : integerLength? t = some n) :
    (t.drop n).head?.any isDigit = false := by
  obtain ⟨-, rfl⟩ := integerLength?_eq_some_iff.1 h
  rw [← List.drop_drop]
  generalize t.drop (signLength t) = u
  have hdrop : u.drop (digitsLength u) = u.dropWhile isDigit := by
    have := @List.drop_left _ (u.takeWhile isDigit) (u.dropWhile isDigit)
    rwa [List.takeWhile_append_dropWhile] at this
  rw [hdrop]
  have := List.head?_dropWhile_not isDigit u
  split at this
  · rename_i x hx
    simpa [hx] using this
  · rename_i hx
    simp [hx]

end Text

namespace Token

variable {k : Token} {b b' : Option Char} {t r : Text} {n : Nat}

theorem ne_keyword_nil (hk : k.isMark = true ∨ k.isValue = true) : k ≠ .keyword [] := by
  rintro rfl
  simp [isMark, isValue] at hk

/-- Whatever it goes on with, the text ends a token of the kind, if that is one which does not end
at its next character alone. -/
def EndsBy (k : Token) (r : Text) : Prop :=
  match k with
  | number => r.EndsNumber
  | quoted q => r.head? ≠ some q
  | _ => True

theorem length?_of_head (hk : k.Plain) (h : k.length? b t = some n)
    (hr : r.head? = (t.drop n).head?) (hend : k.EndsBy r) :
    k.length? b' (t.take n ++ r) = some n := by
  have hlen := List.length_take_of_le (length?_bounds h (by rintro w rfl; exact hk)).2
  cases k with
  | keyword _ => cases hk
  | plainName => cases hk
  | symbol c =>
    obtain ⟨hx, rfl⟩ : t.head? = some c ∧ 1 = n := by simpa [length?] using h
    obtain ⟨t, rfl⟩ := List.head?_eq_some_iff.1 hx
    simp [length?]
  | comparison =>
    simp only [length?] at h ⊢
    unfold comparisonLength? at h
    split at h <;> cases h
    · rfl
    · rfl
    · rfl
    · simp [comparisonLength?]
    · rename_i u hne
      cases r <;> cases u <;> simp_all [comparisonLength?]
    · rename_i u hne
      cases r <;> cases u <;> simp_all [comparisonLength?]
  | word => exact Text.nameLength?_append (Text.nameLength?_take h) (hr ▸ Text.head?_drop_nameLength? h)
  | quoted q =>
    have := (Whole.of_length? hk h).quoted_append hend b'
    rwa [hlen] at this
  | number =>
    have hw : Text.numberLength? (t.take n) = some (t.take n).length := Whole.of_length? hk h
    have := Text.numberLength?_append hw hend
    rwa [hlen] at this
  | integer =>
    exact Text.integerLength?_append (Text.integerLength?_take h (Nat.le_refl n))
      (hr ▸ Text.head?_drop_integerLength? h)
  | bindMarker =>
    obtain ⟨hx, m, hm, rfl⟩ := bindLength?_eq_some_iff.1 h
    obtain ⟨t, rfl⟩ := List.head?_eq_some_iff.1 hx
    replace hm : Text.nameLength? t = some m := hm
    replace hr : r.head? = (t.drop m).head? := hr
    exact bindLength?_eq_some_iff.2 ⟨rfl, m,
      Text.nameLength?_append (Text.nameLength?_take hm) (hr ▸ Text.head?_drop_nameLength? hm), rfl⟩

/-- The text is as long as the token. That of a key word at the end of a text may be shorter, for
some characters have a longer upper case. -/
def Full (k : Token) (t : Text) : Prop := ∀ w, k = keyword w → t.length = w.length

theorem length_take_of_full (h : k.length? b t = some n) (hf : k.Full (t.take n)) :
    (t.take n).length = n := by
  by_cases hw : ∃ w, k = keyword w
  · obtain ⟨w, rfl⟩ := hw
    obtain ⟨-, -, -, rfl⟩ := keywordLength?_eq_some_iff.1 h
    exact hf w rfl
  · exact List.length_take_of_le (length?_bounds h fun w hk => hw ⟨w, hk⟩).2

theorem full_of_drop (h : k.length? b t = some n) (hr : t.drop n ≠ []) : k.Full (t.take n) := by
  rintro w rfl
  obtain ⟨-, -, -, rfl⟩ := keywordLength?_eq_some_iff.1 h
  have hpos := List.length_pos_iff.2 hr
  rw [List.length_drop] at hpos
  exact List.length_take_of_le (by omega)

/-- What follows the token with the text `t` in another text does for it what `r` does. -/
def Follows (k : Token) (t r r' : Text) : Prop :=
  r' = r ∨ k.Full t ∧ (r'.Breaks ∨ r'.head? = r.head? ∧ k.EndsBy r')

theorem length?_of_follows (hk : k.Plain) (h : k.length? b t = some n)
    (hr : k.Follows (t.take n) (t.drop n) r) : k.length? b' (t.take n ++ r) = some n := by
  have hlen := List.length_take_of_le (length?_bounds h (by rintro w rfl; exact hk)).2
  rcases hr with rfl | ⟨-, hr | ⟨hr, hend⟩⟩
  · rw [List.take_append_drop, ← h]
    cases k <;> first | rfl | cases hk
  · have := (Whole.of_length? hk h).length?_append hk hr b'
    rwa [hlen] at this
  · exact length?_of_head hk h hr hend

theorem keywordLength?_of_follows {w : Text} (h : keywordLength? w b t = some n)
    (hb : b'.any Text.isKeywordChar = false) (hr : (keyword w).Follows (t.take n) (t.drop n) r) :
    keywordLength? w b' (t.take n ++ r) = some n := by
  obtain ⟨hw, -, hafter, rfl⟩ := keywordLength?_eq_some_iff.1 h
  rcases hr with rfl | ⟨hfull, hr⟩
  · rw [List.take_append_drop]
    exact keywordLength?_eq_some_iff.2 ⟨hw, hb, hafter, rfl⟩
  · have hlen := hfull w rfl
    refine keywordLength?_eq_some_iff.2 ⟨?_, hb, ?_, rfl⟩
    · rwa [List.take_left' hlen]
    · rw [List.drop_left' hlen]
      rcases hr with hr | ⟨hr, -⟩
      · exact hr.any_eq_false (by decide)
      · rwa [hr]

end Token

namespace Cursor

variable {k : Token} {c d c' : Cursor} {t r : Text}

theorem token?_ne_nil (h : c.token? k = some (t, d)) (hk : k ≠ .keyword []) : t ≠ [] := by
  rintro rfl
  have hlt := token?_size_lt_skip h hk
  rw [size, size, token?_split h, List.nil_append] at hlt
  exact Nat.lt_irrefl _ hlt

theorem token?_full (h : c.token? k = some (t, d)) (hd : d.rest ≠ []) : k.Full t := by
  obtain ⟨n, hn, rfl, rfl⟩ := token?_eq_some_iff.1 h
  exact Token.full_of_drop hn hd

theorem token?_of_length? (hk : k ≠ .keyword []) (h : c.token? k = some (t, d))
    (hc : c'.skip.rest = t ++ r) (hr : k.Follows t d.rest r)
    (hlength : ∀ n, k.length? c.skip.before c.skip.rest = some n →
      k.Follows (c.skip.rest.take n) (c.skip.rest.drop n) r →
      k.length? c'.skip.before (c.skip.rest.take n ++ r) = some n) :
    ∃ d', c'.token? k = some (t, d') ∧ d'.rest = r ∧ d'.before = d.before := by
  have hne := token?_ne_nil h hk
  obtain ⟨n, hn, rfl, rfl⟩ := token?_eq_some_iff.1 h
  have hcut : c'.skip.rest.take n = c.skip.rest.take n ∧ c'.skip.rest.drop n = r := by
    rcases hr with rfl | ⟨hfull, -⟩
    · have hsame : c'.skip.rest = c.skip.rest := hc.trans (List.take_append_drop n _)
      exact ⟨by rw [hsame], by rw [hsame]; rfl⟩
    · have hlen := Token.length_take_of_full hn hfull
      rw [hc]
      exact ⟨List.take_left' hlen, List.drop_left' hlen⟩
  refine ⟨c'.skip.advance n, token?_eq_some_iff.2 ⟨n, hc ▸ hlength n hn hr, hcut.1.symm, rfl⟩,
    hcut.2, ?_⟩
  simp only [advance, hcut.1]
  rw [List.getLast?_eq_some_getLast hne, Option.some_or, Option.some_or]

theorem not_stuck_of_follows (h : ¬ d.Stuck) {d' : Cursor} (hb : d'.before = d.before)
    (hr : k.Follows t d.rest d'.rest) : ¬ d'.Stuck := by
  rintro ⟨hbefore, hrest⟩
  rcases hr with hr | ⟨-, hr | ⟨hr, -⟩⟩
  · exact h ⟨hb ▸ hbefore, hr ▸ hrest⟩
  · rw [hr.any_eq_false (by decide)] at hrest
    cases hrest
  · exact h ⟨hb ▸ hbefore, hr ▸ hrest⟩

/-- A token is read in another text, if a word ends before it no more than in the first one. -/
theorem token?_elsewhere (hk : k.isMark = true ∨ k.isValue = true) (h : c.token? k = some (t, d))
    (hname : k = .plainName → isReserved t = false ∧ ¬ d.Stuck)
    (hfresh : c.skip.Fresh → c'.skip.Fresh) (hc : c'.skip.rest = t ++ r)
    (hr : k.Follows t d.rest r) :
    ∃ d', c'.token? k = some (t, d') ∧ d'.rest = r ∧ d'.before = d.before := by
  have plain : ∀ {m : Token}, m.Plain → m ≠ .keyword [] → c.token? m = some (t, d) →
      m.Follows t d.rest r → ∃ d', c'.token? m = some (t, d') ∧ d'.rest = r ∧ d'.before = d.before := by
    intro m hm hne h hr
    exact token?_of_length? hne h hc hr fun n hn => Token.length?_of_follows hm hn
  cases k with
  | keyword w =>
    exact token?_of_length? (Token.ne_keyword_nil hk) h hc hr fun n hn =>
      Token.keywordLength?_of_follows hn (hfresh (keywordLength?_eq_some_iff.1 hn).2.1)
  | plainName =>
    obtain ⟨hres, hstuck⟩ := hname rfl
    have hword : Token.word.Follows t d.rest r := hr.imp_right (And.imp_left fun _ _ => nofun)
    obtain ⟨d', hd', hrest, hb⟩ := plain (m := .word) trivial (by simp) (word_of_plainName h) hword
    have hr' : Token.plainName.Follows t d.rest d'.rest := hrest.symm ▸ hr
    exact ⟨d', plainName_of_word hd' (not_stuck_of_follows hstuck hb hr') hres, hrest, hb⟩
  | quoted q =>
    have hq := Token.quote_of_sorts hk
    exact plain hq (by simp) h hr
  | _ => exact plain trivial (by simp) h hr

end Cursor

/-! ## Before a mark -/

namespace Token

variable {k m : Token} {x : Char} {r : Text}

theorem startsWith_of_isMark (hm : m.isMark = true) (hx : m.StartsWith x) :
    Text.isDigit x = false ∧ x ∉ ['e', 'E', '"', '\''] ∧ (x = '.' → m = .symbol '.') := by
  cases m with
  | keyword w =>
    replace hx : (Text.upperChar x).head? = w.head? := hx
    simp only [isMark, Bool.and_eq_true, decide_eq_true_eq, ne_eq] at hm
    obtain ⟨⟨hne, hcap⟩, hE⟩ := hm
    obtain ⟨y, v, rfl⟩ := List.exists_cons_of_ne_nil hne
    simp only [List.all_cons, Bool.and_eq_true] at hcap
    have hword : Text.startsWord x = true := by simp [Text.startsWord, hx, hcap.1]
    refine ⟨?_, fun hmem => ?_, ?_⟩
    · cases hd : Text.isDigit x with
      | false => rfl
      | true =>
        rw [Text.not_startsWord_of_isDigit hd] at hword
        cases hword
    · simp only [List.mem_cons, List.not_mem_nil, or_false] at hmem
      rcases hmem with rfl | rfl | rfl | rfl
      · exact hE hx.symm
      · exact hE hx.symm
      · exact absurd hword (by decide)
      · exact absurd hword (by decide)
    · rintro rfl
      exact absurd hword (by decide)
  | symbol s =>
    obtain rfl : x = s := hx
    have hsign := sign_of_isMark
      (fun x => Text.isDigit x = false ∧ x ∉ ['e', 'E', '"', '\'']) hm (by decide)
    exact ⟨hsign.1, hsign.2, fun e => by rw [e]⟩
  | comparison =>
    rcases hx with rfl | rfl | rfl | rfl <;> exact ⟨by decide, by decide, fun e => absurd e (by decide)⟩
  | _ => cases hm

/-- A mark ends the token before it, unless that is a number and the mark a point. -/
theorem endsBy_of_isMark (hk : k.isValue = true) (hm : m.isMark = true) (hx : m.StartsWith x)
    (hpoint : m = .symbol '.' → k ≠ .number) (hr : r.head? = some x) : k.EndsBy r := by
  obtain ⟨hdigit, hother, hdot⟩ := startsWith_of_isMark hm hx
  simp only [List.mem_cons, List.not_mem_nil, or_false, not_or] at hother
  cases k with
  | number =>
    intro y hy
    rw [hr] at hy
    cases hy
    exact ⟨hdigit, fun e => hpoint (hdot e) rfl, hother.1, hother.2.1⟩
  | quoted q =>
    intro he
    rw [hr] at he
    cases he
    rcases quote_of_sorts (.inr hk) with rfl | rfl
    · exact hother.2.2.1 rfl
    · exact hother.2.2.2 rfl
  | _ => trivial

end Token

end CqlCanon
