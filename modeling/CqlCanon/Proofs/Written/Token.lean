import CqlCanon.Identifier.Parse
import CqlCanon.Proofs.Boundary

/-!
# Whole tokens

A text is a whole token if the token at its start ends where it ends. The text
that a token was read from may be cut off after it, and other text may be put
in its place: the token stays whole, as long as it is followed by a character
that breaks tokens off.
-/

namespace CqlCanon

/-- A text that is one token. -/
def Token.Whole (k : Token) (t : Text) : Prop := k.length? none t = some t.length

instance (k : Token) (t : Text) : Decidable (k.Whole t) :=
  inferInstanceAs (Decidable (_ = _))

namespace Text

/-! ## What breaks tokens off -/

/-- The text is empty or starts with a character that no token goes on with. -/
def Breaks (t : Text) : Prop := ∀ x, t.head? = some x →
  x = ' ' ∨ x = '\n' ∨ x = '\t' ∨ x = '\r' ∨ x = '-' ∨ x = ',' ∨ x = '(' ∨ x = ')'

theorem Breaks.nil : Breaks [] := fun _ h => nomatch h

theorem Breaks.cons {x : Char} {t : Text} (h : x = ' ' ∨ x = ',' ∨ x = '(' ∨ x = ')') :
    Breaks (x :: t) := by
  intro y hy
  cases hy
  rcases h with rfl | rfl | rfl | rfl <;> simp

theorem Breaks.any_eq_false {t : Text} (h : Breaks t) {p : Char → Bool}
    (hp : p ' ' = false ∧ p '\n' = false ∧ p '\t' = false ∧ p '\r' = false ∧ p '-' = false ∧
      p ',' = false ∧ p '(' = false ∧ p ')' = false) : t.head?.any p = false := by
  cases hx : t.head? with
  | none => rfl
  | some x =>
    obtain ⟨h1, h2, h3, h4, h5, h6, h7, h8⟩ := hp
    rcases h x hx with rfl | rfl | rfl | rfl | rfl | rfl | rfl | rfl <;> assumption

theorem Breaks.head_ne {t : Text} (h : Breaks t) {x : Char}
    (hx : x ∉ [' ', '\n', '\t', '\r', '-', ',', '(', ')']) : t.head? ≠ some x := by
  intro he
  exact hx (by simpa using h x he)

/-- The text is empty or starts with a character that no number goes on with. -/
def EndsNumber (t : Text) : Prop :=
  ∀ x, t.head? = some x → isDigit x = false ∧ x ≠ '.' ∧ x ≠ 'e' ∧ x ≠ 'E'

theorem Breaks.endsNumber {t : Text} (h : Breaks t) : t.EndsNumber := by
  intro x hx
  rcases h x hx with rfl | rfl | rfl | rfl | rfl | rfl | rfl | rfl <;> decide

theorem EndsNumber.any_isDigit {t : Text} (h : t.EndsNumber) : t.head?.any isDigit = false := by
  cases hx : t.head? with
  | none => rfl
  | some x => exact (h x hx).1

theorem takeWhile_append_of_head {p : Char → Bool} {t r : Text} (h : r.head?.any p = false) :
    (t ++ r).takeWhile p = t.takeWhile p := by
  induction t with
  | nil =>
    cases r with
    | nil => rfl
    | cons x r =>
      have hx : p x = false := by simpa using h
      simp [hx]
  | cons x t ih => simp [List.takeWhile_cons, ih]

theorem tail_take (n : Nat) (t : Text) : (t.take (n + 1)).tail = t.tail.take n := by
  cases t <;> simp

theorem append_of_head {x : Char} {t : Text} (h : t.head? = some x) (r : Text) :
    (t ++ r).head? = some x ∧ (t ++ r).tail = t.tail ++ r := by
  obtain ⟨u, rfl⟩ := List.head?_eq_some_iff.1 h
  exact ⟨rfl, rfl⟩

theorem takeWhile_take (p : Char → Bool) (n : Nat) (t : Text) :
    (t.take n).takeWhile p = (t.takeWhile p).take n := by
  induction t generalizing n with
  | nil => simp
  | cons x t ih =>
    cases n with
    | zero => simp
    | succ n =>
      simp only [List.take_succ_cons, List.takeWhile_cons, ih]
      split <;> simp

/-! ## Names -/

theorem nameLength?_append {t r : Text} {n : Nat} (h : nameLength? t = some n)
    (hr : r.head?.any isNameChar = false) : nameLength? (t ++ r) = some n := by
  obtain ⟨c, u, rfl, hc, rfl⟩ := nameLength?_eq_some_iff.1 h
  simp [nameLength?, hc, takeWhile_append_of_head hr]

theorem nameLength?_take {t : Text} {n : Nat} (h : nameLength? t = some n) :
    nameLength? (t.take n) = some n := by
  obtain ⟨c, u, rfl, hc, rfl⟩ := nameLength?_eq_some_iff.1 h
  simp [nameLength?, hc, takeWhile_take]

/-! ## Numbers -/

theorem digitsLength_append {t r : Text} (hr : r.head?.any isDigit = false) :
    digitsLength (t ++ r) = digitsLength t := by
  rw [digitsLength, takeWhile_append_of_head hr, digitsLength]

theorem digitsLength_take (n : Nat) (t : Text) :
    digitsLength (t.take n) = min n (digitsLength t) := by
  rw [digitsLength, takeWhile_take, List.length_take, digitsLength]

theorem digit_of_digitsLength_pos {t : Text} (h : 0 < digitsLength t) :
    ∃ x u, t = x :: u ∧ isDigit x = true := by
  cases t with
  | nil => simp [digitsLength] at h
  | cons x u =>
    refine ⟨x, u, rfl, ?_⟩
    cases hx : isDigit x with
    | true => rfl
    | false => simp [digitsLength, hx] at h

theorem signLength_append {t : Text} (r : Text) (ht : t ≠ []) :
    signLength (t ++ r) = signLength t := by
  cases t with
  | nil => exact absurd rfl ht
  | cons c t =>
    unfold signLength
    split <;> simp_all

theorem signLength_take {t : Text} {n : Nat} (hn : 0 < n) : signLength (t.take n) = signLength t := by
  cases t with
  | nil => simp
  | cons c t =>
    obtain ⟨n, rfl⟩ := Nat.exists_eq_add_one.2 hn
    simp only [List.take_succ_cons]
    unfold signLength
    split <;> simp_all

theorem integerLength?_eq_some_iff {t : Text} {n : Nat} : integerLength? t = some n ↔
    0 < digitsLength (t.drop (signLength t)) ∧
      n = signLength t + digitsLength (t.drop (signLength t)) := by
  simp only [integerLength?]
  split
  · rename_i h
    simp [h]
  · rename_i m h
    simp only [h, Option.some.injEq]
    omega

theorem integerLength?_append {t r : Text} {n : Nat} (h : integerLength? t = some n)
    (hr : r.head?.any isDigit = false) : integerLength? (t ++ r) = some n := by
  have ht : t ≠ [] := by
    rintro rfl
    exact absurd (integerLength?_bounds h) (by simp; omega)
  rw [integerLength?_eq_some_iff] at h ⊢
  rwa [signLength_append r ht, List.drop_append_of_le_length (signLength_le t),
    digitsLength_append hr]

theorem integerLength?_take {t : Text} {n m : Nat} (h : integerLength? t = some n) (hm : n ≤ m) :
    integerLength? (t.take m) = some n := by
  have hn := (integerLength?_bounds h).1
  rw [integerLength?_eq_some_iff] at h ⊢
  rw [signLength_take (by omega), List.drop_take, digitsLength_take]
  omega

/-- Only at its end a number can get places. -/
theorem placesLength_append_of_ne {t r : Text} (ht : t ≠ []) (hr : r.head?.any isDigit = false) :
    placesLength (t ++ r) = placesLength t := by
  cases t with
  | nil => exact absurd rfl ht
  | cons c t =>
    by_cases hc : c = '.'
    · subst hc
      simp [placesLength, digitsLength_append hr]
    · unfold placesLength
      split <;> simp_all

theorem placesLength_append {t r : Text} (hr : r.EndsNumber) :
    placesLength (t ++ r) = placesLength t := by
  cases t with
  | nil =>
    rw [List.nil_append]
    unfold placesLength
    split
    · exact absurd rfl (hr '.' rfl).2.1
    · rfl
  | cons c t => exact placesLength_append_of_ne (by simp) hr.any_isDigit

theorem placesLength_take (n : Nat) (t : Text) :
    placesLength (t.take n) = min n (placesLength t) := by
  cases n with
  | zero => simp [placesLength]
  | succ n =>
    cases t with
    | nil => simp [placesLength]
    | cons c t =>
      by_cases hc : c = '.'
      · subst hc
        simp [placesLength, digitsLength_take]
      · have h : ∀ u, placesLength (c :: u) = 0 := by
          intro u
          unfold placesLength
          split <;> simp_all
        simp [h]

theorem exponentLength_append_of_ne {t r : Text} (h : exponentLength t = t.length) (ht : t ≠ [])
    (hr : r.head?.any isDigit = false) : exponentLength (t ++ r) = t.length := by
  cases t with
  | nil => exact absurd rfl ht
  | cons c t =>
    simp only [exponentLength, List.cons_append, List.length_cons] at h ⊢
    split at h
    · cases hi : integerLength? t with
      | none => simp [hi] at h
      | some n =>
        simp only [hi, Option.map_some, Option.getD_some] at h
        simp [*, integerLength?_append hi hr]
    · simp at h

theorem exponentLength_append {t r : Text} (h : exponentLength t = t.length) (hr : r.EndsNumber) :
    exponentLength (t ++ r) = t.length := by
  cases t with
  | nil =>
    cases r with
    | nil => rfl
    | cons c r =>
      obtain ⟨-, -, h1, h2⟩ := hr c rfl
      simp [exponentLength, h1, h2]
  | cons c t => exact exponentLength_append_of_ne h (by simp) hr.any_isDigit

theorem exponentLength_take (t : Text) :
    exponentLength (t.take (exponentLength t)) = exponentLength t := by
  cases t with
  | nil => rfl
  | cons c t =>
    by_cases hc : c = 'e' ∨ c = 'E'
    · cases hi : integerLength? t with
      | none => simp [exponentLength, hi]
      | some n => simp [exponentLength, hc, hi, integerLength?_take hi (Nat.le_refl n)]
    · simp [exponentLength, hc]

theorem numberLength?_eq_some_iff {t : Text} {n : Nat} : numberLength? t = some n ↔
    ∃ m, integerLength? t = some m ∧ n = m + placesLength (t.drop m) +
      exponentLength (t.drop (m + placesLength (t.drop m))) := by
  rw [numberLength?, Option.map_eq_some_iff]
  exact ⟨fun ⟨m, h, e⟩ => ⟨m, h, e.symm⟩, fun ⟨m, h, e⟩ => ⟨m, h, e.symm⟩⟩

theorem numberLength?_append {t r : Text} (h : numberLength? t = some t.length)
    (hr : r.EndsNumber) :
    numberLength? (t ++ r) = some t.length := by
  obtain ⟨m, hm, hlen⟩ := numberLength?_eq_some_iff.1 h
  have h1 := (integerLength?_bounds hm).2
  have h2 := placesLength_le (t.drop m)
  have hexp : exponentLength (t.drop (m + placesLength (t.drop m))) =
      (t.drop (m + placesLength (t.drop m))).length := by
    rw [List.length_drop]
    omega
  rw [List.length_drop] at h2
  refine numberLength?_eq_some_iff.2 ⟨m, integerLength?_append hm hr.any_isDigit, ?_⟩
  rw [List.drop_append_of_le_length h1, placesLength_append hr,
    List.drop_append_of_le_length (by omega), exponentLength_append hexp hr, List.length_drop]
  omega

theorem numberLength?_take {t : Text} {n : Nat} (h : numberLength? t = some n) :
    numberLength? (t.take n) = some n := by
  obtain ⟨m, hm, hlen⟩ := numberLength?_eq_some_iff.1 h
  refine numberLength?_eq_some_iff.2 ⟨m, integerLength?_take hm (by omega), ?_⟩
  have hplaces : placesLength ((t.take n).drop m) = placesLength (t.drop m) := by
    rw [List.drop_take, placesLength_take]
    omega
  have hexp : n - (m + placesLength (t.drop m)) =
      exponentLength (t.drop (m + placesLength (t.drop m))) := by omega
  rw [hplaces, List.drop_take, hexp, exponentLength_take]
  exact hlen

/-! ## Quoted texts -/

theorem closingLength?_append {q : Char} {t r : Text} (h : closingLength? q t = some t.length)
    (hr : r.head? ≠ some q) : closingLength? q (t ++ r) = some t.length := by
  fun_induction closingLength? q t with
  | case1 => cases h
  | case2 =>
    cases r with
    | nil => simp [closingLength?]
    | cons x r =>
      have hx : x ≠ q := fun e => hr (by simp [e])
      simp [closingLength?, hx]
  | case3 => cases h
  | case4 t m hm ih =>
    obtain rfl : m = t.length := by simpa using h
    simp [closingLength?, ih hm]
  | case5 => simp at h
  | case6 => simp at h
  | case7 => cases h
  | case8 c d t hc hline ih =>
    obtain ⟨m, hm, hlen⟩ := Option.map_eq_some_iff.1 h
    have := ih (by simpa [hm] using hlen)
    rw [List.cons_append, List.cons_append, closingLength?, if_neg hc, if_neg hline]
    rw [List.cons_append] at this
    simp [this]

theorem closingLength?_take {q : Char} {t : Text} {n : Nat} (h : closingLength? q t = some n) :
    closingLength? q (t.take n) = some n := by
  fun_induction closingLength? q t generalizing n with
  | case1 => cases h
  | case2 =>
    cases h
    simp [closingLength?]
  | case3 => cases h
  | case4 t m hm ih =>
    cases h
    simp [closingLength?, ih hm]
  | case5 =>
    cases h
    simp [closingLength?]
  | case6 =>
    cases h
    simp [closingLength?]
  | case7 => cases h
  | case8 c d t hc hline ih =>
    obtain ⟨m, hm, rfl⟩ := Option.map_eq_some_iff.1 h
    obtain ⟨k, rfl⟩ := Nat.exists_eq_add_one.2 (closingLength?_bounds hm).1
    have := ih hm
    rw [List.take_succ_cons] at this ⊢
    rw [List.take_succ_cons, closingLength?, if_neg hc, if_neg hline, this]
    rfl

theorem line_not_mem_of_closingLength? {q : Char} {t : Text} {n : Nat}
    (h : closingLength? q t = some n) (hq : q ≠ '\n' ∧ q ≠ '\r') :
    '\n' ∉ t.take n ∧ '\r' ∉ t.take n := by
  fun_induction closingLength? q t generalizing n with
  | case1 => cases h
  | case2 =>
    cases h
    simp [hq.1.symm, hq.2.symm]
  | case3 => cases h
  | case4 t m hm ih =>
    cases h
    simp [hq.1.symm, hq.2.symm, ih hm]
  | case5 =>
    cases h
    simp [hq.1.symm, hq.2.symm]
  | case6 =>
    cases h
    simp [hq.1.symm, hq.2.symm]
  | case7 => cases h
  | case8 c d t hc hline ih =>
    obtain ⟨m, hm, rfl⟩ := Option.map_eq_some_iff.1 h
    rw [not_or] at hline
    simp [Ne.symm hline.1, Ne.symm hline.2, ih hm]

theorem exists_of_closingLength? {q : Char} {t : Text} {n : Nat} (h : closingLength? q t = some n) :
    ∃ u, t.take n = u ++ [q] := by
  fun_induction closingLength? q t generalizing n with
  | case1 => cases h
  | case2 =>
    cases h
    exact ⟨[], rfl⟩
  | case3 => cases h
  | case4 t m hm ih =>
    cases h
    obtain ⟨u, hu⟩ := ih hm
    exact ⟨q :: q :: u, by simp [hu]⟩
  | case5 =>
    cases h
    exact ⟨[], rfl⟩
  | case6 =>
    cases h
    exact ⟨[], rfl⟩
  | case7 => cases h
  | case8 c d t hc hline ih =>
    obtain ⟨m, hm, rfl⟩ := Option.map_eq_some_iff.1 h
    obtain ⟨u, hu⟩ := ih hm
    exact ⟨c :: u, by simp [hu]⟩

end Text

namespace Token

/-! ## Whole tokens -/

theorem whole_word_iff {t : Text} : word.Whole t ↔ Identifier.isNameForm t = true := by
  simp [Whole, length?, Identifier.isNameForm]

/-- The kinds of tokens for which the text before them does not matter. -/
def Plain : Token → Prop
  | keyword _ | plainName => False
  | quoted q => q = '"' ∨ q = '\''
  | _ => True

theorem prefixed_eq_some_iff {x : Char} {t : Text} {o : Option Nat} {n : Nat} :
    (if t.head? = some x then o.map (· + 1) else none) = some n ↔
      t.head? = some x ∧ ∃ m, o = some m ∧ n = m + 1 := by
  split
  · rename_i h
    rw [Option.map_eq_some_iff]
    exact ⟨fun ⟨m, hm, e⟩ => ⟨h, m, hm, e.symm⟩, fun ⟨_, m, hm, e⟩ => ⟨m, hm, e.symm⟩⟩
  · rename_i h
    exact ⟨(fun e => nomatch e), fun e => absurd e.1 h⟩

theorem quotedLength?_eq_some_iff {q : Char} {b : Option Char} {t : Text} {n : Nat} :
    (quoted q).length? b t = some n ↔ t.head? = some q ∧
      ∃ m, closingLength? q t.tail = some m ∧ n = m + 1 := prefixed_eq_some_iff

theorem bindLength?_eq_some_iff {b : Option Char} {t : Text} {n : Nat} :
    bindMarker.length? b t = some n ↔ t.head? = some ':' ∧
      ∃ m, Text.nameLength? t.tail = some m ∧ n = m + 1 := prefixed_eq_some_iff

theorem Whole.of_length? {k : Token} {b : Option Char} {t : Text} {n : Nat} (hk : k.Plain)
    (h : k.length? b t = some n) : k.Whole (t.take n) := by
  rw [Whole, List.length_take_of_le (length?_bounds h (by rintro w rfl; exact hk)).2]
  cases k with
  | keyword _ => cases hk
  | plainName => cases hk
  | symbol c =>
    have hx : t.head? = some c ∧ 1 = n := by simpa [length?] using h
    obtain ⟨hx, rfl⟩ := hx
    simp [length?, List.head?_take, hx]
  | comparison =>
    simp only [length?] at h ⊢
    unfold comparisonLength? at h
    split at h <;> cases h <;> simp [comparisonLength?]
  | word => exact Text.nameLength?_take h
  | quoted q =>
    obtain ⟨hx, m, hm, rfl⟩ := quotedLength?_eq_some_iff.1 h
    refine quotedLength?_eq_some_iff.2 ⟨by simp [List.head?_take, hx], m, ?_, rfl⟩
    rw [Text.tail_take]
    exact Text.closingLength?_take hm
  | number => exact Text.numberLength?_take h
  | integer => exact Text.integerLength?_take h (Nat.le_refl n)
  | bindMarker =>
    obtain ⟨hx, m, hm, rfl⟩ := bindLength?_eq_some_iff.1 h
    refine bindLength?_eq_some_iff.2 ⟨by simp [List.head?_take, hx], m, ?_, rfl⟩
    rw [Text.tail_take]
    exact Text.nameLength?_take hm

theorem Whole.quoted_cons {q : Char} {t : Text} (h : (quoted q).Whole t) :
    ∃ u, t = q :: u ∧ closingLength? q u = some u.length := by
  obtain ⟨hx, m, hm, hlen⟩ := quotedLength?_eq_some_iff.1 h
  obtain ⟨u, rfl⟩ := List.head?_eq_some_iff.1 hx
  obtain rfl : m = u.length := by simpa using hlen.symm
  exact ⟨u, rfl, hm⟩

theorem Whole.quoted_append {q : Char} {t r : Text} (h : (quoted q).Whole t)
    (hr : r.head? ≠ some q) (b : Option Char) : (quoted q).length? b (t ++ r) = some t.length := by
  obtain ⟨u, rfl, hu⟩ := h.quoted_cons
  exact quotedLength?_eq_some_iff.2 ⟨rfl, _, Text.closingLength?_append hu hr, rfl⟩

theorem Whole.quoted_eq {q : Char} {t : Text} (h : (quoted q).Whole t) :
    ∃ u, t = q :: (u ++ [q]) := by
  obtain ⟨t, rfl, ht⟩ := h.quoted_cons
  obtain ⟨u, hu⟩ := Text.exists_of_closingLength? ht
  rw [List.take_length] at hu
  exact ⟨u, by rw [hu]⟩

/-- A whole bind marker is read where its name does not go on. -/
theorem Whole.bind_append {t r : Text} (h : bindMarker.Whole t)
    (hr : r.head?.any Text.isNameChar = false) (b : Option Char) :
    bindMarker.length? b (t ++ r) = some t.length := by
  obtain ⟨hx, m, hm, hlen⟩ := bindLength?_eq_some_iff.1 h
  refine bindLength?_eq_some_iff.2 ⟨(Text.append_of_head hx r).1, m, ?_, hlen⟩
  rw [(Text.append_of_head hx r).2]
  exact Text.nameLength?_append hm hr

theorem Whole.length?_append {k : Token} {t r : Text} (hk : k.Plain) (h : k.Whole t)
    (hr : r.Breaks) (b : Option Char) : k.length? b (t ++ r) = some t.length := by
  cases k with
  | keyword _ => cases hk
  | plainName => cases hk
  | symbol c =>
    have hx : t.head? = some c ∧ 1 = t.length := by simpa [Whole, length?] using h
    simp [length?, (Text.append_of_head hx.1 r).1, hx.2]
  | comparison =>
    have hne : r.head? ≠ some '=' := hr.head_ne (by decide)
    simp only [Whole, length?] at h ⊢
    unfold comparisonLength? at h
    split at h <;> simp at h <;> subst h
    all_goals cases r <;> simp_all [comparisonLength?]
  | word => exact Text.nameLength?_append h (hr.any_eq_false (by decide))
  | quoted q =>
    refine h.quoted_append ?_ b
    rcases (hk : q = '"' ∨ q = '\'') with rfl | rfl <;> exact hr.head_ne (by decide)
  | number => exact Text.numberLength?_append h hr.endsNumber
  | integer => exact Text.integerLength?_append h (hr.any_eq_false (by decide))
  | bindMarker => exact h.bind_append (hr.any_eq_false (by decide)) b

end Token

end CqlCanon
