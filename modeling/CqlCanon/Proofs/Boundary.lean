import CqlCanon.Cursor.Basic

/-!
# Where tokens begin and end

The next character of a text tells most tokens apart. Key words and names need
more: a name that stops where a key word could go on leaves the reader stuck,
for no token starts there.
-/

namespace CqlCanon

namespace Text

/-! ## Characters of words -/

theorem ascii_forall {p : Char → Bool} (h : ∀ n < 128, p (Char.ofNat n) = true) {c : Char}
    (hc : c.toNat < 128) : p c = true := by
  have := h c.toNat hc
  rwa [Char.ofNat_toNat] at this

theorem toNat_lt_of_isAlphanum {c : Char} (h : c.isAlphanum = true) : c.toNat < 128 := by
  delta Char.isAlphanum Char.isAlpha Char.isUpper Char.isLower Char.isDigit at h
  simp [UInt32.le_iff_toNat_le, ← Char.toNat_val] at h ⊢
  omega

theorem toNat_lt_of_isNameChar {c : Char} (h : isNameChar c = true) : c.toNat < 128 := by
  rcases (by simpa [isNameChar] using h : c.isAlphanum = true ∨ c = '_') with h | rfl
  · exact toNat_lt_of_isAlphanum h
  · decide

theorem toNat_lt_of_isUpper {c : Char} (h : c.isUpper = true) : c.toNat < 128 :=
  toNat_lt_of_isAlphanum (by delta Char.isAlphanum Char.isAlpha; simp [h])

/-- The upper case of a character, which beyond ASCII is one of a few cases or the character. -/
theorem upperChar_cases (c : Char) : upperChar c = [c.toUpper] ∨
    c ∈ ['ß', 'ı', 'ſ', 'ﬀ', 'ﬁ', 'ﬂ', 'ﬃ', 'ﬄ', 'ﬅ', 'ﬆ'] := by
  unfold upperChar
  split <;> simp

theorem upperChar_of_ascii {c : Char} (h : c.toNat < 128) : upperChar c = [c.toUpper] := by
  rcases upperChar_cases c with hc | hc
  · exact hc
  · simp only [List.mem_cons, List.not_mem_nil, or_false] at hc
    rcases hc with rfl | rfl | rfl | rfl | rfl | rfl | rfl | rfl | rfl | rfl <;>
      exact absurd h (by decide)

theorem toUpper_of_wide {c : Char} (h : 128 ≤ c.toNat) : c.toUpper = c := by
  unfold Char.toUpper
  rw [dif_neg]
  intro hc
  have h1 : c.val.toNat ≤ 'z'.val.toNat := UInt32.le_iff_toNat_le.1 hc.2
  have h2 : 'z'.val.toNat = 122 := rfl
  have : c.toNat = c.val.toNat := rfl
  omega

theorem upperChar_ne_nil (c : Char) : upperChar c ≠ [] := by
  unfold upperChar
  split <;> simp

/-- Characters whose upper case is made of capitals, digits, `_` and `$`. -/
def isWordLike (c : Char) : Bool :=
  (upperChar c).all fun d => d.isUpper || d.isDigit || d = '_' || d = '$'

theorem isWordLike_of_isKeywordChar {c : Char} (h : isKeywordChar c = true) :
    isWordLike c = true := by
  unfold isKeywordChar at h
  split at h
  · rename_i d hd
    simpa [isWordLike, hd] using h
  · cases h

theorem isKeywordChar_of_isNameChar {c : Char} (h : isNameChar c = true) :
    isKeywordChar c = true := by
  have hc := toNat_lt_of_isNameChar h
  have : (!isNameChar c || isKeywordChar c) = true :=
    ascii_forall (p := fun c => !isNameChar c || isKeywordChar c) (by decide +kernel) hc
  simpa [h] using this

theorem isWordLike_of_upper {c : Char} (h : (upperChar c).all Char.isUpper = true) :
    isWordLike c = true := by
  simp only [isWordLike, List.all_eq_true] at h ⊢
  intro d hd
  simp [h d hd]

theorem upper_append (t u : Text) : upper (t ++ u) = upper t ++ upper u := by
  simp [upper]

theorem length_upper_of_ascii {t : Text} (h : ∀ c ∈ t, c.toNat < 128) :
    (upper t).length = t.length := by
  induction t with
  | nil => rfl
  | cons c t ih =>
    have hc := h c (by simp)
    have := ih fun d hd => h d (by simp [hd])
    simp [upperChar_of_ascii hc, this]

theorem length_upper {t : Text} (h : ∀ c ∈ t, isNameChar c = true) : (upper t).length = t.length :=
  length_upper_of_ascii fun c hc => toNat_lt_of_isNameChar (h c hc)

theorem isWordLike_of_mem_upper {t : Text} (h : (upper t).all Char.isUpper = true) :
    ∀ c ∈ t, isWordLike c = true := by
  intro c hc
  apply isWordLike_of_upper
  rw [List.all_eq_true] at h ⊢
  intro d hd
  exact h d (List.mem_flatMap.2 ⟨c, hc, hd⟩)

/-- A name is followed by the first character that could not be part of it. -/
theorem nameLength?_split {t : Text} {n : Nat} (h : nameLength? t = some n) :
    ∃ name rest, t = name ++ rest ∧ name.length = n ∧ name ≠ [] ∧
      (∀ c ∈ name, isNameChar c = true) ∧ rest.head?.any isNameChar = false := by
  obtain ⟨c, u, rfl, hc, rfl⟩ := nameLength?_eq_some_iff.1 h
  refine ⟨c :: u.takeWhile isNameChar, u.dropWhile isNameChar, by simp, by simp, by simp, ?_, ?_⟩
  · intro d hd
    rcases List.mem_cons.1 hd with rfl | hd
    · exact isNameChar_of_isLetter hc
    · exact List.all_eq_true.1 List.all_takeWhile d hd
  · have := List.head?_dropWhile_not isNameChar u
    split at this
    · rename_i d hd
      simp [hd, this]
    · rename_i hd
      simp [hd]

/-- Whether a key word may start with the character. -/
def startsWord (c : Char) : Bool := (upperChar c).head?.any Char.isUpper

theorem not_startsWord_of_isDigit {c : Char} (h : isDigit c = true) : startsWord c = false := by
  rcases Nat.lt_or_ge c.toNat 128 with hc | hc
  · have : (!isDigit c || !startsWord c) = true :=
      ascii_forall (p := fun c => !isDigit c || !startsWord c) (by decide +kernel) hc
    simpa [h] using this
  · rcases upperChar_cases c with hu | hu
    · cases hw : c.isUpper with
      | false => simp [startsWord, hu, toUpper_of_wide hc, hw]
      | true => exact absurd (toNat_lt_of_isUpper hw) (by omega)
    · simp only [List.mem_cons, List.not_mem_nil, or_false] at hu
      rcases hu with rfl | rfl | rfl | rfl | rfl | rfl | rfl | rfl | rfl | rfl <;>
        exact absurd h (by decide)

theorem startsWord_of_isLetter {c : Char} (h : isLetter c = true) : startsWord c = true := by
  have : (!isLetter c || startsWord c) = true :=
    ascii_forall (p := fun c => !isLetter c || startsWord c) (by decide +kernel)
      (toNat_lt_of_isNameChar (isNameChar_of_isLetter h))
  simpa [h] using this

end Text

/-! ## First characters -/

/-- Whether a token may start with a character. -/
def Token.StartsWith (k : Token) (x : Char) : Prop :=
  match k with
  | .keyword w => (Text.upperChar x).head? = w.head?
  | .symbol c => x = c
  | .comparison => x = '=' ∨ x = '!' ∨ x = '<' ∨ x = '>'
  | .word | .plainName => Text.isLetter x = true
  | .quoted quote => x = quote
  | .number | .integer => Text.isDigit x = true ∨ x = '+' ∨ x = '-'
  | .bindMarker => x = ':'

instance : (k : Token) → (x : Char) → Decidable (k.StartsWith x)
  | .keyword w, x => inferInstanceAs (Decidable ((Text.upperChar x).head? = w.head?))
  | .symbol c, x => inferInstanceAs (Decidable (x = c))
  | .comparison, x => inferInstanceAs (Decidable (x = '=' ∨ x = '!' ∨ x = '<' ∨ x = '>'))
  | .word, x => inferInstanceAs (Decidable (Text.isLetter x = true))
  | .plainName, x => inferInstanceAs (Decidable (Text.isLetter x = true))
  | .quoted quote, x => inferInstanceAs (Decidable (x = quote))
  | .number, x => inferInstanceAs (Decidable (Text.isDigit x = true ∨ x = '+' ∨ x = '-'))
  | .integer, x => inferInstanceAs (Decidable (Text.isDigit x = true ∨ x = '+' ∨ x = '-'))
  | .bindMarker, x => inferInstanceAs (Decidable (x = ':'))

theorem keywordLength?_eq_some_iff {w t : Text} {b : Option Char} {n : Nat} :
    keywordLength? w b t = some n ↔ Text.upper (t.take w.length) = w ∧
      b.any Text.isKeywordChar = false ∧
      (t.drop w.length).head?.any Text.isKeywordChar = false ∧ n = w.length := by
  unfold keywordLength?
  split
  · rename_i h
    constructor
    · intro e
      cases e
      exact ⟨h.1, h.2.1, h.2.2, rfl⟩
    · rintro ⟨-, -, -, rfl⟩
      rfl
  · rename_i h
    constructor
    · intro e
      cases e
    · rintro ⟨h1, h2, h3, -⟩
      exact absurd ⟨h1, h2, h3⟩ h

theorem startsWith_of_integerLength? {t : Text} {n : Nat} (h : Text.integerLength? t = some n) :
    ∃ x u, t = x :: u ∧ Token.number.StartsWith x := by
  cases t with
  | nil => simp [Text.integerLength?, Text.signLength, Text.digitsLength] at h
  | cons x u =>
    refine ⟨x, u, rfl, ?_⟩
    by_cases hp : x = '+'
    · exact .inr (.inl hp)
    by_cases hm : x = '-'
    · exact .inr (.inr hm)
    have hs : Text.signLength (x :: u) = 0 := by
      unfold Text.signLength
      split <;> simp_all
    left
    cases hd : Text.isDigit x with
    | true => rfl
    | false => simp [Text.integerLength?, hs, Text.digitsLength, hd] at h

theorem Token.startsWith_of_length? {k : Token} {b : Option Char} {t : Text} {n : Nat}
    (h : k.length? b t = some n) (hk : k ≠ .keyword []) :
    ∃ x u, t = x :: u ∧ k.StartsWith x := by
  cases k with
  | keyword w =>
    obtain ⟨hw, -⟩ := keywordLength?_eq_some_iff.1 h
    cases t with
    | nil => exact absurd (by simpa using hw.symm) (fun e => hk (by rw [e]))
    | cons x u =>
      refine ⟨x, u, rfl, ?_⟩
      cases w with
      | nil => exact absurd rfl hk
      | cons y w =>
        rw [List.length_cons, List.take_succ_cons, Text.upper_cons] at hw
        obtain ⟨z, zs, hz⟩ := List.exists_cons_of_ne_nil (Text.upperChar_ne_nil x)
        rw [hz, List.cons_append] at hw
        injection hw with hw
        simp [StartsWith, hz, hw]
  | symbol c =>
    cases t with
    | nil => simp [length?] at h
    | cons x u =>
      have hx : x = c ∧ 1 = n := by simpa [length?] using h
      exact ⟨x, u, rfl, hx.1⟩
  | comparison =>
    simp only [length?] at h
    unfold comparisonLength? at h
    split at h <;> cases h <;> exact ⟨_, _, rfl, by simp [StartsWith]⟩
  | word =>
    obtain ⟨x, u, rfl, hx, -⟩ := Text.nameLength?_eq_some_iff.1 h
    exact ⟨x, u, rfl, hx⟩
  | plainName =>
    simp only [length?] at h
    split at h
    · cases h
    · obtain ⟨x, u, rfl, hx, -⟩ := Text.nameLength?_eq_some_iff.1 h
      exact ⟨x, u, rfl, hx⟩
  | quoted quote =>
    cases t with
    | nil => simp [length?] at h
    | cons x u =>
      simp only [length?, List.head?_cons, Option.some.injEq] at h
      split at h
      · exact ⟨x, u, rfl, ‹_›⟩
      · cases h
  | number =>
    obtain ⟨m, hm, -⟩ := Option.map_eq_some_iff.1 h
    exact startsWith_of_integerLength? hm
  | integer => exact startsWith_of_integerLength? h
  | bindMarker =>
    cases t with
    | nil => simp [length?] at h
    | cons x u =>
      simp only [length?, List.head?_cons, Option.some.injEq] at h
      split at h
      · exact ⟨x, u, rfl, ‹_›⟩
      · cases h

/-! ## First characters of layout -/

theorem eq_of_isBlank {x : Char} (h : isBlank x = true) :
    x = ' ' ∨ x = '\n' ∨ x = '\t' ∨ x = '\r' := by
  simpa [isBlank, or_assoc] using h

theorem layoutLength_of_head {x : Char} {t : Text} (hx : isBlank x = false ∧ x ≠ '-') :
    layoutLength (x :: t) = 0 := by
  simp [layoutLength, startsComment, hx]

/-- Neither word begins with the other. -/
def Apart (v w : String) : Prop := ¬ (v.toList <+: w.toList ∨ w.toList <+: v.toList)

instance (v w : String) : Decidable (Apart v w) := inferInstanceAs (Decidable (¬ _))

namespace Cursor

/-- The first character after the layout. -/
def next (c : Cursor) : Option Char := c.skip.rest.head?

theorem next_of_token? {k : Token} {c d : Cursor} {t : Text} (h : c.token? k = some (t, d))
    (hk : k ≠ .keyword []) : ∃ x, c.next = some x ∧ k.StartsWith x := by
  obtain ⟨n, hn, -, -⟩ := token?_eq_some_iff.1 h
  obtain ⟨x, u, hu, hx⟩ := Token.startsWith_of_length? hn hk
  exact ⟨x, by simp [next, hu], hx⟩

theorem token?_split {k : Token} {c d : Cursor} {t : Text} (h : c.token? k = some (t, d)) :
    c.skip.rest = t ++ d.rest := by
  obtain ⟨n, -, rfl, rfl⟩ := token?_eq_some_iff.1 h
  exact (List.take_append_drop n c.skip.rest).symm

theorem token?_eq_none {k : Token} {c : Cursor} {x : Char} (hx : c.next = some x)
    (h : ¬ k.StartsWith x) (hk : k ≠ .keyword []) : c.token? k = none := by
  cases ht : c.token? k with
  | none => rfl
  | some r =>
    obtain ⟨y, hy, hs⟩ := next_of_token? (d := r.2) (t := r.1) ht hk
    rw [hx] at hy
    cases hy
    exact absurd hs h

theorem pass?_eq_none {k : Token} {c : Cursor} {x : Char} (hx : c.next = some x)
    (h : ¬ k.StartsWith x) (hk : k ≠ .keyword []) : c.pass? k = none := by
  rw [pass?, token?_eq_none hx h hk]
  rfl

theorem symbol?_eq_some_iff {s : Char} {c d : Cursor} :
    c.symbol? s = some d ↔ c.next = some s ∧ d = c.skip.advance 1 := by
  simp only [symbol?, pass?, token?, next, Token.length?]
  split
  · rename_i h
    simp [h, eq_comm]
  · rename_i h
    simp [h]

theorem next_of_symbol? {s : Char} {c d : Cursor} (h : c.symbol? s = some d) : c.next = some s :=
  (symbol?_eq_some_iff.1 h).1

theorem exists_of_symbol? {s : Char} {c d : Cursor} (h : c.symbol? s = some d) :
    ∃ u, c.skip.rest = s :: u ∧ d = c.skip.advance 1 := by
  obtain ⟨hn, hd⟩ := symbol?_eq_some_iff.1 h
  obtain ⟨u, hu⟩ := List.head?_eq_some_iff.1 hn
  exact ⟨u, hu, hd⟩

theorem keyword?_eq_some_iff {w : String} {c d : Cursor} :
    c.keyword? w = some d ↔ Text.upper (c.skip.rest.take w.toList.length) = w.toList ∧
      c.skip.before.any Text.isKeywordChar = false ∧
      (c.skip.rest.drop w.toList.length).head?.any Text.isKeywordChar = false ∧
      d = c.skip.advance w.toList.length := by
  unfold keyword? pass? token?
  rw [Option.map_map, Option.map_eq_some_iff]
  constructor
  · rintro ⟨n, hn, rfl⟩
    obtain ⟨h1, h2, h3, rfl⟩ := keywordLength?_eq_some_iff.1 hn
    exact ⟨h1, h2, h3, rfl⟩
  · rintro ⟨h1, h2, h3, rfl⟩
    exact ⟨_, keywordLength?_eq_some_iff.2 ⟨h1, h2, h3, rfl⟩, rfl⟩

theorem token?_of_pass? {k : Token} {c d : Cursor} (h : c.pass? k = some d) :
    ∃ t, c.token? k = some (t, d) := by
  obtain ⟨⟨t, e⟩, he, rfl⟩ := Option.map_eq_some_iff.1 h
  exact ⟨t, he⟩

theorem pass?_of_token? {k : Token} {c d : Cursor} {t : Text} (h : c.token? k = some (t, d)) :
    c.pass? k = some d := by
  rw [pass?, h, Option.map_some]

theorem symbol?_of_token? {s : Char} {c d : Cursor} {t : Text}
    (h : c.token? (.symbol s) = some (t, d)) : c.symbol? s = some d :=
  pass?_of_token? h

theorem keyword?_of_token? {w t : Text} {c d : Cursor} (h : c.token? (.keyword w) = some (t, d)) :
    c.keyword? (String.ofList w) = some d := by
  rw [keyword?, String.toList_ofList]
  exact pass?_of_token? h

theorem next_of_keyword? {w : String} {c d : Cursor} (h : c.keyword? w = some d)
    (hw : w.toList ≠ []) : ∃ x, c.next = some x ∧ (Text.upperChar x).head? = w.toList.head? := by
  obtain ⟨t, ht⟩ := token?_of_pass? h
  exact next_of_token? ht (by simpa using hw)

/-! ## Two key words at one place -/

/-- Of two key words at one place, one begins with the other. -/
theorem isPrefix_of_keyword? {v w : String} {c d e : Cursor} (hv : c.keyword? v = some d)
    (hw : c.keyword? w = some e) : v.toList <+: w.toList ∨ w.toList <+: v.toList := by
  have hu := (keyword?_eq_some_iff.1 hv).1
  have hx := (keyword?_eq_some_iff.1 hw).1
  have key : ∀ {m n : Nat} (t : Text), m ≤ n → Text.upper (t.take m) <+: Text.upper (t.take n) := by
    intro m n t hmn
    obtain ⟨u, hu⟩ := List.take_prefix_take_left (l := t) hmn
    rw [← hu, Text.upper_append]
    exact List.prefix_append _ _
  rcases Nat.le_total v.toList.length w.toList.length with h | h
  · left
    have := key c.skip.rest h
    rwa [hu, hx] at this
  · right
    have := key c.skip.rest h
    rwa [hu, hx] at this

theorem keyword?_eq_none {v w : String} {c d : Cursor} (h : c.keyword? v = some d)
    (hvw : Apart v w) : c.keyword? w = none := by
  cases hw : c.keyword? w with
  | none => rfl
  | some e => exact absurd (isPrefix_of_keyword? h hw) hvw

theorem keyword?_eq_none_of_next {w : String} {c : Cursor} {x : Char} (hx : c.next = some x)
    (h : (Text.upperChar x).head? ≠ w.toList.head?) (hw : w.toList ≠ []) : c.keyword? w = none :=
  pass?_eq_none hx h (by simpa using hw)

theorem next_ne_of_keyword? {w : String} {c d : Cursor} (h : c.keyword? w = some d)
    {x : Char} (hx : (Text.upperChar x).head? ≠ w.toList.head?) (hw : w.toList ≠ []) :
    c.next ≠ some x := by
  intro hn
  rw [keyword?_eq_none_of_next hn hx hw] at h
  cases h

theorem symbol?_eq_none {s : Char} {c : Cursor} (h : c.next ≠ some s) : c.symbol? s = none := by
  cases hs : c.symbol? s with
  | none => rfl
  | some d => exact absurd (next_of_symbol? hs) h

/-! ## Key words and names at one place -/

/-- A reader is stuck where the end of a word is followed by a character that is like one of a
word, but was not part of it. -/
def Stuck (c : Cursor) : Prop :=
  c.before.any Text.isKeywordChar = true ∧ c.rest.head?.any Text.isWordLike = true

theorem layoutLength_of_isWordLike {t : Text} (h : t.head?.any Text.isWordLike = true) :
    layoutLength t = 0 := by
  cases t with
  | nil => rfl
  | cons x t =>
    have hx : Text.isWordLike x = true := by simpa using h
    refine layoutLength_of_head ⟨?_, ?_⟩
    · cases hb : isBlank x with
      | false => rfl
      | true => rcases eq_of_isBlank hb with rfl | rfl | rfl | rfl <;> exact absurd hx (by decide)
    · rintro rfl
      exact absurd hx (by decide)

theorem skip_of_layoutLength {c : Cursor} (h : layoutLength c.rest = 0) : c.skip = c := by
  simp [skip, h, advance]

namespace Stuck

variable {c : Cursor}

theorem skip (h : c.Stuck) : c.skip = c := skip_of_layoutLength (layoutLength_of_isWordLike h.2)

theorem next (h : c.Stuck) : ∃ x, c.next = some x ∧ Text.isWordLike x = true := by
  have := h.2
  rw [Cursor.next, h.skip]
  cases hc : c.rest.head? with
  | none => simp [hc] at this
  | some x => exact ⟨x, rfl, by simpa [hc] using this⟩

theorem keyword? (h : c.Stuck) (w : String) : c.keyword? w = none := by
  cases hw : c.keyword? w with
  | none => rfl
  | some d =>
    have := (keyword?_eq_some_iff.1 hw).2.1
    rw [h.skip, h.1] at this
    cases this

theorem symbol? (h : c.Stuck) {s : Char} (hs : Text.isWordLike s = false) : c.symbol? s = none := by
  cases hc : c.symbol? s with
  | none => rfl
  | some d =>
    obtain ⟨x, hx, hw⟩ := h.next
    rw [(next_of_symbol? hc)] at hx
    cases hx
    rw [hs] at hw
    cases hw

end Stuck

theorem token?_word {c d : Cursor} {t : Text} (h : c.token? .word = some (t, d)) :
    c.skip.rest = t ++ d.rest ∧ d = c.skip.advance t.length ∧ (∀ x ∈ t, Text.isNameChar x = true) ∧
      d.before.any Text.isKeywordChar = true ∧ d.rest.head?.any Text.isNameChar = false := by
  obtain ⟨n, hn, rfl, rfl⟩ := token?_eq_some_iff.1 h
  obtain ⟨name, rest, ht, rfl, hne, hname, hrest⟩ := Text.nameLength?_split hn
  have hlast : name.getLast? = some (name.getLast hne) := List.getLast?_eq_some_getLast hne
  rw [ht]
  simp only [List.take_left, advance, ht, List.drop_left, hlast, Option.some_or, Option.any_some]
  exact ⟨trivial, trivial, hname,
    Text.isKeywordChar_of_isNameChar (hname _ (List.getLast_mem hne)), hrest⟩

/-- Where a key word and a name start at one place, they end at one place, or the name leaves the
reader stuck. -/
theorem end_eq_of_keyword?_of_word {w : String} {c d e : Cursor} {t : Text}
    (hw : c.keyword? w = some d) (hcap : w.toList.all Char.isUpper = true)
    (ht : c.token? .word = some (t, e)) : e = d ∨ e.Stuck := by
  obtain ⟨hu, -, hafter, rfl⟩ := keyword?_eq_some_iff.1 hw
  obtain ⟨hrest, he, hname, hbefore, -⟩ := token?_word ht
  rcases Nat.lt_trichotomy t.length w.toList.length with h | h | h
  · right
    refine ⟨hbefore, ?_⟩
    rw [hrest, List.take_append, List.take_of_length_le (Nat.le_of_lt h)] at hu
    cases hr : e.rest with
    | nil =>
      have := congrArg List.length hu
      simp only [hr, List.take_nil, List.append_nil, Text.length_upper hname] at this
      omega
    | cons x r =>
      rw [← hu] at hcap
      refine Text.isWordLike_of_mem_upper hcap x (List.mem_append_right _ ?_)
      obtain ⟨m, hm⟩ := Nat.exists_eq_add_of_lt h
      simp [hr, show w.toList.length - t.length = m + 1 by omega]
  · left
    rw [he, h]
  · rw [hrest, List.drop_append_of_le_length (Nat.le_of_lt h)] at hafter
    obtain ⟨x, u, hu⟩ := List.exists_cons_of_ne_nil
      (l := t.drop w.toList.length) (by simpa using h)
    have hx : x ∈ t := List.mem_of_mem_drop (hu ▸ List.mem_cons_self)
    simp [hu, Text.isKeywordChar_of_isNameChar (hname x hx)] at hafter

theorem word_of_plainName {c d : Cursor} {t : Text} (h : c.token? .plainName = some (t, d)) :
    c.token? .word = some (t, d) := by
  obtain ⟨n, hn, rfl, rfl⟩ := token?_eq_some_iff.1 h
  refine token?_eq_some_iff.2 ⟨n, ?_, rfl, rfl⟩
  simp only [Token.length?] at hn
  split at hn
  · cases hn
  · exact hn

theorem plainName_of_keyword? {w : String} {c d : Cursor} (h : c.keyword? w = some d)
    (hw : w.toList ∈ reservedWords) : c.token? .plainName = none := by
  obtain ⟨t, ht⟩ := token?_of_pass? h
  obtain ⟨n, hn, -, -⟩ := token?_eq_some_iff.1 ht
  have : startsReserved c.skip.before c.skip.rest = true :=
    List.any_eq_true.2 ⟨_, hw, by simp [show keywordLength? _ _ _ = some n from hn]⟩
  simp [token?, Token.length?, this]

end Cursor

end CqlCanon
