import CqlCanon.Proofs.Lexeme.Adjacent
import CqlCanon.Text.Tabs

/-!
# Letter case and tokens

Where the tokens of a text begin and end does not depend on the case of its
ASCII letters. Each scan of a text is the same scan of the text in lower case,
for it tests only what a letter has in common with its other case.
-/

namespace CqlCanon

namespace Text

variable {c : Char} {t u : Text}

/-! ## Characters -/

theorem toLower_of_wide {c : Char} (h : 128 ≤ c.toNat) : c.toLower = c := by
  unfold Char.toLower
  rw [dif_neg]
  intro hc
  have h1 : c.val.toNat ≤ 'Z'.val.toNat := UInt32.le_iff_toNat_le.1 hc.2
  have h2 : 'Z'.val.toNat = 90 := rfl
  have : c.toNat = c.val.toNat := rfl
  omega

/-- What does not tell the cases of the first 128 characters apart tells no cases apart. -/
theorem toLower_invariant {α : Type} [DecidableEq α] {f : Char → α}
    (h : ∀ n < 128, f (Char.ofNat n).toLower = f (Char.ofNat n)) (c : Char) : f c.toLower = f c := by
  rcases Nat.lt_or_ge c.toNat 128 with hc | hc
  · have := h c.toNat hc
    rwa [Char.ofNat_toNat] at this
  · rw [toLower_of_wide hc]

@[simp] theorem isBlank_toLower (c : Char) : isBlank c.toLower = isBlank c :=
  toLower_invariant (by decide +kernel) c

@[simp] theorem isLetter_toLower (c : Char) : isLetter c.toLower = isLetter c :=
  toLower_invariant (by decide +kernel) c

@[simp] theorem isNameChar_toLower (c : Char) : isNameChar c.toLower = isNameChar c :=
  toLower_invariant (by decide +kernel) c

@[simp] theorem isDigit_toLower (c : Char) : isDigit c.toLower = isDigit c :=
  toLower_invariant (by decide +kernel) c

@[simp] theorem upperChar_toLower (c : Char) : upperChar c.toLower = upperChar c :=
  toLower_invariant (by decide +kernel) c

@[simp] theorem isKeywordChar_toLower (c : Char) : isKeywordChar c.toLower = isKeywordChar c := by
  rw [isKeywordChar, isKeywordChar, upperChar_toLower]

theorem toLower_eq_self (h : isLetter c = false) : c.toLower = c := by
  rcases Nat.lt_or_ge c.toNat 128 with hc | hc
  · have : (isLetter c || c.toLower = c) = true :=
      ascii_forall (p := fun c => isLetter c || c.toLower = c) (by decide +kernel) hc
    simpa [h] using this
  · exact toLower_of_wide hc

theorem toLower_eq_iff {x : Char} (hx : isLetter x = false) : c.toLower = x ↔ c = x := by
  cases hc : isLetter c with
  | false => rw [toLower_eq_self hc]
  | true =>
    constructor
    · rintro rfl
      rw [isLetter_toLower, hc] at hx
      cases hx
    · rintro rfl
      rw [hc] at hx
      cases hx

/-! ## Texts -/

@[simp] theorem asciiLower_nil : asciiLower [] = [] := rfl

@[simp] theorem asciiLower_cons (c : Char) (t : Text) :
    asciiLower (c :: t) = c.toLower :: asciiLower t := rfl

@[simp] theorem length_asciiLower (t : Text) : (asciiLower t).length = t.length := List.length_map _

@[simp] theorem asciiLower_append (t u : Text) :
    asciiLower (t ++ u) = asciiLower t ++ asciiLower u := List.map_append

theorem asciiLower_take (n : Nat) (t : Text) : (asciiLower t).take n = asciiLower (t.take n) :=
  List.map_take.symm

theorem asciiLower_drop (n : Nat) (t : Text) : (asciiLower t).drop n = asciiLower (t.drop n) :=
  List.map_drop.symm

theorem head?_asciiLower (t : Text) : (asciiLower t).head? = t.head?.map Char.toLower := List.head?_map

theorem head?_asciiLower_eq_iff {x : Char} (hx : isLetter x = false) :
    (asciiLower t).head? = some x ↔ t.head? = some x := by
  cases t with
  | nil => simp
  | cons c t => simp [toLower_eq_iff hx]

theorem tail_asciiLower (t : Text) : (asciiLower t).tail = asciiLower t.tail := List.map_tail.symm

theorem getLast?_asciiLower (t : Text) :
    (asciiLower t).getLast? = t.getLast?.map Char.toLower := List.getLast?_map

theorem getLast?_asciiLower_eq_iff {x : Char} (hx : isLetter x = false) :
    (asciiLower t).getLast? = some x ↔ t.getLast? = some x := by
  rw [getLast?_asciiLower]
  cases t.getLast? <;> simp [toLower_eq_iff hx]

theorem any_toLower {p : Char → Bool} (hp : ∀ c : Char, p c.toLower = p c) (o : Option Char) :
    (o.map Char.toLower).any p = o.any p := by
  cases o <;> simp [hp]

theorem takeWhile_asciiLower {p : Char → Bool} (hp : ∀ c : Char, p c.toLower = p c) (t : Text) :
    (asciiLower t).takeWhile p = asciiLower (t.takeWhile p) := by
  induction t with
  | nil => rfl
  | cons c t ih => cases h : p c <;> simp [hp, h, ih]

@[simp] theorem upper_asciiLower (t : Text) : upper (asciiLower t) = upper t := by
  induction t with
  | nil => rfl
  | cons c t ih => simp [ih]

@[simp] theorem isReserved_asciiLower (t : Text) : isReserved (asciiLower t) = isReserved t := by
  rw [isReserved, upper_asciiLower, isReserved]

/-! ## Layout -/

theorem startsComment_asciiLower (c : Char) (t : Text) :
    startsComment c.toLower (asciiLower t) = startsComment c t := by
  simp (disch := decide) only [startsComment, toLower_eq_iff, head?_asciiLower_eq_iff]

mutual

@[simp] theorem layoutLength_asciiLower : (t : Text) → layoutLength (asciiLower t) = layoutLength t
  | [] => rfl
  | c :: t => by
    rw [asciiLower_cons, layoutLength, layoutLength, isBlank_toLower, startsComment_asciiLower,
      layoutLength_asciiLower t, commentLength_asciiLower t]

theorem commentLength_asciiLower : (t : Text) → commentLength (asciiLower t) = commentLength t
  | [] => rfl
  | c :: t => by
    simp (disch := decide) only [asciiLower_cons, commentLength, toLower_eq_iff,
      layoutLength_asciiLower t, commentLength_asciiLower t]

end

/-! ## Tabs -/

theorem expandTabsFrom_asciiLower (column : Nat) (t : Text) :
    expandTabsFrom column (asciiLower t) = asciiLower (expandTabsFrom column t) := by
  induction t generalizing column with
  | nil => rfl
  | cons c t ih =>
    simp (disch := decide) only [asciiLower_cons, expandTabsFrom, toLower_eq_iff]
    split
    · rw [ih, asciiLower_append]
      simp [asciiLower]
    · split <;> rw [ih, asciiLower_cons]

/-! ## Scans -/

@[simp] theorem nameLength?_asciiLower (t : Text) : nameLength? (asciiLower t) = nameLength? t := by
  cases t with
  | nil => rfl
  | cons c t => simp [nameLength?, takeWhile_asciiLower isNameChar_toLower]

@[simp] theorem digitsLength_asciiLower (t : Text) : digitsLength (asciiLower t) = digitsLength t := by
  rw [digitsLength, digitsLength, takeWhile_asciiLower isDigit_toLower, length_asciiLower]

theorem signLength_cons (c : Char) (t : Text) :
    signLength (c :: t) = if c = '+' ∨ c = '-' then 1 else 0 := by
  unfold signLength
  split <;> simp_all

@[simp] theorem signLength_asciiLower (t : Text) : signLength (asciiLower t) = signLength t := by
  cases t with
  | nil => rfl
  | cons c t =>
    simp (disch := decide) only [asciiLower_cons, signLength_cons, toLower_eq_iff]

@[simp] theorem integerLength?_asciiLower (t : Text) :
    integerLength? (asciiLower t) = integerLength? t := by
  simp only [integerLength?, signLength_asciiLower, asciiLower_drop, digitsLength_asciiLower]

theorem placesLength_cons (c : Char) (t : Text) :
    placesLength (c :: t) = if c = '.' then digitsLength t + 1 else 0 := by
  unfold placesLength
  split <;> simp_all

@[simp] theorem placesLength_asciiLower (t : Text) : placesLength (asciiLower t) = placesLength t := by
  cases t with
  | nil => rfl
  | cons c t =>
    simp (disch := decide) only [asciiLower_cons, placesLength_cons, toLower_eq_iff,
      digitsLength_asciiLower]

@[simp] theorem exponentLength_asciiLower (t : Text) :
    exponentLength (asciiLower t) = exponentLength t := by
  cases t with
  | nil => rfl
  | cons c t =>
    have he : decide (c.toLower = 'e' ∨ c.toLower = 'E') = decide (c = 'e' ∨ c = 'E') :=
      toLower_invariant (f := fun c => decide (c = 'e' ∨ c = 'E')) (by decide +kernel) c
    simp only [asciiLower_cons, exponentLength, decide_eq_decide.1 he, integerLength?_asciiLower]

@[simp] theorem numberLength?_asciiLower (t : Text) :
    numberLength? (asciiLower t) = numberLength? t := by
  simp only [numberLength?, integerLength?_asciiLower, asciiLower_drop, placesLength_asciiLower,
    exponentLength_asciiLower]

theorem closingLength?_asciiLower {q : Char} (hq : isLetter q = false) (t : Text) :
    closingLength? q (asciiLower t) = closingLength? q t := by
  have hquote : ∀ c : Char, c.toLower = q ↔ c = q := fun c => toLower_eq_iff hq
  have hline : ∀ c : Char, c.toLower = '\n' ↔ c = '\n' := fun c => toLower_eq_iff (by decide)
  have hreturn : ∀ c : Char, c.toLower = '\r' ↔ c = '\r' := fun c => toLower_eq_iff (by decide)
  fun_induction closingLength? q t <;>
    simp_all only [asciiLower_nil, asciiLower_cons, closingLength?, if_true, if_false]

theorem comparisonLength?_cons (c : Char) (t : Text) : comparisonLength? (c :: t) =
    if (c = '!' ∨ c = '<' ∨ c = '>') ∧ t.head? = some '=' then some 2
    else if c = '=' ∨ c = '<' ∨ c = '>' then some 1
    else none := by
  have hhead : t.head? = some '=' ↔ ∃ u, t = '=' :: u := by cases t <;> simp
  unfold comparisonLength?
  split <;> simp_all

theorem comparisonLength?_asciiLower (t : Text) :
    comparisonLength? (asciiLower t) = comparisonLength? t := by
  cases t with
  | nil => rfl
  | cons c t =>
    simp (disch := decide) only [asciiLower_cons, comparisonLength?_cons, toLower_eq_iff,
      head?_asciiLower_eq_iff]

end Text

/-! ## Tokens -/

theorem keywordLength?_asciiLower (w : Text) (b : Option Char) (t : Text) :
    keywordLength? w (b.map Char.toLower) (Text.asciiLower t) = keywordLength? w b t := by
  simp only [keywordLength?, Text.asciiLower_take, Text.asciiLower_drop, Text.upper_asciiLower,
    Text.head?_asciiLower, Text.any_toLower Text.isKeywordChar_toLower]

theorem Token.length?_asciiLower {k : Token} (hk : k.isMark = true ∨ k.isValue = true)
    (b : Option Char) (t : Text) :
    k.length? (b.map Char.toLower) (Text.asciiLower t) = k.length? b t := by
  cases k with
  | keyword w => exact keywordLength?_asciiLower w b t
  | symbol s =>
    have hs := Text.head?_asciiLower_eq_iff (t := t)
      (sign_of_isMark (Text.isLetter · = false) (hk.resolve_right Bool.false_ne_true) (by decide))
    simp only [length?, hs]
  | comparison => exact Text.comparisonLength?_asciiLower t
  | word => exact Text.nameLength?_asciiLower t
  | plainName =>
    have hreserved : startsReserved (b.map Char.toLower) (Text.asciiLower t) = startsReserved b t := by
      simp only [startsReserved, keywordLength?_asciiLower]
    simp only [length?, hreserved, Text.nameLength?_asciiLower]
  | quoted q =>
    have hq : Text.isLetter q = false := by rcases quote_of_sorts hk with rfl | rfl <;> decide
    simp only [length?, Text.head?_asciiLower_eq_iff hq, Text.tail_asciiLower,
      Text.closingLength?_asciiLower hq]
  | number => exact Text.numberLength?_asciiLower t
  | integer => exact Text.integerLength?_asciiLower t
  | bindMarker =>
    simp (disch := decide) only [length?, Text.head?_asciiLower_eq_iff, Text.tail_asciiLower,
      Text.nameLength?_asciiLower]

end CqlCanon
