import CqlCanon.Proofs.Lexeme.Quoted

/-!
# Spacing outside quotes

A text is looked at without what stands inside its quotes. It is solid if blanks
stand singly in it, neither at its ends nor inside parentheses, and no comment
starts in it. Solid texts may be put together with separators, and are neat if
they are on one line.
-/

namespace CqlCanon

open Cursor Lexeme

/-! ## Outside quotes -/

namespace Text

/-- The text without what stands inside its quotes. The quotes are kept. -/
def hollow : Text → Text
  | [] => []
  | x :: t =>
    if x = '"' ∨ x = '\'' then
      match closingLength? x t with
      | some n => x :: x :: hollow (t.drop n)
      | none => x :: hollow t
    else x :: hollow t
termination_by t => t.length
decreasing_by
  · simp only [List.length_drop, List.length_cons]
    omega
  · simp
  · simp

/-- The characters may be neighbours outside quotes. -/
def Beside (x y : Char) : Prop :=
  ¬ (x = '-' ∧ y = '-') ∧ ¬ (x = ' ' ∧ y = ' ') ∧ ¬ (x = '(' ∧ y = ' ') ∧ ¬ (x = ' ' ∧ y = ')')

instance (x y : Char) : Decidable (Beside x y) := inferInstanceAs (Decidable (_ ∧ _))

/-- All neighbours may be, and there is no semicolon. -/
def Spaced (t : Text) : Prop := t.IsChain Beside ∧ ';' ∉ t

/-- The text is spaced, and stays so when blanks come before or after it. -/
structure Solid (t : Text) : Prop where
  spaced : t.Spaced
  first : ∃ x, t.head? = some x ∧ x ≠ ' ' ∧ x ≠ ')'
  last : ∃ x, t.getLast? = some x ∧ x ≠ ' ' ∧ x ≠ '(' ∧ x ≠ '-'

/-- No comment starts in the text, and blanks stand singly between words. -/
structure Tidy (t : Text) : Prop where
  comment : ¬ ['-', '-'] <:+: t
  semicolon : ';' ∉ t
  blanks : ¬ [' ', ' '] <:+: t
  first : t.head? ≠ some ' '
  last : t.getLast? ≠ some ' '
  opened : ¬ ['(', ' '] <:+: t
  closed : ¬ [' ', ')'] <:+: t

/-- The text may stand between solid ones. -/
structure Separator (t : Text) : Prop where
  spaced : t.Spaced
  first : ∃ x, t.head? = some x ∧ x ≠ '-' ∧ x ≠ ')'
  last : ∃ x, t.getLast? = some x ∧ x ≠ '(' ∧ x ≠ '-'

instance (o : Option Char) (p : Char → Prop) [DecidablePred p] :
    Decidable (∃ x, o = some x ∧ p x) :=
  decidable_of_iff (o.any (fun x => decide (p x)) = true) (by simp [Option.any_eq_true])

instance (t : Text) : Decidable t.Spaced := inferInstanceAs (Decidable (_ ∧ _))

instance (t : Text) : Decidable t.Solid :=
  decidable_of_iff (t.Spaced ∧ (∃ x, t.head? = some x ∧ x ≠ ' ' ∧ x ≠ ')') ∧
      ∃ x, t.getLast? = some x ∧ x ≠ ' ' ∧ x ≠ '(' ∧ x ≠ '-')
    ⟨fun h => ⟨h.1, h.2.1, h.2.2⟩, fun h => ⟨h.spaced, h.first, h.last⟩⟩

instance (t : Text) : Decidable t.Separator :=
  decidable_of_iff (t.Spaced ∧ (∃ x, t.head? = some x ∧ x ≠ '-' ∧ x ≠ ')') ∧
      ∃ x, t.getLast? = some x ∧ x ≠ '(' ∧ x ≠ '-')
    ⟨fun h => ⟨h.1, h.2.1, h.2.2⟩, fun h => ⟨h.spaced, h.first, h.last⟩⟩

variable {t u r : Text} {x y : Char}

theorem Solid.tidy (h : t.Solid) : t.Tidy := by
  have chain : ∀ {x y : Char}, [x, y] <:+: t → Beside x y := by
    rintro x y ⟨u, r, rfl⟩
    exact (List.isChain_cons_cons.1 h.spaced.1.left_of_append.right_of_append).1
  obtain ⟨x, hx, hfirst, -⟩ := h.first
  obtain ⟨y, hy, hlast, -⟩ := h.last
  refine ⟨fun hc => (chain hc).1 ⟨rfl, rfl⟩, h.spaced.2, fun hb => (chain hb).2.1 ⟨rfl, rfl⟩, ?_, ?_,
    fun ho => (chain ho).2.2.1 ⟨rfl, rfl⟩, fun hc => (chain hc).2.2.2 ⟨rfl, rfl⟩⟩
  · rw [hx]
    exact fun e => hfirst (Option.some.inj e)
  · rw [hy]
    exact fun e => hlast (Option.some.inj e)

theorem beside_of_last (hx : x ≠ ' ' ∧ x ≠ '(' ∧ x ≠ '-') (y : Char) : Beside x y := by
  simp [Beside, hx]

theorem beside_of_first (hx : x ≠ '(' ∧ x ≠ '-') (hy : y ≠ ' ' ∧ y ≠ ')') : Beside x y := by
  simp [Beside, hx, hy]

theorem Spaced.append (ht : t.Spaced) (hu : u.Spaced)
    (h : ∀ x ∈ t.getLast?, ∀ y ∈ u.head?, Beside x y) : (t ++ u).Spaced :=
  ⟨ht.1.append hu.1 h, by simp [ht.2, hu.2]⟩

theorem Solid.append_separator (ht : t.Solid) (hu : u.Separator) :
    (t ++ u).Spaced ∧ (∃ x, (t ++ u).head? = some x ∧ x ≠ ' ' ∧ x ≠ ')') ∧
      ∃ x, (t ++ u).getLast? = some x ∧ x ≠ '(' ∧ x ≠ '-' := by
  obtain ⟨x, hx, hfirst⟩ := ht.first
  obtain ⟨y, hy, hlast⟩ := hu.last
  obtain ⟨z, hz, hz'⟩ := ht.last
  refine ⟨ht.spaced.append hu.spaced fun a ha b _ => ?_, ⟨x, by simp [hx], hfirst⟩,
    y, by simp [hy], hlast⟩
  obtain rfl : z = a := by simpa [hz] using ha
  exact beside_of_last hz' b

theorem Solid.between {sep : Text} (ht : t.Solid) (hsep : sep.Separator) (hu : u.Solid) :
    (t ++ (sep ++ u)).Solid := by
  obtain ⟨hspaced, ⟨x, hx, hfirst⟩, y, hy, hlast⟩ := ht.append_separator hsep
  obtain ⟨z, hz, hz'⟩ := hu.first
  obtain ⟨w, hw, hw'⟩ := hu.last
  rw [← List.append_assoc]
  refine ⟨hspaced.append hu.spaced fun a ha b hb => ?_, ⟨x, by rw [List.head?_append, hx]; rfl, hfirst⟩,
    w, by simp [hw], hw'⟩
  obtain rfl : y = a := by simpa [hy] using ha
  obtain rfl : z = b := by simpa [hz] using hb
  exact beside_of_first hlast hz'

theorem Solid.parens (h : t = [] ∨ t.Solid) : Solid ('(' :: (t ++ [')'])) := by
  have closed : t.Solid → Solid ('(' :: (t ++ [')'])) := by
    intro ht
    obtain ⟨x, hx, hfirst⟩ := ht.first
    obtain ⟨y, hy, hlast⟩ := ht.last
    have hopen : Spaced ('(' :: t) := by
      refine Spaced.append (t := ['(']) ⟨.singleton _, by decide⟩ ht.spaced fun a ha b hb => ?_
      obtain rfl : '(' = a := by simpa using ha
      obtain rfl : x = b := by simpa [hx] using hb
      simp [Beside, hfirst]
    refine ⟨hopen.append (u := [')']) ⟨.singleton _, by decide⟩ fun a ha b _ => ?_,
      ⟨'(', rfl, by decide⟩, ')', ?_, by decide⟩
    · have : ('(' :: t).getLast? = some y := by rw [List.getLast?_cons, hy]; rfl
      obtain rfl : y = a := by simpa [this] using ha
      exact beside_of_last hlast b
    · rw [← List.cons_append, List.getLast?_concat]
  rcases h with rfl | h
  · exact ⟨⟨by decide, by decide⟩, ⟨'(', rfl, by decide⟩, ')', rfl, by decide⟩
  · exact closed h

theorem Solid.append (ht : t.Solid) (hu : u.Solid) : (t ++ u).Solid := by
  obtain ⟨x, hx, hfirst⟩ := ht.first
  obtain ⟨y, hy, hlast⟩ := ht.last
  obtain ⟨z, hz, hz'⟩ := hu.last
  refine ⟨ht.spaced.append hu.spaced fun a ha b _ => ?_, ⟨x, by simp [hx], hfirst⟩, z, by simp [hz], hz'⟩
  obtain rfl : y = a := by simpa [hy] using ha
  exact beside_of_last hlast b

/-! ## Inert texts -/

theorem spaced_of_inert (h : inert t = true) (hsemi : ';' ∉ t) : t.Spaced := by
  refine ⟨?_, hsemi⟩
  clear hsemi
  induction t with
  | nil => exact .nil
  | cons x t ih =>
    obtain ⟨hblank, -, -, -, -, hdash, ht⟩ := inert_cons.1 h
    refine List.isChain_cons.2 ⟨fun y hy => ?_, ih ht⟩
    have hx : x ≠ ' ' := by rintro rfl; cases hblank
    have hy' : y ≠ ' ' := by
      rintro rfl
      cases t with
      | nil => cases hy
      | cons z t =>
        obtain rfl : z = ' ' := by simpa using hy
        cases (inert_cons.1 ht).1
    have hdd : ¬ (x = '-' ∧ y = '-') := by
      rintro ⟨rfl, rfl⟩
      rw [Option.mem_def] at hy
      simp [hy] at hdash
    simp [Beside, hx, hy', hdd]

theorem last_of_inert (h : inert t = true) (hne : t ≠ []) : ∃ x, t.getLast? = some x ∧ x ≠ ' ' ∧ x ≠ '-' := by
  induction t with
  | nil => exact absurd rfl hne
  | cons x t ih =>
    obtain ⟨hblank, -, -, -, -, hdash, ht⟩ := inert_cons.1 h
    cases t with
    | nil =>
      refine ⟨x, rfl, ?_, hdash.resolve_right (by simp)⟩
      rintro rfl
      cases hblank
    | cons y t =>
      obtain ⟨z, hz, hz'⟩ := ih ht (by simp)
      exact ⟨z, by rw [List.getLast?_cons, hz]; rfl, hz'⟩

/-- An inert text without parentheses and semicolons. -/
theorem solid_of_inert (h : inert t = true) (hne : t ≠ [])
    (hsign : ∀ x ∈ t, x ≠ '(' ∧ x ≠ ')' ∧ x ≠ ';') : t.Solid := by
  obtain ⟨y, hy, hlast⟩ := last_of_inert h hne
  refine ⟨spaced_of_inert h fun hs => (hsign _ hs).2.2 rfl, ?_,
    y, hy, hlast.1, (hsign y (List.mem_of_getLast? hy)).1, hlast.2⟩
  cases t with
  | nil => exact absurd rfl hne
  | cons x t =>
    refine ⟨x, rfl, ?_, (hsign x (by simp)).2.1⟩
    rintro rfl
    cases (inert_cons.1 h).1

theorem sign_of_isNameChar (h : isNameChar x = true) : x ≠ '(' ∧ x ≠ ')' ∧ x ≠ ';' := by
  refine ⟨?_, ?_, ?_⟩ <;> rintro rfl <;> cases h

/-- The characters of numbers. -/
def isNumberChar (x : Char) : Bool := isDigit x || x = '+' || x = '-' || x = '.' || x = 'e' || x = 'E'

theorem sign_of_isNumberChar (h : isNumberChar x = true) : x ≠ '(' ∧ x ≠ ')' ∧ x ≠ ';' := by
  refine ⟨?_, ?_, ?_⟩ <;> rintro rfl <;> exact absurd h (by decide +kernel)

theorem isNumberChar_of_isDigit (h : isDigit x = true) : isNumberChar x = true := by
  simp [isNumberChar, h]

theorem isNumberChar_of_integerLength? {n : Nat} (h : integerLength? t = some n) :
    ∀ x ∈ t.take n, isNumberChar x = true := by
  intro x hx
  rcases mem_of_integerLength? h x hx with rfl | rfl | hx
  · rfl
  · rfl
  · exact isNumberChar_of_isDigit hx

theorem isNumberChar_of_numberLength? {n : Nat} (h : numberLength? t = some n) :
    ∀ x ∈ t.take n, isNumberChar x = true := by
  obtain ⟨m, hm, rfl⟩ := numberLength?_eq_some_iff.1 h
  intro x hx
  rw [List.take_add, List.take_add, List.mem_append, List.mem_append] at hx
  rcases hx with (hx | hx) | hx
  · exact isNumberChar_of_integerLength? hm x hx
  · generalize t.drop m = u at hx
    unfold placesLength at hx
    split at hx
    · rw [List.take_succ_cons, List.mem_cons] at hx
      rcases hx with rfl | hx
      · rfl
      · exact isNumberChar_of_isDigit (isDigit_of_mem_take hx)
    · simp at hx
  · generalize t.drop (m + placesLength (t.drop m)) = u at hx
    unfold exponentLength at hx
    split at hx
    · split at hx
      · rename_i y v he
        cases hi : integerLength? v with
        | none => simp [hi] at hx
        | some k =>
          rw [hi, Option.map_some, Option.getD_some, List.take_succ_cons, List.mem_cons] at hx
          rcases hx with rfl | hx
          · rcases he with rfl | rfl <;> rfl
          · exact isNumberChar_of_integerLength? hi x hx
      · simp at hx
    · simp at hx

/-! ## Texts with quotes in them -/

@[simp] theorem hollow_nil : hollow [] = [] := by rw [hollow]

theorem hollow_append_of_unquoted (h : t.Unquoted) (r : Text) :
    hollow (t ++ r) = t ++ hollow r := by
  induction t with
  | nil => rfl
  | cons x t ih =>
    obtain ⟨h1, h2⟩ := h
    simp only [List.mem_cons, not_or] at h1 h2
    have hx : ¬ (x = '"' ∨ x = '\'') := not_or.2 ⟨Ne.symm h1.1, Ne.symm h2.1⟩
    rw [List.cons_append, hollow, if_neg hx, ih ⟨h1.2, h2.2⟩, List.cons_append]

theorem hollow_append_of_whole {q : Char} (hq : q = '"' ∨ q = '\'')
    (h : (Token.quoted q).Whole t) (hr : r.head? ≠ some q) :
    hollow (t ++ r) = q :: q :: hollow r := by
  obtain ⟨u, rfl, hu⟩ := h.quoted_cons
  rw [List.cons_append, hollow, if_pos hq, closingLength?_append hu hr]
  simp

/-- The text has no ends of lines, and is solid outside its quotes, none of which goes on after
it. -/
structure Neat (t : Text) : Prop where
  hollow_append : ∀ r : Text, r.head? ≠ some '"' → r.head? ≠ some '\'' →
    hollow (t ++ r) = hollow t ++ hollow r
  solid : (hollow t).Solid
  line : '\n' ∉ t ∧ '\r' ∉ t

theorem hollow_of_unquoted (h : t.Unquoted) : hollow t = t := by
  have := hollow_append_of_unquoted h []
  rwa [List.append_nil, hollow_nil, List.append_nil] at this

theorem Neat.of_unquoted (h : t.Unquoted) (hsolid : t.Solid) (hline : '\n' ∉ t ∧ '\r' ∉ t) :
    t.Neat where
  hollow_append r _ _ := by rw [hollow_append_of_unquoted h, hollow_of_unquoted h]
  solid := by rwa [hollow_of_unquoted h]
  line := hline

theorem line_of_inert (h : inert t = true) : '\n' ∉ t ∧ '\r' ∉ t := by
  induction t with
  | nil => simp
  | cons x t ih =>
    obtain ⟨hblank, -, -, -, -, -, ht⟩ := inert_cons.1 h
    have hx : x ≠ '\n' ∧ x ≠ '\r' := by constructor <;> rintro rfl <;> cases hblank
    simp [ih ht, Ne.symm hx.1, Ne.symm hx.2]

theorem Neat.of_inert (h : inert t = true) (hne : t ≠ [])
    (hsign : ∀ x ∈ t, x ≠ '(' ∧ x ≠ ')' ∧ x ≠ ';') : t.Neat :=
  .of_unquoted (unquoted_of_inert h) (solid_of_inert h hne hsign) (line_of_inert h)

theorem Neat.of_number (h : inert t = true) (hne : t ≠ [])
    (hnumber : ∀ x ∈ t, isNumberChar x = true) : t.Neat :=
  .of_inert h hne fun x hx => sign_of_isNumberChar (hnumber x hx)

theorem Neat.of_whole {q : Char} (hq : q = '"' ∨ q = '\'') (h : (Token.quoted q).Whole t) :
    t.Neat := by
  have hollow_eq : hollow t = [q, q] := by
    have := hollow_append_of_whole hq h (r := []) (by simp)
    rwa [List.append_nil, hollow_nil] at this
  refine ⟨fun r h1 h2 => ?_, ?_, ?_⟩
  · rw [hollow_append_of_whole hq h (by rcases hq with rfl | rfl <;> assumption), hollow_eq]
    rfl
  · rw [hollow_eq]
    rcases hq with rfl | rfl <;>
      exact ⟨⟨by decide, by decide⟩, ⟨_, rfl, by decide⟩, _, rfl, by decide⟩
  · obtain ⟨u, rfl, hu⟩ := h.quoted_cons
    have hline := line_not_mem_of_closingLength? hu (by rcases hq with rfl | rfl <;> decide)
    rw [List.take_length] at hline
    rcases hq with rfl | rfl <;> simpa using hline

theorem Neat.of_nameForm (h : Identifier.isNameForm t = true) : t.Neat := by
  obtain ⟨x, u, rfl, -⟩ := nameForm_head h
  exact .of_inert (inert_of_isNameChar (isNameChar_of_nameForm h)) (by simp)
    fun x hx => sign_of_isNameChar (isNameChar_of_nameForm h x hx)

theorem Neat.name (h : t.IsNameToken) : t.Neat := by
  rcases h with h | ⟨h, -⟩
  · exact .of_whole (.inl rfl) h
  · exact .of_nameForm h

/-- A separator without quotes and ends of lines. -/
structure Divides (sep : Text) : Prop where
  separator : sep.Separator
  unquoted : sep.Unquoted
  line : '\n' ∉ sep ∧ '\r' ∉ sep

theorem Neat.between {sep : Text} (ht : t.Neat) (hsep : sep.Divides) (hu : u.Neat) :
    (t ++ (sep ++ u)).Neat := by
  obtain ⟨x, hx, -⟩ := hsep.separator.first
  have hhead : ∀ r : Text, (sep ++ r).head? ≠ some '"' ∧ (sep ++ r).head? ≠ some '\'' := by
    intro r
    rw [List.head?_append, hx]
    constructor <;> rintro h
    · obtain rfl : x = '"' := by simpa using h
      exact hsep.unquoted.1 (List.mem_of_mem_head? hx)
    · obtain rfl : x = '\'' := by simpa using h
      exact hsep.unquoted.2 (List.mem_of_mem_head? hx)
  have hollow_eq : hollow (t ++ (sep ++ u)) = hollow t ++ (sep ++ hollow u) := by
    rw [ht.hollow_append _ (hhead u).1 (hhead u).2, hollow_append_of_unquoted hsep.unquoted]
  refine ⟨fun r h1 h2 => ?_, ?_, ?_⟩
  · rw [hollow_eq, List.append_assoc, List.append_assoc,
      ht.hollow_append _ (hhead _).1 (hhead _).2, hollow_append_of_unquoted hsep.unquoted,
      hu.hollow_append r h1 h2, List.append_assoc, List.append_assoc]
  · rw [hollow_eq]
    exact ht.solid.between hsep.separator hu.solid
  · simp [ht.line, hsep.line, hu.line]

theorem Neat.intercalate {sep : Text} (hsep : sep.Divides) :
    {ts : List Text} → ts ≠ [] → (∀ t ∈ ts, t.Neat) → Neat (List.intercalate sep ts)
  | [], hne, _ => absurd rfl hne
  | [t], _, h => List.intercalate_singleton.symm ▸ h t (by simp)
  | t :: u :: ts, _, h => by
    rw [List.intercalate_cons_cons, List.append_assoc]
    exact (h t (by simp)).between hsep (.intercalate hsep (by simp) fun v hv => h v (by simp [hv]))

theorem Neat.parens {ts : List Text} (h : ∀ t ∈ ts, t.Neat) :
    Neat ('(' :: (List.intercalate ", ".toList ts ++ [')'])) := by
  have body : List.intercalate ", ".toList ts = [] ∨ Neat (List.intercalate ", ".toList ts) := by
    cases ts with
    | nil => exact .inl rfl
    | cons t ts => exact .inr (.intercalate ⟨by decide, by decide, by decide⟩ (by simp) h)
  generalize List.intercalate ", ".toList ts = u at body ⊢
  have hollow_body : ∀ r : Text, hollow (u ++ ')' :: r) = hollow u ++ ')' :: hollow r := by
    intro r
    have close : hollow (')' :: r) = ')' :: hollow r := hollow_append_of_unquoted (t := [')']) (by decide) r
    rcases body with rfl | hu
    · simp [close]
    · rw [hu.hollow_append _ (by simp) (by simp), close]
  have hollow_eq : ∀ r : Text,
      hollow ('(' :: (u ++ [')']) ++ r) = '(' :: (hollow u ++ [')']) ++ hollow r := by
    intro r
    have opened := hollow_append_of_unquoted (t := ['(']) (by decide) (u ++ ')' :: r)
    simpa [hollow_body] using opened
  have hollow_self : hollow ('(' :: (u ++ [')'])) = '(' :: (hollow u ++ [')']) := by
    simpa using hollow_eq []
  refine ⟨fun r _ _ => by rw [hollow_eq, hollow_self], ?_, ?_⟩
  · rw [hollow_self]
    exact .parens (body.imp (fun hu => by rw [hu, hollow_nil]) Neat.solid)
  · rcases body with rfl | hu
    · decide
    · simp [hu.line]

theorem Neat.append_parens {f : Text} {ts : List Text} (hf : Identifier.isNameForm f = true)
    (h : ∀ t ∈ ts, t.Neat) : (f ++ '(' :: (List.intercalate ", ".toList ts ++ [')'])).Neat := by
  have hname := Neat.of_nameForm hf
  have hparens := Neat.parens h
  generalize List.intercalate ", ".toList ts = u at hparens ⊢
  have hollow_eq : hollow (f ++ '(' :: (u ++ [')'])) = hollow f ++ hollow ('(' :: (u ++ [')'])) :=
    hname.hollow_append _ (by simp) (by simp)
  refine ⟨fun r h1 h2 => ?_, ?_, ?_⟩
  · rw [hollow_eq, List.append_assoc, List.append_assoc, ← hparens.hollow_append r h1 h2]
    exact hname.hollow_append _ (by simp) (by simp)
  · rw [hollow_eq]
    exact hname.solid.append hparens.solid
  · exact ⟨by simp only [List.mem_append, hname.line.1, hparens.line.1, or_self, not_false_eq_true],
      by simp only [List.mem_append, hname.line.2, hparens.line.2, or_self, not_false_eq_true]⟩

end Text

end CqlCanon
