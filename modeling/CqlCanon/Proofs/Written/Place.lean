import CqlCanon.Proofs.Grammar.Call
import CqlCanon.Proofs.Written.Token

/-!
# Reading what was written

`c.At t` says that the text goes on with `t` where a token may be read. A text
spells a part of a statement if the part stands wherever the text does, up to
the end of it. Lists are spelled by their items with a separator between them.
-/

namespace CqlCanon

/-! ## Names -/

/-- A text that is a name, as it is read. -/
def Text.IsNameToken (t : Text) : Prop :=
  (Token.quoted '"').Whole t ∨ Identifier.isNameForm t = true ∧ isReserved t = false

/-- The items after the first come each after a separator. -/
theorem Text.intercalate_map_cons {α : Type} (sep : Text) (f : α → Text) (a : α) (as : List α) :
    List.intercalate sep ((a :: as).map f) = f a ++ as.flatMap fun b => sep ++ f b := by
  induction as generalizing a with
  | nil => simp
  | cons b as ih =>
    rw [List.map_cons, List.map_cons, List.intercalate_cons_cons, ← List.map_cons, ih]
    simp

namespace Cursor

/-! ## Where tokens are read -/

/-- The text goes on with `t` after the layout, and no word touches it there. -/
def At (c : Cursor) (t : Text) : Prop :=
  c.skip.rest = t ∧ c.skip.before.any Text.isKeywordChar = false

variable {c : Cursor} {t r : Text}

theorem at_of_blank (h : c.rest = ' ' :: t) (ht : layoutLength t = 0) : c.At t := by
  have : layoutLength c.rest = 1 := by simp [h, layoutLength, isBlank, ht]
  have hskip : c.skip = c.advance 1 := by rw [skip, this]
  rw [At, hskip]
  simp only [advance, h, List.drop_one, List.tail_cons, List.take_succ_cons, List.take_zero,
    List.getLast?_singleton, Option.some_or, Option.any_some, true_and]
  decide

theorem at_of_before (h : c.rest = t) (ht : layoutLength t = 0)
    (hb : c.before.any Text.isKeywordChar = false) : c.At t := by
  rw [At, skip_of_layoutLength (h ▸ ht)]
  exact ⟨h, hb⟩

theorem At.advance (h : c.At (t ++ r)) : (c.skip.advance t.length).rest = r := by
  simp [Cursor.advance, h.1]

/-- A token that ends where the text does is read, and what follows it is left. -/
theorem At.token?_of_length? {k : Token} (h : c.At (t ++ r))
    (hn : k.length? c.skip.before (t ++ r) = some t.length) :
    ∃ d, c.token? k = some (t, d) ∧ d.rest = r := by
  refine ⟨_, token?_eq_some_iff.2 ⟨t.length, ?_, ?_, rfl⟩, h.advance⟩
  · rwa [h.1]
  · rw [h.1, List.take_left]

theorem At.token? {k : Token} (h : c.At (t ++ r)) (hk : k.Plain) (ht : k.Whole t)
    (hr : r.Breaks) : ∃ d, c.token? k = some (t, d) ∧ d.rest = r :=
  h.token?_of_length? (ht.length?_append hk hr _)

theorem At.word (h : c.At (t ++ r)) (ht : Identifier.isNameForm t = true)
    (hr : r.Breaks ∨ r.head? = some '.') : ∃ d, c.token? .word = some (t, d) ∧ d.rest = r := by
  refine h.token?_of_length? (Text.nameLength?_append (Token.whole_word_iff.2 ht) ?_)
  rcases hr with hr | hr
  · exact hr.any_eq_false (by decide)
  · rw [hr]
    decide

theorem At.symbol? {s : Char} (h : c.At (s :: r)) : ∃ d, c.symbol? s = some d ∧ d.rest = r ∧
    d.before = some s := by
  refine ⟨_, symbol?_eq_some_iff.2 ⟨by rw [next, h.1]; rfl, rfl⟩, ?_, ?_⟩
  · simp [Cursor.advance, h.1]
  · simp [Cursor.advance, h.1]

theorem symbol?_of_rest {s : Char} (h : c.rest = s :: r) (hs : isBlank s = false ∧ s ≠ '-') :
    ∃ d, c.symbol? s = some d ∧ d.rest = r ∧ d.before = some s := by
  have : layoutLength c.rest = 0 := by
    rw [h]
    exact layoutLength_of_head hs
  have hskip := skip_of_layoutLength this
  refine ⟨_, symbol?_eq_some_iff.2 ⟨by rw [next, hskip, h]; rfl, rfl⟩, ?_, ?_⟩
  · simp [Cursor.advance, hskip, h]
  · simp [Cursor.advance, hskip, h]

theorem At.keyword? {w : String} (h : c.At (t ++ r)) (ht : Text.upper t = w.toList)
    (hlen : t.length = w.toList.length) (hr : r.head?.any Text.isKeywordChar = false) :
    ∃ d, c.keyword? w = some d ∧ d.rest = r := by
  refine ⟨_, keyword?_eq_some_iff.2 ⟨?_, h.2, ?_, rfl⟩, ?_⟩
  · rw [h.1, ← hlen, List.take_left, ht]
  · rwa [h.1, ← hlen, List.drop_left]
  · rw [← hlen]
    exact h.advance

/-- A word that is also a key word is that key word, unless its end leaves the reader stuck. -/
theorem upper_eq_of_keyword?_of_word {w : String} {d e : Cursor} (hw : c.keyword? w = some d)
    (hcap : w.toList.all Char.isUpper = true) (ht : c.token? .word = some (t, e))
    (he : ¬ e.Stuck) : Text.upper t = w.toList := by
  obtain ⟨hrest, hadv, -⟩ := token?_word ht
  obtain ⟨hu, -, -, hd⟩ := keyword?_eq_some_iff.1 hw
  rcases end_eq_of_keyword?_of_word hw hcap ht with h | h
  · have hlen : t.length = w.toList.length ∨ c.skip.rest.length ≤ t.length ∧
        c.skip.rest.length ≤ w.toList.length := by
      have := congrArg Cursor.position h
      rw [hadv, hd] at this
      simp only [Cursor.advance] at this
      omega
    rcases hlen with hlen | ⟨h1, h2⟩
    · rwa [hrest, ← hlen, List.take_left] at hu
    · rw [hrest, List.length_append] at h1 h2
      have hnil : e.rest = [] := List.eq_nil_of_length_eq_zero (by omega)
      rwa [hrest, hnil, List.append_nil, List.take_of_length_le (by omega)] at hu
  · exact absurd h he

theorem capital_of_mem_reservedWords : ∀ w ∈ reservedWords, w.all Char.isUpper = true := by decide

theorem not_stuck_of_rest (h : c.rest = r) (hr : r.Breaks ∨ r.head? = some '.') : ¬ c.Stuck := by
  rintro ⟨-, hs⟩
  rw [h] at hs
  rcases hr with hr | hr
  · rw [hr.any_eq_false (by decide)] at hs
    cases hs
  · rw [hr] at hs
    exact absurd hs (by decide)

/-- A word is a plain name if it is not reserved. -/
theorem plainName_of_word {d : Cursor} (h : c.token? .word = some (t, d)) (hd : ¬ d.Stuck)
    (ht : isReserved t = false) : c.token? .plainName = some (t, d) := by
  obtain ⟨n, hn, hrest, hadv⟩ := token?_eq_some_iff.1 h
  refine token?_eq_some_iff.2 ⟨n, ?_, hrest, hadv⟩
  have : startsReserved c.skip.before c.skip.rest = false := by
    rw [startsReserved, List.any_eq_false]
    intro w hw hk
    obtain ⟨m, hm⟩ := Option.isSome_iff_exists.1 hk
    have hkey : c.keyword? (String.ofList w) = some (c.skip.advance m) := by
      simp [keyword?, pass?, token?, Token.length?, hm]
    have := upper_eq_of_keyword?_of_word hkey
      (by simpa using capital_of_mem_reservedWords w hw) h hd
    rw [isReserved, this, String.toList_ofList] at ht
    simp [hw] at ht
  simp only [Token.length?, this]
  exact hn

theorem At.name (h : c.At (t ++ r)) (ht : t.IsNameToken) (hr : r.Breaks ∨ r.head? = some '.') :
    ∃ d, t.StandsAsName c d ∧ d.rest = r := by
  rcases ht with ht | ⟨ht, hres⟩
  · have hq : r.head? ≠ some '"' := by
      rcases hr with hr | hr
      · exact hr.head_ne (by decide)
      · simp [hr]
    obtain ⟨d, hd, hrest⟩ := h.token?_of_length? (ht.quoted_append hq _)
    exact ⟨d, .inl hd, hrest⟩
  · obtain ⟨d, hd, hrest⟩ := h.word ht hr
    exact ⟨d, .inr (plainName_of_word hd (not_stuck_of_rest hrest hr) hres), hrest⟩

/-! ## Parts of a statement -/

/-- The text spells a part: wherever it is followed by what breaks tokens off, the part stands. -/
structure Spells (stands : Cursor → Cursor → Prop) (t : Text) : Prop where
  solid : ∀ r, layoutLength (t ++ r) = 0
  stands_at : ∀ {c : Cursor} {r : Text}, c.At (t ++ r) → r.Breaks → ∃ d, stands c d ∧ d.rest = r

/-- The text is read as a separator before anything that is not layout. -/
structure Separates (separator : Cursor → Option Cursor) (t : Text) : Prop where
  breaks : ∀ r, Text.Breaks (t ++ r)
  read : ∀ {c : Cursor} {r : Text}, c.rest = t ++ r → layoutLength r = 0 →
    ∃ d, separator c = some d ∧ d.At r

theorem comma_separates : Separates (symbol? ',') ", ".toList where
  breaks r := Text.Breaks.cons (x := ',') (t := ' ' :: r) (by simp)
  read {c r} h hr := by
    obtain ⟨d, hd, hrest, -⟩ := symbol?_of_rest (s := ',') (r := ' ' :: r) h (by decide)
    exact ⟨d, hd, at_of_blank hrest hr⟩

section Lists

variable {α β : Type} {separator : Cursor → Option Cursor} {sep : Text}
  {stands : β → Cursor → Cursor → Prop} {f : α → Text} {g : α → β}

theorem breaks_flatMap (hsep : ∀ r, Text.Breaks (sep ++ r)) (f : α → Text) (as : List α) {r : Text}
    (hr : r.Breaks) : Text.Breaks (as.flatMap (fun a => sep ++ f a) ++ r) := by
  cases as with
  | nil => exact hr
  | cons a as =>
    rw [List.flatMap_cons, List.append_assoc, List.append_assoc]
    exact hsep _

theorem more_spells (hsep : Separates separator sep) {as : List α}
    (h : ∀ a ∈ as, Spells (stands (g a)) (f a)) {c : Cursor} {r : Text}
    (hc : c.rest = as.flatMap (fun a => sep ++ f a) ++ r) (hr : r.Breaks) :
    ∃ d, MoreStand separator stands (as.map g) c d ∧ d.rest = r := by
  induction as generalizing c with
  | nil => exact ⟨c, rfl, hc⟩
  | cons a as ih =>
    have ha := h a (by simp)
    rw [List.flatMap_cons, List.append_assoc, List.append_assoc] at hc
    obtain ⟨d, hd, hat⟩ := hsep.read hc (ha.solid _)
    obtain ⟨e, he, hrest⟩ := ha.stands_at hat (breaks_flatMap hsep.breaks f as hr)
    obtain ⟨k, hk, hkrest⟩ := ih (fun b hb => h b (by simp [hb])) hrest
    exact ⟨k, ⟨d, e, hd, he, hk⟩, hkrest⟩

theorem sequence_spells (hsep : Separates separator sep) {as : List α} (hne : as ≠ [])
    (h : ∀ a ∈ as, Spells (stands (g a)) (f a)) :
    Spells (SequenceStands separator stands (as.map g)) (List.intercalate sep (as.map f)) := by
  obtain ⟨a, as, rfl⟩ := List.exists_cons_of_ne_nil hne
  have ha := h a (by simp)
  rw [Text.intercalate_map_cons]
  refine ⟨fun r => ?_, fun {c r} hc hr => ?_⟩
  · rw [List.append_assoc]
    exact ha.solid _
  · rw [List.append_assoc] at hc
    obtain ⟨d, hd, hrest⟩ := ha.stands_at hc (breaks_flatMap hsep.breaks f as hr)
    obtain ⟨e, he, herest⟩ := more_spells hsep (fun b hb => h b (by simp [hb])) hrest hr
    exact ⟨e, ⟨d, hd, he⟩, herest⟩

theorem items_spells {as : List α} (h : ∀ a ∈ as, Spells (stands (g a)) (f a)) {c : Cursor}
    {r : Text} (hc : c.rest = List.intercalate ", ".toList (as.map f) ++ ')' :: r)
    (hb : c.before = some '(') :
    ∃ d e, ItemsStand stands (as.map g) c d ∧ d.symbol? ')' = some e ∧ e.rest = r := by
  cases as with
  | nil =>
    obtain ⟨e, he, hrest, -⟩ := symbol?_of_rest (s := ')') (r := r) hc (by decide)
    exact ⟨c, e, rfl, he, hrest⟩
  | cons a as =>
    have hs := sequence_spells comma_separates (List.cons_ne_nil a as) h
    have hat := at_of_before hc (hs.solid _) (by rw [hb]; decide)
    obtain ⟨d, hd, hrest⟩ := hs.stands_at hat (.cons (by simp))
    obtain ⟨e, he, herest, -⟩ := symbol?_of_rest hrest (by decide)
    exact ⟨d, e, hd, he, herest⟩

end Lists

end Cursor

end CqlCanon
