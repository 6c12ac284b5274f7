import CqlCanon.Proofs.Canonical

/-!
# Calls inside longer texts

A call that is read from a text of its own is read from every longer text that
starts with it. It ends with a closing parenthesis, so what comes after it does
not matter; each argument is followed by a comma or a parenthesis in both
texts.
-/

namespace CqlCanon

open Cursor

/-! ## Layout -/

mutual

/-- Layout ends where it did when the text goes on, unless a comment could start there. -/
theorem layoutLength_append (r : Text) : (t : Text) → t.drop (layoutLength t) ≠ [] →
    t.drop (layoutLength t) ≠ ['-'] → layoutLength (t ++ r) = layoutLength t
  | [], h, _ => absurd rfl h
  | c :: t, h, hm => by
    rw [layoutLength] at h hm
    rw [List.cons_append, layoutLength, layoutLength]
    split
    · rename_i hc
      simp only [hc, if_true, List.drop_succ_cons] at h hm
      rw [layoutLength_append r t h hm]
    · rename_i hb
      have hstart : startsComment c (t ++ r) = startsComment c t := by
        cases t with
        | nil =>
          have : c ≠ '-' := by
            rintro rfl
            simp [isBlank, startsComment] at hm
          simp [startsComment, this]
        | cons y t => rfl
      rw [hstart]
      split
      · rename_i hc
        simp only [hb, hc, Bool.false_eq_true, if_false, if_true, List.drop_succ_cons] at h hm
        rw [commentLength_append r t h hm]
      · rfl

theorem commentLength_append (r : Text) : (t : Text) → t.drop (commentLength t) ≠ [] →
    t.drop (commentLength t) ≠ ['-'] → commentLength (t ++ r) = commentLength t
  | [], h, _ => absurd rfl h
  | c :: t, h, hm => by
    rw [commentLength] at h hm
    rw [List.cons_append, commentLength, commentLength]
    split
    · rename_i hc
      simp only [hc, if_true, List.drop_succ_cons] at h hm
      rw [layoutLength_append r t h hm]
    · rename_i hc
      simp only [hc, if_false, List.drop_succ_cons] at h hm
      rw [commentLength_append r t h hm]

end

namespace Cursor

variable {c d c' : Cursor} {t r : Text}

theorem skip_rest_append (hc : c'.rest = c.rest ++ r) (hne : c.skip.rest ≠ [])
    (hm : c.skip.rest ≠ ['-']) : c'.skip.rest = c.skip.rest ++ r := by
  have hlen := layoutLength_append r c.rest hne hm
  simp only [skip, advance, hc, hlen]
  exact List.drop_append_of_le_length (layoutLength_le c.rest)

theorem at_append (hc : c'.rest = c.rest ++ r) (hfresh : c'.Fresh) (hne : c.skip.rest ≠ [])
    (hm : c.skip.rest ≠ ['-']) : c'.At (c.skip.rest ++ r) := by
  have hrest := skip_rest_append hc hne hm
  refine ⟨hrest, hfresh.skip ?_⟩
  rw [next, hrest]
  simp [hne]

/-! ## Tokens -/

theorem rest_ne_nil_of_next {x : Char} (h : c.next = some x) : c.rest ≠ [] := by
  intro hnil
  simp [next, skip, advance, hnil] at h

theorem token?_at_append {k : Token} (h : c.token? k = some (t, d)) (hk : k ≠ .keyword [])
    (hd : d.rest ≠ []) (hc : c'.rest = c.rest ++ r) (hfresh : c'.Fresh) :
    c'.At (c.skip.rest ++ r) := by
  have hsize : d.rest.length < c.skip.rest.length := token?_size_lt_skip h hk
  have hpos : 0 < d.rest.length := List.length_pos_iff.2 hd
  refine at_append hc hfresh ?_ ?_
  · intro e
    rw [e, List.length_nil] at hsize
    omega
  · intro e
    rw [e, List.length_singleton] at hsize
    omega

theorem symbol?_append {s : Char} (h : c.symbol? s = some d) (hs : s ≠ '-')
    (hc : c'.rest = c.rest ++ r) :
    ∃ d', c'.symbol? s = some d' ∧ d'.rest = d.rest ++ r ∧ d'.before = some s := by
  obtain ⟨u, hu, rfl⟩ := exists_of_symbol? h
  have hrest := skip_rest_append hc (by simp [hu]) (by simp [hu, hs])
  refine ⟨_, symbol?_eq_some_iff.2 ⟨?_, rfl⟩, ?_, ?_⟩
  · simp [next, hrest, hu]
  · simp [advance, hrest, hu]
  · simp [advance, hrest, hu]

/-- What a comma or a parenthesis follows is broken off there, and so it is in longer texts. -/
theorem breaks_append {x : Char} (h : d.next = some x) (hx : x = ',' ∨ x = '(' ∨ x = ')') (r : Text) :
    Text.Breaks (d.rest ++ r) := by
  intro y hy
  cases hr : d.rest with
  | nil => exact absurd hr (rest_ne_nil_of_next h)
  | cons z u =>
    obtain rfl : z = y := by simpa [hr] using hy
    by_cases hl : layoutLength d.rest = 0
    · rw [next, skip_of_layoutLength hl, hr, List.head?_cons] at h
      cases h
      rcases hx with rfl | rfl | rfl <;> simp
    · rw [hr, layoutLength] at hl
      split at hl
      · rename_i hb
        rcases eq_of_isBlank hb with rfl | rfl | rfl | rfl <;> simp
      · split at hl
        · rename_i hc
          simp only [startsComment, Bool.and_eq_true, decide_eq_true_eq] at hc
          simp [hc.1]
        · exact absurd rfl hl

end Cursor

theorem Argument.Ends.breaks {d : Cursor} (h : Argument.Ends d) (r : Text) :
    Text.Breaks (d.rest ++ r) := by
  rcases h with h | h
  · exact breaks_append h (.inl rfl) r
  · exact breaks_append h (.inr (.inr rfl)) r

theorem Argument.Ends.rest_ne_nil {d : Cursor} (h : Argument.Ends d) : d.rest ≠ [] := by
  rcases h with h | h <;> exact rest_ne_nil_of_next h

/-! ## Lists -/

namespace Cursor

/-- A part that stands in a text before a comma or a closing parenthesis stands wherever the text
goes on as it did. -/
def Persists (stands : Cursor → Cursor → Prop) : Prop :=
  ∀ {c d c' : Cursor} {r : Text}, stands c d → c.Fresh → Argument.Ends d →
    c'.rest = c.rest ++ r → c'.Fresh → ∃ d', stands c' d' ∧ d'.rest = d.rest ++ r

theorem Persists.of_token {k : Token} {t : Text} (hk : k.Plain) (hne : k ≠ .keyword []) :
    Persists (fun c d => c.token? k = some (t, d)) := by
  intro c d c' r h _ hd hc hfresh
  have hat := token?_at_append h hne hd.rest_ne_nil hc hfresh
  rw [token?_split h, List.append_assoc] at hat
  exact hat.token? hk (whole_of_token? hk h) (hd.breaks r)

section Lists

variable {α : Type} {stands : α → Cursor → Cursor → Prop} {c d c' : Cursor} {r : Text}

theorem MoreStand.persists {as : List α} (hitem : ∀ a ∈ as, Persists (stands a))
    (h : MoreStand (symbol? ',') stands as c d) (hd : Argument.Ends d)
    (hc : c'.rest = c.rest ++ r) :
    ∃ d', MoreStand (symbol? ',') stands as c' d' ∧ d'.rest = d.rest ++ r := by
  induction as generalizing c c' with
  | nil =>
    cases h
    exact ⟨c', rfl, hc⟩
  | cons a as ih =>
    obtain ⟨e, f, he, ha, hf⟩ := h
    have hends : Argument.Ends f := hf.start (fun _ _ hg => .inl (next_of_symbol? hg)) hd
    obtain ⟨e', he', hrest, hb⟩ := symbol?_append he (by decide) hc
    obtain ⟨f', hf', hfrest⟩ := hitem a (by simp) ha (fresh_of_symbol? he (by decide)) hends hrest
      (fresh_of_symbol? he' (by decide))
    obtain ⟨d', hd', hdrest⟩ := ih (fun b hb => hitem b (by simp [hb])) hf hfrest
    exact ⟨d', ⟨e', f', he', hf', hd'⟩, hdrest⟩

theorem ItemsStand.persists {as : List α} (hitem : ∀ a ∈ as, Persists (stands a))
    (h : ItemsStand stands as c d) (hfresh : c.Fresh) (hd : Argument.Ends d)
    (hc : c'.rest = c.rest ++ r) (hfresh' : c'.Fresh) :
    ∃ d', ItemsStand stands as c' d' ∧ d'.rest = d.rest ++ r := by
  cases as with
  | nil =>
    cases h
    exact ⟨c', rfl, hc⟩
  | cons a as =>
    obtain ⟨e, ha, hmore⟩ := h
    have hends : Argument.Ends e := hmore.start (fun _ _ hg => .inl (next_of_symbol? hg)) hd
    obtain ⟨e', he', hrest⟩ := hitem a (by simp) ha hfresh hends hc hfresh'
    obtain ⟨d', hd', hdrest⟩ := MoreStand.persists (fun b hb => hitem b (by simp [hb])) hmore hd hrest
    exact ⟨d', ⟨e', he', hd'⟩, hdrest⟩

end Lists

end Cursor

/-! ## Terms -/

theorem Constant.persists (k : Constant) : Persists k.Stands := by
  intro c d c' r h _ hd hc hfresh
  obtain ⟨t, ht⟩ := token?_of_pass? h
  have hat := token?_at_append ht (by cases k <;> decide) hd.rest_ne_nil hc hfresh
  obtain ⟨hu, -, -, rfl⟩ := keyword?_eq_some_iff.1 h
  have hlen : (c.skip.rest.take k.word.toList.length).length = k.word.toList.length := by
    have := hd.rest_ne_nil
    simp only [advance, ne_eq, List.drop_eq_nil_iff] at this
    rw [List.length_take]
    omega
  rw [← List.take_append_drop k.word.toList.length c.skip.rest, List.append_assoc] at hat
  exact hat.keyword? hu hlen ((hd.breaks r).any_eq_false (by decide))

theorem Term.persists (t : Term) : Persists t.Stands := by
  induction t using Term.induction with
  | number t => exact Persists.of_token (k := .number) trivial (by simp)
  | string t => exact Persists.of_token (k := .quoted '\'') (.inr rfl) (by simp)
  | positional =>
    intro c d c' r h _ _ hc _
    obtain ⟨d', hd', hrest, -⟩ := symbol?_append h (by decide) hc
    exact ⟨d', hd', hrest⟩
  | bind t => exact Persists.of_token (k := .bindMarker) trivial (by simp)
  | constant k => exact k.persists
  | list ts ih =>
    rintro c d c' r ⟨e, f, he, hts, hf⟩ - - hc -
    obtain ⟨e', he', hrest, -⟩ := symbol?_append he (by decide) hc
    obtain ⟨f', hf', hfrest⟩ := ItemsStand.persists ih (allStand_iff.1 hts)
      (fresh_of_symbol? he (by decide)) (.inr (next_of_symbol? hf)) hrest
      (fresh_of_symbol? he' (by decide))
    obtain ⟨d', hd', hdrest, -⟩ := symbol?_append hf (by decide) hfrest
    exact ⟨d', ⟨e', f', he', allStand_iff.2 hf', hd'⟩, hdrest⟩

/-! ## Calls -/

theorem Argument.name_persists (t : Text) : Persists (Argument.name t).Stands := by
  rintro c d c' r ⟨h, hk⟩ hfresh hd hc hfresh'
  obtain ⟨k, hkne, hsplit⟩ : ∃ k : Token, k ≠ .keyword [] ∧ c.token? k = some (t, d) := by
    rcases h with h | h
    · exact ⟨_, by simp, h⟩
    · exact ⟨_, by simp, h⟩
  have hat := token?_at_append hsplit hkne hd.rest_ne_nil hc hfresh'
  rw [token?_split hsplit, List.append_assoc] at hat
  have htoken := h.isNameToken (hfresh.skip h.next_ne_none) hd.parted
  obtain ⟨d', hd', hrest⟩ := hat.name htoken (.inl (hd.breaks r))
  exact ⟨d', ⟨hd', hat.not_constant (hd.breaks r) htoken (h.upper_ne hk hfresh hd.parted)⟩, hrest⟩

theorem Cursor.At.opening_append {c d e c' : Cursor} {f r : Text} (hc : c'.At (c.skip.rest ++ r))
    (hd : c.token? .word = some (f, d)) (he : d.symbol? '(' = some e) :
    ∃ d' e', c'.token? .word = some (f, d') ∧ d'.symbol? '(' = some e' ∧
      e'.rest = e.rest ++ r ∧ e'.Fresh := by
  rw [token?_split hd, List.append_assoc] at hc
  have hform := Token.whole_word_iff.1 (whole_of_token? trivial hd)
  have hbreaks := breaks_append (next_of_symbol? he) (.inr (.inl rfl)) r
  obtain ⟨d', hd', hrest⟩ := hc.word hform (.inl hbreaks)
  obtain ⟨e', he', herest, -⟩ := symbol?_append he (by decide) hrest
  exact ⟨d', e', hd', he', herest, fresh_of_symbol? he' (by decide)⟩

theorem Call.stands_append : (∀ (x : Call) {c d c' : Cursor} {r : Text}, x.Stands c d →
      c'.At (c.skip.rest ++ r) → ∃ d', x.Stands c' d' ∧ d'.rest = d.rest ++ r) ∧
    ∀ a : Argument, Persists a.Stands := by
  apply Call.induction
  case star =>
    rintro f c d c' r ⟨e, g, i, he, hg, hi, hd⟩ hc
    obtain ⟨e', g', he', hg', hrest, -⟩ := hc.opening_append he hg
    obtain ⟨i', hi', hirest, -⟩ := symbol?_append hi (by decide) hrest
    obtain ⟨d', hd', hdrest, -⟩ := symbol?_append hd (by decide) hirest
    exact ⟨d', ⟨e', g', i', he', hg', hi', hd'⟩, hdrest⟩
  case apply =>
    rintro f as ih c d c' r ⟨e, g, i, he, hg, has, hd⟩ hc
    obtain ⟨e', g', he', hg', hrest, hfresh⟩ := hc.opening_append he hg
    obtain ⟨i', hi', hirest⟩ := ItemsStand.persists ih (Argument.allStand_iff.1 has)
      (fresh_of_symbol? hg (by decide)) (.inr (next_of_symbol? hd)) hrest hfresh
    obtain ⟨d', hd', hdrest, -⟩ := symbol?_append hd (by decide) hirest
    exact ⟨d', ⟨e', g', i', he', hg', Argument.allStand_iff.2 hi', hd'⟩, hdrest⟩
  case call =>
    intro x ih c d c' r h _ _ hc hfresh
    obtain ⟨f, e, he, hx⟩ := h.opening
    exact ih h (token?_at_append he (by simp) (rest_ne_nil_of_next hx) hc hfresh)
  case term => exact fun t => t.persists
  case name => exact Argument.name_persists

/-! ## Whole calls -/

/-- The call that a text holds, if it holds nothing else. -/
def Call.ofText? (t : Text) : Option Call :=
  match Call.read? (start t) with
  | some (x, d) => if d.rest = [] then some x else none
  | none => none

theorem Call.ofText?_eq_some {t : Text} {x : Call} (h : ofText? t = some x) :
    ∃ d, x.Stands (start t) d ∧ d.rest = [] := by
  unfold ofText? at h
  split at h
  · rename_i y d hread
    split at h
    · rename_i hrest
      cases h
      exact ⟨d, read?_sound _ hread, hrest⟩
    · cases h
  · cases h

theorem Call.spells_of_ofText? {t : Text} {x : Call} (h : ofText? t = some x)
    (hsolid : ∀ r, layoutLength (t ++ r) = 0) : Spells x.Stands t where
  solid := hsolid
  stands_at {c r} hc _ := by
    obtain ⟨d, hd, hrest⟩ := ofText?_eq_some h
    have hskip : (start t).skip = start t :=
      skip_of_layoutLength (by simpa [start] using hsolid [])
    have hat : c.At ((start t).skip.rest ++ r) := by
      rw [hskip]
      exact hc
    obtain ⟨d', hd', hdrest⟩ := Call.stands_append.1 x hd hat
    exact ⟨d', hd', by rw [hdrest, hrest, List.nil_append]⟩

end CqlCanon
