import CqlCanon.Proofs.Grammar.Clauses

/-!
# Flags that are also names

`DISTINCT` and `JSON` may be flags or the start of the first selector. A text
decides that by itself: where such a word is the start of a selector, no other
selector and no flag starts after it. So looking ahead for selectors and `FROM`
finds the only way to read on.
-/

namespace CqlCanon

open Cursor

namespace Selector

/-- A comma or `FROM` comes after a selector. -/
def Closed (d : Cursor) : Prop := d.next = some ',' ∨ ∃ e, d.keyword? "FROM" = some e

/-- A comma, or `FROM` and a name, comes after a selector. -/
def Leads (d : Cursor) : Prop := d.next = some ',' ∨
  ∃ (e f : Cursor) (t : Text), d.keyword? "FROM" = some e ∧ t.StandsAsName e f

theorem Leads.closed {d : Cursor} (h : Leads d) : Closed d := by
  rcases h with h | ⟨e, -, -, h, -⟩
  · exact .inl h
  · exact .inr ⟨e, h⟩

theorem Closed.not_stuck {d : Cursor} (h : Closed d) : ¬ d.Stuck := by
  intro hs
  rcases h with h | ⟨e, h⟩
  · have := symbol?_eq_some_iff.2 ⟨h, rfl⟩
    rw [hs.symbol? (by decide)] at this
    cases this
  · rw [hs.keyword? "FROM"] at h
    cases h

theorem Closed.not_name {d e : Cursor} {t : Text} (h : Closed d) : ¬ t.StandsAsName d e := by
  intro ht
  rcases h with h | ⟨f, h⟩
  · exact ht.next_ne (by decide) h
  · rw [ht.keyword?_eq_none (by decide)] at h
    cases h

theorem not_stuck_of_alias {o : Option Text} {c d : Cursor}
    (h : OptionStands Named.AliasStands o c d) (hd : Closed d) : ¬ c.Stuck := by
  cases o with
  | none =>
    cases h
    exact hd.not_stuck
  | some t =>
    obtain ⟨e, he, -⟩ := h
    intro hs
    rw [hs.keyword? "AS"] at he
    cases he

theorem Stands.after_keyword {s : Selector Text} {w : String} {b c d : Cursor} (h : s.Stands c d)
    (hd : Closed d) (hk : c.keyword? w = some b) (hw : w.toList.all Char.isUpper = true)
    (hne : (Text.upperChar '"').head? ≠ w.toList.head? ∧ w.toList ≠ []) :
    b.next = some '(' ∨ ∃ o, OptionStands Named.AliasStands o b d := by
  cases s with
  | star => cases h
  | column n =>
    obtain ⟨e, he | he, ho⟩ := h
    · obtain ⟨x, hx, hs⟩ := next_of_token? he (by simp)
      obtain rfl : x = '"' := hs
      exact absurd hx (next_ne_of_keyword? hk hne.1 hne.2)
    · rcases end_eq_of_keyword?_of_word hk hw (word_of_plainName he) with rfl | hs
      · exact .inr ⟨_, ho⟩
      · exact absurd hs (not_stuck_of_alias ho hd)
  | function n =>
    obtain ⟨x, e, -, he, -⟩ := h
    obtain ⟨f, g, hg, hx⟩ := he.opening
    rcases end_eq_of_keyword?_of_word hk hw hg with rfl | hs
    · exact .inl hx
    · have := symbol?_eq_some_iff.2 ⟨hx, rfl⟩
      rw [hs.symbol? (by decide)] at this
      cases this

theorem Stands.not_from {s : Selector Text} {c d e f : Cursor} {t : Text} (h : s.Stands c d)
    (he : c.keyword? "FROM" = some e) : ¬ t.StandsAsName e f := by
  intro ht
  cases s with
  | star => cases h
  | column n =>
    obtain ⟨g, hg, -⟩ := h
    rw [hg.keyword?_eq_none (by decide)] at he
    cases he
  | function n =>
    obtain ⟨x, g, -, hg, -⟩ := h
    obtain ⟨u, i, hi, hx⟩ := hg.opening
    rcases end_eq_of_keyword?_of_word he (by decide) hi with rfl | hs
    · exact ht.next_ne (by decide) hx
    · have := symbol?_eq_some_iff.2 ⟨hx, rfl⟩
      rw [hs.symbol? (by decide)] at this
      cases this

/-- The words that may be flags. -/
def flagWords : List String := ["DISTINCT", "JSON"]

/-- After a flag word that starts a selector, neither `JSON` nor `*` nor a selector follows. -/
theorem Stands.nothing_after_flag {s : Selector Text} {w : String} {b c d : Cursor}
    (h : s.Stands c d) (hd : Leads d) (hk : c.keyword? w = some b) (hw : w ∈ flagWords) :
    b.keyword? "JSON" = none ∧ b.next ≠ some '*' ∧
      ∀ (u : Selector Text) (e : Cursor), u.Stands b e → ¬ Closed e := by
  have hwords : ∀ w ∈ flagWords, w.toList.all Char.isUpper = true ∧
      (Text.upperChar '"').head? ≠ w.toList.head? ∧ w.toList ≠ [] := by decide
  obtain ⟨hcap, hne⟩ := hwords w hw
  rcases h.after_keyword hd.closed hk hcap hne with hx | ⟨o, ho⟩
  · refine ⟨keyword?_eq_none_of_next hx (by decide) (by decide), by simp [hx], fun u e hu _ => ?_⟩
    exact hu.next_ne (by decide) hx
  cases o with
  | none =>
    obtain rfl : b = d := ho
    rcases hd with hx | ⟨i, j, t, hi, ht⟩
    · refine ⟨keyword?_eq_none_of_next hx (by decide) (by decide), by simp [hx], fun u e hu _ => ?_⟩
      exact hu.next_ne (by decide) hx
    · refine ⟨Cursor.keyword?_eq_none hi (by decide), next_ne_of_keyword? hi (by decide) (by decide), ?_⟩
      exact fun u e hu _ => hu.not_from hi ht
  | some t =>
    obtain ⟨i, hi, ht⟩ := ho
    refine ⟨Cursor.keyword?_eq_none hi (by decide), next_ne_of_keyword? hi (by decide) (by decide), ?_⟩
    intro u e hu he
    rcases hu.after_keyword he hi (by decide) (by decide) with hx | ⟨o, ho⟩
    · exact ht.next_ne (by decide) hx
    cases o with
    | none =>
      cases ho
      exact he.not_name ht
    | some v =>
      obtain ⟨j, hj, hv⟩ := ho
      rcases ht with ht | ht
      · obtain ⟨x, hx, hs⟩ := next_of_token? ht (by simp)
        obtain rfl : x = '"' := hs
        exact absurd hx (next_ne_of_keyword? hj (by decide) (by decide))
      · rcases end_eq_of_keyword?_of_word hj (by decide) (word_of_plainName ht) with rfl | hs
        · exact hd.closed.not_name hv
        · exact hd.closed.not_stuck hs

/-- Where selectors start with a flag word, neither `JSON` nor other selectors and `FROM` follow
the word. -/
theorem AllStand.nothing_after_flag {ss : List (Selector Text)} {w : String} {b c d e f : Cursor}
    {t : Text} (h : AllStand ss c d) (hd : d.keyword? "FROM" = some e) (ht : t.StandsAsName e f)
    (hk : c.keyword? w = some b) (hw : w ∈ flagWords) :
    b.keyword? "JSON" = none ∧
      ∀ (us : List (Selector Text)) (g : Cursor), AllStand us b g → g.keyword? "FROM" = none := by
  have hwords : ∀ w ∈ flagWords, (Text.upperChar '*').head? ≠ w.toList.head? ∧ w.toList ≠ [] := by
    decide
  obtain ⟨hstar, hne⟩ := hwords w hw
  rcases h with ⟨-, h⟩ | h
  · exact absurd (next_of_symbol? h) (next_ne_of_keyword? hk hstar hne)
  cases ss with
  | nil => cases h
  | cons s ss =>
    obtain ⟨i, hi, hmore⟩ := h
    have hleads : Leads i := hmore.start (fun _ _ hg => .inl (next_of_symbol? hg)) (.inr ⟨e, f, t, hd, ht⟩)
    obtain ⟨hjson, hx, hnone⟩ := hi.nothing_after_flag hleads hk hw
    refine ⟨hjson, fun us g hus => ?_⟩
    cases hg : g.keyword? "FROM" with
    | none => rfl
    | some k =>
      rcases hus with ⟨-, hus⟩ | hus
      · exact absurd (next_of_symbol? hus) hx
      cases us with
      | nil => cases hus
      | cons u us =>
        obtain ⟨j, hj, hmore⟩ := hus
        have hclosed : Closed j := hmore.start (fun _ _ hn => .inl (next_of_symbol? hn)) (.inr ⟨k, hg⟩)
        exact absurd hclosed (hnone u j hj)

end Selector

/-! ## Looking ahead -/

namespace Draft

theorem selectorsFollow_iff {c : Cursor} : selectorsFollow c = true ↔
    ∃ (ss : List (Selector Text)) (d e : Cursor), Selector.AllStand ss c d ∧
      d.keyword? "FROM" = some e := by
  rw [selectorsFollow, Option.isSome_iff_exists]
  constructor
  · rintro ⟨e, h⟩
    obtain ⟨⟨ss, d⟩, hs, hd⟩ := Option.bind_eq_some_iff.1 h
    exact ⟨_, d, e, Selector.readAll?_sound hs, hd⟩
  · rintro ⟨ss, d, e, hs, hd⟩
    obtain ⟨ls, hls, -⟩ := Selector.readAll?_complete commentsEnd hs hd
    exact ⟨e, Option.bind_eq_some_iff.2 ⟨_, hls, hd⟩⟩

theorem readJson?_eq_some_iff {c d : Cursor} :
    readJson? c = some d ↔ c.keyword? "JSON" = some d ∧ selectorsFollow d = true := by
  simp [readJson?, Option.filter_eq_some_iff]

theorem readDistinct?_eq_some_iff {c d : Cursor} : readDistinct? c = some d ↔
    c.keyword? "DISTINCT" = some d ∧ ((readJson? d).isSome ∨ selectorsFollow d = true) := by
  simp [readDistinct?, Option.filter_eq_some_iff]

/-! ## The flags of a statement -/

variable {ss : List (Selector Text)} {c d e f : Cursor} {t : Text}

theorem readJson?_eq_none (h : Selector.AllStand ss c d) (hd : d.keyword? "FROM" = some e)
    (ht : t.StandsAsName e f) : readJson? c = none := by
  cases hj : readJson? c with
  | none => rfl
  | some b =>
    obtain ⟨hk, hb⟩ := readJson?_eq_some_iff.1 hj
    obtain ⟨us, g, k, hus, hg⟩ := selectorsFollow_iff.1 hb
    rw [(h.nothing_after_flag hd ht hk (by decide)).2 us g hus] at hg
    cases hg

theorem readDistinct?_eq_none (h : Selector.AllStand ss c d) (hd : d.keyword? "FROM" = some e)
    (ht : t.StandsAsName e f) : readDistinct? c = none := by
  cases hj : readDistinct? c with
  | none => rfl
  | some b =>
    obtain ⟨hk, hb⟩ := readDistinct?_eq_some_iff.1 hj
    obtain ⟨hjson, hnone⟩ := h.nothing_after_flag hd ht hk (by decide)
    rcases hb with hb | hb
    · simp [readJson?, hjson] at hb
    · obtain ⟨us, g, k, hus, hg⟩ := selectorsFollow_iff.1 hb
      rw [hnone us g hus] at hg
      cases hg

theorem flag_readJson? {json : Bool} {b : Cursor} (hj : FlagStands (keyword? "JSON") json b c)
    (h : Selector.AllStand ss c d) (hd : d.keyword? "FROM" = some e) (ht : t.StandsAsName e f) :
    b.flag readJson? = (json, c) := by
  cases json with
  | false =>
    cases hj
    simp [flag, readJson?_eq_none h hd ht]
  | true =>
    have := readJson?_eq_some_iff.2 ⟨hj, selectorsFollow_iff.2 ⟨ss, d, e, h, hd⟩⟩
    simp [flag, this]

theorem flag_readDistinct? {distinct json : Bool} {a b : Cursor}
    (ha : FlagStands (keyword? "DISTINCT") distinct a b)
    (hj : FlagStands (keyword? "JSON") json b c) (h : Selector.AllStand ss c d)
    (hd : d.keyword? "FROM" = some e) (ht : t.StandsAsName e f) :
    a.flag readDistinct? = (distinct, b) := by
  have hfollow := selectorsFollow_iff.2 ⟨ss, d, e, h, hd⟩
  cases distinct with
  | false =>
    cases ha
    cases json with
    | false =>
      cases hj
      simp [flag, readDistinct?_eq_none h hd ht]
    | true =>
      have : a.keyword? "DISTINCT" = none :=
        Cursor.keyword?_eq_none (show a.keyword? "JSON" = some c from hj) (by decide)
      simp [flag, readDistinct?, this]
  | true =>
    have hb : (readJson? b).isSome ∨ selectorsFollow b = true := by
      cases json with
      | false =>
        cases hj
        exact .inr hfollow
      | true => exact .inl (by rw [readJson?_eq_some_iff.2 ⟨hj, hfollow⟩]; rfl)
    simp [flag, readDistinct?_eq_some_iff.2 ⟨ha, hb⟩]

end Draft

end CqlCanon
