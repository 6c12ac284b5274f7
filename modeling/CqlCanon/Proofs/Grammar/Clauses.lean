import CqlCanon.Proofs.Grammar.Call
import CqlCanon.Proofs.Names

/-!
# The parts of a statement and the grammar

For each part there are three facts: what its reader reads stands in the text,
what stands is shorter than the text, and where something stands that may be
followed by what comes next, the reader reads it.
-/

namespace CqlCanon

open Cursor

/-! ## Names -/

theorem Text.StandsAsName.size_lt {t : Text} {c d : Cursor} (h : t.StandsAsName c d) :
    d.size < c.size := by
  rcases h with h | h
  · exact token?_size_lt h (by simp)
  · exact token?_size_lt h (by simp)

theorem Text.StandsAsName.keyword?_eq_none {t : Text} {c d : Cursor} (h : t.StandsAsName c d)
    {w : String} (hw : w.toList ∈ reservedWords) : c.keyword? w = none := by
  cases hk : c.keyword? w with
  | none => rfl
  | some e =>
    rcases h with h | h
    · obtain ⟨x, hx, hs⟩ := next_of_token? h (by simp)
      obtain rfl : x = '"' := hs
      have hne : w.toList.head? ≠ some '"' ∧ w.toList ≠ [] := by
        revert hw
        generalize w.toList = v
        revert v
        decide
      exact absurd hx (next_ne_of_keyword? hk (fun e => hne.1 e.symm) hne.2)
    · rw [plainName_of_keyword? hk hw] at h
      cases h

theorem Located.read?_eq_some_iff {place : Cursor → Nat} {c d : Cursor} {l : Located} :
    Located.read? place c = some (l, d) ↔ l.text.StandsAsName c d ∧ l.start = place c := by
  rw [Located.read?, Option.map_eq_some_iff, ← name?_eq_some_iff]
  constructor
  · rintro ⟨⟨t, e⟩, h, heq⟩
    cases heq
    exact ⟨h, rfl⟩
  · rintro ⟨h, hs⟩
    exact ⟨(l.text, d), h, by rw [← hs]⟩

theorem Located.read?_complete {t : Text} {c d : Cursor} (place : Cursor → Nat)
    (h : t.StandsAsName c d) : Located.read? place c = some (⟨t, place c⟩, d) :=
  Located.read?_eq_some_iff.2 ⟨h, rfl⟩

/-! ## Selectors -/

namespace Named

theorem AliasStands.size_lt {t : Text} {c d : Cursor} (h : AliasStands t c d) : d.size < c.size := by
  obtain ⟨e, he, hd⟩ := h
  have := keyword?_size_lt he (by decide)
  have := hd.size_lt
  omega

theorem optionAlias_size_le {o : Option Text} {c d : Cursor} (h : OptionStands AliasStands o c d) :
    d.size ≤ c.size := by
  cases o with
  | none => exact Nat.le_of_eq (congrArg size h.symm)
  | some t => exact Nat.le_of_lt (AliasStands.size_lt h)

theorem readAlias?_sound {c d : Cursor} {l : Located} (h : readAlias? c = some (l, d)) :
    AliasStands l.text c d := by
  obtain ⟨e, he, hd⟩ := Option.bind_eq_some_iff.1 h
  exact ⟨e, he, (Located.read?_eq_some_iff.1 hd).1⟩

theorem readAlias?_complete {t : Text} {c d : Cursor} (h : AliasStands t c d) :
    ∃ l, readAlias? c = some (l, d) ∧ l.text = t := by
  obtain ⟨e, he, hd⟩ := h
  exact ⟨⟨t, e.position⟩, by simp [readAlias?, he, Located.read?_complete position hd], rfl⟩

end Named

namespace Selector

/-- A selector ends where neither an alias nor the arguments of a call follow. -/
def Ends (d : Cursor) : Prop := d.next ≠ some '(' ∧ d.keyword? "AS" = none

theorem Stands.size_lt {s : Selector Text} {c d : Cursor} (h : s.Stands c d) : d.size < c.size := by
  cases s with
  | star => cases h
  | column n =>
    obtain ⟨e, he, hd⟩ := h
    have := he.size_lt
    have := Named.optionAlias_size_le hd
    omega
  | function n =>
    obtain ⟨x, e, -, he, hd⟩ := h
    have := Call.read?_advances c x e (Call.readers_complete.1 x he)
    have := Named.optionAlias_size_le hd
    omega

theorem read?_sound {place : Cursor → Nat} {c d : Cursor} {s : Selector Located}
    (h : read? place c = some (s, d)) : (s.map Located.text).Stands c d := by
  unfold read? at h
  split at h
  · rename_i l e hl
    cases h
    obtain ⟨⟨x, i⟩, hx, heq⟩ := Option.map_eq_some_iff.1 hl
    cases heq
    exact ⟨x, _, rfl, Call.read?_sound c hx, optional_sound fun b d => Named.readAlias?_sound⟩
  · split at h
    · rename_i l e hl
      cases h
      exact ⟨e, (Located.read?_eq_some_iff.1 hl).1, optional_sound fun b d => Named.readAlias?_sound⟩
    · cases h

theorem read?_advances (place : Cursor → Nat) (c : Cursor) : Advances (read? place) c :=
  fun _ _ h => (read?_sound h).size_lt

/-- What comes after a name that a selector starts with is not the opening of a call. -/
theorem next_of_alias {o : Option Text} {c d : Cursor} (h : OptionStands Named.AliasStands o c d)
    (hd : Ends d) : c.next ≠ some '(' := by
  cases o with
  | none =>
    cases h
    exact hd.1
  | some t =>
    obtain ⟨e, he, -⟩ := h
    exact next_ne_of_keyword? he (by decide) (by decide)

theorem read?_complete (place : Cursor → Nat) {s : Selector Text} {c d : Cursor}
    (h : s.Stands c d) (hd : Ends d) :
    ∃ l, read? place c = some (l, d) ∧ l.map Located.text = s := by
  have label : ∀ {o : Option Text} {e : Cursor}, OptionStands Named.AliasStands o e d →
      ∃ p, e.optional Named.readAlias? = (p, d) ∧ p.map Located.text = o := by
    intro o e ho
    refine optional_complete (fun b _ hb => Named.readAlias?_complete hb) (fun hn => ?_) ho
    subst hn
    cases ho
    simp [Named.readAlias?, hd.2]
  cases s with
  | star => cases h
  | column n =>
    obtain ⟨e, he, ho⟩ := h
    obtain ⟨p, hp, hmap⟩ := label ho
    have hcall := Call.read?_eq_none_of_name he (next_of_alias ho hd)
    refine ⟨column ⟨⟨n.name, place c⟩, p⟩, ?_, ?_⟩
    · simp [read?, readFunction?, hcall, Located.read?_complete place he, hp]
    · simp [Selector.map, Named.map, hmap]
  | function n =>
    obtain ⟨x, e, hx, he, ho⟩ := h
    obtain ⟨p, hp, hmap⟩ := label ho
    refine ⟨function ⟨⟨n.name, c.skip.position⟩, p⟩, ?_, ?_⟩
    · simp [read?, readFunction?, Call.readers_complete.1 x he, hx, hp]
    · simp [Selector.map, Named.map, hmap]

theorem Ends.of_comma {d : Cursor} (h : d.next = some ',') : Ends d :=
  ⟨by simp [h], keyword?_eq_none_of_next h (by decide) (by decide)⟩

theorem Ends.of_from {d e : Cursor} (h : d.keyword? "FROM" = some e) : Ends d :=
  ⟨next_ne_of_keyword? h (by decide) (by decide), keyword?_eq_none h (by decide)⟩

theorem Stands.next {s : Selector Text} {c d : Cursor} (h : s.Stands c d) :
    ∃ x, c.next = some x ∧ (x = '"' ∨ Text.isLetter x = true) := by
  cases s with
  | star => cases h
  | column n =>
    obtain ⟨e, he, -⟩ := h
    exact he.next
  | function n =>
    obtain ⟨x, e, -, he, -⟩ := h
    obtain ⟨f, i, hi, -⟩ := he.opening
    obtain ⟨y, hy, hs⟩ := next_of_token? hi (by simp)
    exact ⟨y, hy, .inr hs⟩

theorem Stands.next_ne {s : Selector Text} {c d : Cursor} (h : s.Stands c d) {x : Char}
    (hx : x ≠ '"' ∧ Text.isLetter x = false) : c.next ≠ some x :=
  next_ne_of_name h.next hx

theorem Stands.next_ne_star {s : Selector Text} {c d : Cursor} (h : s.Stands c d) :
    c.next ≠ some '*' := h.next_ne (by decide)

theorem readAll?_sound {place : Cursor → Nat} {c d : Cursor} {ss : List (Selector Located)}
    (h : readAll? place c = some (ss, d)) : AllStand (ss.map (map Located.text)) c d := by
  unfold readAll? at h
  split at h
  · rename_i e he
    cases h
    exact .inl ⟨rfl, he⟩
  · simp only [Option.bind_eq_bind, Option.bind_eq_some_iff] at h
    obtain ⟨⟨s, e⟩, hs, h⟩ := h
    cases h
    exact .inr ⟨e, read?_sound hs, more_sound comma_size_lt e fun i b j _ hb => read?_sound hb⟩

theorem more_complete {ss : List (Selector Text)} {c d : Cursor}
    (h : MoreStand (symbol? ',') Stands ss c d) (hd : Ends d)
    (hstop : ∀ e, d.symbol? ',' = some e → e.next = some '*') :
    ∃ ls, c.more (symbol? ',') (read? commentsEnd) = (ls, d) ∧ ls.map (map Located.text) = ss := by
  refine Cursor.more_complete comma_size_lt (read?_advances _)
    (fun s _ i j hs hj => read?_complete _ hs hj)
    (fun i j hi => Ends.of_comma (next_of_symbol? hi)) hd (fun e he => ?_) h
  cases hs : read? commentsEnd e with
  | none => rfl
  | some r => exact absurd (hstop e he) (read?_sound (d := r.2) (s := r.1) hs).next_ne_star

theorem readAll?_complete (place : Cursor → Nat) {ss : List (Selector Text)} {c d e : Cursor}
    (h : AllStand ss c d) (hd : d.keyword? "FROM" = some e) :
    ∃ ls, readAll? place c = some (ls, d) ∧ ls.map (map Located.text) = ss := by
  rcases h with ⟨rfl, h⟩ | h
  · exact ⟨[star], by simp [readAll?, h], rfl⟩
  cases ss with
  | nil => cases h
  | cons s ss =>
    obtain ⟨i, hi, hmore⟩ := h
    have hcomma : d.symbol? ',' = none :=
      symbol?_eq_none (next_ne_of_keyword? hd (by decide) (by decide))
    obtain ⟨ls, hls, hmap⟩ := more_complete hmore (.of_from hd)
      (fun j hj => by rw [hcomma] at hj; cases hj)
    have hends : Ends i := hmore.start (fun _ _ hj => .of_comma (next_of_symbol? hj)) (.of_from hd)
    obtain ⟨l, hl, rfl⟩ := read?_complete place hi hends
    exact ⟨l :: ls, by simp [readAll?, symbol?_eq_none hi.next_ne_star, hl, hls], by simp [hmap]⟩

end Selector

/-! ## The table -/

namespace TableName

theorem readKeyspace?_sound {c d : Cursor} {l : Located} (h : readKeyspace? c = some (l, d)) :
    KeyspaceStands l.text c d := by
  simp only [readKeyspace?, Option.bind_eq_bind, Option.bind_eq_some_iff] at h
  obtain ⟨⟨k, e⟩, hk, i, hi, h⟩ := h
  cases h
  exact ⟨e, (Located.read?_eq_some_iff.1 hk).1, hi⟩

theorem readKeyspace?_complete {k : Text} {c d : Cursor} (h : KeyspaceStands k c d) :
    readKeyspace? c = some (⟨k, c.commentsEnd⟩, d) := by
  obtain ⟨e, he, hd⟩ := h
  simp [readKeyspace?, Located.read?_complete commentsEnd he, hd]

theorem read?_sound {c d : Cursor} {t : TableName Located} (h : read? c = some (t, d)) :
    (t.map Located.text).Stands c d := by
  unfold read? at h
  split at h
  · rename_i k e hk
    obtain ⟨⟨n, i⟩, hn, heq⟩ := Option.map_eq_some_iff.1 h
    cases heq
    exact ⟨e, readKeyspace?_sound hk, (Located.read?_eq_some_iff.1 hn).1⟩
  · obtain ⟨⟨n, i⟩, hn, heq⟩ := Option.map_eq_some_iff.1 h
    cases heq
    exact ⟨c, rfl, (Located.read?_eq_some_iff.1 hn).1⟩

theorem read?_complete {t : TableName Text} {c d : Cursor} (h : t.Stands c d)
    (hd : d.next ≠ some '.') : ∃ l, read? c = some (l, d) ∧ l.map Located.text = t := by
  obtain ⟨name, keyspace⟩ := t
  obtain ⟨e, hk, hn⟩ := h
  cases keyspace with
  | none =>
    cases hk
    have hnone : readKeyspace? c = none := by
      simp [readKeyspace?, Located.read?_complete commentsEnd hn, symbol?_eq_none hd]
    exact ⟨⟨⟨name, c.commentsEnd⟩, none⟩, by simp [read?, hnone, Located.read?_complete commentsEnd hn], rfl⟩
  | some k =>
    refine ⟨⟨⟨name, e.position⟩, some ⟨k, c.commentsEnd⟩⟩, ?_, rfl⟩
    simp [read?, readKeyspace?_complete hk, Located.read?_complete position hn]

theorem Stands.name {t : TableName Text} {c d : Cursor} (h : t.Stands c d) :
    ∃ (u : Text) (e : Cursor), u.StandsAsName c e := by
  obtain ⟨e, hk, hn⟩ := h
  cases ht : t.keyspace with
  | none =>
    rw [ht] at hk
    cases hk
    exact ⟨_, d, hn⟩
  | some k =>
    rw [ht] at hk
    obtain ⟨i, hi, -⟩ := hk
    exact ⟨k, i, hi⟩

end TableName

/-! ## Conditions -/

theorem Term.Stands.keyword?_key {t : Term} {c d : Cursor} (h : t.Stands c d) :
    c.keyword? "KEY" = none := by
  rcases h.next with ⟨k, rfl⟩ | ⟨x, hx, -, hw⟩
  · exact keyword?_eq_none (show c.keyword? k.word = some d from h) (by cases k <;> decide)
  · refine keyword?_eq_none_of_next hx (fun e => ?_) (by decide)
    rw [Text.startsWord, e] at hw
    revert hw
    decide

namespace Relation

theorem readOperator?_sound {c d : Cursor} {t : Text} (h : readOperator? c = some (t, d)) :
    OperatorStands t c d := by
  simp only [readOperator?, Option.orElse_eq_orElse, Option.orElse_eq_or, Option.or_eq_some_iff,
    Option.map_eq_some_iff, Option.bind_eq_some_iff, Prod.mk.injEq] at h
  rcases h with h | ⟨-, ⟨e, h, rfl, rfl⟩ | ⟨-, ⟨e, ⟨i, hi, h⟩, rfl, rfl⟩ |
    ⟨-, ⟨e, h, rfl, rfl⟩ | ⟨-, e, h, rfl, rfl⟩⟩⟩⟩
  · exact .inl h
  · exact .inr (.inl ⟨rfl, h⟩)
  · exact .inr (.inr (.inl ⟨rfl, i, hi, h⟩))
  · exact .inr (.inr (.inr (.inl ⟨rfl, h⟩)))
  · exact .inr (.inr (.inr (.inr ⟨rfl, h⟩)))

theorem OperatorStands.size_lt {t : Text} {c d : Cursor} (h : OperatorStands t c d) :
    d.size < c.size := by
  rcases h with h | ⟨-, h⟩ | ⟨-, e, h, h'⟩ | ⟨-, h⟩ | ⟨-, h⟩
  · exact token?_size_lt h (by simp)
  · exact keyword?_size_lt h (by decide)
  · exact Nat.lt_trans (keyword?_size_lt h' (by decide)) (keyword?_size_lt h (by decide))
  · exact keyword?_size_lt h (by decide)
  · exact keyword?_size_lt h (by decide)

theorem readOperator?_complete {t : Text} {c d : Cursor} (h : OperatorStands t c d)
    (hd : d.keyword? "KEY" = none) : readOperator? c = some (t, d) := by
  have words : ∀ w ∈ ["IN", "CONTAINS", "LIKE"], w.toList ≠ [] ∧ w.toList.head? ≠ some '=' ∧
      w.toList.head? ≠ some '!' ∧ w.toList.head? ≠ some '<' ∧ w.toList.head? ≠ some '>' := by
    decide
  have comparison : ∀ {w : String} {e : Cursor}, c.keyword? w = some e →
      w ∈ ["IN", "CONTAINS", "LIKE"] → c.token? .comparison = none := by
    intro w e hw hm
    obtain ⟨hne, h1, h2, h3, h4⟩ := words w hm
    obtain ⟨x, hx, hu⟩ := next_of_keyword? hw hne
    refine token?_eq_none hx ?_ (by simp)
    rintro (rfl | rfl | rfl | rfl)
    · exact h1 hu.symm
    · exact h2 hu.symm
    · exact h3 hu.symm
    · exact h4 hu.symm
  unfold readOperator?
  rcases h with h | ⟨rfl, h⟩ | ⟨rfl, e, h, h'⟩ | ⟨rfl, h⟩ | ⟨rfl, h⟩
  · simp [h]
  · simp [comparison h (by simp), h]
  · simp [comparison h (by simp), keyword?_eq_none h (w := "IN") (by decide), h, h']
  · simp [comparison h (by simp), keyword?_eq_none h (w := "IN") (by decide), h, hd]
  · simp [comparison h (by simp), keyword?_eq_none h (w := "IN") (by decide),
      keyword?_eq_none h (w := "CONTAINS") (by decide), h]

theorem Stands.size_lt {r : Relation Text} {c d : Cursor} (h : r.Stands c d) : d.size < c.size := by
  obtain ⟨e, f, he, hf, v, -, hv⟩ := h
  have := he.size_lt
  have := hf.size_lt
  have := Term.read?_advances f v d (Term.read?_complete hv)
  omega

theorem read?_sound {c d : Cursor} {r : Relation Located} (h : read? c = some (r, d)) :
    (r.map Located.text).Stands c d := by
  simp only [read?, Option.bind_eq_bind, Option.bind_eq_some_iff] at h
  obtain ⟨⟨l, e⟩, hl, ⟨o, f⟩, ho, ⟨v, i⟩, hv, h⟩ := h
  cases h
  exact ⟨e, f, (Located.read?_eq_some_iff.1 hl).1, readOperator?_sound ho, v, rfl,
    Term.read?_sound f hv⟩

theorem read?_advances (c : Cursor) : Advances read? c := fun _ _ h => (read?_sound h).size_lt

theorem read?_complete {r : Relation Text} {c d : Cursor} (h : r.Stands c d) :
    ∃ l, read? c = some (l, d) ∧ l.map Located.text = r := by
  obtain ⟨column, operator, value⟩ := r
  obtain ⟨e, f, he, hf, v, rfl, hv⟩ := h
  refine ⟨⟨⟨column, c.commentsEnd⟩, operator, v.render⟩, ?_, rfl⟩
  simp [read?, Located.read?_complete commentsEnd he, readOperator?_complete hf hv.keyword?_key,
    Term.read?_complete hv]

theorem and_size_lt (c d : Cursor) (h : c.keyword? "AND" = some d) : d.size < c.size :=
  keyword?_size_lt h (by decide)

theorem readAll?_sound {c d : Cursor} {rs : List (Relation Located)}
    (h : readAll? c = some (rs, d)) : AllStand (rs.map (map Located.text)) c d := by
  simp only [readAll?, Option.bind_eq_bind, Option.bind_eq_some_iff] at h
  obtain ⟨e, he, h⟩ := h
  have hs : SequenceStands (keyword? "AND") Stands (rs.map (map Located.text)) e d :=
    sequence?_sound and_size_lt (fun i r j _ hr => ⟨read?_advances i r j hr, read?_sound hr⟩) h
  cases rs with
  | nil => cases hs
  | cons r rs => exact ⟨e, he, hs⟩

/-- Conditions, or none, up to a cursor where neither another nor `WHERE` follows. -/
theorem optional_complete {rs : List (Relation Text)} {c d : Cursor} (h : AllStand rs c d)
    (hwhere : d.keyword? "WHERE" = none) (hand : d.keyword? "AND" = none) :
    ∃ o, c.optional readAll? = (o, d) ∧ (o.getD []).map (map Located.text) = rs := by
  cases rs with
  | nil =>
    cases h
    exact ⟨none, by simp [Cursor.optional, readAll?, hwhere], rfl⟩
  | cons r rs =>
    obtain ⟨e, he, hs⟩ := h
    obtain ⟨ls, hls, hmap⟩ := sequence?_complete and_size_lt read?_advances
      (fun r _ i j hr (_ : True) => read?_complete hr) (fun _ _ _ => trivial) trivial
      (fun i hi => by rw [hand] at hi; cases hi) hs
    exact ⟨some ls, by simp [Cursor.optional, readAll?, he, hls], hmap⟩

end Relation

/-! ## The order -/

namespace OrderKey

/-- A key ends where no direction follows. -/
def Ends (d : Cursor) : Prop := d.keyword? "ASC" = none ∧ d.keyword? "DESC" = none

theorem readDescending_sound (c : Cursor) :
    DirectionStands (readDescending c).1 c (readDescending c).2 := by
  unfold readDescending
  split
  · rename_i d hd
    exact .inl hd
  · cases h : c.keyword? "DESC" with
    | none => simp [flag, h, DirectionStands]
    | some d => simp [flag, h, DirectionStands]

theorem readDescending_of_stands {b : Bool} {c d : Cursor} (h : DirectionStands b c d) :
    readDescending c = (b, d) ∨ b = false ∧ c = d := by
  unfold readDescending
  cases b with
  | true =>
    replace h : c.keyword? "DESC" = some d := h
    simp [keyword?_eq_none h (w := "ASC") (by decide), flag, h]
  | false =>
    rcases h with h | h
    · simp [h]
    · exact .inr ⟨rfl, h⟩

theorem readDescending_complete {b : Bool} {c d : Cursor} (h : DirectionStands b c d)
    (hd : Ends d) : readDescending c = (b, d) := by
  rcases readDescending_of_stands h with h | ⟨rfl, rfl⟩
  · exact h
  · simp [readDescending, hd.1, hd.2, flag]

theorem Stands.size_lt {k : OrderKey Text} {c d : Cursor} (h : k.Stands c d) : d.size < c.size := by
  obtain ⟨e, he, hd⟩ := h
  have := he.size_lt
  have : d.size ≤ e.size := by
    cases hb : k.descending with
    | true =>
      rw [hb] at hd
      exact Nat.le_of_lt (keyword?_size_lt hd (by decide))
    | false =>
      rw [hb] at hd
      rcases hd with hd | rfl
      · exact Nat.le_of_lt (keyword?_size_lt hd (by decide))
      · exact Nat.le_refl _
  omega

theorem read?_sound {c d : Cursor} {k : OrderKey Located} (h : read? c = some (k, d)) :
    (k.map Located.text).Stands c d := by
  obtain ⟨⟨l, e⟩, hl, heq⟩ := Option.map_eq_some_iff.1 h
  cases heq
  exact ⟨e, (Located.read?_eq_some_iff.1 hl).1, readDescending_sound e⟩

theorem read?_advances (c : Cursor) : Advances read? c := fun _ _ h => (read?_sound h).size_lt

theorem read?_complete {k : OrderKey Text} {c d : Cursor} (h : k.Stands c d) (hd : Ends d) :
    ∃ l, read? c = some (l, d) ∧ l.map Located.text = k := by
  obtain ⟨column, descending⟩ := k
  obtain ⟨e, he, hdir⟩ := h
  refine ⟨⟨⟨column, c.commentsEnd⟩, descending⟩, ?_, rfl⟩
  simp [read?, Located.read?_complete commentsEnd he, readDescending_complete hdir hd]

theorem readAll?_sound {c d : Cursor} {ks : List (OrderKey Located)}
    (h : readAll? c = some (ks, d)) : AllStand (ks.map (map Located.text)) c d := by
  simp only [readAll?, Option.bind_eq_bind, Option.bind_eq_some_iff] at h
  obtain ⟨e, he, f, hf, h⟩ := h
  exact ⟨e, f, he, hf, sequence?_sound comma_size_lt
    (fun i k j _ hk => ⟨read?_advances i k j hk, read?_sound hk⟩) h⟩

theorem readAll?_complete {ks : List (OrderKey Text)} {c d : Cursor} (h : AllStand ks c d)
    (hd : Ends d) (hcomma : d.symbol? ',' = none) :
    ∃ ls, readAll? c = some (ls, d) ∧ ls.map (map Located.text) = ks := by
  obtain ⟨e, f, he, hf, h⟩ := h
  obtain ⟨ls, hls, hmap⟩ := sequence?_complete comma_size_lt read?_advances
    (fun k _ i j hk hj => read?_complete hk hj)
    (fun i j hi => by
      have hx := (next_of_symbol? hi)
      exact ⟨keyword?_eq_none_of_next hx (by decide) (by decide),
        keyword?_eq_none_of_next hx (by decide) (by decide)⟩)
    hd (fun i hi => by rw [hcomma] at hi; cases hi) h
  exact ⟨ls, by simp [readAll?, he, hf, hls], hmap⟩

end OrderKey

end CqlCanon
