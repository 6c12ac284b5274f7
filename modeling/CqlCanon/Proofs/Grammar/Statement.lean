import CqlCanon.Proofs.Grammar.Flags
import CqlCanon.Select

/-!
# Statements and the grammar

A statement is read exactly where the text spells one, and no text spells two.
Up to its table a statement is read by itself. Each clause after that is left
out only where a later clause or the end of the text comes next, so a clause
that stands in the text is never passed over.
-/

namespace CqlCanon

open Cursor

/-! ## What comes next -/

/-- One of the words, a semicolon or the end of the text comes next. -/
def Cursor.Opens (words : List String) (c : Cursor) : Prop :=
  (∃ w ∈ words, ∃ d, c.keyword? w = some d) ∨ c.next = some ';' ∨ c.next = none

namespace Cursor.Opens

variable {words : List String} {c : Cursor}

theorem head {w : String} {d : Cursor} (h : c.keyword? w = some d) : c.Opens (w :: words) :=
  .inl ⟨w, List.mem_cons_self, d, h⟩

theorem tail {w : String} (h : c.Opens words) : c.Opens (w :: words) := by
  rcases h with ⟨v, hv, h⟩ | h
  · exact .inl ⟨v, List.mem_cons_of_mem w hv, h⟩
  · exact .inr h

/-- Before a part that starts with a word, or is missing. -/
theorem before {w : String} {d : Cursor} (h : d.Opens words)
    (hc : c = d ∨ ∃ e, c.keyword? w = some e) : c.Opens (w :: words) := by
  rcases hc with rfl | ⟨e, he⟩
  · exact h.tail
  · exact .head he

/-- The same where nothing may come next but the end of what is looked at. -/
theorem before_or {w : String} {d e : Cursor} (h : d.Opens words ∨ d = e)
    (hc : c = d ∨ ∃ e, c.keyword? w = some e) : c.Opens (w :: words) ∨ c = e := by
  rcases hc with rfl | ⟨e, he⟩
  · exact h.imp_left tail
  · exact .inl (.head he)

theorem keyword?_eq_none {v : String} (h : c.Opens words)
    (hv : (Text.upperChar ';').head? ≠ v.toList.head? ∧ v.toList ≠ [] ∧ ∀ w ∈ words, Apart w v) :
    c.keyword? v = none := by
  obtain ⟨hsemi, hne, hwords⟩ := hv
  rcases h with ⟨w, hw, d, h⟩ | h | h
  · exact Cursor.keyword?_eq_none h (hwords w hw)
  · exact keyword?_eq_none_of_next h hsemi hne
  · cases hk : c.keyword? v with
    | none => rfl
    | some d =>
      obtain ⟨x, hx, -⟩ := next_of_keyword? hk hne
      rw [h] at hx
      cases hx

theorem next_ne {x : Char} (h : c.Opens words) (hx : x ≠ ';')
    (hw : ∀ w ∈ words, (Text.upperChar x).head? ≠ w.toList.head? ∧ w.toList ≠ []) :
    c.next ≠ some x := by
  rcases h with ⟨w, hm, d, h⟩ | h | h
  · exact next_ne_of_keyword? h (hw w hm).1 (hw w hm).2
  · simp [h, hx.symm]
  · simp [h]

end Cursor.Opens

/-- The statement without what comes after its table. -/
def Statement.head (s : Statement Text) : Statement Text where
  distinct := s.distinct
  json := s.json
  columns := s.columns
  table := s.table

namespace Draft

/-! ## Up to the table -/

theorem expectKeyword_eq_ok_iff {w : String} {c d : Cursor} :
    expectKeyword w c = .ok d ↔ c.keyword? w = some d := by
  unfold expectKeyword
  cases c.keyword? w <;> simp

theorem expectSelectors_eq_ok_iff {json : Bool} {c : Cursor} {r : List (Selector Located) × Cursor} :
    expectSelectors json c = .ok r ↔ Selector.readAll? (firstPlace json) c = some r := by
  unfold expectSelectors
  cases Selector.readAll? (firstPlace json) c <;> simp

theorem expectTable_eq_ok_iff {c : Cursor} {r : TableName Located × Cursor} :
    expectTable c = .ok r ↔ TableName.read? c = some r := by
  unfold expectTable
  cases TableName.read? c <;> simp

theorem flagStands_of_flag {w : String} {part : Cursor → Option Cursor} (c : Cursor)
    (h : ∀ d, part c = some d → c.keyword? w = some d) :
    FlagStands (keyword? w) (c.flag part).1 c (c.flag part).2 := by
  unfold flag
  cases hp : part c with
  | none => exact rfl
  | some d => exact h d hp

theorem readHead_sound {c d : Cursor} {head : Draft} (h : readHead c = .ok (head, d)) :
    Statement.HeadStands head.contents c d := by
  simp only [readHead, Except.bind_eq_ok_iff, expectKeyword_eq_ok_iff, expectSelectors_eq_ok_iff,
    expectTable_eq_ok_iff] at h
  obtain ⟨c₁, h₁, ⟨ss, c₄⟩, hs, c₅, h₅, ⟨t, e⟩, ht, h⟩ := h
  cases h
  exact ⟨c₁, _, _, c₄, c₅, h₁,
    flagStands_of_flag c₁ (fun _ h => (readDistinct?_eq_some_iff.1 h).1),
    flagStands_of_flag _ (fun _ h => (readJson?_eq_some_iff.1 h).1),
    Selector.readAll?_sound hs, h₅, TableName.read?_sound ht⟩

/-- Up to the table a statement is read as it stands, for a name has to be there. -/
theorem readHead_of_stands {s : Statement Text} {c c₁ c₂ c₃ c₄ c₅ e : Cursor} {u : Text}
    (h₁ : c.keyword? "SELECT" = some c₁) (h₂ : FlagStands (keyword? "DISTINCT") s.distinct c₁ c₂)
    (h₃ : FlagStands (keyword? "JSON") s.json c₂ c₃) (h₄ : Selector.AllStand s.columns c₃ c₄)
    (h₅ : c₄.keyword? "FROM" = some c₅) (hu : u.StandsAsName c₅ e) :
    ∃ ls, ls.map (Selector.map Located.text) = s.columns ∧
      readHead c = (expectTable c₅).map fun (table, d) =>
        ({ distinct := s.distinct, json := s.json, columns := ls, table := table }, d) := by
  obtain ⟨ls, hls, hmap⟩ := Selector.readAll?_complete (firstPlace s.json) h₄ h₅
  refine ⟨ls, hmap, ?_⟩
  simp only [readHead, expectKeyword_eq_ok_iff.2 h₁, flag_readDistinct? h₂ h₃ h₄ h₅ hu,
    flag_readJson? h₃ h₄ h₅ hu, expectSelectors_eq_ok_iff.2 hls, expectKeyword_eq_ok_iff.2 h₅, bind,
    Except.bind, pure, Except.pure]
  cases expectTable c₅ <;> rfl

theorem readHead_complete {s : Statement Text} {c d : Cursor} (h : s.HeadStands c d)
    (hd : d.next ≠ some '.') : ∃ head, readHead c = .ok (head, d) ∧
      head.contents = s.head := by
  obtain ⟨c₁, c₂, c₃, c₄, c₅, h₁, h₂, h₃, h₄, h₅, htable⟩ := h
  obtain ⟨u, e, hu⟩ := htable.name
  obtain ⟨ls, hmap, hread⟩ := readHead_of_stands h₁ h₂ h₃ h₄ h₅ hu
  obtain ⟨t, ht, htmap⟩ := TableName.read?_complete htable hd
  refine ⟨{ distinct := s.distinct, json := s.json, columns := ls, table := t }, ?_, ?_⟩
  · rw [hread, expectTable_eq_ok_iff.2 ht]
    rfl
  · simp [contents, Statement.map, Statement.head, hmap, htmap]

/-! ## After the table -/

theorem opens_end {b : Bool} {c d : Cursor} (h : FlagStands (symbol? ';') b c d)
    (hd : d.skip.rest = []) : c.Opens [] := by
  cases b with
  | false =>
    cases h
    exact .inr (.inr (by simp [next, hd]))
  | true => exact .inr (.inl (symbol?_eq_some_iff.1 (show c.symbol? ';' = some d from h)).1)

section Starts

variable {b : Bool} {limit : Option Int} {order : Option (List (OrderKey Text))}
  {relations : List (Relation Text)} {c d : Cursor}

/-! A part that may be missing starts with its word. -/

theorem filtering_starts (h : FlagStands readFiltering? b c d) :
    c = d ∨ ∃ e, c.keyword? "ALLOW" = some e := by
  cases b with
  | false => exact .inl h
  | true =>
    obtain ⟨e, he, -⟩ := Option.bind_eq_some_iff.1 h
    exact .inr ⟨e, he⟩

theorem limit_starts (h : OptionStands Statement.LimitStands limit c d) :
    c = d ∨ ∃ e, c.keyword? "LIMIT" = some e := by
  cases limit with
  | none => exact .inl h
  | some limit =>
    obtain ⟨digits, -, e, he, -⟩ := h
    exact .inr ⟨e, he⟩

theorem order_starts (h : OptionStands OrderKey.AllStand order c d) :
    c = d ∨ ∃ e, c.keyword? "ORDER" = some e := by
  cases order with
  | none => exact .inl h
  | some keys =>
    obtain ⟨e, f, he, -⟩ := h
    exact .inr ⟨e, he⟩

theorem relations_starts (h : Relation.AllStand relations c d) :
    c = d ∨ ∃ e, c.keyword? "WHERE" = some e := by
  cases relations with
  | nil => exact .inl h
  | cons r rs =>
    obtain ⟨e, he, -⟩ := h
    exact .inr ⟨e, he⟩

theorem opens_filtering (h : FlagStands readFiltering? b c d) (hd : d.Opens []) :
    c.Opens ["ALLOW"] := hd.before (filtering_starts h)

theorem opens_limit (h : OptionStands Statement.LimitStands limit c d) (hd : d.Opens ["ALLOW"]) :
    c.Opens ["LIMIT", "ALLOW"] := hd.before (limit_starts h)

theorem opens_order (h : OptionStands OrderKey.AllStand order c d)
    (hd : d.Opens ["LIMIT", "ALLOW"]) : c.Opens ["ORDER", "LIMIT", "ALLOW"] :=
  hd.before (order_starts h)

theorem opens_relations (h : Relation.AllStand relations c d)
    (hd : d.Opens ["ORDER", "LIMIT", "ALLOW"]) : c.Opens ["WHERE", "ORDER", "LIMIT", "ALLOW"] :=
  hd.before (relations_starts h)

end Starts

theorem opens_clauses {s : Statement Text} {c d : Cursor} (h : s.ClausesStand c d)
    (hd : d.Opens ["LIMIT", "ALLOW"]) : c.Opens ["WHERE", "ORDER", "LIMIT", "ALLOW"] := by
  obtain ⟨e, hr, ho⟩ := h
  exact opens_relations hr (opens_order ho hd)

theorem orderKey_optional_complete {order : Option (List (OrderKey Text))} {c d : Cursor}
    (h : OptionStands OrderKey.AllStand order c d) (hd : d.Opens ["LIMIT", "ALLOW"]) :
    ∃ o, c.optional OrderKey.readAll? = (o, d) ∧
      o.map (List.map (OrderKey.map Located.text)) = order := by
  refine optional_complete (fun keys _ hk => ?_) (fun hn => ?_) h
  · exact OrderKey.readAll?_complete hk
      ⟨hd.keyword?_eq_none (by decide), hd.keyword?_eq_none (by decide)⟩
      (symbol?_eq_none (hd.next_ne (by decide) (by decide)))
  · subst hn
    cases h
    simp [OrderKey.readAll?, hd.keyword?_eq_none (v := "ORDER") (by decide)]

/-- Conditions and an order that stand before what may come after them are read. -/
theorem clauses_complete {s : Statement Text} {c d : Cursor} (h : s.ClausesStand c d)
    (hd : d.Opens ["LIMIT", "ALLOW"]) : ∃ rs e ks, c.optional Relation.readAll? = (rs, e) ∧
      e.optional OrderKey.readAll? = (ks, d) ∧
      (rs.getD []).map (Relation.map Located.text) = s.relations ∧
      ks.map (List.map (OrderKey.map Located.text)) = s.order := by
  obtain ⟨e, hr, ho⟩ := h
  have he := opens_order ho hd
  obtain ⟨rs, hrs, hrmap⟩ := Relation.optional_complete hr (he.keyword?_eq_none (by decide))
    (he.keyword?_eq_none (by decide))
  obtain ⟨ks, hks, hkmap⟩ := orderKey_optional_complete ho hd
  exact ⟨rs, e, ks, hrs, hks, hrmap, hkmap⟩

theorem clauses_sound (c : Cursor) {s : Statement Text}
    (hr : s.relations = ((c.optional Relation.readAll?).1.getD []).map (Relation.map Located.text))
    (ho : s.order = ((c.optional Relation.readAll?).2.optional OrderKey.readAll?).1.map
      (List.map (OrderKey.map Located.text))) :
    s.ClausesStand c ((c.optional Relation.readAll?).2.optional OrderKey.readAll?).2 := by
  refine ⟨(c.optional Relation.readAll?).2, ?_, ?_⟩
  · rw [hr]
    cases h : Relation.readAll? c with
    | none => simp [Cursor.optional, h, Relation.AllStand]
    | some r =>
      obtain ⟨rs, d⟩ := r
      simpa [Cursor.optional, h] using Relation.readAll?_sound h
  · rw [ho]
    exact optional_sound fun ks d => OrderKey.readAll?_sound

theorem readLimitDigits?_eq_some_iff {c d : Cursor} {digits : Text} :
    readLimitDigits? c = some (digits, d) ↔ Statement.LimitDigitsStand digits c d := by
  rw [readLimitDigits?, Option.bind_eq_some_iff, Statement.LimitDigitsStand]

theorem readLimit_sound {c d : Cursor} {limit : Option Int} (h : readLimit c = .ok (limit, d)) :
    OptionStands Statement.LimitStands limit c d := by
  unfold readLimit at h
  split at h
  · cases h
    exact rfl
  · rename_i t e hl
    split at h
    · cases h
      exact ⟨t, rfl, readLimitDigits?_eq_some_iff.1 hl⟩
    · cases h

theorem readLimit_bound {c : Cursor} {r : Option Int × Cursor} (h : readLimit c = .ok r)
    (digits : Text) (e : Cursor) (hd : Statement.LimitDigitsStand digits c e) :
    digits.length - Text.signLength digits ≤ maxLimitDigits := by
  simp only [readLimit, readLimitDigits?_eq_some_iff.2 hd] at h
  split at h
  · assumption
  · cases h

theorem readLimit_complete {c d : Cursor} {limit : Option Int}
    (h : OptionStands Statement.LimitStands limit c d) (hd : d.Opens ["ALLOW"])
    (hlen : ∀ digits e, Statement.LimitDigitsStand digits c e →
      digits.length - Text.signLength digits ≤ maxLimitDigits) : readLimit c = .ok (limit, d) := by
  cases limit with
  | none =>
    cases h
    have : c.keyword? "LIMIT" = none := hd.keyword?_eq_none (by decide)
    simp [readLimit, readLimitDigits?, this]
  | some limit =>
    obtain ⟨digits, rfl, hl⟩ := h
    simp [readLimit, readLimitDigits?_eq_some_iff.2 hl, hlen digits d hl]

theorem expectEnd_eq_ok_iff {c : Cursor} : expectEnd c = .ok () ↔ c.skip.rest = [] := by
  unfold expectEnd
  split <;> simp_all

theorem readTail_sound {head d : Draft} {c : Cursor} (h : readTail head c = .ok d) :
    ∃ e, Statement.ClausesStand d.contents c e ∧ Statement.EndStands d.contents e ∧
      ∀ b, Statement.HeadStands head.contents b c → Statement.HeadStands d.contents b c := by
  simp only [readTail, Except.bind_eq_ok_iff] at h
  obtain ⟨⟨limit, e⟩, hl, ⟨⟩, hend, h⟩ := h
  cases h
  exact ⟨_, clauses_sound c rfl rfl, ⟨e, (e.flag readFiltering?).2, _, _, readLimit_sound hl,
    flag_sound readFiltering? e, flag_sound (symbol? ';') _, expectEnd_eq_ok_iff.1 hend⟩,
    fun _ hb => hb⟩

theorem readTail_complete {s : Statement Text} {head : Draft} {c d : Cursor}
    (hhead : head.contents = s.head) (h : s.ClausesStand c d) (hd : s.EndStands d)
    (hlen : ∀ digits e, Statement.LimitDigitsStand digits d e →
      digits.length - Text.signLength digits ≤ maxLimitDigits) :
    ∃ draft, readTail head c = .ok draft ∧ draft.contents = s := by
  obtain ⟨e, f, g, semicolon, hlimit, hfilt, hsemi, hend⟩ := hd
  have hf := opens_end hsemi hend
  have he := opens_filtering hfilt hf
  obtain ⟨rs, i, ks, hrs, hks, hrmap, hkmap⟩ := clauses_complete h (opens_limit hlimit he)
  have hflag : e.flag readFiltering? = (s.filtering, f) := by
    refine flag_complete (fun hn => ?_) hfilt
    have : f.keyword? "ALLOW" = none := hf.keyword?_eq_none (by decide)
    rw [hn] at hfilt
    cases hfilt
    simp [readFiltering?, this]
  have hsemicolon : f.flag (symbol? ';') = (semicolon, g) := by
    refine flag_complete (fun hn => symbol?_eq_none ?_) hsemi
    subst hn
    cases hsemi
    simp [next, hend]
  refine ⟨{ head with relations := rs.getD [], order := ks, limit := s.limit,
                      filtering := s.filtering }, ?_, ?_⟩
  · simp only [readTail, hrs, hks, readLimit_complete hlimit he hlen, hflag, hsemicolon,
      expectEnd_eq_ok_iff.2 hend, bind, Except.bind, pure, Except.pure]
  · have h₁ : head.distinct = s.distinct := congrArg Statement.distinct hhead
    have h₂ : head.json = s.json := congrArg Statement.json hhead
    have h₃ : head.columns.map (Selector.map Located.text) = s.columns :=
      congrArg Statement.columns hhead
    have h₄ : head.table.map Located.text = s.table := congrArg Statement.table hhead
    simp [contents, Statement.map, h₁, h₂, h₃, h₄, hrmap, hkmap]

/-! ## Whole statements -/

theorem read_sound {t : Text} {draft : Draft} (h : read t = .ok draft) : draft.contents.Stands t := by
  obtain ⟨⟨head, c⟩, hh, ht⟩ := Except.bind_eq_ok_iff.1 h
  obtain ⟨d, hc, he, hhead⟩ := readTail_sound ht
  exact ⟨c, d, hhead _ (readHead_sound hh), hc, he⟩

theorem opens_rest {s : Statement Text} {c : Cursor} (h : s.EndStands c) :
    c.Opens ["LIMIT", "ALLOW"] := by
  obtain ⟨e, f, g, semicolon, hlimit, hfilt, hsemi, hend⟩ := h
  exact opens_limit hlimit (opens_filtering hfilt (opens_end hsemi hend))

/-- What stands in the text is read, unless its limit has too many digits. -/
theorem read_of_stands {s : Statement Text} {t : Text} {c d : Cursor}
    (hhead : s.HeadStands (start (Text.expandTabs t)) c) (hclauses : s.ClausesStand c d)
    (hend : s.EndStands d) (hlen : ∀ digits e, Statement.LimitDigitsStand digits d e →
      digits.length - Text.signLength digits ≤ maxLimitDigits) :
    ∃ draft, read t = .ok draft ∧ draft.contents = s := by
  obtain ⟨head, hh, hcontents⟩ := readHead_complete hhead
    ((opens_clauses hclauses (opens_rest hend)).next_ne (by decide) (by decide))
  obtain ⟨draft, htail, hdraft⟩ := readTail_complete hcontents hclauses hend hlen
  exact ⟨draft, by simp [read, hh, htail, bind, Except.bind], hdraft⟩

theorem read_complete {s : Statement Text} {t : Text} (h : s.Stands t) (ht : ¬ LimitTooLong t) :
    ∃ draft, read t = .ok draft ∧ draft.contents = s := by
  obtain ⟨c, d, hhead, hclauses, hend⟩ := h
  exact read_of_stands hhead hclauses hend fun digits e hd =>
    Nat.le_of_not_lt fun hlt => ht ⟨s, c, d, e, digits, hhead, hclauses, hd, hlt⟩

/-! ## Faults -/

theorem expectKeyword_error {w : String} {c : Cursor} {e : ReadError}
    (h : expectKeyword w c = .error e) :
    c.keyword? w = none ∧ e = .unexpected (c.keywordFault w) := by
  unfold expectKeyword at h
  split at h
  · cases h
  · cases h
    exact ⟨‹_›, rfl⟩

theorem expectSelectors_error {json : Bool} {c : Cursor} {e : ReadError}
    (h : expectSelectors json c = .error e) :
    Selector.readAll? (firstPlace json) c = none ∧ e = .unexpected (Call.faultAt c) := by
  unfold expectSelectors at h
  split at h
  · cases h
  · cases h
    exact ⟨‹_›, rfl⟩

theorem expectTable_error {c : Cursor} {e : ReadError} (h : expectTable c = .error e) :
    TableName.read? c = none ∧ e = .unexpected (TableName.faultAt c) := by
  unfold expectTable at h
  split at h
  · cases h
  · cases h
    exact ⟨‹_›, rfl⟩

theorem readHead_error {c : Cursor} {e : ReadError} (h : readHead c = .error e) :
    ∃ p, e = .unexpected p := by
  rcases Except.bind_eq_error_iff.1 h with h | ⟨c₁, -, h⟩
  · exact ⟨_, (expectKeyword_error h).2⟩
  rcases Except.bind_eq_error_iff.1 h with h | ⟨⟨ss, c₄⟩, -, h⟩
  · exact ⟨_, (expectSelectors_error h).2⟩
  rcases Except.bind_eq_error_iff.1 h with h | ⟨c₅, -, h⟩
  · exact ⟨_, (expectKeyword_error h).2⟩
  rcases Except.bind_eq_error_iff.1 h with h | ⟨⟨t, d⟩, -, h⟩
  · exact ⟨_, (expectTable_error h).2⟩
  · cases h

theorem expectEnd_error {c : Cursor} {e : ReadError} (h : expectEnd c = .error e) :
    c.skip.rest ≠ [] ∧ e = .unexpected c.skip.position := by
  unfold expectEnd at h
  split at h
  · cases h
  · cases h
    exact ⟨fun hnil => ‹¬ _› (by rw [hnil]; rfl), rfl⟩

theorem readLimit_error {c : Cursor} {e : ReadError} (h : readLimit c = .error e) :
    e = .limitTooLong ∧ ∃ digits d, Statement.LimitDigitsStand digits c d ∧
      maxLimitDigits < digits.length - Text.signLength digits := by
  unfold readLimit at h
  split at h
  · cases h
  · rename_i digits d hd
    split at h <;> cases h
    rename_i hlen
    exact ⟨rfl, digits, d, readLimitDigits?_eq_some_iff.1 hd, Nat.lt_of_not_le hlen⟩

/-- After the table only the limit has a fault of its own. -/
theorem readTail_error {head : Draft} {c : Cursor} {e : ReadError} (h : readTail head c = .error e) :
    (∃ p, e = .unexpected p) ∨ e = .limitTooLong ∧ ∃ (s : Statement Text) (d f : Cursor)
      (digits : Text), (∀ b, Statement.HeadStands head.contents b c → s.HeadStands b c) ∧
      s.ClausesStand c d ∧ Statement.LimitDigitsStand digits d f ∧
      maxLimitDigits < digits.length - Text.signLength digits := by
  rcases Except.bind_eq_error_iff.1 h with h | ⟨⟨limit, d⟩, -, h⟩
  · obtain ⟨rfl, digits, f, hf, hlen⟩ := readLimit_error h
    refine .inr ⟨rfl, { head.contents with
        relations := ((c.optional Relation.readAll?).1.getD []).map (Relation.map Located.text)
        order := ((c.optional Relation.readAll?).2.optional OrderKey.readAll?).1.map
          (List.map (OrderKey.map Located.text)) }, _, f, digits, fun _ hb => hb,
      clauses_sound c rfl rfl, hf, hlen⟩
  · rcases Except.bind_eq_error_iff.1 h with h | ⟨⟨⟩, -, h⟩
    · exact .inl ⟨_, (expectEnd_error h).2⟩
    · cases h

theorem read_error {t : Text} {e : ReadError} (h : read t = .error e) :
    (∃ p, e = .unexpected p) ∨ e = .limitTooLong ∧ LimitTooLong t := by
  rcases Except.bind_eq_error_iff.1 h with h | ⟨⟨head, c⟩, hh, h⟩
  · exact .inl (readHead_error h)
  · rcases readTail_error h with h | ⟨he, s, d, f, digits, hhead, hc, hd, hlen⟩
    · exact .inl h
    · exact .inr ⟨he, s, c, d, f, digits, hhead _ (readHead_sound hh), hc, hd, hlen⟩

/-- A limit with too many digits is a fault wherever it stands. -/
theorem read_eq_limitTooLong_iff {t : Text} : read t = .error .limitTooLong ↔ LimitTooLong t := by
  constructor
  · intro h
    rcases read_error h with ⟨p, h⟩ | ⟨-, h⟩
    · cases h
    · exact h
  · rintro ⟨s, c, d, e, digits, hhead, hclauses, hdigits, hlen⟩
    have hd : d.Opens ["LIMIT", "ALLOW"] := by
      obtain ⟨f, hf, -⟩ := hdigits
      exact .head hf
    obtain ⟨head, hh, -⟩ := readHead_complete hhead
      ((opens_clauses hclauses hd).next_ne (by decide) (by decide))
    obtain ⟨rs, i, ks, hrs, hks, -⟩ := clauses_complete hclauses hd
    have hlimit : readLimit d = .error .limitTooLong := by
      simp [readLimit, readLimitDigits?_eq_some_iff.2 hdigits, Nat.not_le.2 hlen]
    simp [read, hh, readTail, hrs, hks, hlimit, bind, Except.bind]

end Draft

/-! ## Readings -/

theorem Statement.Stands.unique {s u : Statement Text} {t : Text} (hs : s.Stands t)
    (hu : u.Stands t) (ht : ¬ LimitTooLong t) : s = u := by
  obtain ⟨d, hd, rfl⟩ := Draft.read_complete hs ht
  obtain ⟨e, he, rfl⟩ := Draft.read_complete hu ht
  rw [hd] at he
  cases he
  rfl

/-- The names and the rest of a statement that is parsed stand in the text. -/
theorem Select.stands_of_parse {s : Select} {t : Text} (h : parse t = .ok s) :
    (s.map Identifier.text).Stands t := by
  obtain ⟨draft, hread, hcheck⟩ := parse_eq_ok_iff.1 h
  obtain ⟨rfl, -⟩ := Draft.check_eq_ok_iff.1 hcheck
  rw [Statement.map_map, show Identifier.text ∘ Identifier.mk = id from rfl, Statement.map_id]
  exact Draft.read_sound hread

theorem Select.not_limitTooLong_of_parse {s : Select} {t : Text} (h : parse t = .ok s) :
    ¬ LimitTooLong t := by
  intro ht
  obtain ⟨draft, hread, -⟩ := parse_eq_ok_iff.1 h
  rw [Draft.read_eq_limitTooLong_iff.2 ht] at hread
  cases hread

theorem Select.parse_ne_unexpected_iff {t : Text} :
    (∀ p, parse t ≠ .error (.unexpected p)) ↔
      (∃ draft, Draft.read t = .ok draft) ∨ LimitTooLong t := by
  have hread : ∀ p, parse t = .error (.unexpected p) ↔ Draft.read t = .error (.unexpected p) :=
    fun p => parse_eq_error_iff (by simp)
  simp only [ne_eq, hread, ← Draft.read_eq_limitTooLong_iff]
  cases h : Draft.read t with
  | ok draft => simp
  | error e => rcases Draft.read_error h with ⟨p, rfl⟩ | ⟨rfl, -⟩ <;> simp

/-- The grammar phase succeeds exactly where the text spells a statement, whichever way that is
found; the text then spells no other, and it is the one that is read. -/
theorem Select.parse_reads_grammar {t : Text} (h : ¬ LimitTooLong t) :
    ((∀ p, parse t ≠ .error (.unexpected p)) ↔ ∃ s : Statement Text, s.Stands t) ∧
    (∀ s u : Statement Text, s.Stands t → u.Stands t → s = u) ∧
    (∀ s : Statement Text, s.Stands t → ∃ draft, Draft.read t = .ok draft ∧ draft.contents = s) ∧
    ∀ (s : Statement Text) (r : Select), s.Stands t → parse t = .ok r →
      r.map Identifier.text = s := by
  refine ⟨?_, fun s u hs hu => hs.unique hu h, fun s hs => Draft.read_complete hs h,
    fun s r hs hr => (stands_of_parse hr).unique hs h⟩
  rw [parse_ne_unexpected_iff]
  constructor
  · rintro (⟨draft, hd⟩ | ht)
    · exact ⟨_, Draft.read_sound hd⟩
    · exact absurd ht h
  · rintro ⟨s, hs⟩
    obtain ⟨draft, hd, -⟩ := Draft.read_complete hs h
    exact .inl ⟨draft, hd⟩

/-- `DISTINCT` is a flag here, and also an alias; `JSON` is a column. -/
theorem Select.parse_reads_flag_words :
    ¬ LimitTooLong "select distinct JSON as distinct from t".toList ∧
    ∃ s : Statement Text, s.Stands "select distinct JSON as distinct from t".toList ∧
      s.distinct = true ∧ s.json = false := by
  have h : ¬ LimitTooLong "select distinct JSON as distinct from t".toList := by
    rw [← Draft.read_eq_limitTooLong_iff]
    decide +kernel
  have hr : parse "select distinct JSON as distinct from t".toList = .ok
      { distinct := true
        columns := [.column ⟨⟨"JSON".toList⟩, some ⟨"distinct".toList⟩⟩]
        table := ⟨⟨"t".toList⟩, none⟩ } := by decide +kernel
  obtain ⟨hiff, -, -, hread⟩ := parse_reads_grammar h
  obtain ⟨s, hs⟩ := hiff.1 fun p hp => by
    rw [hr] at hp
    cases hp
  have hs' := hread s _ hs hr
  exact ⟨h, s, hs, congrArg Statement.distinct hs'.symm, congrArg Statement.json hs'.symm⟩

end CqlCanon
