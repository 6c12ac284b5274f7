import CqlCanon.Proofs.Located.Basic

/-!
# The names and calls of a draft

For each part of a statement: what its reader reads is spelled by the tokens
that are passed, and they locate the names and calls of the part.
-/

namespace CqlCanon

open Cursor Lexeme

variable {k : Token} {c d : Cursor}

/-! ## Selectors -/

theorem Named.readAlias?_locates {label : Located} (h : readAlias? c = some (label, d)) :
    Locates k (aliasLexemes (some label.text)) c d [label] := by
  obtain ⟨e, he, hd⟩ := Option.bind_eq_some_iff.1 h
  exact .after (passes_keyword.2 he)
    (Located.read?_locates (Token.reportsAt_position (.inl rfl)) hd)

theorem Named.optionalAlias_locates (c : Cursor) :
    Locates k (aliasLexemes ((c.optional readAlias?).1.map Located.text)) c
      (c.optional readAlias?).2 (c.optional readAlias?).1.toList := by
  unfold Cursor.optional
  cases h : readAlias? c with
  | none => exact .mark rfl
  | some r => exact readAlias?_locates h

namespace Selector

theorem readFunction?_locates {name : Located} (hc : c.Clean)
    (h : readFunction? c = some (name, d)) : ∃ x : Call, x.Canonical ∧ x.render = name.text ∧
      Locates k x.lexemes c d [name] := by
  obtain ⟨⟨x, e⟩, hx, heq⟩ := Option.map_eq_some_iff.1 h
  cases heq
  have hstands := Call.read?_sound c hx
  have hcanonical := (Call.stands_canonical.1 x hstands hc).1
  have hpasses := Call.stands_passes.1 x hstands
  refine ⟨x, hcanonical, rfl, .single hpasses
    ⟨_, [], (List.append_nil _).symm, ?_, .inr ⟨rfl, x, hcanonical, rfl, rfl⟩⟩⟩
  rw [List.length_take_of_le (layoutLength_le _)]
  rfl

theorem read?_locates {place : Cursor → Nat} {s : Selector Located} (hk : k.ReportsAt place)
    (hc : c.Clean) (h : read? place c = some (s, d)) :
    ∃ l, (s.map Located.text).Spelled l ∧ Locates k l c d s.identifiers := by
  unfold read? at h
  split at h
  · rename_i name e hname
    cases h
    obtain ⟨x, hx, hr, hlocates⟩ := readFunction?_locates (k := k) hc hname
    exact ⟨_, ⟨x, hx, hr, rfl⟩,
      (hlocates.append (Named.optionalAlias_locates e)).of_subset List.perm_append_comm.subset⟩
  · split at h
    · rename_i name e hname
      cases h
      exact ⟨_, rfl, ((Located.read?_locates hk hname).append
        (Named.optionalAlias_locates e)).of_subset List.perm_append_comm.subset⟩
    · cases h

theorem readAll?_locates {place : Cursor → Nat} {ss : List (Selector Located)}
    (hk : k.ReportsAt place) (hc : c.Clean) (h : readAll? place c = some (ss, d)) :
    ∃ l, AllSpelled (ss.map (map Located.text)) l ∧
      Locates k l c d (ss.flatMap Selector.identifiers) := by
  unfold readAll? at h
  split at h
  · rename_i e he
    cases h
    exact ⟨_, .inl ⟨rfl, rfl⟩, .mark (passes_symbol.2 he)⟩
  · simp only [Option.bind_eq_bind, Option.bind_eq_some_iff] at h
    obtain ⟨⟨s, e⟩, hs, h⟩ := h
    cases h
    obtain ⟨l, hl, hfirst⟩ := read?_locates hk hc hs
    obtain ⟨ls, hls, hmore⟩ := MoreStand.locates (k := lastKind k l)
      (S := fun (s : Selector Located) l => (s.map Located.text).Spelled l)
      (fun _ _ => passes_symbol.2)
      (fun s _ _ hs hc => read?_locates (Token.reportsAt_commentsEnd (.inl rfl)) hc hs)
      (more_sound (f := id) comma_size_lt e fun _ _ _ _ h => h) (hfirst.cleans hc)
    rw [List.map_id] at hls hmore
    exact ⟨_, .inr ⟨by simp, l :: ls, .cons hl (List.forall₂_map_left_iff.2 hls), rfl⟩,
      hfirst.append hmore⟩

end Selector

/-! ## The table -/

theorem TableName.read?_locates {t : TableName Located} (hk : k.ReportsAt commentsEnd)
    (h : read? c = some (t, d)) : Locates k (t.map Located.text).lexemes c d t.identifiers := by
  unfold read? at h
  split at h
  · rename_i keyspace e hkeyspace
    simp only [readKeyspace?, Option.bind_eq_bind, Option.bind_eq_some_iff] at hkeyspace
    obtain ⟨⟨l, f⟩, hl, i, hi, heq⟩ := hkeyspace
    cases heq
    obtain ⟨⟨n, j⟩, hn, heq⟩ := Option.map_eq_some_iff.1 h
    cases heq
    have hname := Located.read?_locates (Token.reportsAt_position (.inr rfl)) hn
    exact (Located.read?_locates hk hl).append (.after (passes_symbol.2 hi) hname)
  · obtain ⟨⟨n, j⟩, hn, heq⟩ := Option.map_eq_some_iff.1 h
    cases heq
    exact Located.read?_locates hk hn

/-! ## Conditions -/

/-- A sequence of items with one name each, which is reported where the comments before it end. -/
theorem Cursor.sequence?_locates {β : Type} {separator : Cursor → Option Cursor}
    {item : Cursor → Option (β × Cursor)} {S : β → List Lexeme → Prop} {sep : Lexeme}
    {name : β → Located} {bs : List β}
    (hs : ∀ c d, separator c = some d → d.size < c.size)
    (hsep : ∀ c d, separator c = some d → c.Passes [sep] d)
    (hitem : ∀ k : Token, k.ReportsAt commentsEnd → ∀ b c d, item c = some (b, d) → c.Clean →
      ∃ l, S b l ∧ Locates k l c d [name b])
    (hk : k.ReportsAt commentsEnd) (hsepk : sep.kind.ReportsAt commentsEnd) (hc : c.Clean)
    (h : sequence? separator item c = some (bs, d)) :
    bs ≠ [] ∧ ∃ ls, List.Forall₂ S bs ls ∧ Locates k (separated sep ls) c d (bs.map name) := by
  obtain ⟨⟨b, e⟩, hb, heq⟩ := Option.map_eq_some_iff.1 h
  cases heq
  obtain ⟨l, hl, hfirst⟩ := hitem k hk b c e hb hc
  obtain ⟨ls, hls, hmore⟩ := MoreStand.locates (k := lastKind k l) hsep (hitem sep.kind hsepk)
    (more_sound (f := id) hs e fun _ _ _ _ h => h) (hfirst.cleans hc)
  rw [List.map_id] at hls hmore
  refine ⟨by simp, l :: ls, .cons hl hls, ?_⟩
  rw [List.map_cons, List.map_eq_flatMap]
  exact hfirst.append hmore

namespace Relation

theorem read?_locates {r : Relation Located} (hk : k.ReportsAt commentsEnd) (hc : c.Clean)
    (h : read? c = some (r, d)) :
    ∃ l, (r.map Located.text).Spelled l ∧ Locates k l c d [r.column] := by
  simp only [read?, Option.bind_eq_bind, Option.bind_eq_some_iff] at h
  obtain ⟨⟨column, e⟩, hcolumn, ⟨o, f⟩, ho, ⟨v, i⟩, hv, h⟩ := h
  cases h
  have hname := Located.read?_locates hk hcolumn
  have hoperator := operatorStands_iff_passes.1 (readOperator?_sound ho)
  have hvalue := Term.read?_sound f hv
  have hcanonical := (hvalue.canonical ((hname.cleans hc).passes hoperator)).1
  exact ⟨_, ⟨v, hcanonical, rfl, rfl⟩, hname.append
    (.mark (passes_append.2 ⟨f, hoperator, Term.stands_iff_passes.1 hvalue⟩))⟩

theorem optional_locates (hc : c.Clean) : ∃ l,
    AllSpelled (((c.optional readAll?).1.getD []).map (map Located.text)) l ∧
      Locates k l c (c.optional readAll?).2
        (((c.optional readAll?).1.getD []).map Relation.column) := by
  unfold Cursor.optional
  cases h : readAll? c with
  | none => exact ⟨[], .inl ⟨rfl, rfl⟩, .mark rfl⟩
  | some r =>
    obtain ⟨rs, d⟩ := r
    obtain ⟨e, he, hs⟩ := Option.bind_eq_some_iff.1 h
    have hwhere := passes_keyword.2 he
    obtain ⟨hne, ls, hls, hlocates⟩ := sequence?_locates (k := .keyword "WHERE".toList)
      (S := fun (r : Relation Located) l => (r.map Located.text).Spelled l) and_size_lt
      (fun _ _ => passes_keyword.2) (fun k hk r _ _ hr hc => read?_locates hk hc hr)
      (Token.reportsAt_commentsEnd (.inr (by decide)))
      (Token.reportsAt_commentsEnd (.inr (by decide))) (hc.passes hwhere) hs
    exact ⟨_, .inr ⟨by simpa using hne, ls, List.forall₂_map_left_iff.2 hls, rfl⟩,
      .after hwhere hlocates⟩

end Relation

/-! ## The order -/

namespace OrderKey

theorem read?_locates {key : OrderKey Located} (hk : k.ReportsAt commentsEnd)
    (h : read? c = some (key, d)) :
    ∃ l, (key.map Located.text).Spelled l ∧ Locates k l c d [key.column] := by
  obtain ⟨⟨column, e⟩, hcolumn, heq⟩ := Option.map_eq_some_iff.1 h
  cases heq
  obtain ⟨l, hl, hdirection⟩ := spelled_of_direction
    (k := ⟨column.text, (readDescending e).1⟩) (readDescending_sound e)
  exact ⟨_, hl, (Located.read?_locates hk hcolumn).append (.mark hdirection)⟩

theorem optional_locates (hc : c.Clean) : ∃ l,
    AllSpelled ((c.optional readAll?).1.map (List.map (map Located.text))) l ∧
      Locates k l c (c.optional readAll?).2
        (((c.optional readAll?).1.getD []).map OrderKey.column) := by
  unfold Cursor.optional
  cases h : readAll? c with
  | none => exact ⟨[], rfl, .mark rfl⟩
  | some r =>
    obtain ⟨ks, d⟩ := r
    simp only [readAll?, Option.bind_eq_bind, Option.bind_eq_some_iff] at h
    obtain ⟨e, he, f, hf, hs⟩ := h
    have horder := passes_keyword.2 he
    have hby := passes_keyword.2 hf
    obtain ⟨hne, ls, hls, hlocates⟩ := sequence?_locates (k := .keyword "BY".toList)
      (S := fun (key : OrderKey Located) l => (key.map Located.text).Spelled l) comma_size_lt
      (fun _ _ => passes_symbol.2) (fun k hk _ _ _ hr _ => read?_locates hk hr)
      (Token.reportsAt_commentsEnd (.inr (by decide))) (Token.reportsAt_commentsEnd (.inl rfl))
      ((hc.passes horder).passes hby) hs
    exact ⟨_, ⟨by simpa using hne, ls, List.forall₂_map_left_iff.2 hls, rfl⟩,
      .after horder (.after hby hlocates)⟩

end OrderKey

/-! ## Statements -/

namespace Draft

/-- What decides where the first selector is reported is the last flag before it. -/
theorem reportsAt_firstPlace (distinct json : Bool) :
    (lastKind (.keyword "SELECT".toList) (flag "DISTINCT" distinct ++ flag "JSON" json)).ReportsAt
      (firstPlace json) := by
  cases json with
  | true => exact Token.reportsAt_commentsEnd (.inr (by cases distinct <;> decide))
  | false => exact Token.reportsAt_skip (by cases distinct <;> decide)

theorem readHead_locates {head : Draft} (hc : c.Clean) (h : readHead c = .ok (head, d)) :
    ∃ l e, head.contents.HeadSpelled (keyword "SELECT" :: l) ∧ c.Passes [keyword "SELECT"] e ∧
      Locates (.keyword "SELECT".toList) l e d
        (head.columns.flatMap Selector.identifiers ++ head.table.identifiers) := by
  simp only [readHead, Except.bind_eq_ok_iff, expectKeyword_eq_ok_iff, expectSelectors_eq_ok_iff,
    expectTable_eq_ok_iff] at h
  obtain ⟨c₁, h₁, ⟨ss, c₄⟩, hs, c₅, h₅, ⟨t, e⟩, ht, h⟩ := h
  cases h
  have hselect := passes_keyword.2 h₁
  have hdistinct := passes_flag.2
    (flagStands_of_flag c₁ (fun _ h => (readDistinct?_eq_some_iff.1 h).1))
  have hjson := passes_flag.2
    (flagStands_of_flag (c₁.flag readDistinct?).2 (fun _ h => (readJson?_eq_some_iff.1 h).1))
  have hflags : Locates (.keyword "SELECT".toList) _ c₁ _ [] :=
    .mark (passes_append.2 ⟨_, hdistinct, hjson⟩)
  obtain ⟨l, hl, hcolumns⟩ := Selector.readAll?_locates (reportsAt_firstPlace _ _)
    (hflags.cleans (hc.passes hselect)) hs
  have htable := TableName.read?_locates (k := (keyword "FROM").kind)
    (Token.reportsAt_commentsEnd (.inr (by decide))) ht
  refine ⟨_, c₁, ⟨l, hl, ?_⟩, hselect,
    hflags.append (hcolumns.append (.after (passes_keyword.2 h₅) htable))⟩
  rw [List.append_assoc]
  rfl

theorem readTail_locates {head draft : Draft} (hc : c.Clean) (h : readTail head c = .ok draft) :
    ∃ l m e f, draft.contents.ClausesSpelled l ∧ draft.contents.EndSpelled m ∧
      Locates k l c e
        (draft.relations.map Relation.column ++ (draft.order.getD []).map OrderKey.column) ∧
      e.Passes m f ∧ f.skip.rest = [] ∧
      (∀ n, head.contents.HeadSpelled n → draft.contents.HeadSpelled n) ∧
      draft.columns = head.columns ∧ draft.table = head.table := by
  simp only [readTail, Except.bind_eq_ok_iff] at h
  obtain ⟨⟨limit, e⟩, hlimit, ⟨⟩, hend, h⟩ := h
  cases h
  obtain ⟨l, hl, hrelations⟩ := Relation.optional_locates (k := k) hc
  obtain ⟨m, hm, horder⟩ := OrderKey.optional_locates (k := lastKind k l) (hrelations.cleans hc)
  obtain ⟨n, hn, hrest⟩ := Statement.rest_passes
    (s := { head.contents with limit, filtering := (e.flag readFiltering?).1 })
    (readLimit_sound hlimit) (flag_sound readFiltering? e) (flag_sound (symbol? ';') _)
    (readLimit_bound hlimit)
  exact ⟨_, n, _, _, ⟨l, m, hl, hm, rfl⟩, hn, hrelations.append horder, hrest,
    expectEnd_eq_ok_iff.1 hend, fun _ h => h, rfl, rfl⟩

/-- The tokens of a text that is read, from its first key word on, locate the names and calls of the
draft. -/
theorem read_locates {t : Text} {draft : Draft} (h : read t = .ok draft) : ∃ l c d,
    draft.contents.Spelled (keyword "SELECT" :: l) ∧
      (start (Text.expandTabs t)).Passes [keyword "SELECT"] c ∧
      Locates (.keyword "SELECT".toList) l c d draft.identifiers ∧ d.skip.rest = [] := by
  obtain ⟨⟨head, e⟩, hhead, htail⟩ := Except.bind_eq_ok_iff.1 h
  have hc : (start (Text.expandTabs t)).Clean := Text.tab_not_mem_expandTabs t
  obtain ⟨l, c, hl, hselect, hcolumns⟩ := readHead_locates hc hhead
  obtain ⟨m, n, f, d, hm, hn, hclauses, hrest, hd, hspelled, hcols, htable⟩ :=
    readTail_locates (k := lastKind (.keyword "SELECT".toList) l)
      (hcolumns.cleans (hc.passes hselect)) htail
  refine ⟨l ++ (m ++ n), c, d, ⟨_, m, n, hspelled _ hl, hm, hn, rfl⟩, hselect,
    (hcolumns.append (hclauses.append (.mark hrest))).of_subset ?_, hd⟩
  intro i hi
  simpa [Statement.identifiers, hcols, htable] using hi

end Draft

end CqlCanon
