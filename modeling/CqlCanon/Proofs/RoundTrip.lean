import CqlCanon.Proofs.Canonical

/-!
# Round trips

The canonical text of a well-formed statement is read as that statement. Every
statement that is read is well-formed, so canonical texts stay as they are. Only
the digits of its limit can keep a statement from being written.
-/

namespace CqlCanon

open Cursor

/-! ## Statements that are built -/

theorem Text.IsName.fault? {t : Text} (h : t.IsName) : Identifier.fault? t = none :=
  (Identifier.nameFault?_eq_none_iff.1 h.accepted).1

theorem Selector.WellFormed.spells {x : Selector Identifier} (h : x.WellFormed) :
    Spells (x.map Identifier.text).Stands x.render := by
  cases x with
  | star => cases h
  | column n => exact column_spells fun i hi => (h i hi).token
  | function n =>
    obtain ⟨⟨call, hcall⟩, hlabel⟩ := h
    have hspells := Call.canonical_spells.1 call hcall.canonical
    rw [hcall.text] at hspells
    have := function_spells hspells fun i hi => (hlabel i hi).token
    rwa [hcall.text] at this

namespace Select

variable {s : Select}

theorem map_text_map_mk (s : Select) : (s.map Identifier.text).map Identifier.mk = s := by
  rw [Statement.map_map]
  exact Statement.map_id s

theorem WellFormed.fault? (h : s.WellFormed) :
    ∀ i ∈ s.identifiers, Identifier.fault? i.text = none := by
  refine h.forall_identifiers (fun _ ht => ht.fault?) fun c i hcall => ?_
  rw [← hcall.text, hcall.canonical.fault?, hcall.function]
  rfl

theorem WellFormed.tab (h : s.WellFormed) : '\t' ∉ render s :=
  tab_not_mem_render h.clauses h.columns_ne_nil <|
    h.forall_identifiers (fun _ ht => ht.tab) fun c _ hcall =>
      hcall.text ▸ Call.canonical_tab.1 c hcall.canonical

theorem WellFormed.read_render (h : s.WellFormed) :
    ∃ draft, Draft.read (render s) = .ok draft ∧ draft.contents = s.map Identifier.text := by
  have hcolumns : SelectorsSpell s.columns (Selector.map Identifier.text) := by
    refine ⟨?_, rfl⟩
    rcases h.columns with hstar | ⟨hne, hcolumns⟩
    · exact .inl hstar
    · exact .inr ⟨hne, fun x hx => (hcolumns x hx).spells⟩
  obtain ⟨c, d, hhead, hreading⟩ :=
    render_stands hcolumns (h.clauses.mono fun _ => Text.IsName.token) h.tab
  refine Draft.read_of_stands hhead hreading.clauses hreading.rest fun digits e hd => ?_
  obtain ⟨z, hz, rfl⟩ := hreading.digits digits e hd
  rw [Text.length_ofInt]
  exact (Text.length_ofNat_le_iff (by decide)).2 (h.limit z hz)

/-- A draft whose contents are those of a statement with accepted names is that statement. -/
theorem parse_of_contents {t : Text} {draft : Draft} (hread : Draft.read t = .ok draft)
    (hcontents : draft.contents = s.map Identifier.text)
    (hf : ∀ i ∈ s.identifiers, Identifier.fault? i.text = none) : parse t = .ok s := by
  refine parse_eq_ok_iff.2 ⟨draft, hread, Draft.check_eq_ok_iff.2 ⟨?_, ?_⟩⟩
  · rw [hcontents, map_text_map_mk]
  · rw [hcontents, Statement.identifiers_map, List.forall_mem_map]
    exact hf

theorem WellFormed.parse_eq (h : s.WellFormed) : parse (render s) = .ok s := by
  obtain ⟨draft, hread, hcontents⟩ := h.read_render
  exact parse_of_contents hread hcontents h.fault?

/-- The canonical text of a well-formed statement is read as that statement. -/
theorem parse_render {s : Select} (h : s.WellFormed) : parse (render s) = .ok s :=
  h.parse_eq

/-- Words of the grammar that are not reserved are names here. -/
theorem parse_render_words : ∃ s : Select, s.names = [⟨"json".toList⟩, ⟨"Distinct".toList⟩] ∧
    s.distinct = true ∧ s.json = false ∧ s.WellFormed ∧ parse (render s) = .ok s := by
  have h : WellFormed
      { distinct := true
        columns := [.column ⟨⟨"json".toList⟩, some ⟨"as".toList⟩⟩, .column ⟨⟨"Distinct".toList⟩, none⟩]
        table := ⟨⟨"contains".toList⟩, some ⟨"key".toList⟩⟩
        relations := [⟨⟨"contains".toList⟩, "CONTAINS KEY".toList, "null".toList⟩]
        order := some [⟨⟨"true".toList⟩, true⟩]
        limit := some (-5) } := by
    refine ⟨.inr ⟨by simp, ?_⟩, ⟨by decide +kernel, ?_, by simp, by decide +kernel⟩, ?_⟩
    · simp only [List.mem_cons, List.not_mem_nil, or_false]
      rintro x (rfl | rfl) <;> unfold Selector.WellFormed
      · decide +kernel
      · decide +kernel
    · simp only [List.mem_singleton]
      rintro r rfl
      exact ⟨by decide +kernel, by decide +kernel, .constant .null, .constant .null, rfl⟩
    · rintro z hz
      cases hz
      exact Nat.lt_of_lt_of_le (by decide) (Nat.le_self_pow (by decide) 10)
  exact ⟨_, rfl, rfl, rfl, h, parse_render h⟩

/-! ## Statements that are written -/

theorem write_eq_ok_iff {t : Text} : write s = .ok t ↔
    (∀ z, s.limit = some z → z.natAbs < 10 ^ maxLimitDigits) ∧ t = render s := by
  have hlength : (∀ z ∈ s.limit, (Text.ofNat z.natAbs).length ≤ maxLimitDigits) ↔
      ∀ z, s.limit = some z → z.natAbs < 10 ^ maxLimitDigits :=
    forall₂_congr fun _ _ => Text.length_ofNat_le_iff (by decide)
  rw [← hlength]
  unfold write
  split
  · rename_i h
    rw [and_iff_right h, Except.ok.injEq, eq_comm]
  · rename_i h
    exact ⟨nofun, fun ht => absurd ht.1 h⟩

/-- Only a limit that has too many digits keeps a statement from being written. -/
theorem write_eq_error_iff : write s = .error .limitTooLong ↔
    ∃ z, s.limit = some z ∧ 10 ^ maxLimitDigits ≤ z.natAbs := by
  have herror : write s = .error .limitTooLong ↔ ¬ ∃ t, write s = .ok t := by
    unfold write
    split <;> simp
  simp only [herror, write_eq_ok_iff, exists_and_left, exists_eq, and_true, not_forall, Nat.not_lt,
    exists_prop]

theorem WellFormed.write_eq (h : s.WellFormed) : write s = .ok (render s) :=
  write_eq_ok_iff.2 ⟨h.limit, rfl⟩

/-- A well-formed statement is written, and is what its text holds. -/
theorem WellFormed.reread_eq (h : s.WellFormed) : reread s = .ok s := by
  rw [reread, h.write_eq]
  exact Except.bind_eq_ok_iff.2 ⟨_, rfl, h.parse_eq⟩

/-! ## Statements that are read -/

theorem columns_wellFormed {c d : Cursor}
    (h : Selector.AllStand (s.columns.map (Selector.map Identifier.text)) c d) (hc : c.Clean)
    (hf : ∀ x ∈ s.columns, ∀ i ∈ x.identifiers, Identifier.fault? i.text = none) :
    (s.columns = [.star] ∨ s.columns ≠ [] ∧ ∀ x ∈ s.columns, x.WellFormed) ∧ d.Clean := by
  rcases h with ⟨hstar, h⟩ | h
  · refine ⟨.inl ?_, hc.symbol? h⟩
    obtain ⟨x, hx, hmap⟩ := List.map_eq_singleton_iff.1 hstar
    cases x with
    | star => exact hx
    | column n => cases hmap
    | function n => cases hmap
  · obtain ⟨hall, hd⟩ := SequenceStands.forall_map (P := Selector.WellFormed)
      (fun _ _ hi hc => hc.symbol? hi) (fun _ _ _ hb hc => hb.clean hc)
      (fun x hx _ _ hj hi => hj.wellFormed hi (hf x hx)) h hc
    refine ⟨.inr ⟨?_, hall⟩, hd⟩
    intro hnil
    rw [hnil] at h
    cases h

theorem relations_wellFormed {c d : Cursor}
    (h : Relation.AllStand (s.relations.map (Relation.map Identifier.text)) c d) (hc : c.Clean)
    (hf : ∀ r ∈ s.relations, Identifier.fault? r.column.text = none) :
    (∀ r ∈ s.relations, r.WellFormed Text.IsName) ∧ d.Clean := by
  have hitem : ∀ r ∈ s.relations, ∀ i j, (r.map Identifier.text).Stands i j → i.Clean →
      r.WellFormed Text.IsName := fun r hr _ _ hj hi => hj.wellFormed hi (hf r hr)
  cases hrs : s.relations with
  | nil =>
    rw [hrs] at h
    exact ⟨fun _ hr => absurd hr List.not_mem_nil, (show c = d from h) ▸ hc⟩
  | cons r rs =>
    rw [hrs] at h hitem
    obtain ⟨e, he, hseq⟩ := h
    exact SequenceStands.forall_map (fun _ _ hi hc => hc.keyword? hi)
      (fun _ _ _ hb hc => hb.clean hc) hitem hseq (hc.keyword? he)

theorem order_wellFormed {c d : Cursor}
    (h : OptionStands OrderKey.AllStand (s.order.map (List.map (OrderKey.map Identifier.text))) c d)
    (hc : c.Clean) (hf : ∀ k ∈ s.order.getD [], Identifier.fault? k.column.text = none) :
    s.order ≠ some [] ∧ ∀ k ∈ s.order.getD [], k.column.text.IsName := by
  have hitem : ∀ k ∈ s.order.getD [], ∀ i j, (k.map Identifier.text).Stands i j → i.Clean →
      k.column.text.IsName := fun k hk _ _ hj hi => hj.isName hi (hf k hk)
  cases ho : s.order with
  | none => exact ⟨by simp, fun _ hk => absurd hk List.not_mem_nil⟩
  | some ks =>
    rw [ho] at h hitem
    obtain ⟨e, f, he, hf, hseq⟩ := h
    refine ⟨?_, (SequenceStands.forall_map (fun _ _ hi hc => hc.symbol? hi)
      (fun _ _ _ hb hc => hb.clean hc) hitem hseq ((hc.keyword? he).keyword? hf)).1⟩
    intro hnil
    cases hnil
    cases hseq

theorem limit_wellFormed {t : Text} {u : Statement Text} {c d e : Cursor}
    (hhead : u.HeadStands (start (Text.expandTabs t)) c) (hclauses : u.ClausesStand c d)
    (h : OptionStands Statement.LimitStands u.limit d e) (ht : ¬ LimitTooLong t) (z : Int)
    (hz : u.limit = some z) : z.natAbs < 10 ^ maxLimitDigits := by
  rw [hz] at h
  obtain ⟨digits, rfl, hdigits⟩ := h
  have hlen : digits.length - Text.signLength digits ≤ maxLimitDigits :=
    Nat.le_of_not_lt fun hlt => ht ⟨u, c, d, e, digits, hhead, hclauses, hdigits, hlt⟩
  exact Nat.lt_of_lt_of_le Text.natAbs_intValue_lt (Nat.pow_le_pow_right (by decide) hlen)

theorem wellFormed_of_parse {t : Text} (h : parse t = .ok s) : s.WellFormed := by
  obtain ⟨draft, hread, hcheck⟩ := parse_eq_ok_iff.1 h
  obtain ⟨hs, hf⟩ := Draft.check_eq_ok_iff.1 hcheck
  have hcontents : draft.contents = s.map Identifier.text := by
    rw [hs, Statement.map_map]
    exact (Statement.map_id _).symm
  obtain ⟨c, d, hhead, hclauses, hend⟩ := Draft.read_sound hread
  rw [hcontents, Statement.identifiers_map, List.forall_mem_map] at hf
  obtain ⟨hfcolumns, hftable, hfrelations, hfkeys⟩ := Statement.forall_identifiers.1 hf
  rw [hcontents] at hhead hclauses hend
  have hstart : (start (Text.expandTabs t)).Clean := Text.tab_not_mem_expandTabs t
  obtain ⟨e, f, g, semicolon, hlimit, -⟩ := hend
  have hlimit := limit_wellFormed hhead hclauses hlimit (not_limitTooLong_of_parse h)
  obtain ⟨c₁, c₂, c₃, c₄, c₅, h₁, h₂, h₃, h₄, h₅, h₆⟩ := hhead
  obtain ⟨i, hi, hj⟩ := hclauses
  have flag : ∀ {w : String} {b : Bool} {i j : Cursor}, FlagStands (keyword? w) b i j → i.Clean →
      j.Clean := by
    intro w b i j hj hi
    cases b with
    | false => exact (show i = j from hj) ▸ hi
    | true => exact hi.keyword? hj
  obtain ⟨hcolumns, hclean⟩ := columns_wellFormed h₄ (flag h₃ (flag h₂ (hstart.keyword? h₁))) hfcolumns
  replace hclean := hclean.keyword? h₅
  have htable := TableName.Stands.isName h₆ hclean hftable
  obtain ⟨hrelations, hclean⟩ := relations_wellFormed hi (h₆.clean hclean) hfrelations
  obtain ⟨horder, hkeys⟩ := order_wellFormed hj hclean hfkeys
  exact ⟨hcolumns, ⟨htable, hrelations, horder, hkeys⟩, hlimit⟩

/-- What is read is read again from its canonical text, which stays as it is. -/
theorem parse_render_of_parse {t : Text} {s : Select} (h : parse t = .ok s) :
    parse (render s) = .ok s ∧ (parse (render s)).map render = .ok (render s) := by
  have hparse : parse (render s) = .ok s := (wellFormed_of_parse h).parse_eq
  exact ⟨hparse, by rw [hparse]; rfl⟩

theorem parse_render_of_spaced : ∃ s : Select,
    parse "select\tjson f( True,(1 ,'it''s')) -- all\n as \"A\"\"b\" from K . t limit +007".toList = .ok s ∧
    parse (render s) = .ok s := by
  have h : parse
      "select\tjson f( True,(1 ,'it''s')) -- all\n as \"A\"\"b\" from K . t limit +007".toList = .ok
      { json := true
        columns := [.function ⟨⟨"f(true, (1, 'it''s'))".toList⟩, some ⟨"\"A\"\"b\"".toList⟩⟩]
        table := ⟨⟨"t".toList⟩, some ⟨"K".toList⟩⟩
        limit := some 7 } := by decide +kernel
  exact ⟨_, h, (parse_render_of_parse h).1⟩

end Select

end CqlCanon
