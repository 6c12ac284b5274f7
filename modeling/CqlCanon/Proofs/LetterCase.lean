import CqlCanon.Proofs.Case.Reading

/-!
# Letter case does not matter outside quotes

A text that is parsed may be written with its ASCII letters in other case, if
those inside quotes stay. It is parsed as well then, as a statement that has the
same parts: its names have the same values, its calls and the values of its
conditions are the same up to the case of letters outside quotes.
-/

namespace CqlCanon

open Cursor Lexeme

/-! ## Names, calls and values in other case -/

theorem Identifier.value_eq_of_asciiLower {t t' : Text} (h : isNameForm t = true)
    (hlower : Text.asciiLower t' = Text.asciiLower t) :
    (Identifier.mk t').value = (Identifier.mk t).value := by
  have value : ∀ {u : Text}, isNameForm u = true → (Identifier.mk u).value = Text.asciiLower u := by
    intro u hu
    have hquoted : (Identifier.mk u).quoted = false := by
      simpa [quoted] using Text.nameForm_head_ne hu
    rw [Identifier.value, hquoted, if_neg (by decide), Text.lower_of_ascii]
    exact fun c hc => Text.toNat_lt_of_isNameChar (Text.isNameChar_of_nameForm hu c hc)
  have h' : isNameForm t' = true := by
    rw [← isNameForm_asciiLower, hlower, isNameForm_asciiLower, h]
  rw [value h, value h', hlower]

namespace Lexeme

variable {t t' : Text}

theorem Recased.name_text (h : (name t).Recased (name t')) :
    Text.asciiLower t' = Text.asciiLower t := Option.some.inj h.text

theorem Recased.name_value (h : (name t).Recased (name t')) :
    (Identifier.mk t').value = (Identifier.mk t).value := by
  obtain ⟨u, hu, hrecast⟩ := h.recast.name
  obtain rfl : t' = u := Option.some.inj (congrArg Lexeme.text? hu)
  rcases hrecast with rfl | hadmits
  · rfl
  by_cases hq : t.head? = some '"'
  · have hquoted := h.quoted
    have hq' : t'.head? = some '"' := by
      rw [← Text.head?_asciiLower_eq_iff (by decide), h.name_text,
        Text.head?_asciiLower_eq_iff (by decide), hq]
    rw [Lexeme.quoted?, Lexeme.quoted?, name, name, if_pos hq, if_pos hq'] at hquoted
    rw [Option.some.inj hquoted]
  · rw [name, if_neg hq] at hadmits
    refine Identifier.value_eq_of_asciiLower ?_ h.name_text
    rw [← Identifier.isNameForm_asciiLower, ← h.name_text, Identifier.isNameForm_asciiLower]
    exact hadmits.1

end Lexeme

theorem Call.foldCase_recased {x x' : Call} (hx : x.Canonical) (hx' : x'.Canonical)
    (h : List.Forall₂ Recased x.lexemes x'.lexemes) :
    Text.foldCase x'.render = Text.foldCase x.render := by
  refine Text.foldCase_eq ?_ ?_
  · rw [Call.render_eq_written.1, Call.render_eq_written.1, asciiLower_written h]
  · rw [(Call.canonical_quotes.1 x hx).quotedParts_eq, (Call.canonical_quotes.1 x' hx').quotedParts_eq,
      quotedTexts_recased h]

theorem Term.foldCase_recased {v v' : Term} (hv : v.Canonical) (hv' : v'.Canonical)
    (h : List.Forall₂ Recased v.lexemes v'.lexemes) :
    Text.foldCase v'.render = Text.foldCase v.render := by
  refine Text.foldCase_eq ?_ ?_
  · rw [Term.render_eq_written, Term.render_eq_written, asciiLower_written h]
  · rw [hv.quotes.quotedParts_eq, hv'.quotes.quotedParts_eq, quotedTexts_recased h]

/-- Functions that do not look at the case of letters outside quotes do not tell apart tokens in
other case. -/
theorem Lexeme.Recased.keeps : Keeps Recased (fun t => (Identifier.mk t).value) Text.foldCase
    Text.foldCase where
  recast _ _ h := h.recast
  name _ _ h := h.name_value
  call _ _ hx hx' h := Call.foldCase_recased hx hx' h
  value _ _ hv hv' h := Term.foldCase_recased hv hv' h

theorem Lexeme.Recased.keeps_lower : Keeps Recased Text.asciiLower Text.asciiLower
    Text.asciiLower where
  recast _ _ h := h.recast
  name _ _ h := h.name_text
  call x x' _ _ h := by rw [Call.render_eq_written.1, Call.render_eq_written.1, asciiLower_written h]
  value v v' _ _ h := by rw [Term.render_eq_written, Term.render_eq_written, asciiLower_written h]

/-! ## Statements in other case -/

/-- The text `t'` is `t` with ASCII letters in other case, except in the quoted ones of the pieces
of `t`: these stand in both texts at the same place. -/
structure Text.Recased (ps : List Piece) (t t' : Text) : Prop where
  lower : asciiLower t' = asciiLower t
  quoted : ∀ ps₁ p ps₂ w, ps = ps₁ ++ p :: ps₂ → p.quoted? = some w →
    ((expandTabs t').drop (Piece.spread ps₁ ++ p.gap).length).take w.length = w

namespace Piece

variable {ps qs : List Piece} {p q : Piece} {u r : Text}

theorem Recased.quoted? (h : p.Recased q) (hw : ∀ w, p.quoted? = some w → q.text = w) :
    q.quoted? = p.quoted? := by
  rw [Piece.quoted?, Piece.quoted?, h.kind]
  cases hk : p.kind with
  | quoted c => rw [hw p.text (by rw [Piece.quoted?, hk])]
  | _ => rfl

/-- Pieces in other case have the same quoted tokens, if these stand in the text where they make it
up. -/
theorem forall₂_quoted (h : List.Forall₂ Recased ps qs)
    (hw : ∀ ps₁ p ps₂ w, ps = ps₁ ++ p :: ps₂ → p.quoted? = some w →
      ((u ++ (spread qs ++ r)).drop (u.length + (spread ps₁ ++ p.gap).length)).take w.length = w) :
    List.Forall₂ (fun p q => p.Recased q ∧ q.quoted? = p.quoted?) ps qs := by
  induction h generalizing u with
  | nil => exact .nil
  | @cons p q ps qs hpq _ ih =>
    have hgap : q.gap.length = p.gap.length := by simpa using congrArg List.length hpq.gap
    have htext : q.text.length = p.text.length := by simpa using congrArg List.length hpq.text
    refine .cons ⟨hpq, hpq.quoted? fun w hp => ?_⟩ (ih (u := u ++ (q.gap ++ q.text)) ?_)
    · have htake := hw [] p ps w rfl hp
      obtain ⟨-, -, rfl⟩ := Piece.exists_of_quoted? hp
      rw [← List.drop_drop, List.drop_left, spread_cons, spread, List.flatMap_nil, List.nil_append,
        ← hgap, List.append_assoc, List.drop_left, ← htext, List.append_assoc, List.take_left] at htake
      exact htake
    · intro ps₁ p' ps₂ w hps hp
      have htake := hw (p :: ps₁) p' ps₂ w (by rw [hps, List.cons_append]) hp
      simp only [spread_cons, List.append_assoc, List.length_append, hgap, htext, Nat.add_assoc]
        at htake ⊢
      exact htake

end Piece

theorem Statement.Spelled.recased {s : Statement Text} {t t' : Text} {ps : List Piece}
    {l : List Lexeme} {d : Cursor} (hl : s.Spelled l) (hfit : List.Forall₂ Fits l ps)
    (hps : (start (Text.expandTabs t)).Reads ps d) (hd : d.skip.rest = [])
    (h : Text.Recased ps t t') : ∃ l' d', List.Forall₂ Recased l l' ∧
      (start (Text.expandTabs t')).Passes l' d' ∧ d'.skip.rest = [] := by
  have hexpand : Text.asciiLower (Text.expandTabs t') = Text.asciiLower (Text.expandTabs t) := by
    rw [Text.expandTabs, Text.expandTabs, ← Text.expandTabsFrom_asciiLower, h.lower,
      Text.expandTabsFrom_asciiLower]
  have hstart : (start (Text.expandTabs t')).lower = (start (Text.expandTabs t)).lower := by
    rw [lower_start, lower_start, hexpand]
  have hsorts : ∀ p ∈ ps, p.kind.isMark = true ∨ p.kind.isValue = true := by
    rw [← List.forall_mem_map (f := Piece.kind) (P := fun k => k.isMark = true ∨ k.isValue = true),
      ← fits_kinds hfit, List.forall_mem_map]
    exact hl.alternating.sorts
  obtain ⟨qs, d', hrel, hqs, hlower⟩ := hps.recased hsorts hstart
  have hrel' := Piece.forall₂_quoted (u := []) (r := d'.rest) hrel fun ps₁ p ps₂ w hps' hp => by
    have := h.quoted ps₁ p ps₂ w hps' hp
    rw [List.nil_append, List.length_nil, Nat.zero_add, ← hqs.spread]
    exact this
  obtain ⟨l', hll', hfit'⟩ := Reads.lexemes hl.asks hfit hps hqs hrel'
  refine ⟨l', d', hll', hqs.passes hfit', ?_⟩
  have hskip : d'.skip.lower = d.skip.lower := by rw [← skip_lower, ← skip_lower, hlower]
  have hrest : Text.asciiLower d'.skip.rest = Text.asciiLower d.skip.rest := congrArg Cursor.rest hskip
  rw [hd] at hrest
  simpa [Text.asciiLower] using hrest

section View

variable {ν μ κ : Type} (f : ν → μ) (name call : μ → κ) (value : Text → Text)

theorem Statement.map_view (s : Statement ν) :
    (s.map f).view name call value = s.view (name ∘ f) (call ∘ f) value := by
  have hselector : ∀ x : Selector ν, (x.map f).view name call = x.view (name ∘ f) (call ∘ f) := by
    intro x
    cases x <;> simp [Selector.map, Selector.view, Named.map]
  simp only [Statement.view, Statement.map, List.map_map, Option.map_map, TableName.map,
    Relation.map, Function.comp_def, funext hselector]
  rfl

theorem Statement.identifiers_view (f : ν → μ) (value : Text → Text) (s : Statement ν) :
    (s.view f f value).identifiers = s.identifiers.map f := by
  have hselector : (Selector.view f f : Selector ν → Selector μ) = Selector.map f :=
    funext fun x => by cases x <;> rfl
  rw [← identifiers_map]
  simp only [identifiers, view, hselector, Statement.map, List.map_map]
  rfl

end View

namespace Select

variable {t t' : Text} {s : Select}

/-- Letter case does not matter outside quotes. A text that is parsed may be written with its ASCII
letters in other case, except in quoted tokens: it is parsed as a statement with the same parts.
The names have the same values, and what is called and compared with is the same but for the case of
letters outside quotes. -/
theorem parse_recased (h : parse t = .ok s) :
    (∃ ps tail, (s.map Identifier.text).Reading (Text.expandTabs t) ps tail) ∧
    ∀ ps tail, (s.map Identifier.text).Reading (Text.expandTabs t) ps tail →
      ∀ t', Text.Recased ps t t' → ∃ s', parse t' = .ok s' ∧
        s'.view Identifier.value (fun i => Text.foldCase i.text) Text.foldCase =
          s.view Identifier.value (fun i => Text.foldCase i.text) Text.foldCase := by
  refine ⟨reading_of_parse h, ?_⟩
  rintro ps tail ⟨l, d, hl, hfit, hps, -, hd⟩ t' ht'
  obtain ⟨l', d', hll', hpasses, hd'⟩ := hl.recased hfit hps hd ht'
  obtain ⟨u, hu, hview⟩ := hl.recast Recased.keeps hll'
  obtain ⟨v, hv, hlower⟩ := hl.recast Recased.keeps_lower hll'
  have htab := Text.tab_not_mem_expandTabs t'
  obtain ⟨draft, hread, rfl⟩ := hu.read htab hpasses hd'
  obtain rfl : v = draft.contents := by
    obtain ⟨draft', hread', rfl⟩ := hv.read htab hpasses hd'
    rw [Except.ok.inj (hread'.symm.trans hread)]
  rw [Draft.read, Text.expandTabs_eq_self htab] at hread
  have hfault : ∀ u ∈ draft.contents.identifiers, Identifier.fault? u = none := by
    intro u hu
    have hids := congrArg Statement.identifiers hlower
    rw [Statement.identifiers_view, Statement.identifiers_view, Statement.identifiers_map] at hids
    have hmem := List.mem_map_of_mem (f := Text.asciiLower) hu
    rw [hids, List.map_map, List.mem_map] at hmem
    obtain ⟨i, hi, hiu⟩ := hmem
    rw [← Identifier.fault?_asciiLower, ← hiu, Function.comp, Identifier.fault?_asciiLower]
    exact (wellFormed_of_parse h).fault? i hi
  have hcontents : draft.contents = (draft.contents.map Identifier.mk).map Identifier.text := by
    rw [Statement.map_map]
    exact (Statement.map_id _).symm
  refine ⟨draft.contents.map Identifier.mk, parse_of_contents hread hcontents ?_, ?_⟩
  · rw [Statement.identifiers_map, List.forall_mem_map]
    exact hfault
  · rw [Statement.map_view] at hview ⊢
    exact hview

/-- A quoted name in a call keeps its letters, and a comment does not. -/
theorem parse_recased_of_call : ∃ s s' : Select,
    parse "select F(\"aB\") from T--x".toList = .ok s ∧
    parse "SELECT f(\"aB\") FROM t--X".toList = .ok s' ∧
    s'.view Identifier.value (fun i => Text.foldCase i.text) Text.foldCase =
      s.view Identifier.value (fun i => Text.foldCase i.text) Text.foldCase := by
  have h : parse "select F(\"aB\") from T--x".toList =
      .ok { columns := [.function ⟨⟨"F(\"aB\")".toList⟩, none⟩], table := ⟨⟨"T".toList⟩, none⟩ } := by
    decide +kernel
  let ps : List Piece := [⟨[], .keyword "SELECT".toList, "select".toList⟩, ⟨[' '], .word, ['F']⟩,
    ⟨[], .symbol '(', ['(']⟩, ⟨[], .quoted '"', "\"aB\"".toList⟩, ⟨[], .symbol ')', [')']⟩,
    ⟨[' '], .keyword "FROM".toList, "from".toList⟩, ⟨[' '], .plainName, ['T']⟩]
  have hreading : Statement.Reading
      { columns := [.function ⟨"F(\"aB\")".toList, none⟩], table := ⟨"T".toList, none⟩ }
      (Text.expandTabs "select F(\"aB\") from T--x".toList) ps "--x".toList := by
    have hcall : (Call.apply ['F'] [.name "\"aB\"".toList]).Canonical := by
      refine .apply rfl ?_
      rintro a ha
      obtain rfl := List.mem_singleton.1 ha
      exact .name ⟨.inl (by unfold Token.Whole; decide +kernel), by decide, fun k => by cases k <;> decide +kernel⟩
    refine ⟨[keyword "SELECT", ⟨.word, some ['F']⟩, symbol '(', name "\"aB\"".toList, symbol ')',
      keyword "FROM", name ['T']], _,
      ⟨_, _, _, ⟨_, .inr ⟨List.cons_ne_nil _ _, [_], .cons ⟨_, hcall, rfl, rfl⟩ .nil, rfl⟩, rfl⟩,
        ⟨[], [], .inl ⟨rfl, rfl⟩, rfl, rfl⟩, ⟨[], false, rfl, rfl⟩, rfl⟩, ?_,
      ⟨_, rfl, rfl, _, rfl, rfl, _, rfl, rfl, _, rfl, rfl, _, rfl, rfl, _, rfl, rfl, _, rfl, rfl, rfl⟩,
      rfl, rfl⟩
    have text (u : Text) : ∀ v ∈ some u, u = v := fun _ h => Option.some.inj h
    exact .cons ⟨rfl, nofun⟩ (.cons ⟨rfl, text _⟩ (.cons ⟨rfl, nofun⟩ (.cons ⟨rfl, text _⟩
      (.cons ⟨rfl, nofun⟩ (.cons ⟨rfl, nofun⟩ (.cons ⟨rfl, text _⟩ .nil))))))
  have hrecased : Text.Recased ps "select F(\"aB\") from T--x".toList
      "SELECT f(\"aB\") FROM t--X".toList := by
    refine ⟨by decide +kernel, ?_⟩
    rintro (_ | ⟨q₁, _ | ⟨q₂, _ | ⟨q₃, _ | ⟨q₄, ps₁⟩⟩⟩⟩) p ps₂ w hps hp
    all_goals
      simp only [ps, List.nil_append, List.cons_append, List.cons.injEq] at hps
    · obtain ⟨rfl, -⟩ := hps
      cases hp
    · obtain ⟨-, rfl, -⟩ := hps
      cases hp
    · obtain ⟨-, -, rfl, -⟩ := hps
      cases hp
    · obtain ⟨rfl, rfl, rfl, rfl, -⟩ := hps
      cases hp
      decide +kernel
    · obtain ⟨-, -, -, -, hps⟩ := hps
      have hmem : p ∈ ps₁ ++ p :: ps₂ := by simp
      simp only [← hps, List.mem_cons, List.not_mem_nil, or_false] at hmem
      rcases hmem with rfl | rfl | rfl <;> cases hp
  obtain ⟨s', hs', hview⟩ := (parse_recased h).2 ps _ hreading _ hrecased
  exact ⟨_, s', h, hs', hview⟩

end Select

end CqlCanon
