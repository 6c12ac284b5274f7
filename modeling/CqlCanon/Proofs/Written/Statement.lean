import CqlCanon.Proofs.Grammar.Statement
import CqlCanon.Proofs.Written.Call
import CqlCanon.Proofs.Written.Decimal

/-!
# Canonical statements

The canonical text of each part spells the part, and so the canonical text of a
statement spells the statement. What its selectors spell is left open: the
texts of calls are taken for what they say, not for how they are written.
-/

namespace CqlCanon

open Cursor

/-! ## Key words between blanks -/

theorem Cursor.blank_keyword_separates (w : String) (hw : Text.upper w.toList = w.toList)
    (hname : Identifier.isNameForm w.toList = true) :
    Separates (keyword? w) (' ' :: w.toList ++ [' ']) where
  breaks r := .cons (by simp)
  read {c r} h hr := by
    have hat : c.At (w.toList ++ ' ' :: r) :=
      at_of_blank (by simpa using h) (Text.nameForm_solid hname _)
    obtain ⟨d, hd, hrest⟩ := hat.keyword? hw rfl (show Text.isKeywordChar ' ' = false by decide)
    exact ⟨d, hd, at_of_blank hrest hr⟩

theorem Cursor.At.flag {w : String} {b : Bool} {c : Cursor} {t : Text}
    (h : c.At ((if b then w.toList ++ [' '] else []) ++ t)) (hw : Text.upper w.toList = w.toList)
    (ht : layoutLength t = 0) : ∃ d, FlagStands (Cursor.keyword? w) b c d ∧ d.At t := by
  cases b with
  | false => exact ⟨c, rfl, h⟩
  | true =>
    replace h : c.At (w.toList ++ ' ' :: t) := by simpa using h
    obtain ⟨d, hd, hrest⟩ := h.keyword? hw rfl (show Text.isKeywordChar ' ' = false by decide)
    exact ⟨d, hd, at_of_blank hrest ht⟩

theorem flag_solid {w : String} {b : Bool} {t : Text} (hw : Identifier.isNameForm w.toList = true)
    (ht : layoutLength t = 0) :
    layoutLength ((if b then w.toList ++ [' '] else []) ++ t) = 0 := by
  cases b with
  | false => exact ht
  | true => simpa using Text.nameForm_solid hw (' ' :: t)

/-! ## Names with an alias -/

/-- What an alias adds to a text. -/
def Named.renderAlias (label : Option Identifier) : Text :=
  match label with
  | none => []
  | some label => " AS ".toList ++ label.text

theorem Named.render_eq (n : Named Identifier) : n.render = n.name.text ++ renderAlias n.alias? := by
  cases h : n.alias? <;> simp [render, renderAlias, h]

theorem Named.alias_spells {stands : Cursor → Cursor → Prop} {t : Text} (h : Spells stands t)
    {label : Option Identifier} (hl : ∀ i ∈ label.toList, i.text.IsNameToken) :
    Spells (fun c d => ∃ e, stands c e ∧ OptionStands AliasStands (label.map Identifier.text) e d)
      (t ++ renderAlias label) where
  solid r := by
    rw [List.append_assoc]
    exact h.solid _
  stands_at {c r} hc hr := by
    rw [List.append_assoc] at hc
    cases label with
    | none =>
      obtain ⟨d, hd, hrest⟩ := h.stands_at hc hr
      exact ⟨d, ⟨d, hd, rfl⟩, hrest⟩
    | some i =>
      have hi := (hl i (by simp)).spells
      rw [renderAlias, List.append_assoc] at hc
      have hsep := blank_keyword_separates "AS" (by decide) (by decide)
      obtain ⟨d, hd, hrest⟩ := h.stands_at hc (hsep.breaks _)
      obtain ⟨e, he, hat⟩ := hsep.read hrest (hi.solid _)
      obtain ⟨k, hk, hkrest⟩ := hi.stands_at hat hr
      exact ⟨k, ⟨d, hd, e, he, hk⟩, hkrest⟩

theorem Selector.column_spells {n : Named Identifier}
    (h : ∀ i ∈ n.identifiers, i.text.IsNameToken) :
    Spells (Selector.Stands (.column (n.map Identifier.text))) (Selector.render (.column n)) := by
  obtain ⟨hlabel, hname⟩ := Named.forall_identifiers.1 h
  rw [Selector.render, Named.render_eq]
  exact Named.alias_spells hname.spells hlabel

/-- A call is spelled by any text that spells it, whatever its canonical text is. -/
theorem Selector.function_spells {n : Named Identifier} {x : Call}
    (hx : Spells x.Stands n.name.text) (h : ∀ i ∈ n.alias?.toList, i.text.IsNameToken) :
    Spells (Selector.Stands (.function ⟨x.render, n.alias?.map Identifier.text⟩))
      (Selector.render (.function n)) := by
  rw [Selector.render, Named.render_eq]
  obtain ⟨hsolid, hstands⟩ := Named.alias_spells hx h
  refine ⟨hsolid, fun hc hr => ?_⟩
  obtain ⟨d, ⟨e, he, hd⟩, hrest⟩ := hstands hc hr
  exact ⟨d, ⟨x, e, rfl, he, hd⟩, hrest⟩

/-! ## The table -/

theorem TableName.render_spells {t : TableName Identifier}
    (h : ∀ i ∈ t.identifiers, i.text.IsNameToken) :
    Spells (t.map Identifier.text).Stands t.render := by
  obtain ⟨hkeyspace, hname⟩ := forall_identifiers.1 h
  obtain ⟨name, keyspace⟩ := t
  cases keyspace with
  | none =>
    refine ⟨hname.spells.solid, fun {c r} hc hr => ?_⟩
    obtain ⟨d, hd, hrest⟩ := hc.name hname (.inl hr)
    exact ⟨d, ⟨c, rfl, hd⟩, hrest⟩
  | some k =>
    have hk := hkeyspace k (by simp)
    have hrender : TableName.render ⟨name, some k⟩ = k.text ++ ('.' :: name.text) := by
      simp [render]
    rw [hrender]
    refine ⟨fun r => ?_, fun {c r} hc hr => ?_⟩
    · rw [List.append_assoc]
      exact hk.spells.solid _
    · rw [List.append_assoc] at hc
      obtain ⟨d, hd, hrest⟩ := hc.name hk (.inr rfl)
      obtain ⟨e, he, herest, hb⟩ := symbol?_of_rest hrest (by decide)
      have hat : e.At (name.text ++ r) := at_of_before herest (hname.spells.solid r)
        (by rw [hb]; decide)
      obtain ⟨j, hj, hjrest⟩ := hat.name hname (.inl hr)
      exact ⟨j, ⟨e, ⟨d, hd, he⟩, hj⟩, hjrest⟩

/-! ## Conditions and orders -/

theorem Relation.operator_spells {o : Text} (h : o ∈ operators) : Spells (OperatorStands o) o := by
  have comparison : ∀ {u : Text}, Token.comparison.Whole u → (∀ r, layoutLength (u ++ r) = 0) →
      Spells (OperatorStands u) u := fun hu hsolid =>
    ⟨hsolid, fun hc hr =>
      let ⟨d, hd, hrest⟩ := hc.token? (k := .comparison) trivial hu hr
      ⟨d, .inl hd, hrest⟩⟩
  have hsolid : ∀ {x : Char} (t r : Text), isBlank x = false ∧ x ≠ '-' →
      layoutLength ((x :: t) ++ r) = 0 := fun _ _ hx => layoutLength_of_head hx
  simp only [operators, List.map_cons, List.map_nil, List.mem_cons, List.not_mem_nil,
    or_false] at h
  rcases h with rfl | rfl | rfl | rfl | rfl | rfl | rfl | rfl | rfl | rfl
  · exact comparison (by decide) fun r => hsolid _ r (by decide)
  · exact comparison (by decide) fun r => hsolid _ r (by decide)
  · exact comparison (by decide) fun r => hsolid _ r (by decide)
  · exact comparison (by decide) fun r => hsolid _ r (by decide)
  · exact comparison (by decide) fun r => hsolid _ r (by decide)
  · exact comparison (by decide) fun r => hsolid _ r (by decide)
  · refine ⟨fun r => hsolid _ r (by decide), fun hc hr => ?_⟩
    obtain ⟨d, hd, hrest⟩ := hc.keyword? (w := "IN") (by decide) rfl (hr.any_eq_false (by decide))
    exact ⟨d, .inr (.inl ⟨rfl, hd⟩), hrest⟩
  · refine ⟨fun r => hsolid _ r (by decide), fun hc hr => ?_⟩
    obtain ⟨d, hd, hrest⟩ :=
      hc.keyword? (w := "CONTAINS") (by decide) rfl (hr.any_eq_false (by decide))
    exact ⟨d, .inr (.inr (.inr (.inl ⟨rfl, hd⟩))), hrest⟩
  · refine ⟨fun r => hsolid _ r (by decide), fun {c r} hc hr => ?_⟩
    replace hc : c.At ("CONTAINS".toList ++ ' ' :: ("KEY".toList ++ r)) := hc
    obtain ⟨d, hd, hrest⟩ := hc.keyword? (w := "CONTAINS") (by decide) rfl
      (show Text.isKeywordChar ' ' = false by decide)
    have hat : d.At ("KEY".toList ++ r) := at_of_blank hrest (hsolid _ r (by decide))
    obtain ⟨e, he, herest⟩ := hat.keyword? (w := "KEY") (by decide) rfl (hr.any_eq_false (by decide))
    exact ⟨e, .inr (.inr (.inl ⟨rfl, d, hd, he⟩)), herest⟩
  · refine ⟨fun r => hsolid _ r (by decide), fun hc hr => ?_⟩
    obtain ⟨d, hd, hrest⟩ :=
      hc.keyword? (w := "LIKE") (by decide) rfl (hr.any_eq_false (by decide))
    exact ⟨d, .inr (.inr (.inr (.inr ⟨rfl, hd⟩))), hrest⟩

/-- A condition on a name of the given kind, with one of the operators and a canonical value. -/
structure Relation.WellFormed (name : Text → Prop) (r : Relation Identifier) : Prop where
  column : name r.column.text
  operator : r.operator ∈ operators
  value : ∃ v : Term, v.Canonical ∧ v.render = r.value

theorem Relation.render_spells {r : Relation Identifier} (h : r.WellFormed Text.IsNameToken) :
    Spells (r.map Identifier.text).Stands r.render := by
  obtain ⟨v, hv, hvalue⟩ := h.value
  have hop := operator_spells h.operator
  have hrender : r.render = r.column.text ++ (' ' :: (r.operator ++ (' ' :: r.value))) := by
    simp [render]
  rw [hrender]
  refine ⟨fun u => ?_, fun {c u} hc hu => ?_⟩
  · rw [List.append_assoc]
    exact h.column.spells.solid _
  · simp only [List.append_assoc, List.cons_append] at hc
    obtain ⟨d, hd, hrest⟩ := h.column.spells.stands_at hc (.cons (by simp))
    obtain ⟨e, he, herest⟩ := hop.stands_at (at_of_blank hrest (hop.solid _)) (.cons (by simp))
    rw [← hvalue] at herest
    obtain ⟨k, hk, hkrest⟩ := hv.spells.stands_at (at_of_blank herest (hv.spells.solid _)) hu
    exact ⟨k, ⟨d, e, hd, he, v, hvalue, hk⟩, hkrest⟩

theorem OrderKey.render_spells {k : OrderKey Identifier} (h : k.column.text.IsNameToken) :
    Spells (k.map Identifier.text).Stands k.render := by
  obtain ⟨column, descending⟩ := k
  have direction : ∀ {w : String} {c : Cursor} {r : Text}, c.rest = ' ' :: (w.toList ++ r) →
      Text.upper w.toList = w.toList → Identifier.isNameForm w.toList = true → r.Breaks →
      ∃ d, c.keyword? w = some d ∧ d.rest = r := by
    intro w c r hc hw hname hr
    exact (at_of_blank hc (Text.nameForm_solid hname r)).keyword? hw rfl
      (hr.any_eq_false (by decide))
  refine ⟨fun r => by rw [render, List.append_assoc]; exact h.spells.solid _, fun {c r} hc hr => ?_⟩
  rw [render, List.append_assoc] at hc
  cases descending with
  | false =>
    obtain ⟨d, hd, hrest⟩ := h.spells.stands_at hc (Text.Breaks.cons (x := ' ') (by simp))
    obtain ⟨e, he, herest⟩ := direction (w := "ASC") hrest (by decide) (by decide) hr
    exact ⟨e, ⟨d, hd, .inl he⟩, herest⟩
  | true =>
    obtain ⟨d, hd, hrest⟩ := h.spells.stands_at hc (Text.Breaks.cons (x := ' ') (by simp))
    obtain ⟨e, he, herest⟩ := direction (w := "DESC") hrest (by decide) (by decide) hr
    exact ⟨e, ⟨d, hd, he⟩, herest⟩

/-! ## Clauses -/

/-- What a canonical statement is made of after its selectors, with names of the given kind. -/
structure Select.ClausesWellFormed (name : Text → Prop) (s : Select) : Prop where
  table : ∀ i ∈ s.table.identifiers, name i.text
  relations : ∀ r ∈ s.relations, r.WellFormed name
  order : s.order ≠ some []
  keys : ∀ k ∈ s.order.getD [], name k.column.text

theorem Select.ClausesWellFormed.mono {name name' : Text → Prop} {s : Select}
    (h : s.ClausesWellFormed name) (hname : ∀ t, name t → name' t) : s.ClausesWellFormed name' where
  table i hi := hname _ (h.table i hi)
  relations r hr := ⟨hname _ (h.relations r hr).column, (h.relations r hr).operator,
    (h.relations r hr).value⟩
  order := h.order
  keys k hk := hname _ (h.keys k hk)

/-- The text of a clause, with the blank before it, which may also be missing. -/
structure Cursor.Continues (stands : Cursor → Cursor → Prop) (t : Text) : Prop where
  breaks : ∀ r : Text, r.Breaks → Text.Breaks (t ++ r)
  stands_after : ∀ {c : Cursor} {r : Text}, c.rest = t ++ r → r.Breaks →
    ∃ d, stands c d ∧ d.rest = r

theorem Cursor.Continues.nil {stands : Cursor → Cursor → Prop} (h : ∀ c, stands c c) :
    Continues stands [] :=
  ⟨fun _ hr => hr, fun {c _} hc _ => ⟨c, h c, hc⟩⟩

theorem Cursor.Continues.of_keyword {w : String} {stands : Cursor → Cursor → Prop} {t : Text}
    (h : Spells stands t) (hw : Text.upper w.toList = w.toList ∧
      Identifier.isNameForm w.toList = true) :
    Continues (fun c d => ∃ e, c.keyword? w = some e ∧ stands e d)
      (' ' :: w.toList ++ [' '] ++ t) where
  breaks r _ := .cons (by simp)
  stands_after {c r} hc hr := by
    have hsep := blank_keyword_separates w hw.1 hw.2
    rw [List.append_assoc] at hc
    obtain ⟨d, hd, hat⟩ := hsep.read hc (h.solid r)
    obtain ⟨e, he, hrest⟩ := h.stands_at hat hr
    exact ⟨e, ⟨d, hd, he⟩, hrest⟩

theorem Cursor.Continues.append {stands stands' : Cursor → Cursor → Prop} {t u : Text}
    (h : Continues stands t) (h' : Continues stands' u) :
    Continues (fun c d => ∃ e, stands c e ∧ stands' e d) (t ++ u) where
  breaks r hr := by
    rw [List.append_assoc]
    exact h.breaks _ (h'.breaks r hr)
  stands_after hc hr := by
    rw [List.append_assoc] at hc
    obtain ⟨d, hd, hrest⟩ := h.stands_after hc (h'.breaks _ hr)
    obtain ⟨e, he, herest⟩ := h'.stands_after hrest hr
    exact ⟨e, ⟨d, hd, he⟩, herest⟩

namespace Select

variable {s : Select}

theorem whereClause_continues (h : ∀ r ∈ s.relations, r.WellFormed Text.IsNameToken) :
    Continues (Relation.AllStand (s.relations.map (Relation.map Identifier.text)))
      (whereClause s) := by
  unfold whereClause
  cases hrs : s.relations with
  | nil => exact .nil fun _ => rfl
  | cons r rs =>
    rw [hrs] at h
    have hand : Separates (keyword? "AND") " AND ".toList :=
      blank_keyword_separates "AND" (by decide) (by decide)
    have hspells := sequence_spells (g := Relation.map Identifier.text) hand
      (List.cons_ne_nil r rs) (fun r hr => Relation.render_spells (h r hr))
    exact Continues.of_keyword (w := "WHERE") hspells (by decide)

theorem orderClause_continues (hne : s.order ≠ some [])
    (h : ∀ k ∈ s.order.getD [], k.column.text.IsNameToken) :
    Continues (OptionStands OrderKey.AllStand
      (s.order.map (List.map (OrderKey.map Identifier.text)))) (orderClause s) := by
  unfold orderClause
  cases ho : s.order with
  | none => exact .nil fun _ => rfl
  | some ks =>
    rw [ho] at h hne
    have hspells := sequence_spells (g := OrderKey.map Identifier.text) comma_separates
      (fun e => hne (congrArg some e)) (fun k hk => OrderKey.render_spells (h k hk))
    have hby := Continues.of_keyword (w := "BY") hspells (by decide)
    refine ⟨fun r _ => Text.Breaks.cons (x := ' ') (by simp), fun {c r} hc hr => ?_⟩
    replace hc : c.rest = ' ' :: ("ORDER".toList ++
        (' ' :: "BY".toList ++ [' '] ++ renderOrder ks ++ r)) := by simpa using hc
    obtain ⟨d, hd, hrest⟩ :=
      (at_of_blank hc (Text.nameForm_solid (by decide) _)).keyword? (w := "ORDER") (by decide) rfl
        ((hby.breaks r hr).any_eq_false (by decide))
    obtain ⟨e, ⟨k, hk, he⟩, herest⟩ := hby.stands_after hrest hr
    exact ⟨e, ⟨d, k, hd, hk, he⟩, herest⟩

theorem limitClause_continues (s : Select) :
    Continues (OptionStands (fun z => Statement.LimitDigitsStand (Text.ofInt z)) s.limit)
      (limitClause s) := by
  unfold limitClause
  cases hl : s.limit with
  | none => exact .nil fun _ => rfl
  | some z =>
    have hspells : Spells (fun c d => c.token? .integer = some (Text.ofInt z, d))
        (Text.ofInt z) := by
      have hwhole : Token.integer.Whole (Text.ofInt z) := Text.whole_ofInt z
      exact ⟨hwhole.solid trivial trivial, fun hc hr => hc.token? trivial hwhole hr⟩
    exact Continues.of_keyword (w := "LIMIT") hspells (by decide)

theorem limitDigits_unique {limit : Option Int} {c d e : Cursor} {digits : Text}
    (h : OptionStands (fun z => Statement.LimitDigitsStand (Text.ofInt z)) limit c d)
    (hd : d.Opens ["ALLOW"]) (hdigits : Statement.LimitDigitsStand digits c e) :
    ∃ z, limit = some z ∧ digits = Text.ofInt z := by
  obtain ⟨f, hf, hdigits⟩ := hdigits
  cases limit with
  | none =>
    cases h
    rw [hd.keyword?_eq_none (by decide)] at hf
    cases hf
  | some z =>
    obtain ⟨g, hg, hz⟩ := h
    rw [hg] at hf
    cases hf
    rw [hz] at hdigits
    cases hdigits
    exact ⟨z, rfl, rfl⟩

theorem limitStands {limit : Option Int} {c d : Cursor}
    (h : OptionStands (fun z => Statement.LimitDigitsStand (Text.ofInt z)) limit c d) :
    OptionStands Statement.LimitStands limit c d := by
  cases limit with
  | none => exact h
  | some z => exact ⟨_, Text.intValue_ofInt z, h⟩

theorem filteringClause_continues (s : Select) :
    Continues (FlagStands Draft.readFiltering? s.filtering) (filteringClause s) := by
  unfold filteringClause
  cases s.filtering with
  | false => exact .nil fun _ => rfl
  | true =>
    have hspells : Spells (fun c d => c.keyword? "FILTERING" = some d) "FILTERING".toList :=
      ⟨Text.nameForm_solid (by decide), fun hc hr =>
        hc.keyword? (by decide) rfl (hr.any_eq_false (by decide))⟩
    obtain ⟨hbreaks, hstands⟩ := Continues.of_keyword (w := "ALLOW") hspells (by decide)
    refine ⟨hbreaks, fun hc hr => ?_⟩
    obtain ⟨d, ⟨e, he, hd⟩, hrest⟩ := hstands hc hr
    exact ⟨d, Option.bind_eq_some_iff.2 ⟨e, he, hd⟩, hrest⟩

theorem clause_breaks {t r : Text} (ht : t = [] ∨ ∃ u, t = ' ' :: u) (hr : r.Breaks) :
    Text.Breaks (t ++ r) := by
  rcases ht with rfl | ⟨u, rfl⟩
  · exact hr
  · exact .cons (by simp)

theorem whereClause_breaks (s : Select) {r : Text} (hr : r.Breaks) :
    Text.Breaks (whereClause s ++ r) := by
  refine clause_breaks ?_ hr
  unfold whereClause
  split <;> simp

theorem orderClause_breaks (s : Select) {r : Text} (hr : r.Breaks) :
    Text.Breaks (orderClause s ++ r) := by
  refine clause_breaks ?_ hr
  unfold orderClause
  split <;> simp

theorem limitClause_breaks (s : Select) {r : Text} (hr : r.Breaks) :
    Text.Breaks (limitClause s ++ r) := by
  refine clause_breaks ?_ hr
  unfold limitClause
  split <;> simp

theorem filteringClause_breaks (s : Select) : (filteringClause s).Breaks := by
  have := clause_breaks (t := filteringClause s) (r := [])
    (by unfold filteringClause; split <;> simp) Text.Breaks.nil
  rwa [List.append_nil] at this

/-! ## Whole statements -/

/-- What the selectors of a statement spell, given what each spells. -/
structure SelectorsSpell (columns : List (Selector Identifier))
    (contents : Selector Identifier → Selector Text) : Prop where
  shape : columns = [.star] ∨ columns ≠ [] ∧
    ∀ x ∈ columns, Spells (contents x).Stands x.render
  star : contents .star = .star

theorem SelectorsSpell.spells {columns : List (Selector Identifier)}
    {contents : Selector Identifier → Selector Text} (h : SelectorsSpell columns contents) :
    Spells (Selector.AllStand (columns.map contents)) (renderColumns columns) := by
  unfold renderColumns
  rcases h.shape with rfl | ⟨hne, hspells⟩
  · refine ⟨fun r => layoutLength_of_head (x := '*') (by decide),
      fun {c r} hc _ => ?_⟩
    obtain ⟨d, hd, hrest, -⟩ := At.symbol? (s := '*') (r := r) hc
    exact ⟨d, .inl ⟨by simp [h.star], hd⟩, hrest⟩
  · obtain ⟨hsolid, hstands⟩ := sequence_spells (g := contents) comma_separates hne hspells
    refine ⟨hsolid, fun hc hr => ?_⟩
    obtain ⟨d, hd, hrest⟩ := hstands hc hr
    exact ⟨d, .inr hd, hrest⟩

/-- The statement that a canonical text spells when its selectors spell the given ones. -/
def spelled (s : Select) (contents : Selector Identifier → Selector Text) : Statement Text :=
  { s.map Identifier.text with columns := s.columns.map contents }

/-- The clauses after the table, as they are written. -/
def clauses (s : Select) : Text :=
  whereClause s ++ (orderClause s ++ (limitClause s ++ filteringClause s))

theorem clauses_break (s : Select) : (clauses s).Breaks :=
  whereClause_breaks s <| orderClause_breaks s <| limitClause_breaks s <| filteringClause_breaks s

theorem render_eq (s : Select) : render s = "SELECT".toList ++ (' ' ::
    ((if s.distinct then "DISTINCT".toList ++ [' '] else []) ++
      ((if s.json then "JSON".toList ++ [' '] else []) ++
        (renderColumns s.columns ++ ((' ' :: "FROM".toList ++ [' ']) ++
          (s.table.render ++ clauses s)))))) := by
  have hselect : "SELECT ".toList = "SELECT".toList ++ [' '] := by simp
  have hdistinct : "DISTINCT ".toList = "DISTINCT".toList ++ [' '] := by simp
  have hjson : "JSON ".toList = "JSON".toList ++ [' '] := by simp
  have hfrom : " FROM ".toList = ' ' :: "FROM".toList ++ [' '] := by simp
  unfold render flags clauses
  rewrite [hselect, hdistinct, hjson, hfrom]
  simp only [List.append_assoc, List.cons_append, List.nil_append]

theorem clauses_continue (h : s.ClausesWellFormed Text.IsNameToken) :
    Continues (fun c g => ∃ d,
      Relation.AllStand (s.relations.map (Relation.map Identifier.text)) c d ∧ ∃ e,
      OptionStands OrderKey.AllStand (s.order.map (List.map (OrderKey.map Identifier.text))) d e ∧
      ∃ f, OptionStands (fun z => Statement.LimitDigitsStand (Text.ofInt z)) s.limit e f ∧
      FlagStands Draft.readFiltering? s.filtering f g) (clauses s) :=
  (whereClause_continues h.relations).append <| (orderClause_continues h.order h.keys).append <|
    (limitClause_continues s).append (filteringClause_continues s)

/-- A reading of the clauses of a canonical text. The limit is written in the fewest digits. -/
structure Reading (s : Select) (u : Statement Text) (c d : Cursor) : Prop where
  clauses : u.ClausesStand c d
  rest : u.EndStands d
  digits : ∀ (digits : Text) (e : Cursor), Statement.LimitDigitsStand digits d e →
    ∃ z, s.limit = some z ∧ digits = Text.ofInt z

/-- The clauses after the table stand where they are written last. -/
theorem clauses_stand (h : s.ClausesWellFormed Text.IsNameToken)
    (contents : Selector Identifier → Selector Text) {c : Cursor} (hc : c.rest = clauses s) :
    ∃ d, Reading s (s.spelled contents) c d := by
  obtain ⟨g, ⟨d, hd, e, he, f, hf, hg⟩, hrest⟩ :=
    (clauses_continue h).stands_after (r := []) (by simpa using hc) .nil
  have hend : g.skip.rest = [] := by simp [skip, advance, hrest]
  refine ⟨e, ⟨d, hd, he⟩, ⟨f, g, g, false, limitStands hf, hg, rfl, hend⟩, fun digits k hk => ?_⟩
  exact limitDigits_unique hf (Draft.opens_filtering hg (Draft.opens_end (b := false) rfl hend)) hk

/-- The canonical text of a statement without tabs spells the statement. -/
theorem render_stands {contents : Selector Identifier → Selector Text}
    (hcolumns : SelectorsSpell s.columns contents) (h : s.ClausesWellFormed Text.IsNameToken)
    (htab : '\t' ∉ render s) :
    ∃ c d, (s.spelled contents).HeadStands (start (Text.expandTabs (render s))) c ∧
      Reading s (s.spelled contents) c d := by
  have hcols := hcolumns.spells
  have htable := TableName.render_spells h.table
  have hfrom := blank_keyword_separates "FROM" (by decide) (by decide)
  have hsolid := hcols.solid ((' ' :: "FROM".toList ++ [' ']) ++ (s.table.render ++ clauses s))
  have hjson := flag_solid (w := "JSON") (b := s.json) (by decide) hsolid
  have hdistinct := flag_solid (w := "DISTINCT") (b := s.distinct) (by decide) hjson
  have hstart := at_of_before (c := start (render s)) (render_eq s)
    (Text.nameForm_solid (by decide) _) rfl
  rw [Text.expandTabs_eq_self htab]
  obtain ⟨c₁, h₁, hrest₁⟩ := hstart.keyword? (w := "SELECT") (by decide) rfl
    (show (some ' ').any Text.isKeywordChar = false by decide)
  obtain ⟨c₂, h₂, hat₂⟩ := At.flag (w := "DISTINCT") (at_of_blank hrest₁ hdistinct) (by decide) hjson
  obtain ⟨c₃, h₃, hat₃⟩ := At.flag (w := "JSON") hat₂ (by decide) hsolid
  obtain ⟨c₄, h₄, hrest₄⟩ := hcols.stands_at hat₃ (hfrom.breaks _)
  obtain ⟨c₅, h₅, hat₅⟩ := hfrom.read hrest₄ (htable.solid _)
  obtain ⟨c₆, h₆, hrest₆⟩ := htable.stands_at hat₅ (clauses_break s)
  obtain ⟨d, hd⟩ := clauses_stand h contents hrest₆
  exact ⟨c₆, d, ⟨c₁, c₂, c₃, c₄, c₅, h₁, h₂, h₃, h₄, h₅, h₆⟩, hd⟩

end Select

end CqlCanon
