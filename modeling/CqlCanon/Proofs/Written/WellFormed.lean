import CqlCanon.Proofs.Written.Composition
import CqlCanon.Proofs.Written.Statement

/-!
# Well-formed statements

A statement is well-formed if its names are accepted on their own and its calls
and values are canonical. Its canonical text then has no tabs, and all of its
names pass the check.
-/

namespace CqlCanon

open Cursor

/-! ## Names -/

/-- A text that is accepted as a name and has no tabs or ends of lines. -/
structure Text.IsName (t : Text) : Prop where
  accepted : Identifier.nameFault? t = none
  tab : '\t' ∉ t
  line : '\n' ∉ t ∧ '\r' ∉ t

instance (t : Text) : Decidable t.IsName :=
  decidable_of_iff (Identifier.nameFault? t = none ∧ '\t' ∉ t ∧ '\n' ∉ t ∧ '\r' ∉ t)
    ⟨fun h => ⟨h.1, h.2.1, h.2.2⟩, fun h => ⟨h.accepted, h.tab, h.line⟩⟩

namespace Identifier

theorem nameFault?_eq_none_iff {t : Text} : nameFault? t = none ↔
    fault? t = none ∧ (Identifier.mk t).functionCall = false := by
  unfold nameFault?
  cases fault? t <;> simp

theorem fault?_of_function? {t f : Text} (h : function? t = some f) (hq : isQuotedForm t = false)
    (hn : isNameForm t = false) :
    fault? t = if isReservedFunction f then some .reserved else none := by
  simp [fault?, hq, hn, h]

theorem functionCall_of_function? {t f : Text} (h : function? t = some f) :
    (Identifier.mk t).functionCall = true := by
  unfold function? at h
  split at h
  · cases h
  · rename_i n hn
    split at h
    · rename_i hc
      obtain ⟨x, u, rfl, hx, -⟩ := Text.nameLength?_eq_some_iff.1 hn
      have hq : x ≠ '"' := by
        rintro rfl
        exact absurd hx (by decide)
      have hlast : (x :: u).getLast? = some ')' := by
        have := hc.2
        rw [List.getLast?_drop] at this
        split at this
        · cases this
        · exact this
      simp [functionCall, quoted, hq, hlast]
    · cases h

theorem form_of_nameFault? {t : Text} (h : nameFault? t = none) :
    isQuotedForm t = true ∨ isNameForm t = true ∧ isReserved t = false := by
  obtain ⟨hf, hc⟩ := nameFault?_eq_none_iff.1 h
  unfold fault? at hf
  split at hf
  · exact .inl ‹_›
  · split at hf
    · rename_i hn
      split at hf
      · cases hf
      · rename_i hres
        exact .inr ⟨hn, by simpa using hres⟩
    · split at hf
      · rename_i f hfun
        rw [functionCall_of_function? hfun] at hc
        cases hc
      · split at hf <;> cases hf

theorem closingLength?_of_closesQuote {t : Text} (h : closesQuote t = true)
    (hline : '\n' ∉ t ∧ '\r' ∉ t) : closingLength? '"' t = some t.length := by
  fun_induction closesQuote t with
  | case1 => cases h
  | case2 c =>
    obtain rfl : c = '"' := by simpa using h
    rfl
  | case3 d t ih =>
    simp only [Bool.and_eq_true, decide_eq_true_eq] at h
    obtain ⟨rfl, ht⟩ := h
    simp only [List.mem_cons, not_or] at hline
    simp [closingLength?, ih ht ⟨hline.1.2.2, hline.2.2.2⟩]
  | case4 c d t hc ih =>
    simp only [List.mem_cons, not_or] at hline ih
    have hcl : ¬ (c = '\n' ∨ c = '\r') := not_or.2 ⟨Ne.symm hline.1.1, Ne.symm hline.2.1⟩
    rw [closingLength?, if_neg hc, if_neg hcl, ih h ⟨hline.1.2, hline.2.2⟩]
    rfl

end Identifier

theorem Text.nameToken_of_accepted {t : Text} (h : Identifier.nameFault? t = none)
    (hline : '\n' ∉ t ∧ '\r' ∉ t) : t.IsNameToken := by
  rcases Identifier.form_of_nameFault? h with h | h
  · cases t with
    | nil => cases h
    | cons c t =>
      simp only [Identifier.isQuotedForm, Bool.and_eq_true, decide_eq_true_eq] at h
      obtain ⟨⟨rfl, hc⟩, -⟩ := h
      simp only [List.mem_cons, not_or] at hline
      have := Identifier.closingLength?_of_closesQuote hc ⟨hline.1.2, hline.2.2⟩
      exact .inl (Token.quotedLength?_eq_some_iff.2 ⟨rfl, _, this, rfl⟩)
  · exact .inr h

theorem Text.IsName.token {t : Text} (h : t.IsName) : t.IsNameToken :=
  nameToken_of_accepted h.accepted h.line

/-! ## Calls -/

/-- A call is written as its function, followed by something in parentheses. -/
theorem Call.render_eq_append (x : Call) : ∃ u, x.render = x.function ++ '(' :: (u ++ [')']) := by
  cases x with
  | star f => exact ⟨['*'], rfl⟩
  | apply f as => exact ⟨_, by simp [render, function]; rfl⟩

theorem Call.Canonical.function {x : Call} (h : x.Canonical) :
    Identifier.isNameForm x.function = true := by
  cases h with
  | star h => exact h
  | apply h _ => exact h

theorem Call.Canonical.fault? {x : Call} (h : x.Canonical) : Identifier.fault? x.render =
    if isReservedFunction x.function then some .reserved else none := by
  obtain ⟨u, hu⟩ := x.render_eq_append
  obtain ⟨c, v, hv, hc⟩ := Text.nameForm_head h.function
  have hlen : Text.nameLength? x.render = some x.function.length := by
    rw [hu]
    exact Text.nameLength?_append (Token.whole_word_iff.2 h.function)
      (show Text.isNameChar '(' = false by decide)
  have hq : Identifier.isQuotedForm x.render = false := by
    have : c ≠ '"' := by
      rintro rfl
      exact absurd hc (by decide)
    rw [hu, hv]
    simp [Identifier.isQuotedForm, this]
  have hn : Identifier.isNameForm x.render = false := by
    rw [Identifier.isNameForm, hlen, hu]
    simp
  refine Identifier.fault?_of_function? ?_ hq hn
  rw [Identifier.function?, hlen, hu]
  simp [List.drop_append, List.getLast?_append]

/-! ## Tabs -/

theorem Text.not_mem_intercalate {x : Char} {sep : Text} {ts : List Text} (hsep : x ∉ sep)
    (h : ∀ t ∈ ts, x ∉ t) : x ∉ List.intercalate sep ts := by
  induction ts with
  | nil => simp
  | cons t ts ih =>
    cases ts with
    | nil => simpa using h
    | cons u ts =>
      rw [List.intercalate_cons_cons, List.mem_append, List.mem_append, not_or, not_or]
      exact ⟨⟨h t (by simp), hsep⟩, ih fun v hv => h v (List.mem_cons_of_mem t hv)⟩

namespace Text

theorem isNameChar_of_nameForm {t : Text} (h : Identifier.isNameForm t = true) :
    ∀ c ∈ t, isNameChar c = true := by
  obtain ⟨name, rest, rfl, hlen, -, hname, -⟩ := nameLength?_split (Token.whole_word_iff.2 h)
  have : rest = [] := by
    rw [List.length_append] at hlen
    exact List.eq_nil_of_length_eq_zero (by omega)
  simpa [this] using hname

theorem tab_of_nameForm {t : Text} (h : Identifier.isNameForm t = true) : '\t' ∉ t :=
  tab_of_inert ((Token.whole_word_iff.2 h).inert trivial)

end Text

theorem Term.Canonical.tab {t : Term} (h : t.Canonical) : '\t' ∉ t.render := by
  induction t using Term.induction with
  | number t =>
    obtain ⟨h⟩ := h
    exact Text.tab_of_inert (h.inert trivial)
  | string t =>
    obtain _ | ⟨-, h⟩ := h
    exact h
  | positional => decide
  | bind t =>
    obtain _ | _ | _ | h := h
    exact Text.tab_of_inert (h.inert trivial)
  | constant k => cases k <;> decide
  | list ts ih =>
    obtain _ | _ | _ | _ | _ | h := h
    have : '\t' ∉ List.intercalate ", ".toList (ts.map render) :=
      Text.not_mem_intercalate (by decide) (by simpa using fun t ht => ih t ht (h t ht))
    simpa [render, renderAll_eq_map] using this

theorem Call.canonical_tab : (∀ x : Call, x.Canonical → '\t' ∉ x.render) ∧
    ∀ a : Argument, a.Canonical → '\t' ∉ a.render := by
  apply Call.induction
  case star =>
    rintro f ⟨hf⟩
    simp [Call.render, Text.tab_of_nameForm hf]
  case apply =>
    rintro f as ih (_ | ⟨hf, has⟩)
    have : '\t' ∉ List.intercalate ", ".toList (as.map Argument.render) :=
      Text.not_mem_intercalate (by decide) (by simpa using fun a ha => ih a ha (has a ha))
    simpa [Call.render, Text.tab_of_nameForm hf, Argument.renderAll_eq_map] using this
  case call =>
    rintro x ih ⟨hx⟩
    exact ih hx
  case term =>
    rintro t (_ | ht)
    exact ht.tab
  case name =>
    rintro t (_ | _ | ht)
    exact ht.tab

/-! ## Tabs in statements -/

theorem Text.composes_tab : Composes fun t => '\t' ∉ t where
  word := by decide
  numeral := tab_not_mem_ofInt
  between ht sep hsep hu := by
    have all : ∀ sep ∈ separators, '\t' ∉ sep := by decide
    simp [ht, all sep hsep, hu]

theorem Select.ClausesWellFormed.forall_relations {P name : Text → Prop} {s : Select}
    (h : s.ClausesWellFormed name) (hoperator : ∀ o ∈ Relation.operators, P o)
    (hvalue : ∀ v : Term, v.Canonical → P v.render) :
    ∀ r ∈ s.relations, P r.operator ∧ P r.value := by
  intro r hr
  obtain ⟨v, hv, hrender⟩ := (h.relations r hr).value
  exact ⟨hoperator _ (h.relations r hr).operator, hrender ▸ hvalue v hv⟩

/-- What holds of the names of the selectors and of all texts that may be names elsewhere holds of
all names. -/
theorem Select.ClausesWellFormed.forall_identifiers {P name : Text → Prop} {s : Select}
    (h : s.ClausesWellFormed name) (hname : ∀ t, name t → P t)
    (hcolumns : ∀ x ∈ s.columns, ∀ i ∈ x.identifiers, P i.text) :
    ∀ i ∈ s.identifiers, P i.text :=
  Statement.forall_identifiers.2 ⟨hcolumns, fun i hi => hname _ (h.table i hi),
    fun r hr => hname _ (h.relations r hr).column, fun k hk => hname _ (h.keys k hk)⟩

/-- The canonical text of a statement has tabs only in its names. -/
theorem Select.tab_not_mem_render {name : Text → Prop} {s : Select} (h : s.ClausesWellFormed name)
    (hne : s.columns ≠ []) (hnames : ∀ i ∈ s.identifiers, '\t' ∉ i.text) : '\t' ∉ render s := by
  have operator : ∀ o ∈ Relation.operators, '\t' ∉ o := by decide
  exact Text.composes_tab.render hne h.order hnames (h.forall_relations operator fun _ hv => hv.tab)

/-! ## Statements -/

/-- A canonical call of a function that may be called, as the text of an identifier. -/
structure Call.Names (x : Call) (i : Identifier) : Prop where
  canonical : x.Canonical
  function : isReservedFunction x.function = false
  text : x.render = i.text

/-- A column or call, with names that are accepted. -/
def Selector.WellFormed : Selector Identifier → Prop
  | star => False
  | column n => ∀ i ∈ n.identifiers, i.text.IsName
  | function n => (∃ x : Call, x.Names n.name) ∧ ∀ i ∈ n.alias?.toList, i.text.IsName

/-- A statement that selects `*` alone or columns and calls, whose names are accepted, whose values
are canonical, and whose limit can be read. -/
structure Select.WellFormed (s : Select) : Prop where
  columns : s.columns = [.star] ∨ s.columns ≠ [] ∧ ∀ x ∈ s.columns, x.WellFormed
  clauses : s.ClausesWellFormed Text.IsName
  limit : ∀ z, s.limit = some z → z.natAbs < 10 ^ maxLimitDigits

/-! ## The names of a well-formed statement -/

theorem Selector.WellFormed.forall_identifiers {P : Text → Prop} {x : Selector Identifier}
    (h : x.WellFormed) (hname : ∀ t : Text, t.IsName → P t)
    (hcall : ∀ (c : Call) (i : Identifier), c.Names i → P i.text) :
    ∀ i ∈ x.identifiers, P i.text := by
  cases x with
  | star => cases h
  | column n => exact fun i hi => hname _ (h i hi)
  | function n =>
    obtain ⟨⟨call, hnames⟩, hlabel⟩ := h
    exact Named.forall_identifiers.2 ⟨fun i hi => hname _ (hlabel i hi), hcall call n.name hnames⟩

namespace Select.WellFormed

variable {s : Select}

theorem columns_ne_nil (h : s.WellFormed) : s.columns ≠ [] := by
  rcases h.columns with h | ⟨h, -⟩
  · simp [h]
  · exact h

/-- What holds of all names and calls that are accepted holds of the names of the statement; `*` has
none. -/
theorem forall_identifiers {P : Text → Prop} (h : s.WellFormed) (hname : ∀ t : Text, t.IsName → P t)
    (hcall : ∀ (c : Call) (i : Identifier), c.Names i → P i.text) :
    ∀ i ∈ s.identifiers, P i.text := by
  refine h.clauses.forall_identifiers hname ?_
  rcases h.columns with hstar | ⟨-, hcolumns⟩
  · rw [hstar]
    exact List.forall_mem_singleton.2 (List.forall_mem_nil _)
  · exact fun x hx => (hcolumns x hx).forall_identifiers hname hcall

end Select.WellFormed

end CqlCanon
