import CqlCanon.Proofs.Names
import CqlCanon.Statement.Render

/-!
# Properties of composed texts

The canonical text of a statement is composed of its names, operators and
values, of fixed words and numerals, and of separators that stand between two
of these. A property that holds of the words and numerals, and that is kept
where two texts are put together with a separator between them, holds of the
whole text if it holds of the names, operators and values.
-/

namespace CqlCanon

namespace Text

/-- The words that stand by themselves in canonical texts. -/
def fixedWords : List Text :=
  ["SELECT", "DISTINCT", "JSON", "*", "DESC", "ASC", "ALLOW FILTERING"].map String.toList

/-- What stands between two texts. -/
def separators : List Text :=
  [" ", ", ", ".", " AS ", " AND ", " FROM ", " WHERE ", " ORDER BY ", " LIMIT "].map String.toList

/-- The property passes from texts to what is composed of them. -/
structure Composes (P : Text → Prop) : Prop where
  word : ∀ w ∈ fixedWords, P w
  numeral : ∀ z : Int, P (ofInt z)
  between : ∀ {t u : Text}, P t → ∀ sep ∈ separators, P u → P (t ++ (sep ++ u))

/-- A clause that is not there, or that has a text with the property after its words. -/
def Clause (P : Text → Prop) (words clause : Text) : Prop :=
  clause = [] ∨ ∃ body : Text, P body ∧ clause = words ++ body

variable {P : Text → Prop} {t : Text}

theorem Composes.intercalate {sep : Text} (hP : Composes P) (hsep : sep ∈ separators) :
    {ts : List Text} → ts ≠ [] → (∀ t ∈ ts, P t) → P (List.intercalate sep ts)
  | [], hne, _ => absurd rfl hne
  | [t], _, h => List.intercalate_singleton.symm ▸ h t (by simp)
  | t :: u :: ts, _, h => by
    rw [List.intercalate_cons_cons, List.append_assoc]
    exact hP.between (h t (by simp)) sep hsep
      (hP.intercalate hsep (by simp) fun v hv => h v (by simp [hv]))

theorem Composes.after {w : Text} (hP : Composes P) (ht : P t) (hw : w ∈ fixedWords) :
    P (t ++ (" ".toList ++ w)) :=
  hP.between ht _ (by decide) (hP.word w hw)

/-- A word that may follow the text after a blank. -/
theorem Composes.flag {b : Bool} {w : Text} (hP : Composes P) (ht : P t) (hw : w ∈ fixedWords) :
    P (t ++ if b then " ".toList ++ w else []) := by
  cases b with
  | false => simpa using ht
  | true => exact hP.after ht hw

theorem Clause.append {words clause : Text} (h : Clause P words clause) (hP : Composes P)
    (hwords : words ∈ separators) (ht : P t) : P (t ++ clause) := by
  rcases h with rfl | ⟨body, hbody, rfl⟩
  · rwa [List.append_nil]
  · exact hP.between ht words hwords hbody

end Text

namespace Select

/-- The words before the selectors. -/
def words (s : Select) : Text :=
  "SELECT".toList ++ ((if s.distinct then " DISTINCT".toList else []) ++
    if s.json then " JSON".toList else [])

theorem render_eq_words (s : Select) : render s = words s ++ (" ".toList ++ renderColumns s.columns) ++
    (" FROM ".toList ++ s.table.render) ++ whereClause s ++ orderClause s ++ limitClause s ++
      filteringClause s := by
  have flags_eq : "SELECT ".toList ++ flags s = words s ++ " ".toList := by
    unfold flags words
    cases s.distinct <;> cases s.json <;> simp
  unfold render
  rewrite [flags_eq]
  simp only [List.append_assoc]

end Select

namespace Text.Composes

variable {P : Text → Prop}

/-! ## The parts of a statement -/

theorem named {n : Named Identifier} (hP : Composes P) (h : ∀ i ∈ n.identifiers, P i.text) :
    P n.render := by
  obtain ⟨hlabel, hname⟩ := Named.forall_identifiers.1 h
  unfold Named.render
  cases hl : n.alias? with
  | none => exact hname
  | some label =>
    simp only [List.append_assoc]
    exact hP.between hname _ (by decide) (hlabel label (by simp [hl]))

theorem selector {x : Selector Identifier} (hP : Composes P) (h : ∀ i ∈ x.identifiers, P i.text) :
    P x.render := by
  cases x with
  | star => exact hP.word _ (by decide)
  | column n => exact hP.named h
  | function n => exact hP.named h

theorem tableName {t : TableName Identifier} (hP : Composes P) (h : ∀ i ∈ t.identifiers, P i.text) :
    P t.render := by
  obtain ⟨hkeyspace, hname⟩ := TableName.forall_identifiers.1 h
  unfold TableName.render
  cases hk : t.keyspace with
  | none => exact hname
  | some keyspace =>
    simp only [List.append_assoc]
    exact hP.between (hkeyspace keyspace (by simp [hk])) _ (by decide) hname

theorem relation {r : Relation Identifier} (hP : Composes P) (hcolumn : P r.column.text)
    (h : P r.operator ∧ P r.value) : P r.render := by
  unfold Relation.render
  simp only [List.append_assoc]
  exact hP.between hcolumn _ (by decide) (hP.between h.1 _ (by decide) h.2)

theorem orderKey {k : OrderKey Identifier} (hP : Composes P) (h : P k.column.text) :
    P k.render := by
  unfold OrderKey.render
  cases k.descending with
  | true => exact hP.after (w := "DESC".toList) h (by decide)
  | false => exact hP.after (w := "ASC".toList) h (by decide)

theorem words (hP : Composes P) (s : Select) : P (Select.words s) := by
  have select : P "SELECT".toList := hP.word _ (by decide)
  unfold Select.words
  rw [← List.append_assoc]
  exact hP.flag (w := "JSON".toList) (hP.flag (w := "DISTINCT".toList) select (by decide)) (by decide)

/-! ## Whole statements -/

variable {s : Select}

theorem columns (hP : Composes P) (hne : s.columns ≠ [])
    (h : ∀ x ∈ s.columns, ∀ i ∈ x.identifiers, P i.text) : P (Select.renderColumns s.columns) :=
  hP.intercalate (by decide) (by simpa using hne) (List.forall_mem_map.2 fun x hx => hP.selector (h x hx))

theorem whereClause (hP : Composes P) (hcolumns : ∀ r ∈ s.relations, P r.column.text)
    (h : ∀ r ∈ s.relations, P r.operator ∧ P r.value) :
    Clause P " WHERE ".toList (Select.whereClause s) := by
  unfold Select.whereClause
  split
  · exact .inl rfl
  · rename_i hne
    refine .inr ⟨_, hP.intercalate (by decide) (by simpa using hne) ?_, rfl⟩
    exact List.forall_mem_map.2 fun r hr => hP.relation (hcolumns r hr) (h r hr)

theorem orderClause (hP : Composes P) (hne : s.order ≠ some [])
    (h : ∀ k ∈ s.order.getD [], P k.column.text) :
    Clause P " ORDER BY ".toList (Select.orderClause s) := by
  unfold Select.orderClause
  cases ho : s.order with
  | none => exact .inl rfl
  | some keys =>
    have hkeys : keys ≠ [] := by
      rintro rfl
      exact hne ho
    refine .inr ⟨_, hP.intercalate (by decide) (by simpa using hkeys) ?_, rfl⟩
    exact List.forall_mem_map.2 fun k hk => hP.orderKey (h k (by simpa [ho] using hk))

theorem limitClause (hP : Composes P) (s : Select) :
    Clause P " LIMIT ".toList (Select.limitClause s) := by
  unfold Select.limitClause
  cases s.limit with
  | none => exact .inl rfl
  | some z => exact .inr ⟨_, hP.numeral z, rfl⟩

/-- A property that passes to what is composed holds of the canonical text of a statement, if it
holds of the names, operators and values. Something is selected, and an order has keys: a separator
does not stand at an end. -/
theorem render (hP : Composes P) (hcolumns : s.columns ≠ []) (horder : s.order ≠ some [])
    (hnames : ∀ i ∈ s.identifiers, P i.text)
    (hrelations : ∀ r ∈ s.relations, P r.operator ∧ P r.value) : P (Select.render s) := by
  obtain ⟨hselectors, htable, hwhere, hkeys⟩ := Statement.forall_identifiers.1 hnames
  have blank : " ".toList ∈ separators := by decide
  have hhead : P (Select.words s ++ (" ".toList ++ Select.renderColumns s.columns) ++
      (" FROM ".toList ++ s.table.render)) :=
    hP.between (hP.between (hP.words s) _ blank (hP.columns hcolumns hselectors)) _ (by decide)
      (hP.tableName htable)
  have hwhere := (hP.whereClause hwhere hrelations).append hP (by decide) hhead
  have horder := (hP.orderClause horder hkeys).append hP (by decide) hwhere
  have hlimit := (hP.limitClause s).append hP (by decide) horder
  rw [Select.render_eq_words]
  exact hP.flag (w := "ALLOW FILTERING".toList) hlimit (by decide)

end Text.Composes

end CqlCanon
