import CqlCanon.Proofs.Tidy
import Mathlib.Data.List.Chain
import Mathlib.Data.List.Infix

/-!
# Blanks in canonical texts

The canonical text of a statement is put together from its names, operators and
values, whatever they are. If blanks stand singly in each of them, and not at
its ends, they do so in the whole text: every separator stands between two
texts. The one exception is an order without keys, whose words are written with
nothing after them. A statement whose limit has too many digits has no text.
-/

namespace CqlCanon

namespace Text

/-- A text that is not empty, has no blank at its ends and no two blanks next to each other. -/
structure Trimmed (t : Text) : Prop where
  ne_nil : t ≠ []
  first : t.head? ≠ some ' '
  last : t.getLast? ≠ some ' '
  single : ¬ [' ', ' '] <:+: t

instance (t : Text) : Decidable t.Trimmed :=
  decidable_of_iff (t ≠ [] ∧ t.head? ≠ some ' ' ∧ t.getLast? ≠ some ' ' ∧ ¬ [' ', ' '] <:+: t)
    ⟨fun h => ⟨h.1, h.2.1, h.2.2.1, h.2.2.2⟩, fun h => ⟨h.ne_nil, h.first, h.last, h.single⟩⟩

variable {t u : Text}

theorem single_iff_isChain : ¬ [' ', ' '] <:+: t ↔ t.IsChain fun x y => ¬ (x = ' ' ∧ y = ' ') := by
  rw [List.isChain_iff_forall_rel_of_append_cons_cons]
  constructor
  · rintro h x y l m rfl ⟨rfl, rfl⟩
    exact h ⟨l, m, by simp⟩
  · rintro h ⟨l, m, rfl⟩
    have hpair : l ++ [' ', ' '] ++ m = l ++ ' ' :: ' ' :: m := by simp
    exact h hpair ⟨rfl, rfl⟩

/-- Where one text follows another, a blank may stand on one side only. -/
theorem single_append (ht : ¬ [' ', ' '] <:+: t) (hu : ¬ [' ', ' '] <:+: u)
    (h : t.getLast? ≠ some ' ' ∨ u.head? ≠ some ' ') : ¬ [' ', ' '] <:+: t ++ u := by
  rw [single_iff_isChain] at ht hu ⊢
  refine ht.append hu ?_
  rintro x hx y hy ⟨rfl, rfl⟩
  exact h.elim (fun h => h hx) (fun h => h hy)

theorem Trimmed.of_no_blank (hne : t ≠ []) (h : ' ' ∉ t) : t.Trimmed :=
  ⟨hne, fun e => h (List.mem_of_mem_head? e), fun e => h (List.mem_of_getLast? e),
    fun e => h (e.mem (by simp))⟩

theorem Trimmed.between {sep : Text} (ht : t.Trimmed) (hsep : ¬ [' ', ' '] <:+: sep)
    (hu : u.Trimmed) : (t ++ (sep ++ u)).Trimmed := by
  obtain ⟨x, t', rfl⟩ := List.exists_cons_of_ne_nil ht.ne_nil
  have hlast : (sep ++ u).getLast? = u.getLast? := List.getLast?_append_of_ne_nil sep hu.ne_nil
  have hne : sep ++ u ≠ [] := List.append_ne_nil_of_right_ne_nil sep hu.ne_nil
  refine ⟨by simp, ht.first, ?_, ?_⟩
  · rw [List.getLast?_append_of_ne_nil _ hne, hlast]
    exact hu.last
  · exact single_append ht.single (single_append hsep hu.single (.inr hu.first)) (.inl ht.last)

theorem trimmed_ofInt (z : Int) : (ofInt z).Trimmed :=
  .of_no_blank (ofInt_ne_nil z) fun hblank =>
    absurd (isNumberChar_ofInt z ' ' hblank) (by decide)

theorem composes_trimmed : Composes Trimmed where
  word := by decide
  numeral := trimmed_ofInt
  between ht sep hsep hu := by
    have all : ∀ sep ∈ separators, ¬ [' ', ' '] <:+: sep := by decide
    exact ht.between (all sep hsep) hu

end Text

namespace Select

variable {s : Select}

/-- A clause that is not there, or that has something after its words. -/
def Filled (words clause : Text) : Prop :=
  clause = [] ∨ ∃ body : Text, body ≠ [] ∧ clause = words ++ body

theorem filled_of_clause {words clause : Text} (h : Text.Clause Text.Trimmed words clause) :
    Filled words clause :=
  h.imp_right fun ⟨body, hbody, e⟩ => ⟨body, hbody.ne_nil, e⟩

/-- After an order without keys comes another blank or the end of the text. -/
theorem blank_of_no_keys (h : s.order = some []) (t : Text) :
    [' ', ' '] <:+: t ++ orderClause s ++ limitClause s ++ filteringClause s ∨
      (t ++ orderClause s ++ limitClause s ++ filteringClause s).getLast? = some ' ' := by
  have horder : orderClause s = " ORDER BY".toList ++ [' '] := by
    unfold orderClause
    rw [h]
    rfl
  have after : ∀ {u : Text}, u = [] ∨ (∃ v, u = ' ' :: v) →
      [' ', ' '] <:+: t ++ orderClause s ++ u ∨ (t ++ orderClause s ++ u).getLast? = some ' ' := by
    rintro u (rfl | ⟨v, rfl⟩)
    · right
      rw [horder, List.append_nil, ← List.append_assoc, List.getLast?_concat]
    · left
      exact ⟨t ++ " ORDER BY".toList, v, by simp [horder]⟩
  rw [List.append_assoc]
  refine after ?_
  cases hl : s.limit with
  | some z => exact .inr ⟨"LIMIT ".toList ++ Text.ofInt z ++ filteringClause s, by simp [limitClause, hl]⟩
  | none =>
    cases hf : s.filtering with
    | true => exact .inr ⟨"ALLOW FILTERING".toList, by simp [limitClause, filteringClause, hl, hf]⟩
    | false => exact .inl (by simp [limitClause, filteringClause, hl, hf])

theorem single_blanks_render_iff (hcolumns : s.columns ≠ [])
    (hnames : ∀ i ∈ s.identifiers, i.text.Trimmed)
    (hrelations : ∀ r ∈ s.relations, r.operator.Trimmed ∧ r.value.Trimmed) :
    ¬ [' ', ' '] <:+: render s ∧ (render s).getLast? ≠ some ' ' ↔ s.order ≠ some [] := by
  constructor
  · intro h ho
    rw [render_eq_words] at h
    exact (blank_of_no_keys ho _).elim h.1 h.2
  · intro ho
    have hall := Text.composes_trimmed.render hcolumns ho hnames hrelations
    exact ⟨hall.single, hall.last⟩

theorem filled_orderClause_iff (hkeys : ∀ k ∈ s.order.getD [], k.column.text.Trimmed) :
    Filled " ORDER BY ".toList (orderClause s) ↔ s.order ≠ some [] := by
  constructor
  · intro h ho
    unfold orderClause at h
    rw [ho] at h
    rcases h with h | ⟨body, hbody, h⟩
    · cases h
    · exact hbody (List.append_cancel_left h).symm
  · exact fun ho => filled_of_clause (Text.composes_trimmed.orderClause ho hkeys)

/-- A statement is written unless its limit has too many digits. In its text blanks stand singly,
and none at its end, exactly if the order is not one without keys. Of the clauses, only such an
order is written without anything after its words. -/
theorem single_blanks_iff_order {s : Select} (hcolumns : s.columns ≠ [])
    (hnames : ∀ i ∈ s.identifiers, i.text.Trimmed)
    (hrelations : ∀ r ∈ s.relations, r.operator.Trimmed ∧ r.value.Trimmed) :
    (write s = .error .limitTooLong ↔ ∃ z, s.limit = some z ∧ 10 ^ maxLimitDigits ≤ z.natAbs) ∧
    ((∀ z, s.limit = some z → z.natAbs < 10 ^ maxLimitDigits) →
      write s = .ok (render s) ∧
      (¬ [' ', ' '] <:+: render s ∧ (render s).getLast? ≠ some ' ' ↔ s.order ≠ some []) ∧
      Filled " WHERE ".toList (whereClause s) ∧
      (Filled " ORDER BY ".toList (orderClause s) ↔ s.order ≠ some []) ∧
      Filled " LIMIT ".toList (limitClause s)) := by
  obtain ⟨-, -, hwhere, hkeys⟩ := Statement.forall_identifiers.1 hnames
  have hP := Text.composes_trimmed
  refine ⟨write_eq_error_iff, fun hlimit => ⟨write_eq_ok_iff.2 ⟨hlimit, rfl⟩,
    single_blanks_render_iff hcolumns hnames hrelations, ?_, filled_orderClause_iff hkeys, ?_⟩⟩
  · exact filled_of_clause (hP.whereClause hwhere hrelations)
  · exact filled_of_clause (hP.limitClause s)

/-- Blanks inside names and values do no harm. -/
theorem single_blanks_of_quoted : ∃ s : Select, s.order = some [⟨⟨"x".toList⟩, false⟩] ∧
    render s = "SELECT JSON \"a b\" AS c FROM t WHERE y IN (1, 2) ORDER BY x ASC LIMIT -5".toList ∧
    write s = .ok (render s) ∧ ¬ [' ', ' '] <:+: render s ∧ (render s).getLast? ≠ some ' ' := by
  refine ⟨{ json := true
            columns := [.column ⟨⟨"\"a b\"".toList⟩, some ⟨"c".toList⟩⟩]
            table := ⟨⟨"t".toList⟩, none⟩
            relations := [⟨⟨"y".toList⟩, "IN".toList, "(1, 2)".toList⟩]
            order := some [⟨⟨"x".toList⟩, false⟩]
            limit := some (-5) }, rfl, by decide, ?_⟩
  refine ((single_blanks_iff_order (by decide) (by decide) (by decide)).2 ?_).imp_right
    fun h => h.1.2 (by decide)
  rintro z hz
  cases hz
  exact Nat.lt_of_lt_of_le (by decide) (Nat.le_self_pow (by decide) 10)

/-- An order without keys leaves a blank at the end of the text, and a limit with too many digits
leaves no text at all. -/
theorem blank_at_end_of_no_keys :
    (∃ s : Select, s.columns ≠ [] ∧ (∀ i ∈ s.identifiers, i.text.Trimmed) ∧
      (∀ r ∈ s.relations, r.operator.Trimmed ∧ r.value.Trimmed) ∧
      s.order = some [] ∧ write s = .ok "SELECT a FROM t ORDER BY ".toList) ∧
    ∃ s : Select, s.columns ≠ [] ∧ (∀ i ∈ s.identifiers, i.text.Trimmed) ∧
      (∀ r ∈ s.relations, r.operator.Trimmed ∧ r.value.Trimmed) ∧
      s.limit = some (10 ^ maxLimitDigits : Nat) ∧ write s = .error .limitTooLong := by
  constructor
  · refine ⟨{ columns := [.column ⟨⟨"a".toList⟩, none⟩]
              table := ⟨⟨"t".toList⟩, none⟩
              order := some [] }, ?_⟩
    decide
  · refine ⟨{ columns := [.column ⟨⟨"a".toList⟩, none⟩]
              table := ⟨⟨"t".toList⟩, none⟩
              limit := some (10 ^ maxLimitDigits : Nat) }, ?_, ?_, ?_, rfl, ?_⟩
    · simp
    · decide
    · decide
    · exact write_eq_error_iff.2 ⟨_, rfl, (Int.natAbs_natCast _).ge⟩

end Select

end CqlCanon
