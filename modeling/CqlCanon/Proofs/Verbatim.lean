import CqlCanon.Proofs.Lexeme.Quoted

/-!
# What stands in quotes

Tabs are replaced by spaces before a text is read, inside quotes as everywhere.
That is the only change: what stands in quotes in a statement comes from one
place of its text, and is what stands there exactly if no tab does.
-/

namespace CqlCanon

open Cursor Lexeme

/-! ## Parts of a text with tabs -/

namespace Text

/-- The column after a text that starts at `column`. -/
def columnFrom (column : Nat) : Text → Nat
  | [] => column
  | c :: t =>
    if c = '\t' then columnFrom (column + (tabWidth - column % tabWidth)) t
    else if c = '\n' ∨ c = '\r' then columnFrom 0 t
    else columnFrom (column + 1) t

theorem expandTabsFrom_append (column : Nat) (t u : Text) : expandTabsFrom column (t ++ u) =
    expandTabsFrom column t ++ expandTabsFrom (columnFrom column t) u := by
  induction t generalizing column with
  | nil => rfl
  | cons c t ih =>
    rw [List.cons_append, expandTabsFrom, expandTabsFrom, columnFrom]
    split
    · rw [ih, List.append_assoc]
    · split <;> rw [ih, List.cons_append]

theorem expandTabsFrom_cons (column : Nat) (c : Char) (t : Text) : expandTabsFrom column (c :: t) =
    expandTabsFrom column [c] ++ expandTabsFrom (columnFrom column [c]) t :=
  expandTabsFrom_append column [c] t

theorem expandTabsFrom_singleton {c : Char} (hc : c ≠ '\t') (column : Nat) :
    expandTabsFrom column [c] = [c] :=
  expandTabsFrom_eq_self (by simpa using hc.symm) column

/-- Where a character other than a space stands after tabs are replaced, it stood before. -/
theorem exists_of_expandTabsFrom {column : Nat} {t a b : Text} {x : Char} (hx : x ≠ ' ')
    (h : expandTabsFrom column t = a ++ x :: b) :
    ∃ u v, t = u ++ x :: v ∧ expandTabsFrom column u = a := by
  induction t generalizing column a with
  | nil => simp [expandTabsFrom] at h
  | cons c t ih =>
    rw [expandTabsFrom_cons] at h
    have further : ∀ {a'}, expandTabsFrom (columnFrom column [c]) t = a' ++ x :: b →
        ∃ u v, c :: t = u ++ x :: v ∧ expandTabsFrom column u = expandTabsFrom column [c] ++ a' := by
      intro a' h
      obtain ⟨u, v, rfl, rfl⟩ := ih h
      exact ⟨c :: u, v, rfl, expandTabsFrom_cons column c u⟩
    rcases List.append_eq_append_iff.1 h with ⟨a', rfl, hrest⟩ | ⟨w, hw, hrest⟩
    · exact further hrest
    · cases w with
      | nil =>
        rw [List.append_nil] at hw
        have hempty : expandTabsFrom (columnFrom column [c]) t = [] ++ x :: b := hrest.symm
        obtain ⟨u, v, huv, hu⟩ := further hempty
        exact ⟨u, v, huv, by rw [hu, List.append_nil, hw]⟩
      | cons y w =>
        obtain ⟨rfl, -⟩ := List.cons.inj hrest
        -- the character is part of what `c` gives, so it is `c`, for a tab gives spaces
        by_cases hc : c = '\t'
        · have hmem : x ∈ expandTabsFrom column [c] := by simp [hw]
          rw [hc, expandTabsFrom, if_pos rfl, expandTabsFrom, List.append_nil] at hmem
          exact absurd (List.eq_of_mem_replicate hmem) hx
        · rw [expandTabsFrom_singleton hc, eq_comm, List.append_eq_singleton_iff] at hw
          obtain ⟨rfl, hw⟩ | ⟨-, hw⟩ := hw
          · obtain ⟨rfl, -⟩ := List.cons.inj hw
            exact ⟨[], t, rfl, rfl⟩
          · cases hw

/-- A quoted text has its source, from quote to quote. -/
theorem exists_of_expandTabs {t a w b : Text} {q : Char} (hq : q = '"' ∨ q = '\'')
    (hw : (Token.quoted q).Whole w) (h : expandTabs t = a ++ (w ++ b)) :
    ∃ before source after, t = before ++ (source ++ after) ∧ expandTabs before = a ∧
      expandTabsFrom (columnFrom 0 before) source = w := by
  obtain ⟨m, rfl⟩ := hw.quoted_eq
  have hspace : q ≠ ' ' := by rcases hq with rfl | rfl <;> decide
  have htab : q ≠ '\t' := by rcases hq with rfl | rfl <;> decide
  obtain ⟨u, after, rfl, hu⟩ : ∃ u v, t = u ++ q :: v ∧ expandTabsFrom 0 u = a ++ q :: m :=
    exists_of_expandTabsFrom (b := b) hspace (by simpa [expandTabs] using h)
  obtain ⟨before, v, rfl, hbefore⟩ := exists_of_expandTabsFrom hspace hu
  refine ⟨before, (q :: v) ++ [q], after, by simp, hbefore, ?_⟩
  rw [expandTabsFrom_append, hbefore] at hu
  rw [expandTabsFrom_append, List.append_cancel_left hu, expandTabsFrom_singleton htab]
  rfl

end Text

/-! ## Quoted pieces -/

theorem Piece.exists_of_quoted? {p : Piece} {w : Text} (h : p.quoted? = some w) :
    ∃ q, p.kind = .quoted q ∧ p.text = w := by
  unfold quoted? at h
  split at h
  · rename_i q hk
    exact ⟨q, hk, Option.some.inj h⟩
  · cases h

theorem Cursor.Reads.whole {l : List Lexeme} {ps : List Piece} {c d : Cursor} (hl : Alternating l)
    (hfit : List.Forall₂ Fits l ps) (h : c.Reads ps d) : ∀ p ∈ ps, ∀ q, p.kind = .quoted q →
      (q = '"' ∨ q = '\'') ∧ (Token.quoted q).Whole p.text := by
  induction hfit generalizing c with
  | nil => exact List.forall_mem_nil _
  | @cons x p l ps hx _ ih =>
    obtain ⟨e, -, he, h⟩ := h
    intro r hr q hk
    rcases List.mem_cons.1 hr with rfl | hr
    · have hsort := hl.sorts x (by simp)
      rw [← hx.1, hk] at hsort
      have hq := Token.quote_of_sorts hsort
      exact ⟨hq, whole_of_token? hq (hk ▸ he)⟩
    · exact ih hl.tail h r hr q hk

/-- Where a text is parsed, what stands in quotes in the names and values of the statement is what
its quoted tokens are, in order. Each of them comes from one place of the text, after the same
tokens, and is what stands there exactly if no tab does. -/
theorem Select.quotedParts_of_parse {t : Text} {s : Select} (h : parse t = .ok s) :
    (∃ ps tail, (s.map Identifier.text).Reading (Text.expandTabs t) ps tail) ∧
    ∀ ps tail, (s.map Identifier.text).Reading (Text.expandTabs t) ps tail →
      (s.map Identifier.text).texts.flatMap Text.quotedParts = ps.filterMap Piece.quoted? ∧
      ∀ ps₁ p ps₂ w, ps = ps₁ ++ p :: ps₂ → p.quoted? = some w → ∃ before source after,
        t = before ++ (source ++ after) ∧
        Text.expandTabs before = Piece.spread ps₁ ++ p.gap ∧
        Text.expandTabsFrom (Text.columnFrom 0 before) source = w ∧
        (w = source ↔ '\t' ∉ source) := by
  refine ⟨reading_of_parse h, fun ps tail hr => ⟨hr.quotedParts, ?_⟩⟩
  rintro ps₁ p ps₂ w rfl hp
  obtain ⟨q, hk, rfl⟩ := Piece.exists_of_quoted? hp
  obtain ⟨hq, hw⟩ : (q = '"' ∨ q = '\'') ∧ (Token.quoted q).Whole p.text := by
    obtain ⟨l, d, hl, hfit, hps, -⟩ := hr
    exact hps.whole hl.alternating hfit p (by simp) q hk
  have hsplit : Text.expandTabs t =
      (Piece.spread ps₁ ++ p.gap) ++ (p.text ++ (Piece.spread ps₂ ++ tail)) := by
    rw [hr.eq_spread]
    simp [Piece.spread]
  obtain ⟨before, source, after, ht, hbefore, hsource⟩ := Text.exists_of_expandTabs hq hw hsplit
  refine ⟨before, source, after, ht, hbefore, hsource, fun heq => ?_, fun htab => ?_⟩
  · rw [← heq, ← hsource]
    exact Text.tab_not_mem_expandTabsFrom _ source
  · rw [← hsource, Text.expandTabsFrom_eq_self htab]

/-- Tabs outside the quotes leave what stands in them as it is. -/
theorem Select.quotedParts_of_spaced : ∃ (s : Select) (ps : List Piece) (tail : Text),
    parse "SELECT\t\"a b\" FROM t WHERE x IN ('it''s',\t1)".toList = .ok s ∧
    (s.map Identifier.text).Reading
      (Text.expandTabs "SELECT\t\"a b\" FROM t WHERE x IN ('it''s',\t1)".toList) ps tail ∧
    ps.filterMap Piece.quoted? = ["\"a b\"".toList, "'it''s'".toList] := by
  have h : parse "SELECT\t\"a b\" FROM t WHERE x IN ('it''s',\t1)".toList =
      .ok { columns := [.column ⟨⟨"\"a b\"".toList⟩, none⟩], table := ⟨⟨"t".toList⟩, none⟩
            relations := [⟨⟨"x".toList⟩, "IN".toList, "('it''s', 1)".toList⟩] } := by
    decide +kernel
  obtain ⟨⟨ps, tail, hr⟩, hall⟩ := quotedParts_of_parse h
  refine ⟨_, ps, tail, h, hr, (hall ps tail hr).1.symm.trans ?_⟩
  decide +kernel

/-- A tab inside quotes is read as spaces. -/
theorem Select.not_infix_of_tab : ∃ s : Select,
    parse "SELECT \"a\tb\" FROM t".toList = .ok s ∧
    s.columns = [.column ⟨⟨"\"a       b\"".toList⟩, none⟩] ∧
    ¬ "\"a       b\"".toList <:+: "SELECT \"a\tb\" FROM t".toList := by
  refine ⟨{ columns := [.column ⟨⟨"\"a       b\"".toList⟩, none⟩], table := ⟨⟨"t".toList⟩, none⟩ }, ?_⟩
  decide +kernel

end CqlCanon
