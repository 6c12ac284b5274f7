import CqlCanon.Proofs.Lexeme.Adjacent

/-!
# The tokens of the parts of a statement

Key words and symbols are asked for without a text, all other tokens with one.
`FROM` stands in a statement once, right before the table.
-/

namespace CqlCanon

open Lexeme

namespace Lexeme

/-- A token of a part of a statement, with one of the given key words if it is one. -/
inductive Over (Q : String → Prop) : Lexeme → Prop where
  | symbol (c : Char) : Over Q (symbol c)
  | keyword {w : String} : Q w → Over Q (keyword w)
  | comparison (operator : Text) : Over Q ⟨.comparison, some operator⟩
  | value {k : Token} (t : Text) : k.isValue = true → Over Q ⟨k, some t⟩

/-- A token of a part of a statement, other than the key word before the table. -/
abbrev Inner : Lexeme → Prop := Over (· ≠ "FROM")

variable {Q : String → Prop} {x sep : Lexeme} {l : List Lexeme} {ls : List (List Lexeme)}

theorem Inner.kind_ne (h : x.Inner) : x.kind ≠ .keyword "FROM".toList := by
  cases h with
  | symbol c => simp [Lexeme.symbol]
  | @keyword w hw =>
    rw [Lexeme.keyword, ne_eq, Token.keyword.injEq, String.toList_inj]
    exact hw
  | comparison o => simp
  | value t hk =>
    rintro rfl
    cases hk

theorem Over.asks (h : x.Over Q) :
    x.text? = none ∨ x.kind = .comparison ∨ x.kind.isValue = true := by
  cases h with
  | symbol c => exact .inl rfl
  | keyword _ => exact .inl rfl
  | comparison o => exact .inr (.inl rfl)
  | value t hk => exact .inr (.inr hk)

theorem from_not_mem_of_inner (h : ∀ x ∈ l, x.Inner) :
    Token.keyword "FROM".toList ∉ l.map Lexeme.kind := by
  intro hmem
  obtain ⟨x, hx, hk⟩ := List.mem_map.1 hmem
  exact (h x hx).kind_ne hk

theorem over_name (t : Text) : (name t).Over Q := by
  unfold name
  split
  · exact .value t rfl
  · exact .value t rfl

theorem over_flag {w : String} (hw : Q w) (b : Bool) : ∀ x ∈ flag w b, x.Over Q := by
  cases b with
  | false => exact List.forall_mem_nil _
  | true => exact List.forall_mem_singleton.2 (.keyword hw)

theorem over_separated (hsep : sep.Over Q) (h : ∀ l ∈ ls, ∀ x ∈ l, x.Over Q) :
    ∀ x ∈ separated sep ls, x.Over Q := by
  cases ls with
  | nil => exact List.forall_mem_nil _
  | cons l ls =>
    obtain ⟨hl, hls⟩ := List.forall_mem_cons.1 h
    refine List.forall_mem_append.2 ⟨hl, List.forall_mem_flatMap.2 fun m hm => ?_⟩
    exact List.forall_mem_cons.2 ⟨hsep, hls m hm⟩

theorem over_of_forall₂ {α : Type} {S : α → List Lexeme → Prop}
    (hS : ∀ a l, S a l → ∀ x ∈ l, x.Over Q) {as : List α} (h : List.Forall₂ S as ls) :
    ∀ l ∈ ls, ∀ x ∈ l, x.Over Q := by
  induction h with
  | nil => exact List.forall_mem_nil _
  | cons ha _ ih => exact List.forall_mem_cons.2 ⟨hS _ _ ha, ih⟩

end Lexeme

/-! ## Terms and calls -/

section Calls

variable {Q : String → Prop} {ls : List (List Lexeme)}

theorem Lexeme.over_parens (h : ∀ l ∈ ls, ∀ x ∈ l, x.Over Q) :
    ∀ x ∈ symbol '(' :: separated (symbol ',') ls ++ [symbol ')'], x.Over Q :=
  List.forall_mem_append.2 ⟨List.forall_mem_cons.2 ⟨.symbol _, over_separated (.symbol _) h⟩,
    List.forall_mem_singleton.2 (.symbol _)⟩

/-- The constants are the key words of terms. -/
theorem Term.over (hQ : ∀ k : Constant, Q k.word) (t : Term) : ∀ x ∈ t.lexemes, x.Over Q := by
  induction t using Term.induction with
  | positional => exact List.forall_mem_singleton.2 (.symbol _)
  | constant k => exact List.forall_mem_singleton.2 (.keyword (hQ k))
  | list ts ih =>
    rw [lexemes, lexemesAll_eq_map]
    exact over_parens (List.forall_mem_map.2 ih)
  | _ => exact List.forall_mem_singleton.2 (.value _ rfl)

theorem Call.over (hQ : ∀ k : Constant, Q k.word) :
    (∀ x : Call, ∀ y ∈ x.lexemes, y.Over Q) ∧ ∀ a : Argument, ∀ y ∈ a.lexemes, y.Over Q := by
  apply Call.induction
  case star =>
    intro f
    simp only [Call.lexemes, List.forall_mem_cons]
    exact ⟨.value _ rfl, .symbol _, .symbol _, .symbol _, List.forall_mem_nil _⟩
  case apply =>
    intro f as ih
    rw [Call.lexemes, Argument.lexemesAll_eq_map]
    exact List.forall_mem_cons.2 ⟨.value _ rfl, over_parens (List.forall_mem_map.2 ih)⟩
  case call => exact fun x hx => hx
  case term => exact fun t => t.over hQ
  case name => exact fun t => List.forall_mem_singleton.2 (over_name t)

end Calls

/-! ## Statements -/

theorem Constant.word_ne_from (k : Constant) : k.word ≠ "FROM" := by
  cases k <;> decide

section Parts

variable {Q : String → Prop}

theorem Named.over_aliasLexemes (hQ : Q "AS") (o : Option Text) : ∀ x ∈ aliasLexemes o, x.Over Q := by
  cases o with
  | none => exact List.forall_mem_nil _
  | some t => exact List.forall_mem_cons.2 ⟨.keyword hQ, List.forall_mem_singleton.2 (over_name t)⟩

theorem Selector.Spelled.over (has : Q "AS") (hQ : ∀ k : Constant, Q k.word) {s : Selector Text}
    {l : List Lexeme} (h : s.Spelled l) : ∀ x ∈ l, x.Over Q := by
  cases s with
  | star => exact h.elim
  | column n =>
    obtain rfl : l = _ := h
    exact List.forall_mem_cons.2 ⟨over_name _, Named.over_aliasLexemes has _⟩
  | function n =>
    obtain ⟨x, -, -, rfl⟩ := h
    exact List.forall_mem_append.2 ⟨(Call.over hQ).1 x, Named.over_aliasLexemes has _⟩

theorem Relation.over_operatorLexemes (hQ : ∀ w ∈ ["IN", "CONTAINS", "KEY", "LIKE"], Q w) (o : Text) :
    ∀ x ∈ operatorLexemes o, x.Over Q := by
  have hwords : operatorWords o ⊆ ["IN", "CONTAINS", "KEY", "LIKE"] := by
    unfold operatorWords
    split_ifs <;> decide
  unfold operatorLexemes
  split
  · exact List.forall_mem_singleton.2 (.comparison o)
  · exact List.forall_mem_map.2 fun w hw => .keyword (hQ w (hwords hw))

theorem Relation.Spelled.over (hop : ∀ w ∈ ["IN", "CONTAINS", "KEY", "LIKE"], Q w)
    (hQ : ∀ k : Constant, Q k.word) {r : Relation Text} {l : List Lexeme} (h : r.Spelled l) :
    ∀ x ∈ l, x.Over Q := by
  obtain ⟨v, -, -, rfl⟩ := h
  exact List.forall_mem_cons.2 ⟨over_name _,
    List.forall_mem_append.2 ⟨over_operatorLexemes hop _, v.over hQ⟩⟩

theorem OrderKey.Spelled.over (hQ : Q "ASC" ∧ Q "DESC") {k : OrderKey Text} {l : List Lexeme}
    (h : k.Spelled l) : ∀ x ∈ l, x.Over Q := by
  obtain ⟨written, -, rfl⟩ := h
  exact List.forall_mem_cons.2 ⟨over_name _,
    over_flag (by split <;> [exact hQ.2; exact hQ.1]) written⟩

end Parts

theorem Selector.AllSpelled.inner {ss : List (Selector Text)} {l : List Lexeme}
    (h : AllSpelled ss l) : ∀ x ∈ l, x.Inner := by
  rcases h with ⟨-, rfl⟩ | ⟨-, ls, hls, rfl⟩
  · exact List.forall_mem_singleton.2 (.symbol _)
  · exact over_separated (.symbol _)
      (over_of_forall₂ (fun _ _ hs => hs.over (by decide) Constant.word_ne_from) hls)

theorem TableName.inner (t : TableName Text) : ∀ x ∈ t.lexemes, x.Inner := by
  unfold lexemes
  split
  · exact List.forall_mem_singleton.2 (over_name _)
  · exact List.forall_mem_cons.2 ⟨over_name _, List.forall_mem_cons.2 ⟨.symbol _,
      List.forall_mem_singleton.2 (over_name _)⟩⟩

theorem Relation.AllSpelled.inner {rs : List (Relation Text)} {l : List Lexeme}
    (h : AllSpelled rs l) : ∀ x ∈ l, x.Inner := by
  rcases h with ⟨-, rfl⟩ | ⟨-, ls, hls, rfl⟩
  · exact List.forall_mem_nil _
  · exact List.forall_mem_cons.2 ⟨.keyword (by decide), over_separated (.keyword (by decide))
      (over_of_forall₂ (fun _ _ hr => hr.over (by decide) Constant.word_ne_from) hls)⟩

theorem OrderKey.AllSpelled.inner {o : Option (List (OrderKey Text))} {l : List Lexeme}
    (h : AllSpelled o l) : ∀ x ∈ l, x.Inner := by
  cases o with
  | none =>
    obtain rfl : l = [] := h
    exact List.forall_mem_nil _
  | some keys =>
    obtain ⟨-, ls, hls, rfl⟩ := h
    exact List.forall_mem_cons.2 ⟨.keyword (by decide), List.forall_mem_cons.2
      ⟨.keyword (by decide), over_separated (.symbol _)
        (over_of_forall₂ (fun _ _ hk => hk.over (by decide)) hls)⟩⟩

namespace Statement

variable {s : Statement Text} {l : List Lexeme}

theorem EndSpelled.inner (h : s.EndSpelled l) : ∀ x ∈ l, x.Inner := by
  obtain ⟨limit, semicolon, hlimit, rfl⟩ := h
  refine List.forall_mem_append.2 ⟨?_, List.forall_mem_append.2 ⟨?_, ?_⟩⟩
  · rcases hlimit.shape with rfl | ⟨digits, rfl⟩
    · exact List.forall_mem_nil _
    · exact List.forall_mem_cons.2 ⟨.keyword (by decide), List.forall_mem_singleton.2 (.value _ rfl)⟩
  · split
    · exact List.forall_mem_cons.2 ⟨.keyword (by decide), List.forall_mem_singleton.2 (.keyword (by decide))⟩
    · exact List.forall_mem_nil _
  · split
    · exact List.forall_mem_singleton.2 (.symbol _)
    · exact List.forall_mem_nil _

theorem inner_front (s : Statement Text) {columns : List Lexeme}
    (h : Selector.AllSpelled s.columns columns) : ∀ x ∈ keyword "SELECT" ::
      (flag "DISTINCT" s.distinct ++ (flag "JSON" s.json ++ columns)), x.Inner :=
  List.forall_mem_cons.2 ⟨.keyword (by decide), List.forall_mem_append.2 ⟨over_flag (by decide) _,
    List.forall_mem_append.2 ⟨over_flag (by decide) _, h.inner⟩⟩⟩

theorem inner_back {clauses rest : List Lexeme} (hclauses : s.ClausesSpelled clauses)
    (hrest : s.EndSpelled rest) : ∀ x ∈ clauses ++ rest, x.Inner := by
  obtain ⟨relations, order, hrelations, horder, rfl⟩ := hclauses
  exact List.forall_mem_append.2 ⟨List.forall_mem_append.2 ⟨hrelations.inner, horder.inner⟩,
    hrest.inner⟩

/-- Key words and symbols are asked for without a text. -/
theorem Spelled.asks (h : s.Spelled l) : ∀ x ∈ l, x.text? = none ∨ x.kind = .comparison ∨
    x.kind.isValue = true := by
  obtain ⟨_, clauses, rest, ⟨columns, hcolumns, rfl⟩, hclauses, hrest, rfl⟩ := h
  have hall : ∀ x ∈ keyword "SELECT" :: (flag "DISTINCT" s.distinct ++ (flag "JSON" s.json ++
      (columns ++ keyword "FROM" :: s.table.lexemes))) ++ (clauses ++ rest),
      x.Inner ∨ x = keyword "FROM" := by
    intro x hx
    have hfront := inner_front s hcolumns x
    have hback := inner_back hclauses hrest x
    have htable := s.table.inner x
    simp only [List.mem_append, List.mem_cons] at hx hfront hback
    tauto
  intro x hx
  rcases hall x hx with h | rfl
  · exact h.asks
  · exact .inl rfl

end Statement

end CqlCanon
