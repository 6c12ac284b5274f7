import CqlCanon.Proofs.Lexeme.Passes

/-!
# Statements, token by token

A text spells a statement exactly if tokens that spell it are read from its
start on, and only layout is left after them. The order of the tokens is all
that matters then: what was skipped between them is not looked at.
-/

namespace CqlCanon

open Cursor Lexeme

theorem Named.aliasStands_iff_passes {o : Option Text} {c d : Cursor} :
    OptionStands Named.AliasStands o c d ↔ c.Passes (Named.aliasLexemes o) d := by
  cases o with
  | none => rfl
  | some label =>
    rw [Named.aliasLexemes, passes_cons]
    constructor
    · rintro ⟨e, he, hd⟩
      exact ⟨e, passes_keyword.2 he, passes_name.2 hd⟩
    · rintro ⟨e, he, hd⟩
      exact ⟨e, passes_keyword.1 he, passes_name.1 hd⟩

namespace Selector

theorem Stands.passes {s : Selector Text} {c d : Cursor} (h : s.Stands c d) (hc : c.Clean) :
    ∃ l, s.Spelled l ∧ c.Passes l d := by
  cases s with
  | star => cases h
  | column n =>
    obtain ⟨e, he, ho⟩ := h
    exact ⟨_, rfl, passes_cons.2 ⟨e, passes_name.2 he, Named.aliasStands_iff_passes.1 ho⟩⟩
  | function n =>
    obtain ⟨x, e, hx, he, ho⟩ := h
    exact ⟨_, ⟨x, (Call.stands_canonical.1 x he hc).1, hx, rfl⟩,
      passes_append.2 ⟨e, Call.stands_passes.1 x he, Named.aliasStands_iff_passes.1 ho⟩⟩

theorem Spelled.stands {s : Selector Text} {l : List Lexeme} {c d : Cursor} (h : s.Spelled l)
    (hp : c.Passes l d) : s.Stands c d := by
  cases s with
  | star => cases h
  | column n =>
    obtain rfl := h
    obtain ⟨e, he, ho⟩ := passes_cons.1 hp
    exact ⟨e, passes_name.1 he, Named.aliasStands_iff_passes.2 ho⟩
  | function n =>
    obtain ⟨x, hx, hn, rfl⟩ := h
    obtain ⟨e, he, ho⟩ := passes_append.1 hp
    exact ⟨x, e, hn, Call.stands_of_passes.1 x hx he, Named.aliasStands_iff_passes.2 ho⟩

theorem AllStand.passes {ss : List (Selector Text)} {c d : Cursor} (h : AllStand ss c d)
    (hc : c.Clean) : ∃ l, AllSpelled ss l ∧ c.Passes l d := by
  rcases h with ⟨rfl, h⟩ | h
  · exact ⟨_, .inl ⟨rfl, rfl⟩, passes_symbol.2 h⟩
  · obtain ⟨hne, ls, hls, hp⟩ := SequenceStands.passes (fun _ _ => passes_symbol.2)
      (fun _ _ _ => Clean.passes) (fun _ _ _ _ h hc => h.passes hc) h hc
    exact ⟨_, .inr ⟨hne, ls, hls, rfl⟩, hp⟩

theorem AllSpelled.stands {ss : List (Selector Text)} {l : List Lexeme} {c d : Cursor}
    (h : AllSpelled ss l) (hp : c.Passes l d) : AllStand ss c d := by
  rcases h with ⟨rfl, rfl⟩ | ⟨hne, ls, hls, rfl⟩
  · exact .inl ⟨rfl, passes_symbol.1 hp⟩
  · exact .inr (SequenceStands.of_passes (F := fun _ => True)
      (fun _ _ h => ⟨passes_symbol.1 h, trivial⟩) hls (fun _ _ _ _ _ hs hp _ => hs.stands hp) hp
      trivial hne)

end Selector

theorem TableName.stands_iff_passes {t : TableName Text} {c d : Cursor} :
    t.Stands c d ↔ c.Passes t.lexemes d := by
  obtain ⟨name, keyspace⟩ := t
  cases keyspace with
  | none =>
    constructor
    · rintro ⟨_, rfl, h⟩
      exact passes_name.2 h
    · exact fun h => ⟨c, rfl, passes_name.1 h⟩
  | some k =>
    constructor
    · rintro ⟨e, ⟨f, hf, he⟩, h⟩
      exact passes_cons.2 ⟨f, passes_name.2 hf, passes_cons.2 ⟨e, passes_symbol.2 he,
        passes_name.2 h⟩⟩
    · intro h
      obtain ⟨f, hf, h⟩ := passes_cons.1 h
      obtain ⟨e, he, h⟩ := passes_cons.1 h
      exact ⟨e, ⟨f, passes_name.1 hf, passes_symbol.1 he⟩, passes_name.1 h⟩

namespace Relation

theorem operatorLexemes_of_whole {o : Text} (h : Token.comparison.Whole o) :
    operatorLexemes o = [⟨.comparison, some o⟩] := by
  simp only [Token.Whole, Token.length?] at h
  unfold comparisonLength? at h
  split at h <;> simp at h <;> subst h <;> rfl

theorem operatorStands_iff_passes {o : Text} {c d : Cursor} :
    OperatorStands o c d ↔ c.Passes (operatorLexemes o) d := by
  constructor
  · rintro (h | ⟨rfl, h⟩ | ⟨rfl, e, h, h'⟩ | ⟨rfl, h⟩ | ⟨rfl, h⟩)
    · rw [operatorLexemes_of_whole (whole_of_token? trivial h)]
      exact passes_token.2 h
    · exact passes_keyword.2 h
    · exact passes_cons.2 ⟨e, passes_keyword.2 h, passes_keyword.2 h'⟩
    · exact passes_keyword.2 h
    · exact passes_keyword.2 h
  · intro h
    unfold operatorLexemes operatorWords at h
    split_ifs at h with h1 h2 h3 h4
    · exact .inr (.inl ⟨h1, passes_keyword.1 h⟩)
    · exact .inr (.inr (.inr (.inl ⟨h2, passes_keyword.1 h⟩)))
    · obtain ⟨e, he, h⟩ := passes_cons.1 h
      exact .inr (.inr (.inl ⟨h3, e, passes_keyword.1 he, passes_keyword.1 h⟩))
    · exact .inr (.inr (.inr (.inr ⟨h4, passes_keyword.1 h⟩)))
    · exact .inl (passes_token.1 h)

theorem Stands.passes {r : Relation Text} {c d : Cursor} (h : r.Stands c d) (hc : c.Clean) :
    ∃ l, r.Spelled l ∧ c.Passes l d := by
  obtain ⟨e, f, he, hf, v, hvalue, hv⟩ := h
  have hcanonical := (hv.canonical (hf.clean (he.clean hc).1).2).1
  exact ⟨_, ⟨v, hcanonical, hvalue, rfl⟩, passes_cons.2 ⟨e, passes_name.2 he, passes_append.2
    ⟨f, operatorStands_iff_passes.1 hf, Term.stands_iff_passes.1 hv⟩⟩⟩

theorem Spelled.stands {r : Relation Text} {l : List Lexeme} {c d : Cursor} (h : r.Spelled l)
    (hp : c.Passes l d) : r.Stands c d := by
  obtain ⟨v, -, hvalue, rfl⟩ := h
  obtain ⟨e, he, hp⟩ := passes_cons.1 hp
  obtain ⟨f, hf, hv⟩ := passes_append.1 hp
  exact ⟨e, f, passes_name.1 he, operatorStands_iff_passes.2 hf, v, hvalue,
    Term.stands_iff_passes.2 hv⟩

theorem AllStand.passes {rs : List (Relation Text)} {c d : Cursor} (h : AllStand rs c d)
    (hc : c.Clean) : ∃ l, AllSpelled rs l ∧ c.Passes l d := by
  cases rs with
  | nil => exact ⟨[], .inl ⟨rfl, rfl⟩, h⟩
  | cons r rs =>
    obtain ⟨e, he, hs⟩ := h
    obtain ⟨hne, ls, hls, hp⟩ := SequenceStands.passes (fun _ _ => passes_keyword.2)
      (fun _ _ _ => Clean.passes) (fun _ _ _ _ hr hc => hr.passes hc) hs (hc.keyword? he)
    exact ⟨_, .inr ⟨hne, ls, hls, rfl⟩, passes_cons.2 ⟨e, passes_keyword.2 he, hp⟩⟩

theorem AllSpelled.stands {rs : List (Relation Text)} {l : List Lexeme} {c d : Cursor}
    (h : AllSpelled rs l) (hp : c.Passes l d) : AllStand rs c d := by
  rcases h with ⟨rfl, rfl⟩ | ⟨hne, ls, hls, rfl⟩
  · exact hp
  · obtain ⟨e, he, hp⟩ := passes_cons.1 hp
    have hs := SequenceStands.of_passes (F := fun _ => True)
      (fun _ _ h => ⟨passes_keyword.1 h, trivial⟩) hls (fun _ _ _ _ _ hs hp _ => hs.stands hp) hp
      trivial hne
    cases rs with
    | nil => exact absurd rfl hne
    | cons r rs => exact ⟨e, passes_keyword.1 he, hs⟩

end Relation

namespace OrderKey

theorem spelled_of_direction {k : OrderKey Text} {c d : Cursor}
    (h : DirectionStands k.descending c d) :
    ∃ l, k.Spelled (name k.column :: l) ∧ c.Passes l d := by
  obtain ⟨column, descending⟩ := k
  cases descending with
  | true => exact ⟨_, ⟨true, fun _ => rfl, rfl⟩, passes_keyword.2 h⟩
  | false =>
    rcases h with h | rfl
    · exact ⟨_, ⟨true, fun _ => rfl, rfl⟩, passes_keyword.2 h⟩
    · exact ⟨_, ⟨false, (fun h => nomatch h), rfl⟩, rfl⟩

theorem Stands.passes {k : OrderKey Text} {c d : Cursor} (h : k.Stands c d) :
    ∃ l, k.Spelled l ∧ c.Passes l d := by
  obtain ⟨e, he, hd⟩ := h
  obtain ⟨l, hl, hp⟩ := spelled_of_direction hd
  exact ⟨_, hl, passes_cons.2 ⟨e, passes_name.2 he, hp⟩⟩

theorem Spelled.stands {k : OrderKey Text} {l : List Lexeme} {c d : Cursor} (h : k.Spelled l)
    (hp : c.Passes l d) : k.Stands c d := by
  obtain ⟨column, descending⟩ := k
  obtain ⟨written, hw, rfl⟩ := h
  obtain ⟨e, he, hd⟩ := passes_cons.1 hp
  refine ⟨e, passes_name.1 he, ?_⟩
  have hd := passes_flag.1 hd
  cases descending with
  | true =>
    rw [hw rfl] at hd
    exact hd
  | false =>
    cases written with
    | true => exact .inl hd
    | false => exact .inr hd

theorem AllStand.passes {o : Option (List (OrderKey Text))} {c d : Cursor}
    (h : OptionStands AllStand o c d) : ∃ l, AllSpelled o l ∧ c.Passes l d := by
  cases o with
  | none => exact ⟨[], rfl, h⟩
  | some ks =>
    obtain ⟨e, f, he, hf, hs⟩ := h
    obtain ⟨hne, ls, hls, hp⟩ := SequenceStands.passes (K := fun _ => True)
      (fun _ _ => passes_symbol.2) (fun _ _ _ _ _ => trivial) (fun _ _ _ _ hk _ => hk.passes) hs
      trivial
    exact ⟨_, ⟨hne, ls, hls, rfl⟩, passes_cons.2 ⟨e, passes_keyword.2 he,
      passes_cons.2 ⟨f, passes_keyword.2 hf, hp⟩⟩⟩

theorem AllSpelled.stands {o : Option (List (OrderKey Text))} {l : List Lexeme} {c d : Cursor}
    (h : AllSpelled o l) (hp : c.Passes l d) : OptionStands AllStand o c d := by
  cases o with
  | none =>
    obtain rfl := h
    exact hp
  | some ks =>
    obtain ⟨hne, ls, hls, rfl⟩ := h
    obtain ⟨e, he, hp⟩ := passes_cons.1 hp
    obtain ⟨f, hf, hp⟩ := passes_cons.1 hp
    exact ⟨e, f, passes_keyword.1 he, passes_keyword.1 hf, SequenceStands.of_passes
      (F := fun _ => True) (fun _ _ h => ⟨passes_symbol.1 h, trivial⟩) hls
      (fun _ _ _ _ _ hs hp _ => hs.stands hp) hp trivial hne⟩

end OrderKey

namespace Statement

variable {s : Statement Text}

theorem HeadStands.passes {c d : Cursor} (h : s.HeadStands c d) (hc : c.Clean) :
    ∃ l, s.HeadSpelled l ∧ c.Passes l d := by
  obtain ⟨c₁, c₂, c₃, c₄, c₅, h₁, h₂, h₃, h₄, h₅, h₆⟩ := h
  have h₁ := passes_keyword.2 h₁
  have h₂ := passes_flag.2 h₂
  have h₃ := passes_flag.2 h₃
  obtain ⟨l, hl, h₄⟩ := h₄.passes (((hc.passes h₁).passes h₂).passes h₃)
  exact ⟨_, ⟨l, hl, rfl⟩, passes_cons.2 ⟨c₁, h₁, passes_append.2 ⟨c₂, h₂, passes_append.2
    ⟨c₃, h₃, passes_append.2 ⟨c₄, h₄, passes_cons.2 ⟨c₅, passes_keyword.2 h₅,
      TableName.stands_iff_passes.1 h₆⟩⟩⟩⟩⟩⟩

theorem HeadSpelled.stands {l : List Lexeme} {c d : Cursor} (h : s.HeadSpelled l)
    (hp : c.Passes l d) : s.HeadStands c d := by
  obtain ⟨columns, hcolumns, rfl⟩ := h
  obtain ⟨c₁, h₁, hp⟩ := passes_cons.1 hp
  obtain ⟨c₂, h₂, hp⟩ := passes_append.1 hp
  obtain ⟨c₃, h₃, hp⟩ := passes_append.1 hp
  obtain ⟨c₄, h₄, hp⟩ := passes_append.1 hp
  obtain ⟨c₅, h₅, hp⟩ := passes_cons.1 hp
  exact ⟨c₁, c₂, c₃, c₄, c₅, passes_keyword.1 h₁, passes_flag.1 h₂, passes_flag.1 h₃,
    hcolumns.stands h₄, passes_keyword.1 h₅, TableName.stands_iff_passes.2 hp⟩

theorem ClausesStand.passes {c d : Cursor} (h : s.ClausesStand c d) (hc : c.Clean) :
    ∃ l, s.ClausesSpelled l ∧ c.Passes l d := by
  obtain ⟨e, hr, ho⟩ := h
  obtain ⟨l, hl, hr⟩ := hr.passes hc
  obtain ⟨m, hm, ho⟩ := OrderKey.AllStand.passes ho
  exact ⟨_, ⟨l, m, hl, hm, rfl⟩, passes_append.2 ⟨e, hr, ho⟩⟩

theorem ClausesSpelled.stands {l : List Lexeme} {c d : Cursor} (h : s.ClausesSpelled l)
    (hp : c.Passes l d) : s.ClausesStand c d := by
  obtain ⟨relations, order, hr, ho, rfl⟩ := h
  obtain ⟨e, he, hp⟩ := passes_append.1 hp
  exact ⟨e, hr.stands he, ho.stands hp⟩

/-- The limit and what comes after it, if the limit does not have too many digits. -/
theorem rest_passes {c d e f : Cursor} {semicolon : Bool}
    (hlimit : OptionStands LimitStands s.limit c d)
    (hfilt : FlagStands Draft.readFiltering? s.filtering d e)
    (hsemi : FlagStands (symbol? ';') semicolon e f)
    (hlen : ∀ digits i, LimitDigitsStand digits c i →
      digits.length - Text.signLength digits ≤ maxLimitDigits) :
    ∃ l, s.EndSpelled l ∧ c.Passes l f := by
  have limit : ∃ l, LimitSpelled s.limit l ∧ c.Passes l d := by
    cases hz : s.limit with
    | none =>
      rw [hz] at hlimit
      exact ⟨[], rfl, hlimit⟩
    | some z =>
      rw [hz] at hlimit
      obtain ⟨digits, hvalue, i, hi, hd⟩ := hlimit
      exact ⟨_, ⟨digits, hvalue, hlen digits d ⟨i, hi, hd⟩, rfl⟩,
        passes_cons.2 ⟨i, passes_keyword.2 hi, passes_token.2 hd⟩⟩
  have filtering : d.Passes (if s.filtering then [keyword "ALLOW", keyword "FILTERING"] else []) e := by
    cases hb : s.filtering with
    | false =>
      rw [hb] at hfilt
      exact hfilt
    | true =>
      rw [hb] at hfilt
      obtain ⟨i, hi, hf⟩ := Option.bind_eq_some_iff.1 hfilt
      exact passes_cons.2 ⟨i, passes_keyword.2 hi, passes_keyword.2 hf⟩
  have terminator : e.Passes (if semicolon then [symbol ';'] else []) f := by
    cases semicolon with
    | false => exact hsemi
    | true => exact passes_symbol.2 hsemi
  obtain ⟨l, hl, hlp⟩ := limit
  exact ⟨_, ⟨l, semicolon, hl, rfl⟩,
    passes_append.2 ⟨d, hlp, passes_append.2 ⟨e, filtering, terminator⟩⟩⟩

theorem EndSpelled.parts {l : List Lexeme} {c f : Cursor} (h : s.EndSpelled l) (hp : c.Passes l f) :
    ∃ d e semicolon, OptionStands LimitStands s.limit c d ∧
      (s.limit = none ∨ ∃ digits, digits.length - Text.signLength digits ≤ maxLimitDigits ∧
        LimitDigitsStand digits c d) ∧
      FlagStands Draft.readFiltering? s.filtering d e ∧ FlagStands (symbol? ';') semicolon e f := by
  obtain ⟨limit, semicolon, hlimit, rfl⟩ := h
  obtain ⟨d, hd, hp⟩ := passes_append.1 hp
  obtain ⟨e, he, hp⟩ := passes_append.1 hp
  have hlimit : OptionStands LimitStands s.limit c d ∧ (s.limit = none ∨ ∃ digits,
      digits.length - Text.signLength digits ≤ maxLimitDigits ∧ LimitDigitsStand digits c d) := by
    cases hz : s.limit with
    | none =>
      rw [hz] at hlimit
      obtain rfl := hlimit
      exact ⟨hd, .inl rfl⟩
    | some z =>
      rw [hz] at hlimit
      obtain ⟨digits, hvalue, hlen, rfl⟩ := hlimit
      obtain ⟨i, hi, hd⟩ := passes_cons.1 hd
      have hdigits : LimitDigitsStand digits c d := ⟨i, passes_keyword.1 hi, passes_token.1 hd⟩
      exact ⟨⟨digits, hvalue, hdigits⟩, .inr ⟨digits, hlen, hdigits⟩⟩
  refine ⟨d, e, semicolon, hlimit.1, hlimit.2, ?_, ?_⟩
  · cases hb : s.filtering with
    | false =>
      rw [hb] at he
      exact he
    | true =>
      rw [hb] at he
      obtain ⟨i, hi, he⟩ := passes_cons.1 he
      exact Option.bind_eq_some_iff.2 ⟨i, passes_keyword.1 hi, passes_keyword.1 he⟩
  · cases semicolon with
    | false => exact hp
    | true => exact passes_symbol.1 hp

theorem EndStands.passes {c : Cursor} (h : s.EndStands c)
    (hlen : ∀ digits e, LimitDigitsStand digits c e →
      digits.length - Text.signLength digits ≤ maxLimitDigits) :
    ∃ l d, s.EndSpelled l ∧ c.Passes l d ∧ d.skip.rest = [] := by
  obtain ⟨d, e, f, semicolon, hlimit, hfilt, hsemi, hend⟩ := h
  obtain ⟨l, hl, hp⟩ := rest_passes hlimit hfilt hsemi hlen
  exact ⟨l, f, hl, hp, hend⟩

theorem EndSpelled.stands {l : List Lexeme} {c d : Cursor} (h : s.EndSpelled l)
    (hp : c.Passes l d) (hend : d.skip.rest = []) : s.EndStands c ∧
      ∀ digits e, LimitDigitsStand digits c e →
        digits.length - Text.signLength digits ≤ maxLimitDigits := by
  obtain ⟨e, f, semicolon, hlimit, hbound, hfilt, hsemi⟩ := h.parts hp
  have hopens := Draft.opens_filtering hfilt (Draft.opens_end hsemi hend)
  refine ⟨⟨e, f, d, semicolon, hlimit, hfilt, hsemi, hend⟩, ?_⟩
  rcases hbound with hz | ⟨digits, hlen, hdigits⟩
  · rw [hz] at hlimit
    obtain rfl : c = e := hlimit
    rintro digits i ⟨j, hj, -⟩
    rw [hopens.keyword?_eq_none (by decide)] at hj
    cases hj
  · intro other j hother
    have := Draft.readLimitDigits?_eq_some_iff.2 hother
    rw [Draft.readLimitDigits?_eq_some_iff.2 hdigits] at this
    cases this
    exact hlen

/-- Tokens that spell the statement are read where a text spells it. -/
theorem Stands.passes {t : Text} (h : s.Stands t) (ht : ¬ LimitTooLong t) : ∃ l d,
    s.Spelled l ∧ (start (Text.expandTabs t)).Passes l d ∧ d.skip.rest = [] := by
  obtain ⟨c, d, hhead, hclauses, hend⟩ := h
  have hlen : ∀ digits e, LimitDigitsStand digits d e →
      digits.length - Text.signLength digits ≤ maxLimitDigits := fun digits e hd =>
    Nat.le_of_not_lt fun hlt => ht ⟨s, c, d, e, digits, hhead, hclauses, hd, hlt⟩
  have hclean : (start (Text.expandTabs t)).Clean := Text.tab_not_mem_expandTabs t
  obtain ⟨l, hl, hp⟩ := hhead.passes hclean
  obtain ⟨m, hm, hq⟩ := hclauses.passes (hclean.passes hp)
  obtain ⟨n, e, hn, hr, hrest⟩ := hend.passes hlen
  exact ⟨_, e, ⟨l, m, n, hl, hm, hn, rfl⟩, passes_append.2 ⟨c, hp, passes_append.2 ⟨d, hq, hr⟩⟩, hrest⟩

/-- Where tokens that spell a statement are read, and no others, the statement is read. -/
theorem Spelled.read {l : List Lexeme} {t : Text} {d : Cursor} (h : s.Spelled l) (ht : '\t' ∉ t)
    (hp : (start t).Passes l d) (hd : d.skip.rest = []) :
    ∃ draft, Draft.read t = .ok draft ∧ draft.contents = s := by
  obtain ⟨head, clauses, rest, hhead, hclauses, hend, rfl⟩ := h
  obtain ⟨e, he, hp⟩ := passes_append.1 hp
  obtain ⟨f, hf, hp⟩ := passes_append.1 hp
  obtain ⟨hend, hlen⟩ := hend.stands hp hd
  rw [← Text.expandTabs_eq_self ht] at he
  exact Draft.read_of_stands (hhead.stands he) (hclauses.stands hf) hend hlen

end Statement

/-- The tokens of a text that is read spell what is read, and nothing is left of the text. -/
theorem Draft.passes_of_read {t : Text} {draft : Draft} (h : read t = .ok draft) : ∃ l d,
    draft.contents.Spelled l ∧ (start (Text.expandTabs t)).Passes l d ∧ d.skip.rest = [] := by
  refine (read_sound h).passes fun hlimit => ?_
  rw [← read_eq_limitTooLong_iff, h] at hlimit
  cases hlimit

end CqlCanon
