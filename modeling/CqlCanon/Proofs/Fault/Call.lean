import CqlCanon.Proofs.Fault.Viable
import CqlCanon.Proofs.Lexeme.Ending
import CqlCanon.Proofs.Lexeme.Inner

/-!
# Calls that break off

Where selectors are missing, the fault is where a call breaks off: at its name,
its opening or its closing parenthesis. The arguments before the last one are
those of a canonical call, for a comma follows them. The last one may be a name
that the text sticks to; then it is exchanged for a longer one.
-/

namespace CqlCanon

open Cursor Lexeme

namespace Lexeme

theorem separated_concat (sep : Lexeme) (ls : List (List Lexeme)) :
    ∃ k, ∀ l, separated sep (ls ++ [l]) = k ++ l := by
  cases ls with
  | nil => exact ⟨[], fun l => by simp [separated]⟩
  | cons m ls =>
    exact ⟨m ++ (ls.flatMap (sep :: ·) ++ [sep]), fun l => by simp [separated]⟩

theorem Over.exact {x : Lexeme} (h : x.Over fun w => Text.Exact w.toList) : x.kind.Exact := by
  cases h with
  | symbol c => exact Token.exact_of_ne nofun
  | keyword hw => exact Token.exact_keyword hw
  | comparison o => exact Token.exact_of_ne nofun
  | value t hk =>
    refine Token.exact_of_ne fun w hw => ?_
    obtain rfl : _ = Token.keyword w := hw
    cases hk

end Lexeme

theorem Cursor.before_of_quoted {q : Char} {c d : Cursor} {t : Text} (hq : q = '"' ∨ q = '\'')
    (h : c.token? (.quoted q) = some (t, d)) : d.before = some q := by
  have hwhole : (Token.quoted q).Whole t := whole_of_token? hq h
  obtain ⟨u, rfl⟩ := hwhole.quoted_eq
  obtain ⟨n, -, htake, rfl⟩ := token?_eq_some_iff.1 h
  rw [advance, ← htake, ← List.cons_append, List.getLast?_concat, Option.some_or]

/-! ## Statements without clauses -/

/-- The tokens before the selectors. -/
def Statement.lead (distinct json : Bool) : List Lexeme :=
  keyword "SELECT" :: (flag "DISTINCT" distinct ++ flag "JSON" json)

theorem Statement.spelled_head {columns : List (Selector Text)} {l : List Lexeme}
    (h : Selector.AllSpelled columns l) (distinct json : Bool) (table : TableName Text) :
    Spelled { distinct, json, columns, table }
      (lead distinct json ++ (l ++ keyword "FROM" :: table.lexemes)) :=
  ⟨_, [], [], ⟨l, h, rfl⟩, ⟨[], [], .inl ⟨rfl, rfl⟩, rfl, rfl⟩, ⟨[], false, rfl, rfl⟩,
    by simp [lead]⟩

theorem Call.Canonical.spelled {x : Call} (hx : x.Canonical) : ∃ s : Statement Text,
    s.Spelled (keyword "SELECT" :: (x.lexemes ++ [keyword "FROM", name "t".toList])) := by
  have hcolumns : Selector.AllSpelled [.function ⟨x.render, none⟩] x.lexemes :=
    .inr ⟨List.cons_ne_nil _ _, [x.lexemes], .cons ⟨x, hx, rfl, (List.append_nil _).symm⟩ .nil,
      (List.append_nil _).symm⟩
  exact ⟨_, Statement.spelled_head hcolumns false false ⟨"t".toList, none⟩⟩

/-! ## Arguments before a closing parenthesis -/

namespace Argument

/-- An argument is canonical, unless it is a plain name that the text sticks to. -/
theorem Stands.canonical {a : Argument} {c d : Cursor} (h : a.Stands c d) (hc : c.Clean)
    (hf : c.Fresh) (hd : ∀ t, a = .name t → t.head? ≠ some '"' → ¬ d.Stuck) : a.Canonical := by
  cases a with
  | call x => exact .call (Call.stands_canonical.1 x h hc).1
  | term t => exact .term (Term.Stands.canonical h hc).1
  | name t =>
    refine (Call.stands_canonical.2 (.name t) h hc hf (parted_of_not_stuck ?_)).1
    by_cases hq : t.head? = some '"'
    · rcases h.1 with hquoted | hplain
      · exact fun hs => absurd hs.1 (by rw [before_of_quoted (.inl rfl) hquoted]; decide)
      · have hform := Token.whole_word_iff.1 (whole_of_token? trivial (word_of_plainName hplain))
        exact absurd hq (Text.nameForm_head_ne hform)
    · exact hd t rfl hq

theorem eq_name {a : Argument} {k l : List Lexeme} {t : Text}
    (h : k ++ a.lexemes = l ++ [⟨.plainName, some t⟩]) : a = .name t ∧ k = l := by
  cases a with
  | call x =>
    rw [lexemes] at h
    cases (h ▸ x.endsIn.append k).last
  | term u =>
    rw [lexemes] at h
    exact absurd rfl (h ▸ u.endsIn.append k).last.2
  | name u =>
    obtain ⟨rfl, hname⟩ := List.append_inj' h rfl
    have hname := List.singleton_inj.1 hname
    obtain rfl : u = t := Option.some.inj (congrArg Lexeme.text? hname)
    exact ⟨rfl, rfl⟩

/-- After an opening parenthesis all arguments are canonical, up to the last one. -/
theorem items_init {as : List Argument} {b : Argument} {c d e : Cursor}
    (h : ItemsStand Stands (as ++ [b]) c d) (hc : c.Clean) (hopen : e.symbol? '(' = some c) :
    (∀ a ∈ as, a.Canonical) ∧ ∃ e, (e.Clean ∧ e.Fresh) ∧ b.Stands e d := by
  have hs : SequenceStands (symbol? ',') Stands (as ++ [b]) c d := by
    cases as <;> exact h
  refine SequenceStands.forall_init (A := Clean) (B := fun c => c.Clean ∧ c.Fresh) (F := Ends) ?_ ?_ hs
    ⟨hc, fresh_of_symbol? hopen (by decide)⟩
  · exact fun i j hi => ⟨.inl (next_of_symbol? hi),
      fun hc => ⟨hc.symbol? hi, fresh_of_symbol? hi (by decide)⟩⟩
  · exact fun a _ i j ha hi hj => Call.stands_canonical.2 a ha hi.1 hi.2 hj.parted

end Argument

/-- What is missing after the arguments of a call. -/
def Text.closingLexemes : List Lexeme := [symbol ')', keyword "FROM", name "t".toList]

/-- The arguments of a call that is not closed begin a statement. -/
theorem Lexeme.Begins.arguments {f : Text} {as : List Argument} {c d e : Cursor}
    (hf : Identifier.isNameForm f = true) (h : ItemsStand Argument.Stands as c d) (hc : c.Clean)
    (hopen : e.symbol? '(' = some c) :
    Begins (keyword "SELECT" :: ⟨.word, some f⟩ :: symbol '(' ::
      separated (symbol ',') (as.map Argument.lexemes)) Text.closingLexemes d := by
  have spelled : ∀ {as : List Argument}, (∀ a ∈ as, a.Canonical) → ∃ s : Statement Text,
      s.Spelled (keyword "SELECT" :: ⟨.word, some f⟩ :: symbol '(' ::
        separated (symbol ',') (as.map Argument.lexemes) ++ Text.closingLexemes) := by
    intro as has
    obtain ⟨s, hs⟩ := (Call.Canonical.apply hf has).spelled
    rw [Call.lexemes, Argument.lexemesAll_eq_map] at hs
    exact ⟨s, by simpa [Text.closingLexemes] using hs⟩
  obtain rfl | ⟨as, b, rfl⟩ := as.eq_nil_or_concat'
  · exact .of_spelled (spelled (List.forall_mem_nil _)).choose_spec
  obtain ⟨hall, i, ⟨hclean, hfresh⟩, hb⟩ := Argument.items_init h hc hopen
  obtain ⟨k, hk⟩ := separated_concat (symbol ',') (as.map Argument.lexemes)
  have hlist : ∀ b : Argument, separated (symbol ',') ((as ++ [b]).map Argument.lexemes) =
      k ++ b.lexemes := fun b => by rw [List.map_append]; exact hk b.lexemes
  have canonical : ∀ {b : Argument}, b.Canonical → ∀ a ∈ as ++ [b], a.Canonical := fun hb =>
    List.forall_mem_append.2 ⟨hall, List.forall_mem_singleton.2 hb⟩
  constructor
  · have := Call.alternating.1 (.apply f (as ++ [b]))
    rw [Call.lexemes, Argument.lexemesAll_eq_map] at this
    exact (Alternating.mark (x := keyword "SELECT") (by decide) this).of_append.1
  · intro hplain
    refine spelled (canonical (hb.canonical hclean hfresh ?_))
    rintro t rfl hq
    refine hplain (keyword "SELECT" :: ⟨.word, some f⟩ :: symbol '(' :: k) t ?_
    rw [hlist, Argument.lexemes, name, if_neg hq]
    rfl
  · intro l t hl ht _
    rw [hlist] at hl
    obtain ⟨rfl, rfl⟩ := Argument.eq_name
      (k := keyword "SELECT" :: ⟨.word, some f⟩ :: symbol '(' :: k) hl
    obtain ⟨hlong, hres, hconstant⟩ := Text.longer_name ht
    obtain ⟨s, hs⟩ := spelled (canonical (.name ⟨.inr ⟨hlong, hres⟩, Text.tab_of_nameForm hlong, hconstant⟩))
    rw [hlist] at hs
    exact ⟨s, by simpa [Argument.lexemes] using hs⟩

/-! ## The fault of a call -/

theorem Call.exact {x : Call} {l : List Lexeme} (hl : l <+: keyword "SELECT" :: x.lexemes) :
    ∀ y ∈ l.getLast?, y.kind.Exact := by
  intro y hy
  rcases List.mem_cons.1 (hl.subset (List.mem_of_getLast? hy)) with rfl | hy
  · exact Token.exact_keyword (by decide +kernel)
  · exact ((Call.over fun k => by cases k <;> decide +kernel).1 x y hy).exact

namespace Text

variable {x f : Text} {c d e : Cursor} {as : List Argument}

theorem viable_without_name (h : (start x).Passes [keyword "SELECT"] c) (hx : '\t' ∉ x) :
    x.ViableTo c.skip.position :=
  have hs := Statement.spelled_head (.inl ⟨rfl, rfl⟩) false false ⟨"t".toList, none⟩
  Completes.columns.viable (.of_spelled (l := [keyword "SELECT"]) hs) h hx
    (.inr (Call.exact (x := .star []) ⟨_, rfl⟩))

theorem viable_without_opening (h : (start x).Passes [keyword "SELECT", ⟨.word, some f⟩] d)
    (hf : Identifier.isNameForm f = true) (hx : '\t' ∉ x) : x.ViableTo d.skip.position := by
  obtain ⟨s, hs⟩ := (Call.Canonical.star hf).spelled
  exact Completes.arguments.viable (.of_spelled (l := [keyword "SELECT", ⟨.word, some f⟩]) hs) h hx
    (.inr (Call.exact (x := .star f) ⟨_, rfl⟩))

theorem viable_after_star
    (h : (start x).Passes [keyword "SELECT", ⟨.word, some f⟩, symbol '(', symbol '*'] d)
    (hf : Identifier.isNameForm f = true) (hx : '\t' ∉ x) : x.ViableTo d.skip.position := by
  obtain ⟨s, hs⟩ := (Call.Canonical.star hf).spelled
  exact Completes.closing.viable
    (.of_spelled (l := [keyword "SELECT", ⟨.word, some f⟩, symbol '(', symbol '*']) hs) h hx
    (.inr (Call.exact (x := .star f) ⟨_, rfl⟩))

theorem viable_after_arguments (h : (start x).Passes [keyword "SELECT", ⟨.word, some f⟩] c)
    (hopen : c.symbol? '(' = some d) (hitems : ItemsStand Argument.Stands as d e)
    (hf : Identifier.isNameForm f = true) (hx : '\t' ∉ x) : x.ViableTo e.skip.position := by
  have hclean : d.Clean := (Clean.passes (c := start x) hx h).symbol? hopen
  have hbegins := Begins.arguments hf hitems hclean hopen
  have hpasses := hitems.passes fun a _ _ _ => Call.stands_passes.2 a
  have hall := passes_append.2 ⟨c, h, passes_cons.2 ⟨d, passes_symbol.2 hopen, hpasses⟩⟩
  refine Completes.closing.viable hbegins hall hx (.inr (Call.exact (x := .apply f as) ?_))
  rw [Call.lexemes, Argument.lexemesAll_eq_map]
  exact ⟨[symbol ')'], rfl⟩

end Text

/-- Where no call can be read on, the text up to there is gone on with. -/
theorem Text.viable_call {x : Text} {c : Cursor} (h : (start x).keyword? "SELECT" = some c)
    (hx : '\t' ∉ x) : x.ViableTo (Call.faultAt c) := by
  have hselect := passes_keyword.2 h
  unfold Call.faultAt
  split
  · exact viable_without_name hselect hx
  · rename_i f d hword
    have hf : Identifier.isNameForm f = true :=
      Token.whole_word_iff.1 (whole_of_token? trivial hword)
    have hname := passes_cons.2 ⟨c, hselect, passes_token.2 hword⟩
    split
    · exact viable_without_opening hname hf hx
    · rename_i e hopen
      unfold Call.readBody
      split
      · rename_i g hstar
        have hall := passes_append.2 ⟨d, hname, passes_cons.2 ⟨e, passes_symbol.2 hopen,
          passes_symbol.2 hstar⟩⟩
        exact viable_after_star hall hf hx
      · have hitems : ItemsStand Argument.Stands ((e.items (Argument.read? Call.read?)).1.map id) e
            (e.items (Argument.read? Call.read?)).2 :=
          items_sound fun i u j hi hj => ⟨Argument.read?_advances (Call.read?_advances i) u j hj,
            Argument.read?_sound (fun x k hk => Call.read?_sound i hk) hj⟩
        exact viable_after_arguments hname hopen hitems hf hx

end CqlCanon
