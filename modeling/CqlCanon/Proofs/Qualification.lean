import CqlCanon.Proofs.Lexeme.Inner
import CqlCanon.Proofs.Qualified
import CqlCanon.Proofs.Relayout

/-!
# Configured and written keyspaces

A configured keyspace does for a statement without one what the same keyspace
does when it is written before the table, with a point after it. The table
comes right after `FROM`, which stands in a statement once. Nothing around the
keyspace is read in another way: the tokens before it end in layout or before a
quote, and the table is the same name after the point.
-/

namespace CqlCanon

open Cursor Lexeme

/-! ## The key word before the table -/

/-- A statement without a keyspace is spelled by what comes before `FROM`, the table and what comes
after it. With a keyspace it is spelled by the same tokens and those of the keyspace. -/
theorem Statement.Spelled.at_table {s : Statement Text} {l : List Lexeme} (h : s.Spelled l)
    (hs : s.table.keyspace = none) : ∃ front back, (∀ x ∈ front, x.Inner) ∧ (∀ x ∈ back, x.Inner) ∧
      l = front ++ keyword "FROM" :: name s.table.name :: back ∧
      ∀ u, (s.qualify (some u)).Spelled
        (front ++ keyword "FROM" :: name u :: symbol '.' :: name s.table.name :: back) := by
  obtain ⟨_, clauses, rest, ⟨columns, hcolumns, rfl⟩, hclauses, hrest, rfl⟩ := h
  refine ⟨keyword "SELECT" :: (flag "DISTINCT" s.distinct ++ (flag "JSON" s.json ++ columns)),
    clauses ++ rest, inner_front s hcolumns, inner_back hclauses hrest, ?_, fun u => ?_⟩
  · simp [TableName.lexemes, hs]
  · exact ⟨_, clauses, rest, ⟨columns, hcolumns, rfl⟩, hclauses, hrest,
      by simp [TableName.lexemes, qualify, hs]⟩

/-! ## The keyspace in the text -/

namespace Cursor

variable {c d e : Cursor} {t u r : Text} {x : Lexeme}

theorem not_stuck_of_name {w : String} {k : Token} (h : c.keyword? w = some d)
    (hk : k = (name t).kind) (he : d.token? k = some (u, e)) : ¬ d.Stuck := by
  intro hs
  obtain ⟨y, hy, hword⟩ := hs.next
  have hstart : k.StartsWith y := by
    obtain ⟨z, hz, hstart⟩ := next_of_token? he (by rw [hk]; unfold name; split <;> simp)
    rwa [Option.some.inj (hy.symm.trans hz)]
  obtain ⟨-, -, hafter, rfl⟩ := keyword?_eq_some_iff.1 h
  have hhead : (c.skip.rest.drop w.toList.length).head? = some y := by
    rwa [next, hs.skip] at hy
  rw [hhead, Option.any_some] at hafter
  rw [hk] at hstart
  unfold name at hstart
  split at hstart
  · obtain rfl : y = '"' := hstart
    exact absurd hword (by decide)
  · rw [Text.isKeywordChar_of_isNameChar (Text.isNameChar_of_isLetter hstart)] at hafter
    cases hafter

theorem keyspace_stands {gap : Text} (hgap : Filler gap) (hu : u.IsNameToken)
    (hc : c.rest = gap ++ (' ' :: u ++ '.' :: r)) (hr : layoutLength r = 0) :
    ∃ d, c.Passes [name u, symbol '.'] d ∧ d.skip.rest = r ∧ d.skip.Fresh := by
  have hsolid := hu.spells.solid ('.' :: r)
  have hlayout : layoutLength c.rest = gap.length + 1 := by
    rw [hc, hgap.layoutLength_append]
    simp only [List.cons_append, layoutLength, hsolid]
    rfl
  have hskip : c.skip.rest = u ++ '.' :: r := by
    simp only [skip, advance, hlayout]
    rw [hc, ← List.drop_drop, List.drop_left]
    rfl
  have hnext : c.next ≠ none := by
    simp [next, hskip]
  have hat : c.At (u ++ '.' :: r) :=
    ⟨hskip, fresh_skip (fun hzero => by omega) hnext⟩
  obtain ⟨f, hf, hfrest⟩ := hat.name hu (.inr rfl)
  obtain ⟨d, hd, hdrest, hdbefore⟩ := symbol?_of_rest hfrest (by decide)
  have hdskip : d.skip = d := skip_of_layoutLength (hdrest ▸ hr)
  refine ⟨d, passes_cons.2 ⟨f, passes_name.2 hf, passes_symbol.2 hd⟩, ?_, ?_⟩
  · rw [hdskip, hdrest]
  · rw [hdskip, Fresh, hdbefore]
    decide

theorem follows_space {k : Token} {v : Text} {p : Piece} {d e : Cursor}
    (hd : c.token? k = some (v, d)) (he : d.token? p.kind = some (p.text, e)) (hne : p.text ≠ [])
    (hgap : Filler p.gap) (r : Text) : k.Follows v d.rest (p.gap ++ ' ' :: r) := by
  refine .inr ⟨token?_full hd fun hnil => hne ?_, .inl ?_⟩
  · have hsplit := (rest_eq_append he).symm
    rw [hnil, List.take_nil, List.nil_append] at hsplit
    exact (List.append_eq_nil_iff.1 hsplit).1
  · by_cases hnil : p.gap = []
    · rw [hnil]
      exact .cons (by simp)
    · exact hgap.breaks hnil _

/-- A token and all that come after it are read wherever the same text comes after the layout. -/
theorem Reads.from_token {x : Lexeme} {l : List Lexeme} {p : Piece} {ps : List Piece}
    {c' d e : Cursor} (hl : Alternating (x :: l)) (hx : x.Fits p) (hfit : List.Forall₂ Fits l ps)
    (he : c.token? p.kind = some (p.text, e)) (h : e.Reads ps d) (hend : d.skip.rest = [])
    (hc : c.Parted) (hfresh : c'.skip.Fresh) (hrest : c'.skip.rest = p.text ++ e.rest) :
    ∃ d', c'.Passes (x :: l) d' ∧ d'.rest = d.rest := by
  have hsort := hl.sorts x List.mem_cons_self
  rw [hx.1] at he
  have hname : x.kind = .plainName → isReserved p.text = false ∧ ¬ e.Stuck := by
    intro hk
    have hstuck := (h.passes hfit).not_stuck hl (by rw [hk]; rfl) fun _ => not_stuck_of_end hend
    exact ⟨isReserved_of_parted (hk ▸ he) hc (parted_of_not_stuck hstuck), hstuck⟩
  obtain ⟨e', he', herest, hebefore⟩ :=
    token?_elsewhere hsort he hname (fun _ => hfresh) hrest (.inl rfl)
  obtain ⟨d', hd', hdrest, -⟩ := h.moved herest hebefore
  exact ⟨d', ⟨_, e', he', hx.2, hd'.passes hfit⟩, hdrest⟩

end Cursor

namespace Statement

variable {s : Statement Text} {t u tail : Text} {head rest : List Piece} {f p : Piece}

theorem Reading.exists_table {ps : List Piece} (h : s.Reading t ps tail)
    (hs : s.table.keyspace = none) :
    ∃ head f p rest, ps = head ++ f :: p :: rest ∧ f.kind = .keyword "FROM".toList := by
  obtain ⟨l, d, hl, hfit, -⟩ := h
  obtain ⟨front, back, -, -, rfl, -⟩ := hl.at_table hs
  have hdrop := List.forall₂_drop front.length hfit
  rw [List.drop_left] at hdrop
  cases hps : ps.drop front.length with
  | nil =>
    rw [hps] at hdrop
    cases hdrop
  | cons f qs =>
    rw [hps] at hdrop
    obtain ⟨hf, hqs⟩ := List.forall₂_cons.1 hdrop
    cases hqs with
    | @cons _ p _ rest _ _ =>
      exact ⟨ps.take front.length, f, p, rest, by rw [← hps, List.take_append_drop], hf.1⟩

theorem Reading.at_table (h : s.Reading t (head ++ f :: p :: rest) tail)
    (hf : f.kind = .keyword "FROM".toList) (hs : s.table.keyspace = none) :
    ∃ front back c e d,
      (∀ u, (s.qualify (some u)).Spelled
        ((front ++ [keyword "FROM"]) ++ [name u, symbol '.'] ++ [name s.table.name] ++ back)) ∧
      Alternating (front ++ [keyword "FROM"]) ∧
      List.Forall₂ Fits (front ++ [keyword "FROM"]) (head ++ [f]) ∧
      (start t).Reads (head ++ [f]) c ∧
      (name s.table.name).Fits p ∧ c.token? p.kind = some (p.text, e) ∧
      Alternating (name s.table.name :: back) ∧ List.Forall₂ Fits back rest ∧ e.Reads rest d ∧
      d.rest = tail ∧ d.skip.rest = [] := by
  obtain ⟨l, d, hl, hfit, hps, htail, hd⟩ := h
  have halt := hl.alternating
  obtain ⟨front, back, hfront, hback, rfl, hspell⟩ := hl.at_table hs
  have hlen : front.length = head.length := by
    have hmap := fits_kinds hfit
    rw [List.map_append, List.map_append, List.map_cons, List.map_cons, List.map_cons, hf] at hmap
    have hrest : ∀ x ∈ name s.table.name :: back, x.Inner :=
      List.forall_mem_cons.2 ⟨over_name _, hback⟩
    obtain ⟨hkinds, -, -⟩ := (List.append_cons_inj_of_notMem (from_not_mem_of_inner hfront)
      (from_not_mem_of_inner hrest)).1 hmap
    simpa using congrArg List.length hkinds
  rw [List.append_cons front, List.append_cons head] at hfit
  rw [List.append_cons front] at halt
  rw [List.append_cons head] at hps
  obtain ⟨hfit, hfitrest⟩ := fits_append hfit (by simp [hlen])
  obtain ⟨hhalt, hrestalt⟩ := halt.of_append
  obtain ⟨c, hhead, e, -, he, hrest⟩ := reads_append.1 hps
  cases hfitrest with
  | cons hp hfitrest =>
    exact ⟨front, back, c, e, d, fun u => by simpa using hspell u, hhalt, hfit, hhead, hp, he,
      hrestalt, hfitrest, hrest, htail, hd⟩

/-- The text of a reading with a space, a keyspace and a point written before the piece after
`head`. -/
def qualifiedText (head : List Piece) (u : Text) (p : Piece) (rest : List Piece) (tail : Text) :
    Text :=
  Piece.spread head ++ (p.gap ++ (' ' :: u ++ '.' :: (p.text ++ (Piece.spread rest ++ tail))))

theorem Reading.qualified (h : s.Reading t (head ++ f :: p :: rest) tail)
    (hf : f.kind = .keyword "FROM".toList) (hs : s.table.keyspace = none) (ht : '\t' ∉ t)
    (hu : u.IsNameToken) (htab : '\t' ∉ u) : p.text = s.table.name ∧
      ∃ draft, Draft.read (qualifiedText (head ++ [f]) u p rest tail) = .ok draft ∧
        draft.contents = s.qualify (some u) := by
  have hpgap : Filler p.gap := h.filler ht p (by simp)
  have htext := h.eq_spread
  obtain ⟨front, back, c, e, d, hspell, halt, hfit, hhead, hp, he, haltrest, hfitrest, hrest, rfl,
    hd⟩ := h.at_table hf hs
  refine ⟨hp.2 _ rfl, ?_⟩
  have hsort := haltrest.sorts _ List.mem_cons_self
  rw [← hp.1] at hsort
  have hne := token?_ne_nil he (Token.ne_keyword_nil hsort)
  obtain ⟨b, -, hb⟩ := passes_append.1 (hhead.passes hfit)
  replace hb := passes_keyword.1 hb
  have hfollows : ∀ q ∈ (head ++ [f]).getLast?, q.kind.Follows q.text c.rest
      (p.gap ++ (' ' :: u ++ '.' :: (p.text ++ (Piece.spread rest ++ d.rest)))) := by
    intro q hq
    obtain rfl : f = q := by simpa using hq
    obtain ⟨_, _, c'', -, hfrom, hend⟩ := reads_append.1 hhead
    obtain rfl : c'' = c := hend
    exact follows_space hfrom he hne hpgap _
  have hstart : (start (qualifiedText (head ++ [f]) u p rest d.rest)).rest =
      Piece.spread (head ++ [f]) ++
        (p.gap ++ (' ' :: u ++ '.' :: (p.text ++ (Piece.spread rest ++ d.rest)))) := rfl
  obtain ⟨c', hhead', hc', -⟩ := hhead.elsewhere halt hfit ht (parted_start t)
    (fun _ _ _ => not_stuck_of_name hb hp.1 he) hfollows hstart rfl
  obtain ⟨g, hg, hgskip, hgfresh⟩ := keyspace_stands hpgap hu hc' (token?_solid hsort he _)
  have hparted := parted_of_mark (token?_of_pass? hb).choose_spec (by decide)
  rw [← hrest.spread] at hgskip
  obtain ⟨d', hd', hdrest⟩ :=
    hrest.from_token haltrest hp hfitrest he hd hparted hgfresh hgskip
  have hpasses : (start (qualifiedText (head ++ [f]) u p rest d.rest)).Passes
      ((front ++ [keyword "FROM"]) ++ [name u, symbol '.'] ++ [name s.table.name] ++ back) d' := by
    rw [List.append_assoc]
    exact passes_append.2 ⟨g, passes_append.2 ⟨c', hhead'.passes hfit, hg⟩, hd'⟩
  refine (hspell u).read ?_ hpasses ?_
  · rw [htext, Piece.spread_append, Piece.spread_cons, Piece.spread_cons] at ht
    rw [qualifiedText, Piece.spread_append, Piece.spread_cons]
    simp at ht ⊢
    tauto
  · simp only [skip, advance, hdrest] at hd ⊢
    exact hd

end Statement

namespace Canonicalizer

variable {k : Canonicalizer} {t u : Text}

/-- A configured keyspace does what the same keyspace does where it is written. The errors are those
without a keyspace, and a statement with its own keyspace stays what it is. The table is the token
after `FROM`: for all other statements the result is that of the text with a space, the keyspace and
a point right before this token. -/
theorem parse_eq_parse_qualified (hk : configure (.text u) = .ok k) (hu : Inline u) (ht : '\t' ∉ t) :
    (∀ e, k.parse t = .error e ↔ Select.parse t = .error e) ∧
    ∀ s, Select.parse t = .ok s →
      (s.table.keyspace ≠ none → k.parse t = .ok s) ∧
      (s.table.keyspace = none →
        (∃ head f p rest tail,
          (s.map Identifier.text).Reading t (head ++ f :: p :: rest) tail ∧
            f.kind = .keyword "FROM".toList) ∧
        ∀ head f p rest tail, (s.map Identifier.text).Reading t (head ++ f :: p :: rest) tail →
          f.kind = .keyword "FROM".toList →
            t = Piece.spread (head ++ [f]) ++ (p.gap ++ (p.text ++ (Piece.spread rest ++ tail))) ∧
            p.text = s.table.name.text ∧
            k.parse t = Select.parse (Piece.spread (head ++ [f]) ++
              (p.gap ++ (' ' :: u ++ '.' :: (p.text ++ (Piece.spread rest ++ tail)))))) := by
  obtain ⟨hfault, rfl⟩ := configure_text_eq_ok_iff.1 hk
  rw [parse_eq_map hk]
  refine ⟨fun e => ?_, fun s hs => ?_⟩
  · cases Select.parse t <;> simp [Except.map]
  rw [hs]
  refine ⟨fun hkeyspace => ?_, fun hkeyspace => ?_⟩
  · obtain ⟨i, hi⟩ := Option.ne_none_iff_exists'.1 hkeyspace
    rw [Except.map, Statement.qualify_of_keyspace hi]
  have hnone : (s.map Identifier.text).table.keyspace = none := by
    simp [Statement.map, TableName.map, hkeyspace]
  constructor
  · obtain ⟨ps, tail, h⟩ := Select.reading_of_parse hs
    rw [Text.expandTabs_eq_self ht] at h
    obtain ⟨head, f, p, rest, rfl, hf⟩ := h.exists_table hnone
    exact ⟨head, f, p, rest, tail, h, hf⟩
  · intro head f p rest tail h hf
    have htoken : u.IsNameToken := Text.nameToken_of_accepted hfault hu.2
    obtain ⟨hp, draft, hread, hcontents⟩ := h.qualified hf hnone ht htoken hu.1
    refine ⟨?_, hp, ?_⟩
    · rw [h.eq_spread, List.append_cons, Piece.spread_append, Piece.spread_cons]
      simp
    · have hwf := qualify_wellFormed (Select.wellFormed_of_parse hs) (i := ⟨u⟩) ⟨hfault, hu.1, hu.2⟩
      refine (Select.parse_of_contents hread ?_ hwf.fault?).symm
      rw [hcontents]
      simp [Statement.map, Statement.qualify, TableName.map, hkeyspace]

/-- A keyspace with a quote, a point and the start of a comment in it, and a table that `FROM`
touches. -/
theorem parse_eq_parse_of_quoted : ∃ k : Canonicalizer,
    configure (.text "\"a\"\".--\"".toList) = .ok k ∧ Inline "\"a\"\".--\"".toList ∧
    '\t' ∉ "SELECT * FROM\"t\"".toList ∧
    k.parse "SELECT * FROM\"t\"".toList =
      Select.parse "SELECT * FROM \"a\"\".--\".\"t\"".toList := by
  have hk : configure (.text "\"a\"\".--\"".toList) = .ok ⟨some ⟨"\"a\"\".--\"".toList⟩⟩ := by
    decide +kernel
  have hu : Inline "\"a\"\".--\"".toList := by unfold Inline; decide +kernel
  have ht : '\t' ∉ "SELECT * FROM\"t\"".toList := by decide
  have h : Select.parse "SELECT * FROM\"t\"".toList =
      .ok { columns := [.star], table := ⟨⟨"\"t\"".toList⟩, none⟩ } := by decide +kernel
  refine ⟨_, hk, hu, ht, ?_⟩
  refine ((((parse_eq_parse_qualified hk hu ht).2 _ h).2 rfl).2
    [⟨[], .keyword "SELECT".toList, "SELECT".toList⟩, ⟨[' '], .symbol '*', ['*']⟩]
    ⟨[' '], .keyword "FROM".toList, "FROM".toList⟩ ⟨[], .quoted '"', "\"t\"".toList⟩ [] [] ?_ rfl).2.2
  refine ⟨[keyword "SELECT", symbol '*', keyword "FROM", Lexeme.name "\"t\"".toList], _,
    ⟨_, _, _, ⟨_, .inl ⟨rfl, rfl⟩, rfl⟩, ⟨[], [], .inl ⟨rfl, rfl⟩, rfl, rfl⟩, ⟨[], false, rfl, rfl⟩,
      rfl⟩, ?_, ⟨_, rfl, rfl, _, rfl, rfl, _, rfl, rfl, _, rfl, rfl, rfl⟩, rfl, rfl⟩
  exact .cons ⟨rfl, nofun⟩ (.cons ⟨rfl, nofun⟩ (.cons ⟨rfl, nofun⟩
    (.cons ⟨rfl, fun _ h => Option.some.inj h⟩ .nil)))

end Canonicalizer

end CqlCanon
