import CqlCanon.Proofs.Fault.Completion

/-!
# The text up to where tokens are missing

The tokens that were read are read again where the text breaks off and is gone
on with. Four things may come last: layout, a comment that is still open, a name
that the next character sticks to, and a key word that does.
-/

namespace CqlCanon

open Cursor Lexeme

/-! ## Key words of one length -/

namespace Text

/-- The upper cases of single characters that are longer than one character. -/
def expansions : List Text := ["SS", "FF", "FI", "FL", "FFI", "FFL", "ST"].map String.toList

/-- The word is the upper case of texts of its own length only. -/
def Exact (w : Text) : Prop := ∀ e ∈ expansions, ¬ e <:+: w

instance (w : Text) : Decidable (Exact w) := inferInstanceAs (Decidable (∀ e ∈ expansions, _))

theorem upperChar_mem_expansions (c : Char) :
    (upperChar c).length = 1 ∨ upperChar c ∈ expansions := by
  rcases upperChar_cases c with hc | hc
  · exact .inl (by rw [hc]; rfl)
  · simp only [List.mem_cons, List.not_mem_nil, or_false] at hc
    rcases hc with rfl | rfl | rfl | rfl | rfl | rfl | rfl | rfl | rfl | rfl <;> decide

theorem Exact.length_eq {t : Text} (h : Exact (upper t)) : (upper t).length = t.length := by
  induction t with
  | nil => rfl
  | cons c t ih =>
    rw [upper_cons] at h ⊢
    have hc : (upperChar c).length = 1 := (upperChar_mem_expansions c).resolve_right fun he =>
      h _ he (List.prefix_append _ _).isInfix
    have ht := ih fun e he hin => h e he (hin.trans (List.suffix_append _ _).isInfix)
    rw [List.length_append, hc, ht, List.length_cons, Nat.add_comm]

end Text

/-- No text of the token is shorter than the token. -/
def Token.Exact (k : Token) : Prop := ∀ w, k = keyword w → Text.Exact w

theorem Token.exact_keyword {w : String} (h : Text.Exact w.toList) :
    (Lexeme.keyword w).kind.Exact := fun _ hw => Token.keyword.inj hw ▸ h

theorem Token.exact_of_ne {k : Token} (h : ∀ w, k ≠ keyword w) : k.Exact := fun w hw =>
  absurd hw (h w)

theorem Cursor.token?_full_of_exact {k : Token} {c d : Cursor} {t : Text}
    (h : c.token? k = some (t, d)) (hk : k.Exact) : k.Full t := by
  rintro w rfl
  obtain ⟨n, hn, rfl, -⟩ := token?_eq_some_iff.1 h
  obtain ⟨hw, -, -, rfl⟩ := keywordLength?_eq_some_iff.1 hn
  have := hk w rfl
  rw [← hw] at this
  rw [← this.length_eq, hw]

/-! ## Reading on -/

section Viable

variable {s : Statement Text} {l m : List Lexeme} {x u r : Text} {ps : List Piece} {d : Cursor}

/-- Tokens of a statement are read again before a text in which the others are read. -/
theorem Statement.Spelled.read_before (hs : s.Spelled (l ++ m)) (hfit : List.Forall₂ Fits l ps)
    (h : (start x).Reads ps d) (hx : '\t' ∉ x)
    (hd : ∀ p ∈ ps.getLast?, p.kind = .plainName → ¬ d.Stuck)
    (hr : ∀ p ∈ ps.getLast?, p.kind.Follows p.text d.rest r) (htab : '\t' ∉ r)
    (hm : ∀ c : Cursor, c.rest = r → c.before = d.before → ∃ e, c.Passes m e ∧ e.skip.rest = []) :
    ∃ draft, Draft.read (Piece.spread ps ++ r) = .ok draft := by
  have hl := hs.alternating.of_append.1
  have hstart : (start (Piece.spread ps ++ r)).rest = Piece.spread ps ++ r := rfl
  obtain ⟨d', hd', hrest, hb⟩ := h.elsewhere hl hfit hx (parted_start x) hd hr hstart rfl
  obtain ⟨e, he, hend⟩ := hm d' hrest hb
  have htab' : '\t' ∉ Piece.spread ps ++ r := by
    have hsplit : x = Piece.spread ps ++ d.rest := h.spread
    rw [hsplit, List.mem_append, not_or] at hx
    rw [List.mem_append, not_or]
    exact ⟨hx.1, htab⟩
  obtain ⟨draft, hread, -⟩ :=
    hs.read htab' (passes_append.2 ⟨d', hd'.passes hfit, he⟩) hend
  exact ⟨draft, hread⟩

/-- No text of the last token is shorter than it, if something follows it or it is exact. -/
theorem Cursor.Reads.full {c : Cursor} (hfit : List.Forall₂ Fits l ps) (h : c.Reads ps d)
    (hfull : d.rest ≠ [] ∨ ∀ y ∈ l.getLast?, y.kind.Exact) :
    ∀ p ∈ ps.getLast?, p.kind.Full p.text := by
  rcases hfull with hne | hexact
  · exact h.last_full hne
  · intro p hp
    obtain ⟨qs, rfl⟩ := List.getLast?_eq_some_iff.1 hp
    obtain ⟨k, y, rfl, -, hy⟩ := fits_concat hfit
    obtain ⟨e, -, f, -, hf, rfl⟩ := reads_append.1 h
    exact token?_full_of_exact hf (hy.1 ▸ hexact y (by simp))

theorem Cursor.Reads.take_start (hl : Alternating l) (hfit : List.Forall₂ Fits l ps)
    (h : (start x).Reads ps d) (hfull : ∀ p ∈ ps.getLast?, p.kind.Full p.text) {n : Nat}
    (hn : n ≤ d.rest.length) :
    d.position + n ≤ x.length ∧ x.take (d.position + n) = Piece.spread ps ++ d.rest.take n := by
  have hsplit : x = Piece.spread ps ++ d.rest := h.spread
  have hpos : d.position = (Piece.spread ps).length := by
    have := h.position (hl.piece_sorts hfit) hfull
    rwa [show (start x).position = 0 from rfl, Nat.zero_add] at this
  rw [hpos, hsplit, List.take_length_add_append, List.length_append]
  exact ⟨by omega, rfl⟩

theorem Text.nameForm_concat {t : Text} {x : Char} (h : Identifier.isNameForm t = true)
    (hx : isNameChar x = true) : Identifier.isNameForm (t ++ [x]) = true := by
  obtain ⟨c, u, rfl, hc⟩ := nameForm_head h
  have hu : ∀ y ∈ u, isNameChar y = true := fun y hy =>
    isNameChar_of_nameForm h y (List.mem_cons_of_mem c hy)
  refine Token.whole_word_iff.1 (nameLength?_eq_some_iff.2 ⟨c, u ++ [x], rfl, hc, ?_⟩)
  rw [List.takeWhile_append_of_pos hu, List.takeWhile_cons, if_pos hx]
  rfl

theorem Text.longer_name {t : Text} (h : Identifier.isNameForm t = true) :
    Identifier.isNameForm (t ++ ['_']) = true ∧ isReserved (t ++ ['_']) = false ∧
      ∀ k : Constant, upper (t ++ ['_']) ≠ k.word.toList := by
  refine ⟨nameForm_concat h (by decide), ?_, fun k hk => ?_⟩
  · rw [Bool.eq_false_iff]
    intro hmem
    have hcap := capital_of_mem_reservedWords _ (List.contains_iff_mem.1 hmem)
    rw [upper_append, List.all_append, Bool.and_eq_true] at hcap
    exact absurd hcap.2 (by decide)
  · have hlast := congrArg List.getLast? hk
    rw [upper_append, show upper ['_'] = ['_'] by decide, List.getLast?_concat] at hlast
    cases k <;> exact absurd hlast (by decide)

/-- The tokens before the cursor are the beginning of a statement, of which the others are the rest.
If the next character sticks to a name that comes last, they are so with a longer name. -/
structure Lexeme.Begins (l m : List Lexeme) (d : Cursor) : Prop where
  alternating : Alternating l
  spelled : (∀ k t, l = k ++ [⟨.plainName, some t⟩] → ¬ d.Stuck) →
    ∃ s : Statement Text, s.Spelled (l ++ m)
  longer : ∀ k t, l = k ++ [⟨.plainName, some t⟩] → Identifier.isNameForm t = true → d.Stuck →
    ∃ s : Statement Text, s.Spelled (k ++ name (t ++ ['_']) :: m)

theorem Lexeme.Begins.of_spelled (hs : s.Spelled (l ++ m)) : Begins l m d where
  alternating := hs.alternating.of_append.1
  spelled _ := ⟨s, hs⟩
  longer := by
    rintro k t rfl ht -
    obtain ⟨hform, hres, hconstant⟩ := Text.longer_name ht
    have hrecast : Recast ⟨.plainName, some t⟩ (name (t ++ ['_'])) := by
      rw [name, if_neg (Text.nameForm_head_ne hform)]
      exact .text rfl ⟨hform, fun h => absurd h (by rw [hres]; decide),
        fun k hk => absurd hk (hconstant k)⟩
    rw [List.append_assoc] at hs
    exact hs.exists_recast_at hrecast

theorem Text.Completes.viable_of_name (hu : Completes u m) (hm : Begins l m d)
    (hfit : List.Forall₂ Fits l ps) (h : (start x).Reads ps d) (hx : '\t' ∉ x) {p : Piece}
    (hp : p ∈ ps.getLast?) (hk : p.kind = .plainName) (hd : d.Stuck) :
    Text.Viable (Piece.spread ps) := by
  obtain ⟨qs, rfl⟩ := List.getLast?_eq_some_iff.1 hp
  obtain ⟨k, y, rfl, hqs, hy⟩ := fits_concat hfit
  obtain ⟨e, he, hlast⟩ := reads_append.1 h
  have hl := hm.alternating
  have hyk : y.kind = .plainName := hy.1.symm.trans hk
  obtain ⟨t, ht⟩ : ∃ t, y.text? = some t :=
    Option.isSome_iff_exists.1 ((hl.asks y (by simp)).resolve_left (by rw [hyk]; decide)).2
  obtain rfl : p.text = t := hy.2 t ht
  obtain rfl : y = ⟨.plainName, some p.text⟩ := by rw [← hyk, ← ht]
  have hparted := he.parted_last hl hqs hy hlast (parted_start x)
  have hsplit : x = Piece.spread (qs ++ [p]) ++ d.rest := h.spread
  obtain ⟨f, hgap, hf, rfl⟩ := hlast
  rw [hk] at hf
  have hform := Token.whole_word_iff.1 (whole_of_token? trivial (word_of_plainName hf))
  obtain ⟨hlong, hres, -⟩ := Text.longer_name hform
  have hrest : (start (Piece.spread qs ++ (p.gap ++ (p.text ++ '_' :: '\n' :: u)))).rest =
      Piece.spread qs ++ (p.gap ++ (p.text ++ '_' :: '\n' :: u)) := rfl
  obtain ⟨e', he', hskip, hfresh, -⟩ := he.before_last hl hqs hy ⟨f, hgap, hk ▸ hf, rfl⟩ hx
    (parted_start x) hrest rfl
  obtain ⟨z, hz, hletter⟩ := next_of_token? hf (by simp)
  have hat : e'.At ((p.text ++ ['_']) ++ '\n' :: u) := by
    refine ⟨by rw [hskip]; simp, hfresh (hparted.fresh_skip hz ?_)⟩
    exact Text.isKeywordChar_of_isNameChar (Text.isNameChar_of_isLetter hletter)
  obtain ⟨g, hg, hgrest⟩ := hat.name (.inr ⟨hlong, hres⟩) (.inl fun w hw => by
    obtain rfl : '\n' = w := Option.some.inj hw
    simp)
  obtain ⟨i, hi, hend⟩ := hu.passes_line (c := g) (t := []) (by rw [hgrest, List.take_nil]; rfl)
  obtain ⟨s', hs'⟩ := hm.longer k p.text rfl hform hd
  have htab : '\t' ∉ Piece.spread qs ++ (p.gap ++ (p.text ++ '_' :: '\n' :: u)) := by
    have htabu := hu.tab
    rw [hsplit, Piece.spread_append, Piece.spread_cons] at hx
    simp only [List.mem_append, List.mem_cons, not_or] at hx ⊢
    exact ⟨hx.1.1, hx.1.2.1, hx.1.2.2.1, by decide, by decide, htabu⟩
  obtain ⟨draft, hread, -⟩ := hs'.read htab (passes_append.2 ⟨e', he'.passes hqs,
    passes_cons.2 ⟨g, passes_name.2 hg, hi⟩⟩) hend
  exact ⟨'_' :: '\n' :: u, draft, by simpa [Piece.spread] using hread⟩

/-- Where tokens are missing, the text up to them is gone on with. -/
theorem Text.Completes.viable (hu : Completes u m) (hm : Begins l m d)
    (h : (start x).Passes l d) (hx : '\t' ∉ x)
    (hfull : d.rest ≠ [] ∨ ∀ y ∈ l.getLast?, y.kind.Exact) : x.ViableTo d.skip.position := by
  obtain ⟨ps, hfit, hps⟩ := h.reads
  have hlast := hps.full hfit hfull
  obtain ⟨hle, htake⟩ := hps.take_start hm.alternating hfit hlast (layoutLength_le d.rest)
  have hskip : d.skip.position = d.position + layoutLength d.rest := rfl
  refine ⟨hle, ?_⟩
  rw [hskip, htake]
  by_cases hstuck : (∃ p ∈ ps.getLast?, p.kind = .plainName) ∧ d.Stuck
  · obtain ⟨⟨p, hp, hk⟩, hstuck⟩ := hstuck
    rw [layoutLength_of_isWordLike hstuck.2, List.take_zero, List.append_nil]
    exact hu.viable_of_name hm hfit hps hx hp hk hstuck
  · have htab : '\t' ∉ d.rest.take (layoutLength d.rest) ++ '\n' :: u := by
      have hclean : '\t' ∉ d.rest := Clean.passes (c := start x) hx h
      simp only [List.mem_append, List.mem_cons, not_or]
      exact ⟨fun hm => hclean (List.mem_of_mem_take hm), by decide, hu.tab⟩
    have hname : ∀ p ∈ ps.getLast?, p.kind = .plainName → ¬ d.Stuck := fun p hp hk hst =>
      hstuck ⟨⟨p, hp, hk⟩, hst⟩
    obtain ⟨s, hs⟩ := hm.spelled fun k t hlast => by
      obtain ⟨qs, p, rfl, -, hp⟩ := concat_fits (hlast ▸ hfit)
      exact hname p (by simp) hp.1
    have := hs.read_before hfit hps hx hname
      (fun p hp => .inr ⟨hlast p hp, .inl (breaks_line d.rest u)⟩) htab fun c hc _ => hu.passes_line hc
    exact ⟨'\n' :: u, by rwa [List.append_assoc]⟩

end Viable

/-! ## Key words that the next character sticks to -/

/-- After a filler the text goes on with the key word, and then with something else. -/
structure Cursor.Glued (d : Cursor) (w : String) (gap word after : Text) : Prop where
  rest : d.rest = gap ++ (word ++ after)
  filler : Filler gap
  upper : Text.upper word = w.toList
  length : word.length = w.toList.length
  capitals : (keyword w).kind.isMark = true
  after : after ≠ []
  fresh : d.skip.Fresh

namespace Cursor.Glued

variable {d : Cursor} {w : String} {gap word after : Text}

/-- Where a key word is not read for what comes after it. -/
theorem exists_of_any {w : String} (hmark : (keyword w).kind.isMark = true) (hclean : d.Clean)
    (hw : Text.upper (d.skip.rest.take w.toList.length) = w.toList) (hfresh : d.skip.Fresh)
    (hglued : (d.skip.rest.drop w.toList.length).head?.any Text.isKeywordChar = true) :
    ∃ gap word after, d.Glued w gap word after := by
  have hafter : d.skip.rest.drop w.toList.length ≠ [] := by
    intro hnil
    rw [hnil] at hglued
    cases hglued
  have hlong := List.length_pos_iff.2 hafter
  rw [List.length_drop] at hlong
  refine ⟨_, _, _, ?_, .of_layout d.rest hclean fun hnil => hafter ?_, hw,
    List.length_take_of_le (by omega), hmark, hafter, hfresh⟩
  · rw [List.take_append_drop]
    exact (List.take_append_drop (layoutLength d.rest) d.rest).symm
  · rw [show d.skip.rest = [] from hnil, List.drop_nil]

theorem word_cons (h : d.Glued w gap word after) :
    ∃ z v, word = z :: v ∧ (keyword w).kind.StartsWith z ∧ Text.isWordLike z = true := by
  have hcap := h.capitals
  simp only [keyword, Token.isMark, Bool.and_eq_true, decide_eq_true_eq] at hcap
  obtain ⟨⟨hne, hcap⟩, -⟩ := hcap
  obtain ⟨z, v, rfl⟩ : ∃ z v, word = z :: v :=
    List.exists_cons_of_length_pos (h.length ▸ List.length_pos_iff.2 hne)
  refine ⟨z, v, rfl, ?_, Text.isWordLike_of_mem_upper (h.upper ▸ hcap) z List.mem_cons_self⟩
  obtain ⟨y, ys, hy⟩ := List.exists_cons_of_ne_nil (Text.upperChar_ne_nil z)
  have hupper := h.upper
  rw [Text.upper_cons, hy, List.cons_append] at hupper
  rw [keyword, Token.StartsWith, ← hupper, hy]
  rfl

theorem solid (h : d.Glued w gap word after) (r : Text) : layoutLength (word ++ r) = 0 := by
  obtain ⟨z, v, rfl, -, hlike⟩ := h.word_cons
  exact layoutLength_of_isWordLike hlike

theorem layout (h : d.Glued w gap word after) : layoutLength d.rest = gap.length :=
  (skip_of_filler h.filler h.rest (h.solid after)).1

theorem keyword? (h : d.Glued w gap word after) {c : Cursor} {r : Text}
    (hc : c.rest = gap ++ (word ++ r)) (hb : c.before = d.before)
    (hr : r.head?.any Text.isKeywordChar = false) : ∃ e, c.keyword? w = some e ∧ e.rest = r := by
  obtain ⟨z, v, hz, -⟩ := h.word_cons
  obtain ⟨hlayout, hskip⟩ := skip_of_filler h.filler hc (h.solid r)
  have hat : c.At (word ++ r) := by
    refine ⟨hskip, fresh_skip_moved (fun hzero => ?_) hb ?_ h.fresh⟩
    · rw [h.layout, ← hlayout, hzero]
    · simp [next, hskip, hz]
  exact hat.keyword? h.upper h.length hr

end Cursor.Glued

/-- A key word that the next character sticks to ends before it. -/
theorem Text.Completes.viable_of_glued {s : Statement Text} {l m : List Lexeme} {x u : Text}
    {d : Cursor} {w : String} {gap word after : Text} (hu : Completes u m)
    (hs : s.Spelled (l ++ keyword w :: m)) (h : (start x).Passes l d) (hx : '\t' ∉ x)
    (hg : d.Glued w gap word after) : x.ViableTo (d.position + (gap ++ word).length) := by
  have hl := hs.alternating
  obtain ⟨ps, hfit, hps⟩ := h.reads
  obtain ⟨z, v, rfl, hstart, hlike⟩ := hg.word_cons
  have hfull := hps.full hfit (.inl (by rw [hg.rest]; simp))
  obtain ⟨hle, htake⟩ := hps.take_start (n := (gap ++ z :: v).length) hl.of_append.1 hfit hfull
    (by rw [hg.rest, ← List.append_assoc]; simp only [List.length_append]; omega)
  rw [hg.rest, ← List.append_assoc gap, List.take_left] at htake
  refine ⟨hle, '\n' :: u, ?_⟩
  rw [htake, List.append_assoc]
  refine hs.read_before hfit hps hx (fun p hp hk hst => ?_) (fun p hp => .inr ⟨hfull p hp, ?_⟩)
    ?_ fun c hc hb => ?_
  · have := hg.fresh
    rw [hst.skip, Fresh, hst.1] at this
    cases this
  · obtain ⟨qs, rfl⟩ := List.getLast?_eq_some_iff.1 hp
    obtain ⟨k, y, rfl, -, hy⟩ := fits_concat hfit
    rw [hg.rest, List.append_assoc]
    by_cases hgap : gap = []
    · right
      rw [hgap]
      have hlast : Alternating (k ++ y :: keyword w :: m) := by simpa using hl
      have hmeets := (List.isChain_cons_cons.1 hlast.of_append.2.chain).1
      exact ⟨rfl, hy.1 ▸ Token.endsBy_of_meets (hlast.sorts y (by simp)) hmeets hstart rfl⟩
    · exact .inl (hg.filler.breaks hgap _)
  · have hclean : d.Clean := Clean.passes (c := start x) hx h
    rw [Clean, hg.rest] at hclean
    have htab := hu.tab
    simp only [List.mem_append, List.mem_cons, not_or] at hclean ⊢
    exact ⟨⟨hclean.1, hclean.2.1⟩, by decide, htab⟩
  · obtain ⟨e, he, hrest⟩ := hg.keyword? (r := '\n' :: u) (by simpa using hc) hb
      (show isKeywordChar '\n' = false by decide)
    obtain ⟨f, hf, hend⟩ := hu.passes_line (c := e) (t := []) (by rw [hrest, List.take_nil]; rfl)
    exact ⟨f, passes_cons.2 ⟨e, passes_keyword.2 he, hf⟩, hend⟩

/-- Where a key word is missing, the text up to the fault is gone on with. The fault is never at a
character before the key word. -/
theorem Text.viable_keywordFault {s : Statement Text} {l m : List Lexeme} {x u v : Text}
    {d : Cursor} {w : String} (hu : Completes u m) (hv : Completes v (keyword w :: m))
    (hs : s.Spelled (l ++ keyword w :: m)) (h : (start x).Passes l d) (hx : '\t' ∉ x)
    (hfull : d.rest ≠ [] ∨ ∀ y ∈ l.getLast?, y.kind.Exact) (hnone : d.keyword? w = none)
    (hfresh : upper (d.skip.rest.take w.toList.length) = w.toList → d.skip.Fresh) :
    x.ViableTo (d.keywordFault w) := by
  unfold keywordFault
  split_ifs with hw hbefore
  · exact hv.viable (.of_spelled hs) h hx hfull
  · rw [hfresh (of_not_not hw)] at hbefore
    cases hbefore
  · have hw := of_not_not hw
    have hglued : (d.skip.rest.drop w.toList.length).head?.any isKeywordChar = true := by
      by_contra hfalse
      rw [keyword?_eq_some_iff.2 ⟨hw, hfresh hw, Bool.eq_false_iff.2 hfalse, rfl⟩] at hnone
      cases hnone
    have hmark : (keyword w).kind.isMark = true :=
      (hs.alternating.sorts _ (by simp)).resolve_right (by simp [keyword, Token.isValue])
    have hclean : d.Clean := Clean.passes (c := start x) hx h
    obtain ⟨gap, word, after, hg⟩ := Glued.exists_of_any hmark hclean hw (hfresh hw) hglued
    have := hu.viable_of_glued hs h hx hg
    rwa [List.length_append, hg.length, ← hg.layout, ← Nat.add_assoc] at this

end CqlCanon
