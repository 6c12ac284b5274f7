import CqlCanon.Proofs.Fault.Completion
import CqlCanon.Proofs.Lexeme.Ending
import CqlCanon.Proofs.Lexeme.Growth

/-!
# Statements that a text starts with

A text that starts with a whole statement, and does not go on with the word or
the digits at its end, starts with the tokens of a statement that reach as far.
These are the same tokens, apart from the last one, which may have grown.
-/

namespace CqlCanon

open Cursor Lexeme

mutual

theorem layoutLength_le_append (r : Text) : (t : Text) → layoutLength t ≤ layoutLength (t ++ r)
  | [] => Nat.zero_le _
  | c :: t => by
    have hlayout := layoutLength_le_append r t
    have hcomment := commentLength_le_append r t
    have hstarts : startsComment c t = true → startsComment c (t ++ r) = true := by
      cases t with
      | nil => simp [startsComment]
      | cons d t => exact id
    rw [List.cons_append, layoutLength, layoutLength]
    split
    · omega
    · split
      · rw [if_pos (hstarts ‹_›)]
        omega
      · omega

theorem commentLength_le_append (r : Text) : (t : Text) → commentLength t ≤ commentLength (t ++ r)
  | [] => Nat.zero_le _
  | c :: t => by
    have hlayout := layoutLength_le_append r t
    have hcomment := commentLength_le_append r t
    rw [List.cons_append, commentLength, commentLength]
    split <;> omega

end

/-! ## The end of the tokens -/

namespace Cursor

variable {y v : Text} {d e : Cursor} {l : List Lexeme} {x : Lexeme} {ps : List Piece} {p : Piece}

/-- Tokens are read in a longer text, where the last one is followed as it was before. -/
theorem Reads.in_longer (hl : Alternating l) (hfit : List.Forall₂ Fits l ps)
    (h : (start y).Reads ps d) (hy : '\t' ∉ y)
    (hd : ∀ p ∈ ps.getLast?, p.kind = .plainName → ¬ d.Stuck)
    (hr : ∀ p ∈ ps.getLast?, p.kind.Follows p.text d.rest (d.rest ++ v)) :
    ∃ d', (start (y ++ v)).Reads ps d' ∧ d'.rest = d.rest ++ v := by
  have hspread : y = Piece.spread ps ++ d.rest := h.spread
  have hrest : (start (y ++ v)).rest = Piece.spread ps ++ (d.rest ++ v) := by
    rw [← List.append_assoc, ← hspread]
    rfl
  obtain ⟨d', hd', hdrest, -⟩ := h.elsewhere hl hfit hy (parted_start y) hd hr hrest rfl
  exact ⟨d', hd', hdrest⟩

/-- Where layout comes after the tokens, they are read whatever comes after that. -/
theorem Reads.past_layout (hl : Alternating l) (hfit : List.Forall₂ Fits l ps)
    (h : (start y).Reads ps d) (hend : d.skip.rest = []) (hd : d.rest ≠ []) (hy : '\t' ∉ y) :
    ∃ d', (start (y ++ v)).Reads ps d' ∧ y.length ≤ d'.skip.position := by
  have hlayout : layoutLength d.rest = d.rest.length :=
    Nat.le_antisymm (layoutLength_le _) (List.drop_eq_nil_iff.1 hend)
  have hmore : d.rest.length ≤ layoutLength (d.rest ++ v) := hlayout ▸ layoutLength_le_append v d.rest
  have hpos := List.length_pos_iff.2 hd
  have hbreaks : (d.rest ++ v).Breaks := Text.breaks_of_layout (by omega)
  obtain ⟨d', hd', hdrest⟩ := h.in_longer hl hfit hy (fun _ _ _ => not_stuck_of_end hend)
    fun p hp => .inr ⟨h.last_full hd p hp, .inl hbreaks⟩
  refine ⟨d', hd', ?_⟩
  have hposition := hd'.position (hl.piece_sorts hfit) (h.last_full hd)
  have hlength := congrArg List.length (show y = Piece.spread ps ++ d.rest from h.spread)
  rw [List.length_append] at hlength
  simp only [skip, advance, hdrest, start] at hposition ⊢
  omega

theorem token?_full_of_ascii {c : Cursor} {k : Token} {t : Text} (h : c.token? k = some (t, d))
    (ht : ∀ x ∈ t, x.toNat < 128) : k.Full t := by
  rintro w rfl
  obtain ⟨n, hn, rfl, -⟩ := token?_eq_some_iff.1 h
  obtain ⟨hw, -, -, rfl⟩ := keywordLength?_eq_some_iff.1 hn
  rw [← Text.length_upper_of_ascii ht, hw]

/-- Where the text ends with the last token, that token is read, or grows, before a severing
text. -/
theorem Reads.past_last (hl : Alternating (l ++ [x])) (hfit : List.Forall₂ Fits l ps)
    (hx : x.Fits p) (h : (start y).Reads ps e) (hlast : e.Reads [p] d) (hd : d.rest = [])
    (hk : x.kind ≠ .comparison) (hascii : ∀ z ∈ y, z.toNat < 128) (hv : v.Severs)
    (hy : '\t' ∉ y ++ v) : ∃ e' t d', (start (y ++ v)).Passes l e' ∧
      e'.token? x.kind = some (t, d') ∧ (t = p.text ∨ x.kind.Admits p.text t) ∧
      y.length ≤ d'.position := by
  have hparted := h.parted_last hl hfit hx hlast (parted_start y)
  have hspread : y = Piece.spread ps ++ (p.gap ++ p.text) := by
    have hall : y = Piece.spread (ps ++ [p]) ++ d.rest := (reads_append.2 ⟨e, h, hlast⟩).spread
    rw [hall, hd, Piece.spread_append, Piece.spread_cons]
    simp [Piece.spread]
  have hrest : (start (y ++ v)).rest = Piece.spread ps ++ (p.gap ++ (p.text ++ v)) := by
    simp [start, hspread]
  have hclean : (start y).Clean := fun ht => hy (List.mem_append_left v ht)
  obtain ⟨e', he', herest, hfresh, hposition⟩ :=
    h.before_last hl hfit hx hlast hclean (parted_start y) hrest rfl
  obtain ⟨f, -, hf, rfl⟩ := hlast
  rw [hx.1] at hf
  have hmem : ∀ z ∈ p.text, z ∈ y := fun z hz => by simp [hspread, hz]
  have hfull := token?_full_of_ascii hf fun z hz => hascii z (hmem z hz)
  have hend : f.skip.rest = [] := by simp [skip, advance, hd]
  have hname : x.kind = .plainName → isReserved p.text = false := fun hplain =>
    isReserved_of_parted (hplain ▸ hf) hparted (parted_of_not_stuck (not_stuck_of_end hend))
  have htab : '\t' ∉ p.text ++ v := fun ht => hy (List.mem_append.2
    ((List.mem_append.1 ht).imp_left (hmem _)))
  obtain ⟨t, d', ht, hgrown, hle⟩ :=
    token?_grows (hl.sorts x (by simp)) hk hf hfull hname hfresh herest hv htab
  refine ⟨e', t, d', he'.passes hfit, ht, hgrown, ?_⟩
  have hlength := congrArg List.length hspread
  simp only [List.length_append] at hlength
  simp only [start] at hposition
  omega

/-- Digits at the end of the tokens are the same before a severing text. -/
theorem Passes.digits_in_longer {t : Text} (hl : Alternating (l ++ [⟨.integer, some t⟩]))
    (h : (start y).Passes (l ++ [⟨.integer, some t⟩]) d) (hascii : ∀ z ∈ y, z.toNat < 128)
    (hv : v.Severs) (hy : '\t' ∉ y ++ v) :
    ∃ d', (start (y ++ v)).Passes (l ++ [⟨.integer, some t⟩]) d' := by
  have htab : '\t' ∉ y := fun ht => hy (List.mem_append_left v ht)
  obtain ⟨ps, hfit, hreads⟩ := h.reads
  obtain ⟨qs, q, rfl, hqs, hq⟩ := concat_fits hfit
  by_cases hd : d.rest = []
  · obtain ⟨e, he, hlast⟩ := reads_append.1 hreads
    obtain ⟨e', u, d', he', hu, hgrown, -⟩ :=
      he.past_last hl hqs hq hlast hd (by simp) hascii hv hy
    obtain rfl : u = t := (hgrown.resolve_right id).trans (hq.2 _ rfl)
    exact ⟨d', passes_append.2 ⟨e', he', passes_token.2 hu⟩⟩
  · have hkind : ∀ p ∈ (qs ++ [q]).getLast?, p.kind = .integer := by
      rw [List.getLast?_concat]
      rintro p ⟨⟩
      exact hq.1
    have hends : ∀ p ∈ (qs ++ [q]).getLast?, p.kind.EndsBy (d.rest ++ v) := fun p hp => by
      rw [hkind p hp]
      trivial
    obtain ⟨d', hd', -⟩ := hreads.in_longer (v := v) hl hfit htab
      (fun p hp hplain => by rw [hkind p hp] at hplain; cases hplain)
      fun p hp => .inr ⟨hreads.last_full hd p hp, .inr ⟨List.head?_append_of_ne_nil _ hd, hends p hp⟩⟩
    exact ⟨d', hd'.passes hfit⟩

end Cursor

/-! ## Statements -/

section Append

variable {y v : Text} (hy : '\t' ∉ y ++ v) (hascii : ∀ z ∈ y, z.toNat < 128) (hv : v.Severs)

include hy hascii hv

/-- A text that starts with a statement, and goes on with a severing text, starts with the tokens of
a statement that reach up to there. -/
theorem Draft.exists_passes_append {draft : Draft} (h : read y = .ok draft) :
    ∃ (s : Statement Text) (l : List Lexeme) (d : Cursor), s.Spelled l ∧
      (start (y ++ v)).Passes l d ∧ y.length ≤ d.skip.position := by
  have htab : '\t' ∉ y := fun ht => hy (List.mem_append_left v ht)
  obtain ⟨l, d, hl, hp, hend⟩ := passes_of_read h
  rw [Text.expandTabs_eq_self htab] at hp
  have halternating := hl.alternating
  obtain ⟨ps, hfit, hreads⟩ := hp.reads
  by_cases hd : d.rest = []
  · obtain ⟨m, x, rfl, hk⟩ := hl.endsIn
    obtain ⟨qs, q, rfl, hm, hx⟩ := concat_fits hfit
    obtain ⟨e, he, hlast⟩ := reads_append.1 hreads
    obtain ⟨e', t, d', he', ht, hgrown, hle⟩ :=
      he.past_last halternating hm hx hlast hd hk hascii hv hy
    have hle : y.length ≤ d'.skip.position := Nat.le_trans hle (Nat.le_add_right _ _)
    rcases hgrown with rfl | hadmits
    · exact ⟨_, _, d', hl, passes_append.2 ⟨e', he', _, d', ht, hx.2, rfl⟩, hle⟩
    · obtain ⟨u, hu⟩ : ∃ u, x.text? = some u := by
        rcases halternating.asks x (by simp) with hmark | ⟨-, hsome⟩
        · exact absurd hadmits (Token.not_admits_of_isMark hmark _ _)
        · exact Option.isSome_iff_exists.1 hsome
      obtain ⟨s', hs'⟩ := hl.exists_recast_at (m := []) (.text hu (hx.2 u hu ▸ hadmits))
      exact ⟨s', _, d', hs', passes_append.2 ⟨e', he', t, d', ht, fun _ => Option.some.inj, rfl⟩, hle⟩
  · obtain ⟨d', hd', hle⟩ := hreads.past_layout halternating hfit hend hd htab
    exact ⟨_, l, d', hl, hd'.passes hfit, hle⟩

theorem LimitTooLong.append (h : LimitTooLong y) : LimitTooLong (y ++ v) := by
  have htab : '\t' ∉ y := fun ht => hy (List.mem_append_left v ht)
  obtain ⟨s, c, d, e, digits, hhead, hclauses, ⟨f, hf, hdigits⟩, hlen⟩ := h
  rw [Text.expandTabs_eq_self htab] at hhead
  obtain ⟨l, hl, hp⟩ := hhead.passes htab
  obtain ⟨m, hm, hq⟩ := hclauses.passes (Clean.passes (c := start y) htab hp)
  have hled : Led [keyword "LIMIT", ⟨.integer, some digits⟩] := .cons (by decide)
  have hlimit : Alternating [keyword "LIMIT", ⟨.integer, some digits⟩] :=
    .mark (by decide) (.value rfl .nil .nil)
  have halternating : Alternating (l ++ (m ++ [keyword "LIMIT"]) ++ [⟨.integer, some digits⟩]) := by
    have := hl.alternating.append (hm.alternating.1.append hlimit hled) (hm.alternating.2.append hled)
    simpa using this
  have hall : (start y).Passes (l ++ (m ++ [keyword "LIMIT"]) ++ [⟨.integer, some digits⟩]) e :=
    passes_append.2 ⟨f, passes_append.2 ⟨c, hp, passes_append.2 ⟨d, hq, passes_keyword.2 hf⟩⟩,
      passes_token.2 hdigits⟩
  obtain ⟨e', hall'⟩ := hall.digits_in_longer halternating hascii hv hy
  obtain ⟨f', hp', ht⟩ := passes_append.1 hall'
  obtain ⟨c', hc', hp'⟩ := passes_append.1 hp'
  obtain ⟨d', hd', hp'⟩ := passes_append.1 hp'
  refine ⟨s, c', d', e', digits, ?_, hm.stands hd', ⟨f', passes_keyword.1 hp', passes_token.1 ht⟩, hlen⟩
  rw [Text.expandTabs_eq_self hy]
  exact hl.stands hc'

end Append

end CqlCanon
