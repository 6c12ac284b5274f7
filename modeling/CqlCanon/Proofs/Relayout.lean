import CqlCanon.Proofs.Lexeme.Elsewhere
import CqlCanon.Proofs.Lexeme.Reading
import CqlCanon.Proofs.RoundTrip

/-!
# Other layout

What stands between the tokens of a statement may be exchanged for any blanks
and whole comments: the statement that is read stays the same. Layout may be
left out only where there was none, and after the last token nothing changes,
for a key word that ends the text may be one only there.
-/

namespace CqlCanon

open Cursor Lexeme

/-- Blanks other than tabs, and comments up to the ends of their lines. -/
inductive Filler : Text → Prop where
  | nil : Filler []
  | blank {x : Char} {f : Text} : x = ' ' ∨ x = '\n' ∨ x = '\r' → Filler f → Filler (x :: f)
  | comment {b f : Text} : '\n' ∉ b → '\t' ∉ b → Filler f → Filler ('-' :: '-' :: b ++ '\n' :: f)

namespace Filler

variable {f : Text}

theorem tab (h : Filler f) : '\t' ∉ f := by
  induction h with
  | nil => simp
  | blank hx _ ih => rcases hx with rfl | rfl | rfl <;> simp [ih]
  | comment _ htab _ ih => simp [htab, ih]

theorem breaks (h : Filler f) (hne : f ≠ []) (u : Text) : Text.Breaks (f ++ u) := by
  intro x hx
  cases h with
  | nil => exact absurd rfl hne
  | @blank y g hy =>
    obtain rfl : y = x := by simpa using hx
    rcases hy with rfl | rfl | rfl <;> simp
  | comment =>
    obtain rfl : '-' = x := by simpa using hx
    simp

theorem commentLength_of_line {body : Text} (h : '\n' ∉ body) (u : Text) :
    commentLength (body ++ '\n' :: u) = body.length + 1 + layoutLength u := by
  induction body with
  | nil => simp [commentLength, Nat.add_comm]
  | cons x body ih =>
    simp only [List.mem_cons, not_or] at h
    have hx : x ≠ '\n' := Ne.symm h.1
    simp only [List.cons_append, commentLength, if_neg hx, ih h.2, List.length_cons]
    omega

theorem layoutLength_append (h : Filler f) (u : Text) :
    layoutLength (f ++ u) = f.length + layoutLength u := by
  induction h with
  | nil => simp
  | @blank x f hx _ ih =>
    have hb : isBlank x = true := by rcases hx with rfl | rfl | rfl <;> rfl
    simp only [List.cons_append, layoutLength, hb, if_true, ih, List.length_cons]
    omega
  | @comment body f hline _ _ ih =>
    have hb : isBlank '-' = false := by decide
    have hs : startsComment '-' (('-' :: body) ++ '\n' :: f ++ u) = true := rfl
    have hrest : '\n' ∉ '-' :: body := by simp [hline]
    have hlen := commentLength_of_line hrest (f ++ u)
    simp only [List.cons_append, List.append_assoc] at hs hlen ⊢
    rw [layoutLength, hb, if_neg (by simp), if_pos hs, hlen, ih]
    simp only [List.length_cons, List.length_append]
    omega

mutual

theorem of_layout : (t : Text) → '\t' ∉ t → t.drop (layoutLength t) ≠ [] →
    Filler (t.take (layoutLength t))
  | [], _, h => absurd rfl h
  | c :: t, htab, h => by
    simp only [List.mem_cons, not_or] at htab
    rw [layoutLength] at h ⊢
    split at h
    · rename_i hc
      rw [if_pos hc]
      refine .blank ?_ (of_layout t htab.2 h)
      rcases eq_of_isBlank hc with rfl | rfl | rfl | rfl
      · simp
      · simp
      · exact absurd rfl htab.1
      · simp
    · split at h
      · rename_i hb hc
        obtain ⟨body, f, htake, hline, hbody, hf⟩ := of_comment t htab.2 h
        have hdash := hc
        simp only [startsComment, Bool.and_eq_true, decide_eq_true_eq] at hdash
        obtain ⟨rfl, hhead⟩ := hdash
        obtain ⟨u, rfl⟩ := List.head?_eq_some_iff.1 hhead
        rw [if_neg hb, if_pos hc, List.take_succ_cons, htake]
        cases body with
        | nil =>
          rw [commentLength, if_neg (by decide), List.take_succ_cons, List.nil_append] at htake
          exact absurd (List.cons.inj htake).1 (by decide)
        | cons y body =>
          rw [commentLength, if_neg (by decide), List.take_succ_cons, List.cons_append] at htake
          obtain rfl := (List.cons.inj htake).1
          simp only [List.mem_cons, not_or] at hline hbody
          exact .comment hline.2 hbody.2 hf
      · rename_i hb hc
        rw [if_neg hb, if_neg hc]
        exact .nil

theorem of_comment : (t : Text) → '\t' ∉ t → t.drop (commentLength t) ≠ [] →
    ∃ body f, t.take (commentLength t) = body ++ '\n' :: f ∧ '\n' ∉ body ∧ '\t' ∉ body ∧ Filler f
  | [], _, h => absurd rfl h
  | c :: t, htab, h => by
    simp only [List.mem_cons, not_or] at htab
    rw [commentLength] at h ⊢
    split at h
    · rename_i hc
      rw [if_pos hc, hc]
      exact ⟨[], _, rfl, by simp, by simp, of_layout t htab.2 h⟩
    · rename_i hc
      obtain ⟨body, f, htake, hline, hbody, hf⟩ := of_comment t htab.2 h
      rw [if_neg hc, List.take_succ_cons, htake]
      exact ⟨c :: body, f, rfl, by simp [hline, Ne.symm hc], by simp [hbody, htab.1], hf⟩

end

end Filler

/-- The same token after another gap, which is empty only where the first one is. -/
structure Piece.Relaid (p q : Piece) : Prop where
  kind : q.kind = p.kind
  text : q.text = p.text
  gap : Filler q.gap
  empty : q.gap = [] → p.gap = []

theorem Piece.Relaid.refl {p : Piece} (h : Filler p.gap) : p.Relaid p := ⟨rfl, rfl, h, id⟩

namespace Token

variable {k : Token} {b : Option Char} {t : Text} {n : Nat}

theorem endsBy_of_isMark_self (hk : k.isMark = true) (r : Text) : k.EndsBy r := by
  cases k <;> trivial

theorem endsBy_of_meets {x y : Lexeme} {r : Text} {z : Char}
    (hx : x.kind.isMark = true ∨ x.kind.isValue = true) (h : x.Meets y)
    (hz : y.kind.StartsWith z) (hr : r.head? = some z) : x.kind.EndsBy r := by
  cases hmark : x.kind.isMark with
  | true => exact endsBy_of_isMark_self hmark r
  | false =>
    have hne : ¬ x.kind.isMark = true := by rw [hmark]; exact Bool.false_ne_true
    exact endsBy_of_isMark (hx.resolve_left hne) (h.1.resolve_left hne) hz h.2 hr

theorem solid (hk : k.isMark = true ∨ k.isValue = true) (h : k.length? b t = some n)
    (hne : t.take n ≠ []) (r : Text) : layoutLength (t.take n ++ r) = 0 := by
  have head : ∀ {x : Char}, t.head? = some x → isBlank x = false ∧ x ≠ '-' →
      layoutLength (t.take n ++ r) = 0 := by
    intro x hx hx'
    obtain ⟨y, u, hu⟩ := List.exists_cons_of_ne_nil hne
    have : (t.take n).head? = some x := by
      rw [← hx, List.head?_take, if_neg]
      rintro rfl
      exact hne rfl
    rw [hu] at this
    cases this
    rw [hu]
    exact layoutLength_of_head hx'
  have inert : k.Inert → layoutLength (t.take n ++ r) = 0 := fun hi =>
    Text.layoutLength_of_inert (hi.text h) hne r
  cases k with
  | keyword w =>
    simp only [isMark, isValue, Bool.and_eq_true, or_false, Bool.false_eq_true] at hk
    exact inert hk.1.2
  | symbol s =>
    have hx : t.head? = some s ∧ 1 = n := by simpa [length?] using h
    have hmark := hk.resolve_right Bool.false_ne_true
    exact head hx.1 (sign_of_isMark (fun s => isBlank s = false ∧ s ≠ '-') hmark (by decide))
  | quoted q =>
    refine head (quotedLength?_eq_some_iff.1 h).1 ?_
    rcases quote_of_sorts hk with rfl | rfl <;> decide
  | _ => exact inert trivial

end Token

namespace Cursor

variable {l : List Lexeme} {ps qs : List Piece} {c c' d e : Cursor} {r : Text}

theorem layoutLength_of_gap {p : Piece} (hgap : p.gap = c.rest.take (layoutLength c.rest))
    (hp : p.gap = []) : layoutLength c.rest = 0 := by
  have hlen := congrArg List.length hgap
  rw [hp, List.length_take, List.length_nil] at hlen
  have := layoutLength_le c.rest
  omega

theorem token?_solid {k : Token} {t : Text} (hk : k.isMark = true ∨ k.isValue = true)
    (h : c.token? k = some (t, d)) (r : Text) : layoutLength (t ++ r) = 0 := by
  have hne := token?_ne_nil h (Token.ne_keyword_nil hk)
  obtain ⟨n, hn, rfl, -⟩ := token?_eq_some_iff.1 h
  exact Token.solid hk hn hne r

theorem skip_of_filler {f u : Text} (hf : Filler f) (hrest : c.rest = f ++ u)
    (hu : layoutLength u = 0) : layoutLength c.rest = f.length ∧ c.skip.rest = u := by
  have hlayout : layoutLength c.rest = f.length := by
    rw [hrest, hf.layoutLength_append, hu]
    rfl
  refine ⟨hlayout, ?_⟩
  simp only [skip, advance, hlayout]
  rw [hrest, List.drop_left]

/-- A word ends before a token no more than it does in another text, which has layout there if the
first one does. -/
theorem fresh_skip_moved (hlayout : layoutLength c'.rest = 0 → layoutLength c.rest = 0)
    (hb : c'.before = c.before) (hn : c'.next ≠ none) (h : c.skip.Fresh) : c'.skip.Fresh := by
  refine fresh_skip (fun hzero => ?_) hn
  rw [skip_of_layoutLength (hlayout hzero)] at h
  rw [Fresh, hb]
  exact h

/-- What follows a token under other gaps does for it what followed it before, if that is so for
the last token. -/
theorem Reads.follows {x : Lexeme} {t : Text} (hl : Alternating (x :: l))
    (hfit : List.Forall₂ Fits l ps) (hx : c.token? x.kind = some (t, e)) (h : e.Reads ps d)
    (hrel : List.Forall₂ Piece.Relaid ps qs) (hr : l = [] → x.kind.Follows t d.rest r) :
    x.kind.Follows t e.rest (Piece.spread qs ++ r) := by
  cases hrel with
  | nil =>
    obtain rfl : e = d := h
    cases hfit
    exact hr rfl
  | @cons p q ps qs hpq hrel =>
    obtain ⟨f, hgap, hf, -⟩ := h
    cases hfit with
    | @cons y _ l _ hy hfit =>
    have hsort := hl.sorts y (by simp)
    have hchain := (List.isChain_cons_cons.1 hl.chain).1
    rw [hy.1] at hf
    have hne := Token.ne_keyword_nil hsort
    obtain ⟨z, u, htext⟩ := List.exists_cons_of_ne_nil (token?_ne_nil hf hne)
    have hrest := rest_eq_append hf
    refine .inr ⟨token?_full hx (by rw [hrest, htext]; simp), ?_⟩
    have hspread : Piece.spread (q :: qs) ++ r = q.gap ++ (p.text ++ (Piece.spread qs ++ r)) := by
      simp [Piece.spread, hpq.text]
    by_cases hq : q.gap = []
    · right
      have hzero := layoutLength_of_gap hgap (hpq.empty hq)
      have hhead : e.rest.head? = some z := by rw [hrest, hzero, htext]; rfl
      have hhead' : (Piece.spread (q :: qs) ++ r).head? = some z := by rw [hspread, hq, htext]; rfl
      obtain ⟨w, hw, hstart⟩ := next_of_token? hf hne
      rw [next, skip_of_layoutLength hzero, hhead] at hw
      cases hw
      exact ⟨hhead'.trans hhead.symm,
        Token.endsBy_of_meets (hl.sorts x (by simp)) hchain hstart hhead'⟩
    · left
      rw [hspread]
      exact hpq.gap.breaks hq _

/-- The same tokens are read after other gaps, and before another text that does for the last of
them what followed it before. -/
theorem Reads.relaid (hl : Alternating l) (hfit : List.Forall₂ Fits l ps) (h : c.Reads ps d)
    (hc : ps ≠ [] → c.Parted) (hd : ∀ p ∈ ps.getLast?, p.kind = .plainName → ¬ d.Stuck)
    (hrel : List.Forall₂ Piece.Relaid ps qs)
    (hr : ∀ p ∈ ps.getLast?, p.kind.Follows p.text d.rest r)
    (hrest : c'.rest = Piece.spread qs ++ r) (hb : c'.before = c.before) :
    ∃ d', c'.Reads qs d' ∧ d'.rest = r ∧ d'.before = d.before := by
  induction hrel generalizing c c' l with
  | nil =>
    obtain rfl : c = d := h
    exact ⟨c', rfl, hrest, hb⟩
  | @cons p q ps qs hpq hrel ih =>
    cases hfit with
    | @cons x _ l _ hx hfit =>
    obtain ⟨e, hgap, he, h⟩ := h
    have hsort := hl.sorts x (by simp)
    have hk := hx.1
    have hx' : c.token? x.kind = some (p.text, e) := hk ▸ he
    have hlast : ∀ p' ∈ ps.getLast?, p' ∈ (p :: ps).getLast? := fun p' hp' => by
      rw [List.getLast?_cons, Option.mem_def.1 hp']
      rfl
    have hnil : l = [] → ps = [] := by
      rintro rfl
      exact List.forall₂_nil_left_iff.1 hfit
    have hparted : ps ≠ [] → e.Parted := fun hne =>
      (h.passes hfit).parted hl hx' fun hl => absurd (hnil hl) hne
    have hname : p.kind = .plainName → isReserved p.text = false ∧ ¬ e.Stuck := by
      intro hplain
      have hstuck : l = [] → ¬ d.Stuck := fun hl => hd p (by rw [hnil hl]; rfl) hplain
      refine ⟨isReserved_of_parted (hplain ▸ he) (hc (by simp))
        ((h.passes hfit).parted hl hx' hstuck), ?_⟩
      exact (h.passes hfit).not_stuck hl (by rw [← hk, hplain]; rfl) hstuck
    rw [← hk] at hsort
    have hne := token?_ne_nil he (Token.ne_keyword_nil hsort)
    have hrest' : c'.rest = q.gap ++ (p.text ++ (Piece.spread qs ++ r)) := by
      simp [hrest, Piece.spread, hpq.text]
    obtain ⟨hlayout, hskip⟩ := skip_of_filler hpq.gap hrest' (token?_solid hsort he _)
    have hfresh : c.skip.Fresh → c'.skip.Fresh := by
      refine fresh_skip_moved (fun hzero => layoutLength_of_gap hgap (hpq.empty ?_)) hb ?_
      · exact List.eq_nil_of_length_eq_zero (hlayout ▸ hzero)
      · obtain ⟨z, u, hz⟩ := List.exists_cons_of_ne_nil hne
        simp [next, hskip, hz]
    have hfollows := h.follows hl hfit hx' hrel fun hl => hk ▸ hr p (by rw [hnil hl]; rfl)
    rw [← hk] at hfollows
    obtain ⟨e', he', herest, hebefore⟩ := token?_elsewhere hsort he hname hfresh hskip hfollows
    obtain ⟨d', hd', hdrest⟩ := ih hl.tail hfit h hparted (fun p' hp' => hd p' (hlast p' hp'))
      (fun p' hp' => hr p' (hlast p' hp')) herest hebefore
    refine ⟨d', ⟨e', ?_, ?_, hd'⟩, hdrest⟩
    · rw [hlayout, hrest', List.take_left]
    · rw [hpq.kind, hpq.text]
      exact he'

theorem Reads.filler (hl : Alternating l) (hfit : List.Forall₂ Fits l ps) (h : c.Reads ps d)
    (hc : c.Clean) : ∀ p ∈ ps, Filler p.gap := by
  induction hfit generalizing c with
  | nil => exact List.forall_mem_nil _
  | @cons x p l ps hx _ ih =>
    obtain ⟨e, hgap, he, h⟩ := h
    intro q hq
    rcases List.mem_cons.1 hq with rfl | hq
    · rw [hgap]
      refine .of_layout c.rest hc fun hnil => ?_
      have hsplit := token?_split he
      rw [skip, advance, hnil] at hsplit
      exact token?_ne_nil he (Token.ne_keyword_nil (hx.1 ▸ hl.sorts x (by simp)))
        (List.append_eq_nil_iff.1 hsplit.symm).1
    · exact ih hl.tail h (hc.token? he).1 q hq

theorem Reads.elsewhere (hl : Alternating l) (hfit : List.Forall₂ Fits l ps) (h : c.Reads ps d)
    (hclean : c.Clean) (hc : c.Parted) (hd : ∀ p ∈ ps.getLast?, p.kind = .plainName → ¬ d.Stuck)
    (hr : ∀ p ∈ ps.getLast?, p.kind.Follows p.text d.rest r)
    (hrest : c'.rest = Piece.spread ps ++ r) (hb : c'.before = c.before) :
    ∃ d', c'.Reads ps d' ∧ d'.rest = r ∧ d'.before = d.before := by
  have hsame : List.Forall₂ Piece.Relaid ps ps :=
    List.forall₂_same.2 fun p hp => .refl (h.filler hl hfit hclean p hp)
  exact h.relaid hl hfit (fun _ => hc) hd hsame hr hrest hb

end Cursor

namespace Piece

variable {ps qs : List Piece}

theorem forall₂_fits {l : List Lexeme} (hfit : List.Forall₂ Fits l ps)
    (hrel : List.Forall₂ Relaid ps qs) : List.Forall₂ Fits l qs := by
  induction hfit generalizing qs with
  | nil =>
    cases hrel
    exact .nil
  | cons hp _ ih =>
    cases hrel with
    | cons hpq hrel => exact .cons ⟨hpq.kind.trans hp.1, fun t ht => hpq.text.trans (hp.2 t ht)⟩ (ih hrel)

theorem tab_not_mem_spread (hrel : List.Forall₂ Relaid ps qs) (h : '\t' ∉ spread ps) :
    '\t' ∉ spread qs := by
  induction hrel with
  | nil => exact h
  | cons hpq _ ih =>
    simp only [spread, List.flatMap_cons, List.mem_append, not_or] at h ⊢
    exact ⟨⟨hpq.gap.tab, hpq.text ▸ h.1.2⟩, ih h.2⟩

end Piece

namespace Statement

variable {s : Statement Text} {t tail : Text} {ps qs : List Piece}

theorem Reading.relaid (h : s.Reading t ps tail) (hrel : List.Forall₂ Piece.Relaid ps qs) :
    s.Reading (Piece.spread qs ++ tail) qs tail := by
  obtain ⟨l, d, hl, hfit, hps, rfl, hd⟩ := h
  have hrest : (start (Piece.spread qs ++ d.rest)).rest = Piece.spread qs ++ d.rest := rfl
  obtain ⟨d', hd', hrest', -⟩ := hps.relaid hl.alternating hfit (fun _ => parted_start t)
    (fun _ _ _ => not_stuck_of_end hd) hrel (fun _ _ => .inl rfl) hrest rfl
  refine ⟨l, d', hl, Piece.forall₂_fits hfit hrel, hd', hrest', ?_⟩
  simp only [skip, advance, hrest'] at hd ⊢
  exact hd

theorem Reading.filler (h : s.Reading t ps tail) (ht : '\t' ∉ t) : ∀ p ∈ ps, Filler p.gap := by
  obtain ⟨l, d, hl, hfit, hps, -⟩ := h
  exact hps.filler hl.alternating hfit ht

end Statement

/-- A text without tabs that is parsed is made up of tokens with fillers before them. If the fillers
are exchanged for others, which are empty only where the first ones are, the text is parsed as the
same statement. -/
theorem Select.parse_relaid {t : Text} {s : Select} (ht : '\t' ∉ t) (h : parse t = .ok s) :
    (∃ ps tail, (s.map Identifier.text).Reading t ps tail) ∧
    ∀ ps tail, (s.map Identifier.text).Reading t ps tail →
      t = Piece.spread ps ++ tail ∧ (∀ p ∈ ps, Filler p.gap) ∧
      ∀ qs, List.Forall₂ Piece.Relaid ps qs → parse (Piece.spread qs ++ tail) = .ok s := by
  refine ⟨?_, fun ps tail hr => ⟨hr.eq_spread, hr.filler ht, fun qs hrel => ?_⟩⟩
  · have := reading_of_parse h
    rwa [Text.expandTabs_eq_self ht] at this
  · rw [hr.eq_spread, List.mem_append, not_or] at ht
    have htab : '\t' ∉ Piece.spread qs ++ tail := by
      rw [List.mem_append, not_or]
      exact ⟨Piece.tab_not_mem_spread hrel ht.1, ht.2⟩
    obtain ⟨draft, hread, hcontents⟩ := (hr.relaid hrel).read htab
    exact parse_of_contents hread hcontents (wellFormed_of_parse h).fault?

/-- Comments with anything in them, around a name with dashes in it. -/
theorem Select.parse_relaid_comments :
    '\t' ∉ "SELECT \"--\" FROM t".toList ∧ ∃ s : Select,
      parse "SELECT \"--\" FROM t".toList = .ok s ∧
      parse "SELECT--'\n\"--\"\r\nFROM --(;--\n t".toList = .ok s := by
  have ht : '\t' ∉ "SELECT \"--\" FROM t".toList := by decide
  have h : parse "SELECT \"--\" FROM t".toList =
      .ok { columns := [.column ⟨⟨"\"--\"".toList⟩, none⟩], table := ⟨⟨"t".toList⟩, none⟩ } := by
    decide +kernel
  refine ⟨ht, _, h, ((parse_relaid ht h).2
    [⟨[], .keyword "SELECT".toList, "SELECT".toList⟩, ⟨[' '], .quoted '"', "\"--\"".toList⟩,
      ⟨[' '], .keyword "FROM".toList, "FROM".toList⟩, ⟨[' '], .plainName, "t".toList⟩] [] ?_).2.2
    [⟨[], .keyword "SELECT".toList, "SELECT".toList⟩,
      ⟨"--'\n".toList, .quoted '"', "\"--\"".toList⟩,
      ⟨"\r\n".toList, .keyword "FROM".toList, "FROM".toList⟩,
      ⟨" --(;--\n ".toList, .plainName, "t".toList⟩] ?_⟩
  · refine ⟨[keyword "SELECT", name "\"--\"".toList, keyword "FROM", name "t".toList], _,
      ⟨_, _, _, ⟨_, .inr ⟨List.cons_ne_nil _ _, [[name "\"--\"".toList]], .cons rfl .nil, rfl⟩, rfl⟩,
        ⟨[], [], .inl ⟨rfl, rfl⟩, rfl, rfl⟩, ⟨[], false, rfl, rfl⟩, rfl⟩, ?_,
      ⟨_, rfl, rfl, _, rfl, rfl, _, rfl, rfl, _, rfl, rfl, rfl⟩, rfl, rfl⟩
    have text (u : Text) : ∀ v ∈ some u, u = v := fun _ h => Option.some.inj h
    exact .cons ⟨rfl, nofun⟩ (.cons ⟨rfl, text _⟩ (.cons ⟨rfl, nofun⟩ (.cons ⟨rfl, text _⟩ .nil)))
  · have line {f : Text} (h : Filler f) : Filler ('\n' :: f) := .blank (by simp) h
    have space {f : Text} (h : Filler f) : Filler (' ' :: f) := .blank (by simp) h
    have ends : Filler ['\r', '\n'] := .blank (by simp) (line .nil)
    refine .cons ⟨rfl, rfl, .nil, fun _ => rfl⟩ (.cons ⟨rfl, rfl, ?_, nofun⟩
      (.cons ⟨rfl, rfl, ends, nofun⟩ (.cons ⟨rfl, rfl, ?_, nofun⟩ .nil)))
    · exact .comment (b := ['\'']) (by simp) (by simp) .nil
    · exact space (.comment (b := "(;--".toList) (by decide) (by decide) (space .nil))

end CqlCanon
