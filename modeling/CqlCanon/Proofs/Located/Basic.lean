import CqlCanon.Proofs.Lexeme.Statement

/-!
# Where names and calls are reported

A name is reported somewhere in the layout before it: at the name, at the end of
the token before it, or after the last comment. The token before the layout
decides which of these it is. A call is reported where it stands.

`Locates k l c d is` says that the tokens `l` are read from `c` up to `d`, and
that each of the names and calls `is` is among them and is reported as the token
before it decides; `k` is the kind of the token before `c`.
-/

namespace CqlCanon

open Cursor Lexeme

/-! ## The end of the last comment -/

/-- The text ends in a comment. -/
def Text.EndsInComment (t : Text) : Prop :=
  ∃ before comment, t = before ++ '-' :: '-' :: comment ∧ '\n' ∉ comment

/-- The layout `seen ++ unseen` is split at the end of its last comment: blanks come after it, and
before it comes a comment or nothing. -/
def Text.EndsComments (seen unseen : Text) : Prop :=
  (∀ x ∈ unseen, isBlank x = true) ∧
    (seen = [] ∨ Text.EndsInComment seen ∧ unseen.head? = some '\n')

namespace Text

theorem EndsInComment.cons {t : Text} (x : Char) (h : EndsInComment t) :
    EndsInComment (x :: t) := by
  obtain ⟨before, comment, rfl, hline⟩ := h
  exact ⟨x :: before, comment, rfl, hline⟩

/-- A blank before layout belongs to what comes before the end of the last comment, if there is a
comment. -/
theorem EndsComments.blank {x : Char} {seen unseen : Text} (hx : isBlank x = true)
    (h : EndsComments seen unseen) : ∃ seen' unseen', x :: (seen ++ unseen) = seen' ++ unseen' ∧
      seen'.length = (match seen.length with | 0 => 0 | n + 1 => n + 2) ∧
      EndsComments seen' unseen' := by
  obtain ⟨hblank, hseen⟩ := h
  cases seen with
  | nil => exact ⟨[], x :: unseen, rfl, rfl, List.forall_mem_cons.2 ⟨hx, hblank⟩, .inl rfl⟩
  | cons y seen =>
    obtain ⟨hcomment, hline⟩ := hseen.resolve_left (List.cons_ne_nil y seen)
    exact ⟨x :: y :: seen, unseen, rfl, rfl, hblank, .inr ⟨hcomment.cons x, hline⟩⟩

/-- What is seen from the first dash of a comment on ends in a comment: in this one, if its line
does not end there. -/
theorem endsInComment_of_start {x : Char} {t seen unseen : Text} (h : startsComment x t = true)
    (htake : t.take (commentLength t) = seen ++ unseen) (hlen : seen.length = lastCommentLength t)
    (hseen : '\n' ∉ seen ∨ EndsInComment seen) : EndsInComment (x :: seen) := by
  rcases hseen with hnone | hcomment
  · simp only [startsComment, Bool.and_eq_true, decide_eq_true_eq] at h
    obtain ⟨rfl, hdash⟩ := h
    obtain ⟨u, rfl⟩ := List.head?_eq_some_iff.1 hdash
    rw [commentLength, if_neg (by decide), List.take_succ_cons] at htake
    rw [lastCommentLength, if_neg (by decide)] at hlen
    cases seen with
    | nil => cases hlen
    | cons y seen =>
      obtain rfl : '-' = y := (List.cons.inj htake).1
      exact ⟨[], seen, rfl, fun hm => hnone (List.mem_cons_of_mem _ hm)⟩
  · exact hcomment.cons x

mutual

/-- Layout that something follows, split at the end of its last comment. -/
theorem layout_split : (t : Text) → t.drop (layoutLength t) ≠ [] → ∃ seen unseen,
    t.take (layoutLength t) = seen ++ unseen ∧ seen.length = commentsLength t ∧
      EndsComments seen unseen
  | [], h => absurd rfl h
  | x :: t, h => by
    rw [layoutLength] at h ⊢
    rw [commentsLength]
    by_cases hb : isBlank x = true
    · rw [if_pos hb] at h ⊢
      rw [if_pos hb]
      obtain ⟨seen, unseen, htake, hlen, hsplit⟩ := layout_split t h
      obtain ⟨seen', unseen', hcons, hlen', hsplit'⟩ := hsplit.blank hb
      exact ⟨seen', unseen', (congrArg (x :: ·) htake).trans hcons, hlen ▸ hlen', hsplit'⟩
    rw [if_neg hb] at h ⊢
    rw [if_neg hb]
    by_cases hc : startsComment x t = true
    · rw [if_pos hc] at h ⊢
      rw [if_pos hc]
      obtain ⟨seen, unseen, htake, hlen, hblank, hline, hseen⟩ := comment_split t h
      exact ⟨x :: seen, unseen, congrArg (x :: ·) htake, congrArg (· + 1) hlen, hblank,
        .inr ⟨endsInComment_of_start hc htake hlen hseen, hline⟩⟩
    · rw [if_neg hc]
      rw [if_neg hc]
      exact ⟨[], [], rfl, rfl, List.forall_mem_nil _, .inl rfl⟩

/-- The same inside a comment, whose start does not belong to the text. -/
theorem comment_split : (t : Text) → t.drop (commentLength t) ≠ [] → ∃ seen unseen,
    t.take (commentLength t) = seen ++ unseen ∧ seen.length = lastCommentLength t ∧
      (∀ x ∈ unseen, isBlank x = true) ∧ unseen.head? = some '\n' ∧
      ('\n' ∉ seen ∨ EndsInComment seen)
  | [], h => absurd rfl h
  | x :: t, h => by
    rw [commentLength] at h ⊢
    rw [lastCommentLength]
    by_cases hx : x = '\n'
    · rw [if_pos hx] at h ⊢
      rw [if_pos hx]
      obtain ⟨seen, unseen, htake, hlen, hsplit⟩ := layout_split t h
      obtain ⟨seen', unseen', hcons, hlen', hblank, hseen'⟩ :=
        hsplit.blank (x := x) (by rw [hx]; decide)
      refine ⟨seen', unseen', (congrArg (x :: ·) htake).trans hcons, hlen ▸ hlen', hblank, ?_⟩
      rcases hseen' with rfl | ⟨hcomment, hline⟩
      · rw [List.nil_append] at hcons
        exact ⟨by rw [← hcons, hx]; rfl, .inl List.not_mem_nil⟩
      · exact ⟨hline, .inr hcomment⟩
    · rw [if_neg hx] at h ⊢
      rw [if_neg hx]
      obtain ⟨seen, unseen, htake, hlen, hblank, hline, hseen⟩ := comment_split t h
      refine ⟨x :: seen, unseen, congrArg (x :: ·) htake, congrArg (· + 1) hlen, hblank, hline, ?_⟩
      exact hseen.imp (fun hnone hm => (List.mem_cons.1 hm).elim (fun e => hx e.symm) hnone)
        (EndsInComment.cons x)

end

end Text

/-! ## The place of a name -/

/-- How the token before a name splits the layout between the two: the name is reported after what
is `seen`. -/
inductive Token.Reports : Token → Text → Text → Prop where
  /-- The first selector is reported where it stands. -/
  | first {k : Token} {gap : Text}
      (h : k ∈ ["SELECT", "DISTINCT"].map fun w => Token.keyword w.toList) : k.Reports gap []
  /-- After `AS` or a point a name is reported where that token ends. -/
  | joined {k : Token} {gap : Text} (h : k = .keyword "AS".toList ∨ k = .symbol '.') :
      k.Reports [] gap
  /-- Anywhere else it is reported where the comments before it end. -/
  | listed {k : Token} {seen unseen : Text}
      (h : k = .symbol ',' ∨
        k ∈ ["JSON", "FROM", "WHERE", "AND", "BY"].map fun w => Token.keyword w.toList)
      (hsplit : Text.EndsComments seen unseen) : k.Reports seen unseen

/-- The place is where names are reported after a token. -/
def Token.ReportsAt (k : Token) (place : Cursor → Nat) : Prop :=
  ∀ c : Cursor, c.skip.rest ≠ [] → ∃ seen unseen,
    c.rest.take (layoutLength c.rest) = seen ++ unseen ∧
      place c = c.position + seen.length ∧ k.Reports seen unseen

namespace Token

variable {k : Token}

theorem reportsAt_skip (h : k ∈ ["SELECT", "DISTINCT"].map fun w => Token.keyword w.toList) :
    k.ReportsAt fun c => c.skip.position := by
  intro c _
  refine ⟨_, [], (List.append_nil _).symm, ?_, .first h⟩
  rw [List.length_take_of_le (layoutLength_le _)]
  rfl

theorem reportsAt_position (h : k = .keyword "AS".toList ∨ k = .symbol '.') :
    k.ReportsAt position := fun _ _ => ⟨[], _, rfl, rfl, .joined h⟩

theorem reportsAt_commentsEnd (h : k = .symbol ',' ∨
    k ∈ ["JSON", "FROM", "WHERE", "AND", "BY"].map fun w => Token.keyword w.toList) :
    k.ReportsAt commentsEnd := by
  intro c hc
  obtain ⟨seen, unseen, htake, hlen, hsplit⟩ := Text.layout_split c.rest hc
  exact ⟨seen, unseen, htake, by rw [commentsEnd, hlen], .listed h hsplit⟩

end Token

/-! ## Names among the tokens -/

namespace Cursor

/-- The tokens `m`, which come next, are a name or a call, and it is reported as the token before
them decides. -/
def Reported (k : Token) (m : List Lexeme) (i : Located) (c : Cursor) : Prop :=
  ∃ seen unseen, c.rest.take (layoutLength c.rest) = seen ++ unseen ∧
    i.start = c.position + seen.length ∧
    (m = [Lexeme.name i.text] ∧ k.Reports seen unseen ∨
      unseen = [] ∧ ∃ x : Call, x.Canonical ∧ x.render = i.text ∧ m = x.lexemes)

/-- The kind of the last token, if there is one. -/
def lastKind (k : Token) (l : List Lexeme) : Token := l.foldl (fun _ x => x.kind) k

theorem lastKind_append (k : Token) (l m : List Lexeme) :
    lastKind k (l ++ m) = lastKind (lastKind k l) m := List.foldl_append

/-- The tokens are read, and the names and calls are among them, each reported as the token before
it decides. -/
def Locates (k : Token) (l : List Lexeme) (c d : Cursor) (is : List Located) : Prop :=
  c.Passes l d ∧ ∀ i ∈ is, ∃ l₁ m l₂ e, l = l₁ ++ (m ++ l₂) ∧ c.Passes l₁ e ∧
    e.Passes (m ++ l₂) d ∧ e.Reported (lastKind k l₁) m i

namespace Locates

variable {k : Token} {l m : List Lexeme} {c d e : Cursor} {is js : List Located}

theorem mark (h : c.Passes l d) : Locates k l c d [] :=
  ⟨h, List.forall_mem_nil _⟩

theorem single {i : Located} (h : c.Passes l d) (hi : c.Reported k l i) : Locates k l c d [i] :=
  ⟨h, List.forall_mem_singleton.2 ⟨[], l, [], c, by simp, rfl, by simpa using h, hi⟩⟩

theorem append (hl : Locates k l c d is) (hm : Locates (lastKind k l) m d e js) :
    Locates k (l ++ m) c e (is ++ js) := by
  refine ⟨passes_append.2 ⟨d, hl.1, hm.1⟩,
    List.forall_mem_append.2 ⟨fun i hi => ?_, fun i hi => ?_⟩⟩
  · obtain ⟨l₁, n, l₂, f, rfl, h₁, h₂, hf⟩ := hl.2 i hi
    exact ⟨l₁, n, l₂ ++ m, f, by simp, h₁, List.append_assoc n l₂ m ▸ passes_append.2 ⟨d, h₂, hm.1⟩,
      hf⟩
  · obtain ⟨l₁, n, l₂, f, rfl, h₁, h₂, hf⟩ := hm.2 i hi
    exact ⟨l ++ l₁, n, l₂, f, by simp, passes_append.2 ⟨d, hl.1, h₁⟩, h₂,
      lastKind_append k l l₁ ▸ hf⟩

theorem after {x : Lexeme} (hx : c.Passes [x] d) (h : Locates x.kind l d e is) :
    Locates k (x :: l) c e is := (mark hx).append h

/-- Where no more names are asked for, in any order. -/
theorem of_subset (h : Locates k l c d is) (hjs : js ⊆ is) : Locates k l c d js :=
  ⟨h.1, fun i hi => h.2 i (hjs hi)⟩

theorem cleans (h : Locates k l c d is) (hc : c.Clean) : d.Clean := hc.passes h.1

end Locates

end Cursor

theorem Text.StandsAsName.skip_ne_nil {t : Text} {c d : Cursor} (h : t.StandsAsName c d) :
    c.skip.rest ≠ [] := by
  intro hnil
  obtain ⟨x, hx, -⟩ := h.next
  rw [Cursor.next, hnil] at hx
  cases hx

theorem Located.read?_locates {k : Token} {place : Cursor → Nat} {c d : Cursor} {i : Located}
    (hk : k.ReportsAt place) (h : read? place c = some (i, d)) :
    Locates k [Lexeme.name i.text] c d [i] := by
  obtain ⟨hname, hstart⟩ := read?_eq_some_iff.1 h
  obtain ⟨seen, unseen, htake, hplace, hsplit⟩ := hk c hname.skip_ne_nil
  exact .single (passes_name.2 hname)
    ⟨seen, unseen, htake, hstart.trans hplace, .inl ⟨rfl, hsplit⟩⟩

/-- Items that locate their names do so one after another. -/
theorem Cursor.MoreStand.locates {α : Type} {separator : Cursor → Option Cursor}
    {stands : α → Cursor → Cursor → Prop} {S : α → List Lexeme → Prop} {sep : Lexeme}
    {names : α → List Located} {k : Token} {as : List α} {c d : Cursor}
    (hsep : ∀ c d, separator c = some d → c.Passes [sep] d)
    (hitem : ∀ a c d, stands a c d → c.Clean → ∃ l, S a l ∧ Locates sep.kind l c d (names a))
    (h : MoreStand separator stands as c d) (hc : c.Clean) :
    ∃ ls, List.Forall₂ S as ls ∧
      Locates k (ls.flatMap (sep :: ·)) c d (as.flatMap names) := by
  induction as generalizing k c with
  | nil => exact ⟨[], .nil, .mark h⟩
  | cons a as ih =>
    obtain ⟨e, f, he, ha, hf⟩ := h
    have he := hsep c e he
    obtain ⟨l, hl, hlocates⟩ := hitem a e f ha (hc.passes he)
    have hitem : Locates k (sep :: l) c f (names a) := .after he hlocates
    obtain ⟨ls, hls, hmore⟩ := ih hf (hitem.cleans hc)
    exact ⟨l :: ls, .cons hl hls, hitem.append hmore⟩

end CqlCanon
