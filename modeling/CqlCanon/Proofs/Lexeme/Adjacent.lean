import CqlCanon.Proofs.Lexeme.Statement
import Mathlib.Data.List.Chain

/-!
# Neighbouring tokens

Of two neighbouring tokens of a statement one is a mark: a key word or a sign.
A mark does not touch what is before or after it, so no word goes on from one
token into the next, and every name that is read is one wherever it stands.
-/

namespace CqlCanon

open Cursor Lexeme

/-! ## Marks and values -/

namespace Token

/-- The symbols of statements. -/
def signs : List Char := ['(', ')', ',', '*', '?', ';', '.']

/-- Key words and signs. No key word starts with `E`, which could go on with a number. -/
def isMark : Token → Bool
  | keyword w => w ≠ [] && w.all Char.isUpper && w.head? ≠ some 'E'
  | symbol s => signs.contains s
  | comparison => true
  | word | plainName | quoted _ | number | integer | bindMarker => false

/-- Names, numbers and what is written like them. -/
def isValue : Token → Bool
  | word | plainName | number | integer | bindMarker => true
  | quoted q => q = '"' || q = '\''
  | _ => false

/-- What holds of all signs holds of a symbol that is a mark. -/
theorem sign_of_isMark {s : Char} (P : Char → Prop) [DecidablePred P]
    (h : (symbol s).isMark = true) (hP : signs.all P = true) : P s :=
  of_decide_eq_true (List.all_eq_true.1 hP s (List.contains_iff_mem.1 h))

theorem quote_of_sorts {q : Char} (h : (quoted q).isMark = true ∨ (quoted q).isValue = true) :
    q = '"' ∨ q = '\'' := by
  simpa [isMark, isValue] using h

theorem isMark_ne_number {k : Token} (h : k.isMark = true) : k ≠ number := by
  rintro rfl
  cases h

end Token

namespace Lexeme

/-- The tokens may be neighbours: one is a mark, and no number comes before a point. -/
def Meets (x y : Lexeme) : Prop :=
  (x.kind.isMark = true ∨ y.kind.isMark = true) ∧ (y.kind = .symbol '.' → x.kind ≠ .number)

/-- Marks, and values that are asked for with their texts, in an order in which they may be
neighbours. -/
structure Alternating (l : List Lexeme) : Prop where
  asks : ∀ x ∈ l, x.kind.isMark = true ∨ x.kind.isValue = true ∧ x.text?.isSome = true
  chain : l.IsChain Meets

/-- The tokens may follow any others: the first is a mark other than a point. -/
def Led (l : List Lexeme) : Prop := ∀ x ∈ l.head?, x.kind.isMark = true ∧ x.kind ≠ .symbol '.'

theorem Led.nil : Led [] := fun _ h => nomatch h

theorem Led.cons {x : Lexeme} {l : List Lexeme} (h : x.kind.isMark = true ∧ x.kind ≠ .symbol '.') :
    Led (x :: l) := by
  intro y hy
  obtain rfl : x = y := by simpa using hy
  exact h

theorem Led.append {l m : List Lexeme} (hl : Led l) (hm : Led m) : Led (l ++ m) := by
  cases l with
  | nil => exact hm
  | cons x l => exact .cons (hl x rfl)

namespace Alternating

theorem nil : Alternating [] := ⟨List.forall_mem_nil _, .nil⟩

theorem sorts {l : List Lexeme} (h : Alternating l) :
    ∀ x ∈ l, x.kind.isMark = true ∨ x.kind.isValue = true :=
  fun x hx => (h.asks x hx).imp_right And.left

theorem tail {x : Lexeme} {l : List Lexeme} (h : Alternating (x :: l)) : Alternating l :=
  ⟨fun y hy => h.asks y (List.mem_cons_of_mem x hy), h.chain.tail⟩

theorem of_append {l m : List Lexeme} (h : Alternating (l ++ m)) : Alternating l ∧ Alternating m :=
  ⟨⟨fun x hx => h.asks x (List.mem_append_left m hx), h.chain.left_of_append⟩,
    fun x hx => h.asks x (List.mem_append_right l hx), h.chain.right_of_append⟩

theorem append {l m : List Lexeme} (hl : Alternating l) (hm : Alternating m) (h : Led m) :
    Alternating (l ++ m) where
  asks x hx := (List.mem_append.1 hx).elim (hl.asks x) (hm.asks x)
  chain := hl.chain.append hm.chain fun _ _ y hy => ⟨.inr (h y hy).1, fun e => absurd e (h y hy).2⟩

theorem mark {x : Lexeme} {l : List Lexeme} (hx : x.kind.isMark = true) (hl : Alternating l) :
    Alternating (x :: l) where
  asks y hy := (List.mem_cons.1 hy).elim (fun e => e ▸ .inl hx) (hl.asks y)
  chain := List.isChain_cons.2 ⟨fun _ _ => ⟨.inl hx, fun _ => Token.isMark_ne_number hx⟩, hl.chain⟩

theorem value {k : Token} {t : Text} {l : List Lexeme} (hk : k.isValue = true)
    (hl : Alternating l) (h : Led l) : Alternating (⟨k, some t⟩ :: l) :=
  append (l := [⟨k, some t⟩])
    ⟨fun y hy => by rw [List.mem_singleton.1 hy]; exact .inr ⟨hk, rfl⟩, .singleton _⟩ hl h

theorem marks {l m : List Lexeme} (h : ∀ x ∈ l, x.kind.isMark = true) (hm : Alternating m) :
    Alternating (l ++ m) := by
  induction l with
  | nil => exact hm
  | cons x l ih => exact mark (h x (by simp)) (ih fun y hy => h y (by simp [hy]))

theorem flag {w : String} (hw : (keyword w).kind.isMark = true) (b : Bool) {l : List Lexeme}
    (hl : Alternating l) : Alternating (Lexeme.flag w b ++ l) := by
  cases b with
  | false => exact hl
  | true => exact mark hw hl

theorem separated {sep : Lexeme} (hsep : sep.kind.isMark = true ∧ sep.kind ≠ .symbol '.')
    {ls : List (List Lexeme)} (h : ∀ l ∈ ls, Alternating l) :
    Alternating (Lexeme.separated sep ls) := by
  have more : ∀ {ls : List (List Lexeme)}, (∀ l ∈ ls, Alternating l) →
      Alternating (ls.flatMap (sep :: ·)) ∧ Led (ls.flatMap (sep :: ·)) := by
    intro ls h
    induction ls with
    | nil => exact ⟨nil, .nil⟩
    | cons l ls ih =>
      obtain ⟨hls, hled⟩ := ih fun m hm => h m (by simp [hm])
      exact ⟨(mark hsep.1 (h l (by simp))).append hls hled, .cons hsep⟩
  cases ls with
  | nil => exact nil
  | cons l ls =>
    obtain ⟨hls, hled⟩ := more fun m hm => h m (List.mem_cons_of_mem l hm)
    exact (h l (by simp)).append hls hled

theorem of_forall₂ {α : Type} {S : α → List Lexeme → Prop} (hS : ∀ a l, S a l → Alternating l)
    {as : List α} {ls : List (List Lexeme)} (h : List.Forall₂ S as ls) :
    ∀ l ∈ ls, Alternating l := by
  induction h with
  | nil => exact List.forall_mem_nil _
  | cons ha _ ih => exact fun l hl => (List.mem_cons.1 hl).elim (fun e => e ▸ hS _ _ ha) (ih l)

theorem name (t : Text) {l : List Lexeme} (hl : Alternating l) (h : Led l) :
    Alternating (Lexeme.name t :: l) := by
  refine value ?_ hl h
  split <;> rfl

end Alternating

end Lexeme

/-! ## Statements -/

theorem Term.alternating (t : Term) : Alternating t.lexemes := by
  induction t using Term.induction with
  | positional => exact .mark (by decide) .nil
  | constant k => exact .mark (by cases k <;> decide) .nil
  | list ts ih =>
    rw [lexemes, lexemesAll_eq_map]
    exact .mark (by decide) ((Alternating.separated (by decide) (by simpa using ih)).append
      (.mark (by decide) .nil) (.cons (by decide)))
  | _ => exact .value rfl .nil .nil

theorem Call.alternating : (∀ x : Call, Alternating x.lexemes) ∧
    ∀ a : Argument, Alternating a.lexemes := by
  apply Call.induction
  case star =>
    exact fun f => .value rfl (.mark (by decide) (.mark (by decide) (.mark (by decide) .nil)))
      (.cons (by decide))
  case apply =>
    intro f as ih
    rw [Call.lexemes, Argument.lexemesAll_eq_map]
    exact .value rfl (.mark (by decide) ((Alternating.separated (by decide) (by simpa using ih)).append
      (.mark (by decide) .nil) (.cons (by decide)))) (.cons (by decide))
  case call => exact fun _ h => h
  case term => exact Term.alternating
  case name => exact fun t => .name t .nil .nil

theorem Named.aliasLexemes_alternating (o : Option Text) :
    Alternating (aliasLexemes o) ∧ Led (aliasLexemes o) := by
  cases o with
  | none => exact ⟨.nil, .nil⟩
  | some t => exact ⟨.mark (by decide) (.name t .nil .nil), .cons (by decide)⟩

namespace Selector

theorem Spelled.alternating {s : Selector Text} {l : List Lexeme} (h : s.Spelled l) :
    Alternating l := by
  cases s with
  | star => cases h
  | column n =>
    obtain rfl := h
    obtain ⟨ha, hled⟩ := Named.aliasLexemes_alternating n.alias?
    exact .name n.name ha hled
  | function n =>
    obtain ⟨x, -, -, rfl⟩ := h
    obtain ⟨ha, hled⟩ := Named.aliasLexemes_alternating n.alias?
    exact (Call.alternating.1 x).append ha hled

theorem AllSpelled.alternating {ss : List (Selector Text)} {l : List Lexeme} (h : AllSpelled ss l) :
    Alternating l := by
  rcases h with ⟨-, rfl⟩ | ⟨-, ls, hls, rfl⟩
  · exact .mark (by decide) .nil
  · exact .separated (by decide) (.of_forall₂ (fun _ _ => Spelled.alternating) hls)

end Selector

theorem TableName.alternating (t : TableName Text) : Alternating t.lexemes := by
  obtain ⟨name, keyspace⟩ := t
  cases keyspace with
  | none => exact .name name .nil .nil
  | some k =>
    have hname : Alternating [Lexeme.name name] := .name name .nil .nil
    have hkeyspace : Alternating [Lexeme.name k] := .name k .nil .nil
    refine ⟨fun x hx => ?_, List.isChain_cons_cons.2 ⟨⟨.inr (by decide), fun _ => ?_⟩,
      (Alternating.mark (x := symbol '.') (by decide) hname).chain⟩⟩
    · rcases List.mem_cons.1 hx with rfl | hx
      · exact hkeyspace.asks _ (by simp)
      · exact (Alternating.mark (x := symbol '.') (by decide) hname).asks x hx
    · unfold Lexeme.name
      split <;> simp

namespace Relation

theorem operatorLexemes_marks (o : Text) :
    (∀ x ∈ operatorLexemes o, x.kind.isMark = true) ∧ ∀ l, Led (operatorLexemes o ++ l) := by
  unfold operatorLexemes operatorWords
  split_ifs
  all_goals exact ⟨by simp only [List.map_cons, List.map_nil, List.mem_cons, List.not_mem_nil,
    or_false, forall_eq_or_imp, forall_eq]; decide, fun l => .cons ⟨rfl, nofun⟩⟩

theorem Spelled.alternating {r : Relation Text} {l : List Lexeme} (h : r.Spelled l) :
    Alternating l := by
  obtain ⟨v, -, -, rfl⟩ := h
  obtain ⟨hmarks, hled⟩ := operatorLexemes_marks r.operator
  exact .name r.column (.marks hmarks v.alternating) (hled _)

theorem AllSpelled.alternating {rs : List (Relation Text)} {l : List Lexeme} (h : AllSpelled rs l) :
    Alternating l ∧ Led l := by
  rcases h with ⟨-, rfl⟩ | ⟨-, ls, hls, rfl⟩
  · exact ⟨.nil, .nil⟩
  · exact ⟨.mark (by decide) (.separated (by decide)
      (.of_forall₂ (fun _ _ => Spelled.alternating) hls)), .cons (by decide)⟩

end Relation

namespace OrderKey

theorem Spelled.alternating {k : OrderKey Text} {l : List Lexeme} (h : k.Spelled l) :
    Alternating l := by
  obtain ⟨written, -, rfl⟩ := h
  cases written with
  | false => exact .name k.column .nil .nil
  | true => cases k.descending <;> exact .name k.column (.mark (by decide) .nil) (.cons (by decide))

theorem AllSpelled.alternating {o : Option (List (OrderKey Text))} {l : List Lexeme}
    (h : AllSpelled o l) : Alternating l ∧ Led l := by
  cases o with
  | none =>
    obtain rfl := h
    exact ⟨.nil, .nil⟩
  | some ks =>
    obtain ⟨-, ls, hls, rfl⟩ := h
    exact ⟨.mark (by decide) (.mark (by decide) (.separated (by decide)
      (.of_forall₂ (fun _ _ => Spelled.alternating) hls))), .cons (by decide)⟩

end OrderKey

namespace Statement

variable {s : Statement Text} {l : List Lexeme}

theorem HeadSpelled.alternating (h : s.HeadSpelled l) : Alternating l := by
  obtain ⟨columns, hcolumns, rfl⟩ := h
  exact .mark (by decide) (.flag (by decide) _ (.flag (by decide) _
    (hcolumns.alternating.append (.mark (by decide) s.table.alternating) (.cons (by decide)))))

theorem ClausesSpelled.alternating (h : s.ClausesSpelled l) : Alternating l ∧ Led l := by
  obtain ⟨relations, order, hr, ho, rfl⟩ := h
  obtain ⟨hr, hrled⟩ := hr.alternating
  obtain ⟨ho, holed⟩ := ho.alternating
  exact ⟨hr.append ho holed, hrled.append holed⟩

theorem EndSpelled.alternating (h : s.EndSpelled l) : Alternating l ∧ Led l := by
  obtain ⟨limit, semicolon, hlimit, rfl⟩ := h
  have hlimit : Alternating limit ∧ Led limit := by
    rcases hlimit.shape with rfl | ⟨digits, rfl⟩
    · exact ⟨.nil, .nil⟩
    · exact ⟨.mark (by decide) (.value rfl .nil .nil), .cons (by decide)⟩
  have hrest : Alternating ((if s.filtering then [keyword "ALLOW", keyword "FILTERING"] else []) ++
      if semicolon then [symbol ';'] else []) ∧
      Led ((if s.filtering then [keyword "ALLOW", keyword "FILTERING"] else []) ++
        if semicolon then [symbol ';'] else []) := by
    cases s.filtering <;> cases semicolon
    · exact ⟨.nil, .nil⟩
    · exact ⟨.mark (by decide) .nil, .cons (by decide)⟩
    · exact ⟨.mark (by decide) (.mark (by decide) .nil), .cons (by decide)⟩
    · exact ⟨.mark (by decide) (.mark (by decide) (.mark (by decide) .nil)), .cons (by decide)⟩
  exact ⟨hlimit.1.append hrest.1 hrest.2, hlimit.2.append hrest.2⟩

/-- In the tokens of a statement one of two neighbours is a mark. -/
theorem Spelled.alternating (h : s.Spelled l) : Alternating l := by
  obtain ⟨head, clauses, rest, hhead, hclauses, hend, rfl⟩ := h
  obtain ⟨hclauses, hcled⟩ := hclauses.alternating
  obtain ⟨hend, heled⟩ := hend.alternating
  exact hhead.alternating.append (hclauses.append hend heled) (hcled.append heled)

end Statement

/-! ## Between tokens -/

namespace Cursor

variable {c d : Cursor} {k : Token} {t : Text}

theorem parted_start (t : Text) : (start t).Parted := .inl rfl

theorem not_stuck_of_mark (h : c.token? k = some (t, d)) (hk : k.isMark = true) : ¬ c.Stuck := by
  intro hs
  obtain ⟨x, hx, hw⟩ := hs.next
  cases k with
  | keyword w =>
    have hd := keyword?_of_token? h
    rw [hs.keyword?] at hd
    cases hd
  | symbol s =>
    have hd := symbol?_of_token? h
    rw [hs.symbol? (Token.sign_of_isMark (Text.isWordLike · = false) hk (by decide))] at hd
    cases hd
  | comparison =>
    obtain ⟨y, hy, hstart⟩ := next_of_token? h (by simp)
    rw [hx] at hy
    cases hy
    rcases hstart with rfl | rfl | rfl | rfl <;> exact absurd hw (by decide)
  | _ => cases hk

theorem not_stuck_of_end (h : c.skip.rest = []) : ¬ c.Stuck := by
  intro hs
  obtain ⟨x, hx, -⟩ := hs.next
  simp [next, h] at hx

theorem parted_of_mark (h : c.token? k = some (t, d)) (hk : k.isMark = true) : d.Parted := by
  cases k with
  | keyword w =>
    obtain ⟨-, -, hafter, rfl⟩ := keyword?_eq_some_iff.1 (keyword?_of_token? h)
    exact .inr hafter
  | symbol s =>
    have hsign := Token.sign_of_isMark (Text.isKeywordChar · = false) hk (by decide)
    exact .inl (fresh_of_symbol? (symbol?_of_token? h) hsign)
  | comparison =>
    obtain ⟨n, hn, -, rfl⟩ := token?_eq_some_iff.1 h
    left
    simp only [Token.length?] at hn
    unfold comparisonLength? at hn
    split at hn <;> cases hn <;>
    · rename_i hr
      simp only [advance, hr, List.take_succ_cons, List.take_zero, List.getLast?_cons_cons,
        List.getLast?_singleton, Option.some_or, Option.any_some]
      decide
  | _ => cases hk

theorem Parted.fresh_skip (hc : c.Parted) {x : Char} (hx : c.next = some x)
    (hkey : Text.isKeywordChar x = true) : c.skip.Fresh := by
  refine Cursor.fresh_skip (fun h0 => ?_) (by simp [hx])
  rw [next, skip_of_layoutLength h0] at hx
  refine hc.resolve_right fun h => ?_
  rw [hx, Option.any_some, hkey] at h
  cases h

/-- A name between cursors that no word goes across is read as it is anywhere. -/
theorem isNameToken_of_parted (h : t.StandsAsName c d) (hc : c.Parted) (hd : d.Parted) :
    t.IsNameToken := by
  rcases h with hq | hn
  · exact .inl (whole_of_token? (.inl rfl) hq)
  obtain ⟨x, hx, hletter⟩ := next_of_token? hn (by simp)
  have hkey := Text.isKeywordChar_of_isNameChar (Text.isNameChar_of_isLetter hletter)
  exact Text.StandsAsName.isNameToken (.inr hn) (hc.fresh_skip hx hkey) hd

theorem isReserved_of_parted (h : c.token? .plainName = some (t, d)) (hc : c.Parted)
    (hd : d.Parted) : isReserved t = false := by
  rcases isNameToken_of_parted (.inr h) hc hd with hq | ⟨-, hres⟩
  · have hform := Token.whole_word_iff.1 (whole_of_token? trivial (word_of_plainName h))
    exact absurd (Token.quotedLength?_eq_some_iff.1 hq).1 (Text.nameForm_head_ne hform)
  · exact hres

theorem Passes.not_stuck {x : Lexeme} {l : List Lexeme} (hl : Alternating (x :: l))
    (hx : x.kind.isMark = false) (h : c.Passes l d) (hd : l = [] → ¬ d.Stuck) : ¬ c.Stuck := by
  cases l with
  | nil => exact (show c = d from h) ▸ hd rfl
  | cons y l =>
    obtain ⟨u, e, he, -⟩ := h
    refine not_stuck_of_mark he ((List.isChain_cons_cons.1 hl.chain).1.1.resolve_left ?_)
    rw [hx]
    exact Bool.false_ne_true

theorem Passes.parted {x : Lexeme} {l : List Lexeme} {e : Cursor} (hl : Alternating (x :: l))
    (hx : c.token? x.kind = some (t, e)) (h : e.Passes l d) (hd : l = [] → ¬ d.Stuck) :
    e.Parted := by
  cases hmark : x.kind.isMark with
  | true => exact parted_of_mark hx hmark
  | false => exact parted_of_not_stuck (h.not_stuck hl hmark hd)

theorem Passes.isNameToken {l : List Lexeme} (hl : Alternating l) (h : c.Passes l d)
    (hc : c.Parted) (hd : ¬ d.Stuck) (ht : Lexeme.name t ∈ l) : t.IsNameToken := by
  induction l generalizing c with
  | nil => cases ht
  | cons x l ih =>
    obtain ⟨e, he, hrest⟩ := passes_cons.1 h
    obtain ⟨u, f, hu, hfit, rfl⟩ := he
    have hparted := hrest.parted hl hu fun _ => hd
    rcases List.mem_cons.1 ht with rfl | ht
    · exact isNameToken_of_parted (passes_name.1 ⟨u, f, hu, hfit, rfl⟩) hc hparted
    · exact ih hl.tail hrest hparted ht

end Cursor

end CqlCanon
