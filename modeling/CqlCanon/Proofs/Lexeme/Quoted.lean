import CqlCanon.Proofs.Lexeme.Adjacent
import CqlCanon.Proofs.Lexeme.Reading

/-!
# Quoted tokens

A name or string in quotes is one token. The quoted tokens of a statement are
what stands in quotes in its names and values, calls and lists included, in the
same order: a scan of these texts for quotes finds them all, and nothing else.
-/

namespace CqlCanon

open Cursor Lexeme

/-! ## The quoted parts of a text -/

namespace Text

/-- What stands in quotes, with the quotes, from left to right. -/
def quotedParts : Text → List Text
  | [] => []
  | x :: t =>
    if x = '"' ∨ x = '\'' then
      match closingLength? x t with
      | some n => (x :: t.take n) :: quotedParts (t.drop n)
      | none => quotedParts t
    else quotedParts t
termination_by t => t.length
decreasing_by
  · simp only [List.length_drop, List.length_cons]
    omega
  · simp
  · simp

/-- The text has no quotes. -/
def Unquoted (t : Text) : Prop := '"' ∉ t ∧ '\'' ∉ t

instance (t : Text) : Decidable t.Unquoted := inferInstanceAs (Decidable (_ ∧ _))

variable {t u r : Text}

theorem unquoted_append (ht : t.Unquoted) (hu : u.Unquoted) : (t ++ u).Unquoted := by
  simp only [Unquoted, List.mem_append, not_or]
  exact ⟨⟨ht.1, hu.1⟩, ht.2, hu.2⟩

theorem unquoted_of_inert (h : inert t = true) : t.Unquoted := by
  induction t with
  | nil => decide
  | cons x t ih =>
    obtain ⟨-, h1, h2, -, -, -, ht⟩ := inert_cons.1 h
    simp [Unquoted, h1.symm, h2.symm, (ih ht).1, (ih ht).2]

@[simp] theorem quotedParts_nil : quotedParts [] = [] := by rw [quotedParts]

theorem quotedParts_append_of_unquoted (h : t.Unquoted) (r : Text) :
    quotedParts (t ++ r) = quotedParts r := by
  induction t with
  | nil => rfl
  | cons x t ih =>
    obtain ⟨h1, h2⟩ := h
    simp only [List.mem_cons, not_or] at h1 h2
    have hx : ¬ (x = '"' ∨ x = '\'') := not_or.2 ⟨Ne.symm h1.1, Ne.symm h2.1⟩
    rw [List.cons_append, quotedParts, if_neg hx, ih ⟨h1.2, h2.2⟩]

/-- A text that is quoted as a whole is a part by itself, unless more of the same quotes follow. -/
theorem quotedParts_append_of_whole {q : Char} (hq : q = '"' ∨ q = '\'')
    (h : (Token.quoted q).Whole t) (hr : r.head? ≠ some q) :
    quotedParts (t ++ r) = t :: quotedParts r := by
  obtain ⟨u, rfl, hu⟩ := h.quoted_cons
  rw [List.cons_append, quotedParts, if_pos hq, closingLength?_append hu hr]
  simp

end Text

/-! ## The quoted tokens -/

/-- The text that is asked for in quotes. -/
def Lexeme.quoted? (x : Lexeme) : Option Text :=
  match x.kind with
  | .quoted _ => x.text?
  | _ => none

/-- The text of a quoted token. -/
def Piece.quoted? (p : Piece) : Option Text :=
  match p.kind with
  | .quoted _ => some p.text
  | _ => none

namespace Lexeme

/-- The texts that are asked for in quotes. -/
def quotedTexts (l : List Lexeme) : List Text := l.filterMap quoted?

variable {l m : List Lexeme}

@[simp] theorem quotedTexts_nil : quotedTexts [] = [] := rfl

@[simp] theorem quotedTexts_symbol (c : Char) (l : List Lexeme) :
    quotedTexts (symbol c :: l) = quotedTexts l := rfl

@[simp] theorem quotedTexts_keyword (w : String) (l : List Lexeme) :
    quotedTexts (keyword w :: l) = quotedTexts l := rfl

@[simp] theorem quotedTexts_append (l m : List Lexeme) :
    quotedTexts (l ++ m) = quotedTexts l ++ quotedTexts m := List.filterMap_append

@[simp] theorem quotedTexts_flag (w : String) (b : Bool) : quotedTexts (flag w b) = [] := by
  cases b <;> rfl

theorem quotedTexts_cons_of_none {x : Lexeme} (hx : x.quoted? = none) (l : List Lexeme) :
    quotedTexts (x :: l) = quotedTexts l := List.filterMap_cons_none hx

theorem quotedTexts_flatMap_cons {sep : Lexeme} (hsep : sep.quoted? = none)
    (ls : List (List Lexeme)) :
    quotedTexts (ls.flatMap (sep :: ·)) = ls.flatMap quotedTexts := by
  induction ls with
  | nil => rfl
  | cons l ls ih =>
    rw [List.flatMap_cons, quotedTexts_append, quotedTexts_cons_of_none hsep, ih, List.flatMap_cons]

theorem quotedTexts_separated {sep : Lexeme} (hsep : sep.quoted? = none) (ls : List (List Lexeme)) :
    quotedTexts (separated sep ls) = ls.flatMap quotedTexts := by
  cases ls with
  | nil => rfl
  | cons l ls =>
    rw [separated, quotedTexts_append, quotedTexts_flatMap_cons hsep, List.flatMap_cons]

end Lexeme

/-! ## Terms and calls -/

namespace Text

/-- The quoted parts of the text are the quoted ones of the tokens, whatever breaks off after it. -/
def Quotes (t : Text) (l : List Lexeme) : Prop :=
  ∀ r : Text, r.Breaks → quotedParts (t ++ r) = quotedTexts l ++ quotedParts r

namespace Quotes

variable {t u : Text} {l m : List Lexeme}

theorem quotedParts_eq (h : t.Quotes l) : t.quotedParts = quotedTexts l := by
  simpa using h [] .nil

theorem of_unquoted (ht : t.Unquoted) (hl : quotedTexts l = []) : t.Quotes l := fun r _ => by
  rw [quotedParts_append_of_unquoted ht, hl, List.nil_append]

theorem of_whole {q : Char} (hq : q = '"' ∨ q = '\'') (h : (Token.quoted q).Whole t) :
    t.Quotes [⟨.quoted q, some t⟩] := fun r hr => by
  refine quotedParts_append_of_whole hq h ?_
  rcases hq with rfl | rfl <;> exact hr.head_ne (by decide)

theorem unquoted_append (h : u.Quotes l) (ht : t.Unquoted) (hm : quotedTexts m = []) :
    (t ++ u).Quotes (m ++ l) := fun r hr => by
  rw [List.append_assoc, quotedParts_append_of_unquoted ht, h r hr, quotedTexts_append, hm,
    List.nil_append]

theorem append_closing (h : u.Quotes l) : (u ++ [')']).Quotes (l ++ [symbol ')']) := fun r hr => by
  rw [List.append_assoc, h ([')'] ++ r) (.cons (by simp)),
    quotedParts_append_of_unquoted (by decide)]
  simp

theorem name (h : t.IsNameToken) : t.Quotes [Lexeme.name t] := by
  rcases h with h | ⟨h, -⟩
  · have hx := (Token.quotedLength?_eq_some_iff.1 h).1
    rw [Lexeme.name, if_pos hx]
    exact of_whole (.inl rfl) h
  · rw [Lexeme.name, if_neg (nameForm_head_ne h)]
    exact of_unquoted (unquoted_of_inert ((Token.whole_word_iff.2 h).inert trivial)) rfl

theorem intercalate {α : Type} {f : α → Text} {g : α → List Lexeme} {as : List α}
    (h : ∀ a ∈ as, (f a).Quotes (g a)) :
    Text.Quotes (List.intercalate ", ".toList (as.map f)) (separated (symbol ',') (as.map g)) := by
  have more : ∀ as : List α, (∀ a ∈ as, (f a).Quotes (g a)) →
      Text.Quotes (as.flatMap fun a => ", ".toList ++ f a) ((as.map g).flatMap (symbol ',' :: ·)) := by
    intro as h r hr
    induction as with
    | nil => rfl
    | cons a as ih =>
      have hbreaks := breaks_flatMap (fun r => comma_separates.breaks r) f as hr
      rw [List.flatMap_cons, List.append_assoc, List.append_assoc,
        quotedParts_append_of_unquoted (by decide), h a (by simp) _ hbreaks,
        ih fun b hb => h b (by simp [hb])]
      simp
  cases as with
  | nil => exact fun _ _ => rfl
  | cons a as =>
    intro r hr
    have hbreaks := breaks_flatMap (fun r => comma_separates.breaks r) f as hr
    rw [Text.intercalate_map_cons, List.append_assoc, h a (by simp) _ hbreaks,
      more as (fun b hb => h b (by simp [hb])) r hr]
    simp [separated]

end Quotes

end Text

theorem Term.Canonical.quotes {t : Term} (h : t.Canonical) : t.render.Quotes t.lexemes := by
  induction t using Term.induction with
  | number t =>
    obtain ⟨h⟩ := h
    exact .of_unquoted (Text.unquoted_of_inert (h.inert trivial)) rfl
  | string t =>
    obtain _ | ⟨h, -⟩ := h
    exact .of_whole (.inr rfl) h
  | positional => exact .of_unquoted (by decide) rfl
  | bind t =>
    obtain _ | _ | _ | h := h
    exact .of_unquoted (Text.unquoted_of_inert (h.inert trivial)) rfl
  | constant k => exact .of_unquoted (by cases k <;> decide) rfl
  | list ts ih =>
    obtain _ | _ | _ | _ | _ | h := h
    rw [render, lexemes, renderAll_eq_map, lexemesAll_eq_map]
    have items := Text.Quotes.intercalate fun t ht => ih t ht (h t ht)
    exact (items.unquoted_append (t := ['(']) (m := [symbol '(']) (by decide) rfl).append_closing

theorem Call.canonical_quotes : (∀ x : Call, x.Canonical → x.render.Quotes x.lexemes) ∧
    ∀ a : Argument, a.Canonical → a.render.Quotes a.lexemes := by
  have function : ∀ {f : Text}, Identifier.isNameForm f = true → f.Unquoted := fun hf =>
    Text.unquoted_of_inert ((Token.whole_word_iff.2 hf).inert trivial)
  apply Call.induction
  case star =>
    rintro f ⟨hf⟩
    exact .of_unquoted (Text.unquoted_append (function hf) (by decide)) rfl
  case apply =>
    rintro f as ih (_ | ⟨hf, has⟩)
    rw [Call.render, Call.lexemes, Argument.renderAll_eq_map, Argument.lexemesAll_eq_map]
    have items := Text.Quotes.intercalate fun a ha => ih a ha (has a ha)
    have opened := items.unquoted_append (t := ['(']) (m := [symbol '(']) (by decide) rfl
    exact (opened.unquoted_append (m := [⟨.word, some f⟩]) (function hf) rfl).append_closing
  case call =>
    rintro x ih ⟨hx⟩
    exact ih hx
  case term =>
    rintro t (_ | ht)
    exact ht.quotes
  case name =>
    rintro t (_ | _ | ht)
    exact .name ht.name

/-! ## The texts of a statement -/

def Selector.texts : Selector Text → List Text
  | star => []
  | column n | function n => n.name :: n.alias?.toList

/-- The names and values that a statement holds, in the order in which they are written. -/
def Statement.texts (s : Statement Text) : List Text :=
  s.columns.flatMap Selector.texts ++ s.table.identifiers ++
    s.relations.flatMap (fun r => [r.column, r.value]) ++ (s.order.getD []).map OrderKey.column

namespace Lexeme

/-- All names among the tokens are read as names. -/
def NamesRead (l : List Lexeme) : Prop := ∀ t, Lexeme.name t ∈ l → t.IsNameToken

variable {l m : List Lexeme}

theorem NamesRead.of_append (h : NamesRead (l ++ m)) : NamesRead l ∧ NamesRead m :=
  ⟨fun t ht => h t (List.mem_append_left m ht), fun t ht => h t (List.mem_append_right l ht)⟩

theorem NamesRead.of_cons {x : Lexeme} (h : NamesRead (x :: l)) : NamesRead l :=
  (of_append (l := [x]) h).2

theorem NamesRead.of_name {t : Text} (h : NamesRead (Lexeme.name t :: l)) :
    quotedTexts (Lexeme.name t :: l) = t.quotedParts ++ quotedTexts l := by
  rw [(Text.Quotes.name (h t List.mem_cons_self)).quotedParts_eq, ← quotedTexts_append]
  rfl

/-- What is known of the quoted tokens of each part is known of all parts of a list. -/
theorem NamesRead.of_separated {α : Type} {S : α → List Lexeme → Prop} {g : α → List Text}
    {sep : Lexeme} {as : List α} {ls : List (List Lexeme)} (hn : NamesRead (separated sep ls))
    (hsep : sep.quoted? = none) (h : List.Forall₂ S as ls)
    (hS : ∀ a l, S a l → NamesRead l → quotedTexts l = (g a).flatMap Text.quotedParts) :
    quotedTexts (separated sep ls) = (as.flatMap g).flatMap Text.quotedParts := by
  replace hn : ∀ l ∈ ls, NamesRead l := fun l hl t ht => hn t (mem_separated hl ht)
  rw [quotedTexts_separated hsep]
  induction h with
  | nil => rfl
  | cons ha _ ih =>
    rw [List.flatMap_cons, List.flatMap_cons, List.flatMap_append, hS _ _ ha (hn _ (by simp)),
      ih fun l hl => hn l (by simp [hl])]

end Lexeme

theorem Named.aliasLexemes_quotedTexts {o : Option Text} (hn : NamesRead (aliasLexemes o)) :
    quotedTexts (aliasLexemes o) = o.toList.flatMap Text.quotedParts := by
  cases o with
  | none => rfl
  | some t =>
    rw [aliasLexemes, quotedTexts_keyword, hn.of_cons.of_name]
    simp

namespace Selector

theorem Spelled.quotedTexts {s : Selector Text} {l : List Lexeme} (h : s.Spelled l)
    (hn : NamesRead l) : quotedTexts l = s.texts.flatMap Text.quotedParts := by
  cases s with
  | star => cases h
  | column n =>
    obtain rfl := h
    rw [hn.of_name, Named.aliasLexemes_quotedTexts hn.of_cons, texts, List.flatMap_cons]
  | function n =>
    obtain ⟨x, hx, hname, rfl⟩ := h
    rw [quotedTexts_append, ← (Call.canonical_quotes.1 x hx).quotedParts_eq, hname,
      Named.aliasLexemes_quotedTexts hn.of_append.2, texts, List.flatMap_cons]

theorem AllSpelled.quotedTexts {ss : List (Selector Text)} {l : List Lexeme}
    (h : AllSpelled ss l) (hn : NamesRead l) :
    quotedTexts l = (ss.flatMap texts).flatMap Text.quotedParts := by
  rcases h with ⟨rfl, rfl⟩ | ⟨-, ls, hls, rfl⟩
  · rfl
  · exact hn.of_separated rfl hls fun _ _ => Spelled.quotedTexts

end Selector

theorem TableName.quotedTexts {t : TableName Text} (hn : NamesRead t.lexemes) :
    quotedTexts t.lexemes = t.identifiers.flatMap Text.quotedParts := by
  obtain ⟨name, keyspace⟩ := t
  cases keyspace with
  | none =>
    rw [lexemes, hn.of_name]
    rfl
  | some k =>
    rw [lexemes, hn.of_name, quotedTexts_symbol, hn.of_cons.of_cons.of_name]
    simp [identifiers]

namespace Relation

theorem operatorLexemes_quotedTexts (o : Text) : quotedTexts (operatorLexemes o) = [] := by
  unfold operatorLexemes operatorWords
  split_ifs <;> rfl

theorem Spelled.quotedTexts {r : Relation Text} {l : List Lexeme} (h : r.Spelled l)
    (hn : NamesRead l) : quotedTexts l = [r.column, r.value].flatMap Text.quotedParts := by
  obtain ⟨v, hv, hvalue, rfl⟩ := h
  rw [hn.of_name, quotedTexts_append, operatorLexemes_quotedTexts, ← hv.quotes.quotedParts_eq, hvalue]
  simp

theorem AllSpelled.quotedTexts {rs : List (Relation Text)} {l : List Lexeme}
    (h : AllSpelled rs l) (hn : NamesRead l) :
    quotedTexts l = (rs.flatMap fun r => [r.column, r.value]).flatMap Text.quotedParts := by
  rcases h with ⟨rfl, rfl⟩ | ⟨-, ls, hls, rfl⟩
  · rfl
  · exact hn.of_cons.of_separated rfl hls fun _ _ => Spelled.quotedTexts

end Relation

namespace OrderKey

theorem Spelled.quotedTexts {k : OrderKey Text} {l : List Lexeme} (h : k.Spelled l)
    (hn : NamesRead l) : quotedTexts l = [k.column].flatMap Text.quotedParts := by
  obtain ⟨written, -, rfl⟩ := h
  rw [hn.of_name, quotedTexts_flag]
  simp

theorem AllSpelled.quotedTexts {o : Option (List (OrderKey Text))} {l : List Lexeme}
    (h : AllSpelled o l) (hn : NamesRead l) :
    quotedTexts l = ((o.getD []).map OrderKey.column).flatMap Text.quotedParts := by
  cases o with
  | none =>
    obtain rfl := h
    rfl
  | some ks =>
    obtain ⟨-, ls, hls, rfl⟩ := h
    rw [quotedTexts_keyword, quotedTexts_keyword, Option.getD_some, List.map_eq_flatMap]
    exact hn.of_cons.of_cons.of_separated rfl hls fun _ _ => Spelled.quotedTexts

end OrderKey

namespace Statement

variable {s : Statement Text} {l : List Lexeme} {t tail : Text} {ps : List Piece}

theorem EndSpelled.quotedTexts (h : s.EndSpelled l) : quotedTexts l = [] := by
  obtain ⟨limit, semicolon, hlimit, rfl⟩ := h
  have hlimit : quotedTexts limit = [] := by
    rcases hlimit.shape with rfl | ⟨digits, rfl⟩ <;> rfl
  rw [quotedTexts_append, hlimit]
  cases s.filtering <;> cases semicolon <;> rfl

/-- The quoted tokens of a statement are what stands in quotes in its names and values. -/
theorem Spelled.quotedTexts (h : s.Spelled l) (hn : NamesRead l) :
    quotedTexts l = s.texts.flatMap Text.quotedParts := by
  obtain ⟨_, _, rest, ⟨columns, hcolumns, rfl⟩, ⟨relations, order, hr, ho, rfl⟩, hend, rfl⟩ := h
  obtain ⟨hhead, hclauses⟩ := hn.of_append
  obtain ⟨hrn, hon⟩ := hclauses.of_append.1.of_append
  obtain ⟨hcn, htable⟩ := hhead.of_cons.of_append.2.of_append.2.of_append
  simp only [quotedTexts_append, quotedTexts_keyword, quotedTexts_flag, List.nil_append,
    hcolumns.quotedTexts hcn, TableName.quotedTexts htable.of_cons, hr.quotedTexts hrn,
    ho.quotedTexts hon, hend.quotedTexts, List.append_nil, texts, List.flatMap_append,
    List.append_assoc]

end Statement

/-! ## Readings -/

theorem Lexeme.quotedTexts_of_fits {l : List Lexeme} {ps : List Piece} (hl : Alternating l)
    (hfit : List.Forall₂ Fits l ps) : quotedTexts l = ps.filterMap Piece.quoted? := by
  induction hfit with
  | nil => rfl
  | @cons x p l ps hx _ ih =>
    have hquoted : x.quoted? = p.quoted? := by
      rw [quoted?, Piece.quoted?, hx.1]
      cases hk : x.kind with
      | quoted q =>
        have hask := hl.asks x (by simp)
        rw [hk] at hask
        obtain ⟨t, ht⟩ := Option.isSome_iff_exists.1 (hask.resolve_left Bool.false_ne_true).2
        rw [ht, hx.2 t ht]
      | _ => rfl
    rw [quotedTexts, List.filterMap_cons, List.filterMap_cons, hquoted, ← ih hl.tail]
    rfl

/-- In a reading of a statement the quoted tokens are what stands in quotes in its names and
values, in the same order. -/
theorem Statement.Reading.quotedParts {s : Statement Text} {t tail : Text} {ps : List Piece}
    (h : s.Reading t ps tail) :
    s.texts.flatMap Text.quotedParts = ps.filterMap Piece.quoted? := by
  obtain ⟨l, d, hl, hfit, hps, -, hd⟩ := h
  have hnames : NamesRead l := fun t ht => (hps.passes hfit).isNameToken hl.alternating
    (parted_start _) (not_stuck_of_end hd) ht
  rw [← hl.quotedTexts hnames, quotedTexts_of_fits hl.alternating hfit]

end CqlCanon
