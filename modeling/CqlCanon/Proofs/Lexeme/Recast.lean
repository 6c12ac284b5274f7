import CqlCanon.Proofs.Lexeme.Adjacent
import CqlCanon.Proofs.Written.WellFormed

/-!
# Statements with other tokens

If each token of a statement is kept, or gets another text that its kind
admits, the tokens spell a statement again. The `view` of a statement applies
functions to its names, calls and values: what these functions do not tell
apart among tokens, they do not tell apart among the two statements.
-/

namespace CqlCanon

open Lexeme

/-! ## Views -/

section View

variable {ν μ κ : Type} (name call : ν → μ) (value : Text → Text)

def Selector.view : Selector ν → Selector μ
  | star => star
  | column n => column (n.map name)
  | function n => function ⟨call n.name, n.alias?.map name⟩

/-- The statement with its names, its calls and the values of its conditions replaced. -/
def Statement.view (s : Statement ν) : Statement μ where
  distinct := s.distinct
  json := s.json
  columns := s.columns.map (Selector.view name call)
  table := s.table.map name
  relations := s.relations.map fun r => ⟨name r.column, r.operator, value r.value⟩
  order := s.order.map (List.map (OrderKey.map name))
  limit := s.limit
  filtering := s.filtering

end View

/-! ## Other texts of one kind -/

/-- A token of the kind may have the text `t'` where it had `t`. A name does not become a reserved
word or a constant by it. -/
def Token.Admits (k : Token) (t t' : Text) : Prop :=
  match k with
  | word | plainName => Identifier.isNameForm t' = true ∧
      (isReserved t' = true → isReserved t = true) ∧
      ∀ c : Constant, Text.upper t' = c.word.toList → Text.upper t = c.word.toList
  | quoted q => (quoted q).Whole t' ∧ ('\t' ∈ t' → '\t' ∈ t)
  | number => number.Whole t'
  | bindMarker => bindMarker.Whole t'
  | _ => False

theorem Token.not_admits_of_isMark {k : Token} (hk : k.isMark = true) (t t' : Text) :
    ¬ k.Admits t t' := by
  intro h
  cases k <;> first | exact h | cases hk

namespace Lexeme

/-- The same token, or one with another text. -/
inductive Recast (x : Lexeme) : Lexeme → Prop where
  | same : Recast x x
  | text {t t' : Text} : x.text? = some t → x.kind.Admits t t' → Recast x ⟨x.kind, some t'⟩

theorem Recast.eq_of_text? {x y : Lexeme} (h : x.Recast y) (hx : x.text? = none) : y = x := by
  cases h with
  | same => rfl
  | text ht _ =>
    rw [hx] at ht
    cases ht

theorem name_of_admits {t t' : Text} (h : (name t).kind.Admits t t') :
    name t' = ⟨(name t).kind, some t'⟩ := by
  by_cases hq : t.head? = some '"'
  · have hkind : (name t).kind = .quoted '"' := by simp [name, hq]
    rw [hkind] at h ⊢
    rw [name, if_pos (Token.quotedLength?_eq_some_iff.1 h.1).1]
  · have hkind : (name t).kind = .plainName := by simp [name, hq]
    rw [hkind] at h ⊢
    rw [name, if_neg (Text.nameForm_head_ne h.1)]

theorem Recast.name {t : Text} {y : Lexeme} (h : (name t).Recast y) :
    ∃ t', y = Lexeme.name t' ∧ (t' = t ∨ (Lexeme.name t).kind.Admits t t') := by
  cases h with
  | same => exact ⟨t, rfl, .inl rfl⟩
  | @text u t' hu hadmits =>
    obtain rfl : t = u := Option.some.inj hu
    exact ⟨t', (name_of_admits hadmits).symm, .inr hadmits⟩

/-! ## Lists -/

section Lists

variable {R : Lexeme → Lexeme → Prop} {l m l' : List Lexeme}

theorem forall₂_append_left (h : List.Forall₂ R (l ++ m) l') :
    ∃ l₁ l₂, List.Forall₂ R l l₁ ∧ List.Forall₂ R m l₂ ∧ l' = l₁ ++ l₂ := by
  have hl := List.forall₂_take l.length h
  have hm := List.forall₂_drop l.length h
  rw [List.take_left] at hl
  rw [List.drop_left] at hm
  exact ⟨_, _, hl, hm, (List.take_append_drop _ _).symm⟩

/-- The token is replaced by no other. -/
def Fixed (R : Lexeme → Lexeme → Prop) (x : Lexeme) : Prop := ∀ y, R x y → y = x

theorem Fixed.cons {x : Lexeme} (hx : Fixed R x) (h : List.Forall₂ R (x :: l) l') :
    ∃ m, List.Forall₂ R l m ∧ l' = x :: m := by
  obtain ⟨y, m, hy, hm, rfl⟩ := List.forall₂_cons_left_iff.1 h
  exact ⟨m, hm, by rw [hx y hy]⟩

theorem Fixed.all (hl : ∀ x ∈ l, Fixed R x) (h : List.Forall₂ R l l') : l' = l := by
  induction h with
  | nil => rfl
  | cons h _ ih => rw [hl _ (by simp) _ h, ih fun x hx => hl x (by simp [hx])]

theorem Fixed.separated {sep : Lexeme} (hsep : Fixed R sep) {ls : List (List Lexeme)}
    (h : List.Forall₂ R (separated sep ls) l') :
    ∃ ls', List.Forall₂ (List.Forall₂ R) ls ls' ∧ l' = Lexeme.separated sep ls' := by
  have more : ∀ {ls : List (List Lexeme)} {l' : List Lexeme},
      List.Forall₂ R (ls.flatMap (sep :: ·)) l' →
      ∃ ls', List.Forall₂ (List.Forall₂ R) ls ls' ∧ l' = ls'.flatMap (sep :: ·) := by
    intro ls
    induction ls with
    | nil =>
      intro l' h
      exact ⟨[], .nil, List.forall₂_nil_left_iff.1 h⟩
    | cons l ls ih =>
      intro l' h
      obtain ⟨l₁, l₂, hl, hls, rfl⟩ := forall₂_append_left h
      obtain ⟨m, hm, rfl⟩ := hsep.cons hl
      obtain ⟨ms, hms, rfl⟩ := ih hls
      exact ⟨m :: ms, .cons hm hms, rfl⟩
  cases ls with
  | nil => exact ⟨[], .nil, List.forall₂_nil_left_iff.1 h⟩
  | cons l ls =>
    obtain ⟨l₁, l₂, hl, hls, rfl⟩ := forall₂_append_left h
    obtain ⟨ms, hms, rfl⟩ := more hls
    exact ⟨l₁ :: ms, .cons hl hms, rfl⟩

theorem forall₂_recast {α β : Type} {S : α → List Lexeme → Prop} {φ : α → β} {as : List α}
    {ls ls' : List (List Lexeme)}
    (hS : ∀ a ∈ as, ∀ l l', S a l → List.Forall₂ R l l' → ∃ a', S a' l' ∧ φ a' = φ a)
    (h : List.Forall₂ S as ls) (hls : List.Forall₂ (List.Forall₂ R) ls ls') :
    ∃ as', List.Forall₂ S as' ls' ∧ as'.map φ = as.map φ := by
  induction h generalizing ls' with
  | nil =>
    obtain rfl := List.forall₂_nil_left_iff.1 hls
    exact ⟨[], .nil, rfl⟩
  | @cons a l as ls ha _ ih =>
    obtain ⟨l', ms, hl, hms, rfl⟩ := List.forall₂_cons_left_iff.1 hls
    obtain ⟨a', ha', hφ⟩ := hS a (by simp) l l' ha hl
    obtain ⟨as', has', hφs⟩ := ih (fun b hb => hS b (by simp [hb])) hms
    exact ⟨a' :: as', .cons ha' has', by rw [List.map_cons, List.map_cons, hφ, hφs]⟩

theorem forall₂_map_recast {α : Type} {f : α → List Lexeme} {P : α → Prop} {as : List α}
    {ls' : List (List Lexeme)}
    (h : ∀ a ∈ as, ∀ l', List.Forall₂ R (f a) l' → ∃ a', P a' ∧ f a' = l')
    (hls : List.Forall₂ (List.Forall₂ R) (as.map f) ls') :
    ∃ as' : List α, (∀ a ∈ as', P a) ∧ as'.map f = ls' := by
  induction as generalizing ls' with
  | nil => exact ⟨[], by simp, (List.forall₂_nil_left_iff.1 hls).symm⟩
  | cons a as ih =>
    obtain ⟨l', ms, hl, hms, rfl⟩ := List.forall₂_cons_left_iff.1 hls
    obtain ⟨a', ha', rfl⟩ := h a (by simp) l' hl
    obtain ⟨as', has', rfl⟩ := ih (fun b hb => h b (by simp [hb])) hms
    exact ⟨a' :: as', List.forall_mem_cons.2 ⟨ha', has'⟩, rfl⟩

end Lists

end Lexeme

/-! ## Terms and calls -/

section Recast

variable {R : Lexeme → Lexeme → Prop} {l' : List Lexeme}

theorem Lexeme.fixed_of_text? (hR : ∀ x y, R x y → x.Recast y) {x : Lexeme} (hx : x.text? = none) :
    Fixed R x := fun y h => (hR x y h).eq_of_text? hx

theorem Lexeme.fixed_of_admits (hR : ∀ x y, R x y → x.Recast y) {x : Lexeme}
    (hx : ∀ t t', ¬ x.kind.Admits t t') : Fixed R x := fun y h => by
  cases hR x y h with
  | same => rfl
  | text _ hadmits => exact absurd hadmits (hx _ _)

theorem Lexeme.forall₂_mark (hR : ∀ x y, R x y → x.Recast y) {x : Lexeme} (hx : x.text? = none)
    (h : List.Forall₂ R [x] l') : l' = [x] :=
  Fixed.all (fun _ hy => List.mem_singleton.1 hy ▸ fixed_of_text? hR hx) h

theorem Lexeme.forall₂_singleton (hR : ∀ x y, R x y → x.Recast y) {k : Token} {t : Text}
    (h : List.Forall₂ R [⟨k, some t⟩] l') :
    ∃ t', l' = [⟨k, some t'⟩] ∧ (t' = t ∨ k.Admits t t') := by
  obtain ⟨y, m, hy, hm, rfl⟩ := List.forall₂_cons_left_iff.1 h
  obtain rfl := List.forall₂_nil_left_iff.1 hm
  cases hR _ _ hy with
  | same => exact ⟨t, rfl, .inl rfl⟩
  | @text u t' hu hadmits =>
    obtain rfl : t = u := Option.some.inj hu
    exact ⟨t', rfl, .inr hadmits⟩

theorem Lexeme.forall₂_parens (hR : ∀ x y, R x y → x.Recast y) {ls : List (List Lexeme)}
    (h : List.Forall₂ R (symbol '(' :: separated (symbol ',') ls ++ [symbol ')']) l') :
    ∃ ls', List.Forall₂ (List.Forall₂ R) ls ls' ∧
      l' = symbol '(' :: separated (symbol ',') ls' ++ [symbol ')'] := by
  have hsymbol : ∀ c, Fixed R (symbol c) := fun c => fixed_of_text? hR rfl
  rw [List.cons_append] at h
  obtain ⟨m, hm, rfl⟩ := (hsymbol '(').cons h
  obtain ⟨l₁, l₂, hitems, hclose, rfl⟩ := forall₂_append_left hm
  obtain ⟨ls', hls, rfl⟩ := (hsymbol ',').separated hitems
  obtain ⟨l₃, hl₃, rfl⟩ := (hsymbol ')').cons hclose
  obtain rfl := List.forall₂_nil_left_iff.1 hl₃
  exact ⟨ls', hls, rfl⟩

theorem Term.Canonical.recast (hR : ∀ x y, R x y → x.Recast y) {v : Term} (hv : v.Canonical)
    (h : List.Forall₂ R v.lexemes l') : ∃ v' : Term, v'.Canonical ∧ v'.lexemes = l' := by
  induction v using Term.induction generalizing l' with
  | number t =>
    obtain ⟨t', rfl, rfl | hadmits⟩ := forall₂_singleton hR h
    · exact ⟨_, hv, rfl⟩
    · exact ⟨.number t', .number hadmits, rfl⟩
  | string t =>
    obtain ⟨t', rfl, rfl | hadmits⟩ := forall₂_singleton hR h
    · exact ⟨_, hv, rfl⟩
    · obtain _ | ⟨-, htab⟩ := hv
      exact ⟨.string t', .string hadmits.1 fun h => htab (hadmits.2 h), rfl⟩
  | positional => exact ⟨_, hv, (forall₂_mark hR rfl h).symm⟩
  | bind t =>
    obtain ⟨t', rfl, rfl | hadmits⟩ := forall₂_singleton hR h
    · exact ⟨_, hv, rfl⟩
    · exact ⟨.bind t', .bind hadmits, rfl⟩
  | constant k => exact ⟨_, hv, (forall₂_mark hR rfl h).symm⟩
  | list ts ih =>
    obtain _ | _ | _ | _ | _ | hts := hv
    rw [lexemes, lexemesAll_eq_map] at h
    obtain ⟨ls', hls, rfl⟩ := forall₂_parens hR h
    obtain ⟨ts', hts', rfl⟩ := forall₂_map_recast (P := Canonical)
      (fun t ht l' hl => ih t ht (hts t ht) hl) hls
    exact ⟨.list ts', .list hts', by rw [lexemes, lexemesAll_eq_map]⟩

theorem Text.upper_ne_of_quoted {t : Text} (h : t.head? = some '"') (k : Constant) :
    upper t ≠ k.word.toList := by
  obtain ⟨u, rfl⟩ := List.head?_eq_some_iff.1 h
  rw [upper_cons]
  cases k <;> exact fun hk => absurd (List.cons.inj hk).1 (by decide)

theorem Text.IsArgumentName.recast {t t' : Text} (h : t.IsArgumentName)
    (hadmits : (Lexeme.name t).kind.Admits t t') : t'.IsArgumentName := by
  unfold Lexeme.name at hadmits
  split at hadmits
  · exact ⟨.inl hadmits.1, fun htab => h.tab (hadmits.2 htab),
      upper_ne_of_quoted (Token.quotedLength?_eq_some_iff.1 hadmits.1).1⟩
  · rename_i hhead
    obtain ⟨hform, hres, hconstant⟩ := hadmits
    have hres' : isReserved t = false :=
      (h.name.resolve_left fun hq => hhead (Token.quotedLength?_eq_some_iff.1 hq).1).2
    refine ⟨.inr ⟨hform, ?_⟩, ?_, fun k hk => h.not_constant k (hconstant k hk)⟩
    · cases hr : isReserved t' with
      | false => rfl
      | true => rw [← hres', hres hr]
    · intro htab
      exact absurd (isNameChar_of_nameForm hform _ htab) (by decide)

theorem Call.canonical_recast (hR : ∀ x y, R x y → x.Recast y) :
    (∀ x : Call, x.Canonical → ∀ {l'}, List.Forall₂ R x.lexemes l' →
      ∃ x' : Call, x'.Canonical ∧ x'.lexemes = l') ∧
    ∀ a : Argument, a.Canonical → ∀ {l'}, List.Forall₂ R a.lexemes l' →
      ∃ a' : Argument, a'.Canonical ∧ a'.lexemes = l' := by
  have function : ∀ {f : Text} {y : Lexeme}, Identifier.isNameForm f = true → R ⟨.word, some f⟩ y →
      ∃ f', Identifier.isNameForm f' = true ∧ y = ⟨.word, some f'⟩ := by
    intro f y hf hy
    cases hR _ _ hy with
    | same => exact ⟨f, hf, rfl⟩
    | @text _ f' _ hadmits => exact ⟨f', hadmits.1, rfl⟩
  apply Call.induction
  case star =>
    rintro f ⟨hf⟩ l' h
    obtain ⟨y, m, hy, hm, rfl⟩ := List.forall₂_cons_left_iff.1 h
    obtain ⟨f', hf', rfl⟩ := function hf hy
    have hmarks : ∀ x ∈ [symbol '(', symbol '*', symbol ')'], Fixed R x := by
      simp only [List.forall_mem_cons, List.not_mem_nil, false_implies, implies_true, and_true]
      exact ⟨fixed_of_text? hR rfl, fixed_of_text? hR rfl, fixed_of_text? hR rfl⟩
    exact ⟨.star f', .star hf', by rw [Fixed.all hmarks hm, Call.lexemes]⟩
  case apply =>
    rintro f as ih (_ | ⟨hf, has⟩) l' h
    rw [Call.lexemes, Argument.lexemesAll_eq_map, List.cons_append] at h
    obtain ⟨y, m, hy, hm, rfl⟩ := List.forall₂_cons_left_iff.1 h
    obtain ⟨f', hf', rfl⟩ := function hf hy
    obtain ⟨ls', hls, rfl⟩ := forall₂_parens hR hm
    obtain ⟨as', has', rfl⟩ := forall₂_map_recast (P := Argument.Canonical)
      (fun a ha l' hl => ih a ha (has a ha) hl) hls
    exact ⟨.apply f' as', .apply hf' has', by rw [Call.lexemes, Argument.lexemesAll_eq_map]; rfl⟩
  case call =>
    rintro x ih ⟨hx⟩ l' h
    obtain ⟨x', hx', rfl⟩ := ih hx h
    exact ⟨.call x', .call hx', rfl⟩
  case term =>
    rintro t (_ | ht) l' h
    obtain ⟨t', ht', rfl⟩ := ht.recast hR h
    exact ⟨.term t', .term ht', rfl⟩
  case name =>
    rintro t (_ | _ | ht) l' h
    obtain ⟨y, m, hy, hm, rfl⟩ := List.forall₂_cons_left_iff.1 h
    obtain rfl := List.forall₂_nil_left_iff.1 hm
    obtain ⟨t', rfl, rfl | hadmits⟩ := (hR _ _ hy).name
    · exact ⟨.name t', .name ht, rfl⟩
    · exact ⟨.name t', .name (ht.recast hadmits), rfl⟩

end Recast

/-! ## Statements -/

/-- Tokens that may replace each other are not told apart by functions of names, calls and
values. -/
structure Keeps {μ : Type} (R : Lexeme → Lexeme → Prop) (name call : Text → μ)
    (value : Text → Text) : Prop where
  recast : ∀ x y, R x y → x.Recast y
  name : ∀ t t', R (Lexeme.name t) (Lexeme.name t') → name t' = name t
  call : ∀ x x' : Call, x.Canonical → x'.Canonical → List.Forall₂ R x.lexemes x'.lexemes →
    call x'.render = call x.render
  value : ∀ v v' : Term, v.Canonical → v'.Canonical → List.Forall₂ R v.lexemes v'.lexemes →
    value v'.render = value v.render

section Spelled

variable {μ : Type} {R : Lexeme → Lexeme → Prop} {name call : Text → μ} {value : Text → Text}
  {l l' : List Lexeme}

namespace Keeps

theorem mark (hR : Keeps R name call value) {x : Lexeme} (hx : x.text? = none) : Fixed R x :=
  fixed_of_text? hR.recast hx

theorem cons_name (hR : Keeps R name call value) {t : Text}
    (h : List.Forall₂ R (Lexeme.name t :: l) l') :
    ∃ t' m, List.Forall₂ R l m ∧ l' = Lexeme.name t' :: m ∧ name t' = name t := by
  obtain ⟨y, m, hy, hm, rfl⟩ := List.forall₂_cons_left_iff.1 h
  obtain ⟨t', rfl, -⟩ := (hR.recast _ _ hy).name
  exact ⟨t', m, hm, rfl, hR.name t t' hy⟩

theorem flag (hR : Keeps R name call value) {w : String} {b : Bool}
    (h : List.Forall₂ R (Lexeme.flag w b) l') : l' = Lexeme.flag w b := by
  refine Fixed.all (fun x hx => hR.mark ?_) h
  unfold Lexeme.flag at hx
  split at hx
  · rw [List.mem_singleton.1 hx]
    rfl
  · cases hx

theorem aliasLexemes (hR : Keeps R name call value) {o : Option Text}
    (h : List.Forall₂ R (Named.aliasLexemes o) l') :
    ∃ o', l' = Named.aliasLexemes o' ∧ o'.map name = o.map name := by
  cases o with
  | none => exact ⟨none, List.forall₂_nil_left_iff.1 h, rfl⟩
  | some t =>
    obtain ⟨m, hm, rfl⟩ := (hR.mark rfl).cons h
    obtain ⟨t', k, hk, rfl, ht⟩ := hR.cons_name hm
    obtain rfl := List.forall₂_nil_left_iff.1 hk
    exact ⟨some t', rfl, congrArg some ht⟩

theorem selector (hR : Keeps R name call value) {s : Selector Text} (hs : s.Spelled l)
    (h : List.Forall₂ R l l') :
    ∃ s' : Selector Text, s'.Spelled l' ∧ s'.view name call = s.view name call := by
  cases s with
  | star => cases hs
  | column n =>
    obtain rfl := hs
    obtain ⟨t', m, hm, rfl, ht⟩ := hR.cons_name h
    obtain ⟨o', rfl, ho⟩ := hR.aliasLexemes hm
    exact ⟨.column ⟨t', o'⟩, rfl, by simp [Selector.view, Named.map, ht, ho]⟩
  | function n =>
    obtain ⟨x, hx, hname, rfl⟩ := hs
    obtain ⟨l₁, l₂, hcall, halias, rfl⟩ := forall₂_append_left h
    obtain ⟨x', hx', rfl⟩ := (Call.canonical_recast hR.recast).1 x hx hcall
    obtain ⟨o', rfl, ho⟩ := hR.aliasLexemes halias
    have hview := hR.call x x' hx hx' hcall
    exact ⟨.function ⟨x'.render, o'⟩, ⟨x', hx', rfl, rfl⟩,
      by simp [Selector.view, hview, hname, ho]⟩

theorem selectors (hR : Keeps R name call value) {ss : List (Selector Text)}
    (hs : Selector.AllSpelled ss l) (h : List.Forall₂ R l l') :
    ∃ ss', Selector.AllSpelled ss' l' ∧
      ss'.map (Selector.view name call) = ss.map (Selector.view name call) := by
  rcases hs with ⟨rfl, rfl⟩ | ⟨hne, ls, hls, rfl⟩
  · exact ⟨_, .inl ⟨rfl, forall₂_mark hR.recast rfl h⟩, rfl⟩
  · obtain ⟨ls', hls', rfl⟩ := (hR.mark rfl).separated h
    obtain ⟨ss', hss', hview⟩ := forall₂_recast (fun s _ l l' hs h => hR.selector hs h) hls hls'
    refine ⟨ss', .inr ⟨?_, ls', hss', rfl⟩, hview⟩
    rintro rfl
    exact hne (by simpa using hview)

theorem table (hR : Keeps R name call value) {t : TableName Text}
    (h : List.Forall₂ R t.lexemes l') :
    ∃ t' : TableName Text, t'.lexemes = l' ∧ t'.map name = t.map name := by
  obtain ⟨n, k⟩ := t
  cases k with
  | none =>
    obtain ⟨n', m, hm, rfl, hn⟩ := hR.cons_name h
    obtain rfl := List.forall₂_nil_left_iff.1 hm
    exact ⟨⟨n', none⟩, rfl, by simp [TableName.map, hn]⟩
  | some k =>
    obtain ⟨k', _, hpoint, rfl, hk⟩ := hR.cons_name h
    obtain ⟨_, hname, rfl⟩ := (hR.mark rfl).cons hpoint
    obtain ⟨n', _, hnil, rfl, hn⟩ := hR.cons_name hname
    obtain rfl := List.forall₂_nil_left_iff.1 hnil
    exact ⟨⟨n', some k'⟩, rfl, by simp [TableName.map, hn, hk]⟩

theorem operator (hR : Keeps R name call value) {o : Text}
    (h : List.Forall₂ R (Relation.operatorLexemes o) l') : l' = Relation.operatorLexemes o := by
  refine Fixed.all (fun x hx => fixed_of_admits hR.recast fun t t' => ?_) h
  exact Token.not_admits_of_isMark ((Relation.operatorLexemes_marks o).1 x hx) t t'

theorem relation (hR : Keeps R name call value) {r : Relation Text} (hr : r.Spelled l)
    (h : List.Forall₂ R l l') : ∃ r' : Relation Text, r'.Spelled l' ∧
      (⟨name r'.column, r'.operator, value r'.value⟩ : Relation μ) =
        ⟨name r.column, r.operator, value r.value⟩ := by
  obtain ⟨v, hv, hvalue, rfl⟩ := hr
  obtain ⟨c', m, hm, rfl, hc⟩ := hR.cons_name h
  obtain ⟨l₁, l₂, ho, hterm, rfl⟩ := forall₂_append_left hm
  obtain rfl := hR.operator ho
  obtain ⟨v', hv', rfl⟩ := hv.recast hR.recast hterm
  refine ⟨⟨c', r.operator, v'.render⟩, ⟨v', hv', rfl, rfl⟩, ?_⟩
  rw [hc, ← hvalue, hR.value v v' hv hv' hterm]

theorem relations (hR : Keeps R name call value) {rs : List (Relation Text)}
    (hs : Relation.AllSpelled rs l) (h : List.Forall₂ R l l') :
    ∃ rs', Relation.AllSpelled rs' l' ∧
      rs'.map (fun r => (⟨name r.column, r.operator, value r.value⟩ : Relation μ)) =
        rs.map fun r => ⟨name r.column, r.operator, value r.value⟩ := by
  rcases hs with ⟨rfl, rfl⟩ | ⟨hne, ls, hls, rfl⟩
  · exact ⟨[], .inl ⟨rfl, List.forall₂_nil_left_iff.1 h⟩, rfl⟩
  · obtain ⟨m, hm, rfl⟩ := (hR.mark rfl).cons h
    obtain ⟨ls', hls', rfl⟩ := (hR.mark rfl).separated hm
    obtain ⟨rs', hrs', hview⟩ := forall₂_recast (fun r _ l l' hr h => hR.relation hr h) hls hls'
    refine ⟨rs', .inr ⟨?_, ls', hrs', rfl⟩, hview⟩
    rintro rfl
    exact hne (by simpa using hview)

theorem orderKey (hR : Keeps R name call value) {k : OrderKey Text} (hk : k.Spelled l)
    (h : List.Forall₂ R l l') :
    ∃ k' : OrderKey Text, k'.Spelled l' ∧ k'.map name = k.map name := by
  obtain ⟨written, hwritten, rfl⟩ := hk
  obtain ⟨c', m, hm, rfl, hc⟩ := hR.cons_name h
  obtain rfl := hR.flag hm
  exact ⟨⟨c', k.descending⟩, ⟨written, hwritten, rfl⟩, by simp [OrderKey.map, hc]⟩

theorem order (hR : Keeps R name call value) {o : Option (List (OrderKey Text))}
    (ho : OrderKey.AllSpelled o l) (h : List.Forall₂ R l l') :
    ∃ o', OrderKey.AllSpelled o' l' ∧
      o'.map (List.map (OrderKey.map name)) = o.map (List.map (OrderKey.map name)) := by
  cases o with
  | none =>
    obtain rfl := ho
    exact ⟨none, List.forall₂_nil_left_iff.1 h, rfl⟩
  | some ks =>
    obtain ⟨hne, ls, hls, rfl⟩ := ho
    obtain ⟨_, hby, rfl⟩ := (hR.mark rfl).cons h
    obtain ⟨_, hkeys, rfl⟩ := (hR.mark rfl).cons hby
    obtain ⟨ls', hls', rfl⟩ := (hR.mark rfl).separated hkeys
    obtain ⟨ks', hks', hview⟩ := forall₂_recast (fun k _ l l' hk h => hR.orderKey hk h) hls hls'
    refine ⟨some ks', ⟨?_, ls', hks', rfl⟩, congrArg some hview⟩
    rintro rfl
    exact hne (by simpa using hview)

theorem ending (hR : Keeps R name call value) {s : Statement Text} (hs : s.EndSpelled l)
    (h : List.Forall₂ R l l') : l' = l := by
  obtain ⟨limit, semicolon, hlimit, rfl⟩ := hs
  have hkinds : ∀ x ∈ limit ++ ((if s.filtering then [keyword "ALLOW", keyword "FILTERING"] else []) ++
      if semicolon then [symbol ';'] else []), x.kind.isMark = true ∨ x.kind = .integer := by
    intro x hx
    rcases List.mem_append.1 hx with hx | hx
    · rcases hlimit.shape with rfl | ⟨digits, rfl⟩
      · cases hx
      · rcases List.mem_cons.1 hx with rfl | hx
        · exact .inl (by decide)
        · exact .inr (by rw [List.mem_singleton.1 hx])
    · have hmarks : ((if s.filtering then [keyword "ALLOW", keyword "FILTERING"] else []) ++
          if semicolon then [symbol ';'] else []).all (·.kind.isMark) = true := by
        cases s.filtering <;> cases semicolon <;> decide
      exact .inl (List.all_eq_true.1 hmarks x hx)
  refine Fixed.all (fun x hx => fixed_of_admits hR.recast fun t t' => ?_) h
  rcases hkinds x hx with hk | hk
  · exact Token.not_admits_of_isMark hk t t'
  · rw [hk]
    exact id

end Keeps

/-- Tokens in place of those of a statement spell a statement with the same view. -/
theorem Statement.Spelled.recast (hR : Keeps R name call value) {s : Statement Text}
    (hs : s.Spelled l) (h : List.Forall₂ R l l') :
    ∃ s' : Statement Text, s'.Spelled l' ∧ s'.view name call value = s.view name call value := by
  obtain ⟨_, _, rest, ⟨columns, hcolumns, rfl⟩, ⟨relations, order, hrelations, horder, rfl⟩, hend,
    rfl⟩ := hs
  obtain ⟨_, _, hselect, htail, rfl⟩ := forall₂_append_left h
  obtain ⟨_, hflags, rfl⟩ := (hR.mark rfl).cons hselect
  obtain ⟨_, _, hdistinct, hflag, rfl⟩ := forall₂_append_left hflags
  obtain ⟨_, _, hjson, hbody, rfl⟩ := forall₂_append_left hflag
  obtain ⟨_, _, hcols, hfrom, rfl⟩ := forall₂_append_left hbody
  obtain ⟨_, htable, rfl⟩ := (hR.mark rfl).cons hfrom
  obtain ⟨_, _, hclauses, hrest, rfl⟩ := forall₂_append_left htail
  obtain ⟨_, _, hrels, hord, rfl⟩ := forall₂_append_left hclauses
  obtain rfl := hR.flag hdistinct
  obtain rfl := hR.flag hjson
  obtain rfl := hR.ending hend hrest
  obtain ⟨columns', hcolumns', hcview⟩ := hR.selectors hcolumns hcols
  obtain ⟨table', rfl, htview⟩ := hR.table htable
  obtain ⟨relations', hrelations', hrview⟩ := hR.relations hrelations hrels
  obtain ⟨order', horder', hoview⟩ := hR.order horder hord
  refine ⟨{ s with columns := columns', table := table', relations := relations', order := order' },
    ⟨_, _, _, ⟨_, hcolumns', rfl⟩, ⟨_, _, hrelations', horder', rfl⟩, hend, rfl⟩, ?_⟩
  simp only [Statement.view, hcview, htview, hrview, hoview]

end Spelled

end CqlCanon
