import CqlCanon.Proofs.Canonical
import CqlCanon.Proofs.Lexeme.Basic

/-!
# What stands in a text, token by token

Where a part of a statement stands in a text, tokens that spell it are read one
after another; and where such tokens are read, the part stands. Names that are
arguments have to be those of a canonical call for the second: no constant may
stand in their place.
-/

namespace CqlCanon

open Cursor Lexeme

namespace Cursor

variable {c d : Cursor}

theorem passes_cons {x : Lexeme} {l : List Lexeme} :
    c.Passes (x :: l) d ↔ ∃ e, c.Passes [x] e ∧ e.Passes l d := by
  constructor
  · rintro ⟨t, e, he, ht, h⟩
    exact ⟨e, ⟨t, e, he, ht, rfl⟩, h⟩
  · rintro ⟨e, ⟨t, f, hf, ht, rfl⟩, h⟩
    exact ⟨t, f, hf, ht, h⟩

theorem passes_append {l m : List Lexeme} :
    c.Passes (l ++ m) d ↔ ∃ e, c.Passes l e ∧ e.Passes m d := by
  induction l generalizing c with
  | nil => exact ⟨fun h => ⟨c, rfl, h⟩, fun ⟨_, h, hm⟩ => (show c = _ from h) ▸ hm⟩
  | cons x l ih =>
    rw [List.cons_append, passes_cons]
    constructor
    · rintro ⟨e, he, h⟩
      obtain ⟨f, hf, hm⟩ := ih.1 h
      exact ⟨f, passes_cons.2 ⟨e, he, hf⟩, hm⟩
    · rintro ⟨f, hf, hm⟩
      obtain ⟨e, he, hl⟩ := passes_cons.1 hf
      exact ⟨e, he, ih.2 ⟨f, hl, hm⟩⟩

/-! ## Single tokens -/

theorem passes_mark {k : Token} : c.Passes [⟨k, none⟩] d ↔ c.pass? k = some d := by
  rw [pass?, Option.map_eq_some_iff]
  constructor
  · rintro ⟨t, e, he, -, h⟩
    exact ⟨(t, e), he, h⟩
  · rintro ⟨⟨t, e⟩, he, h⟩
    exact ⟨t, e, he, fun u hu => absurd hu (Option.not_mem_none u), h⟩

theorem passes_symbol {s : Char} : c.Passes [symbol s] d ↔ c.symbol? s = some d := passes_mark

theorem passes_keyword {w : String} : c.Passes [keyword w] d ↔ c.keyword? w = some d := passes_mark

theorem passes_token {k : Token} {t : Text} :
    c.Passes [⟨k, some t⟩] d ↔ c.token? k = some (t, d) := by
  constructor
  · rintro ⟨u, e, he, hu, rfl⟩
    rw [he, hu t rfl]
  · intro h
    exact ⟨t, d, h, fun u hu => (Option.some.inj hu), rfl⟩

theorem passes_name {t : Text} : c.Passes [name t] d ↔ t.StandsAsName c d := by
  unfold Lexeme.name
  rw [passes_token]
  split
  · rename_i hq
    refine ⟨.inl, fun h => h.resolve_right fun h => ?_⟩
    have hform := Token.whole_word_iff.1 (whole_of_token? trivial (word_of_plainName h))
    exact Text.nameForm_head_ne hform hq
  · rename_i hq
    refine ⟨.inr, fun h => h.resolve_left fun h => ?_⟩
    exact hq (Token.quotedLength?_eq_some_iff.1 (whole_of_token? (.inl rfl) h)).1

theorem passes_flag {w : String} {b : Bool} :
    c.Passes (Lexeme.flag w b) d ↔ FlagStands (keyword? w) b c d := by
  cases b with
  | false => rfl
  | true => exact passes_keyword

theorem Passes.suffix {l : List Lexeme} (h : c.Passes l d) : d.rest <:+ c.rest := by
  induction l generalizing c with
  | nil => exact (show c = d from h) ▸ List.suffix_refl _
  | cons x l ih =>
    obtain ⟨t, e, he, -, h⟩ := h
    obtain ⟨n, -, -, rfl⟩ := token?_eq_some_iff.1 he
    exact (ih h).trans ((List.drop_suffix _ _).trans (List.drop_suffix _ _))

theorem Clean.passes {l : List Lexeme} (hc : c.Clean) (h : c.Passes l d) : d.Clean :=
  fun hm => hc (h.suffix.mem hm)

/-! ## Lists -/

section Lists

variable {α : Type} {separator : Cursor → Option Cursor} {stands : α → Cursor → Cursor → Prop}
  {S : α → List Lexeme → Prop} {sep : Lexeme} {K F : Cursor → Prop} {as : List α}

theorem MoreStand.passes (hsep : ∀ c d, separator c = some d → c.Passes [sep] d)
    (hkeep : ∀ c l d, K c → c.Passes l d → K d)
    (hitem : ∀ a ∈ as, ∀ c d, stands a c d → K c → ∃ l, S a l ∧ c.Passes l d)
    (h : MoreStand separator stands as c d) (hc : K c) :
    ∃ ls, List.Forall₂ S as ls ∧ c.Passes (ls.flatMap (sep :: ·)) d := by
  induction as generalizing c with
  | nil => exact ⟨[], .nil, h⟩
  | cons a as ih =>
    obtain ⟨e, f, he, ha, hf⟩ := h
    have he := hsep c e he
    have hke := hkeep _ _ _ hc he
    obtain ⟨l, hl, hlp⟩ := hitem a (by simp) e f ha hke
    obtain ⟨ls, hls, hlsp⟩ := ih (fun b hb => hitem b (by simp [hb])) hf (hkeep _ _ _ hke hlp)
    exact ⟨l :: ls, .cons hl hls, passes_append.2 ⟨f, passes_cons.2 ⟨e, he, hlp⟩, hlsp⟩⟩

theorem SequenceStands.passes (hsep : ∀ c d, separator c = some d → c.Passes [sep] d)
    (hkeep : ∀ c l d, K c → c.Passes l d → K d)
    (hitem : ∀ a ∈ as, ∀ c d, stands a c d → K c → ∃ l, S a l ∧ c.Passes l d)
    (h : SequenceStands separator stands as c d) (hc : K c) :
    as ≠ [] ∧ ∃ ls, List.Forall₂ S as ls ∧ c.Passes (separated sep ls) d := by
  cases as with
  | nil => cases h
  | cons a as =>
    obtain ⟨e, ha, hmore⟩ := h
    obtain ⟨l, hl, hlp⟩ := hitem a (by simp) c e ha hc
    obtain ⟨ls, hls, hlsp⟩ := MoreStand.passes hsep hkeep (fun b hb => hitem b (by simp [hb])) hmore
      (hkeep _ _ _ hc hlp)
    exact ⟨by simp, l :: ls, .cons hl hls, passes_append.2 ⟨e, hlp, hlsp⟩⟩

theorem MoreStand.of_passes (hsep : ∀ c d, c.Passes [sep] d → separator c = some d ∧ F c)
    {ls : List (List Lexeme)} (hs : List.Forall₂ S as ls)
    (hitem : ∀ a ∈ as, ∀ l c d, S a l → c.Passes l d → F d → stands a c d)
    (h : c.Passes (ls.flatMap (sep :: ·)) d) (hd : F d) :
    MoreStand separator stands as c d ∧ F c := by
  induction hs generalizing c with
  | nil => exact ⟨h, (show c = d from h) ▸ hd⟩
  | @cons a l as ls ha hs ih =>
    obtain ⟨f, hf, hmore⟩ := passes_append.1 h
    obtain ⟨e, he, hl⟩ := passes_cons.1 hf
    obtain ⟨he, hc⟩ := hsep c e he
    obtain ⟨hmore, hfollow⟩ := ih (fun b hb => hitem b (by simp [hb])) hmore
    exact ⟨⟨e, f, he, hitem a (by simp) l e f ha hl hfollow, hmore⟩, hc⟩

theorem SequenceStands.of_passes (hsep : ∀ c d, c.Passes [sep] d → separator c = some d ∧ F c)
    {ls : List (List Lexeme)} (hs : List.Forall₂ S as ls)
    (hitem : ∀ a ∈ as, ∀ l c d, S a l → c.Passes l d → F d → stands a c d)
    (h : c.Passes (separated sep ls) d) (hd : F d) (hne : as ≠ []) :
    SequenceStands separator stands as c d := by
  cases hs with
  | nil => exact absurd rfl hne
  | @cons a l as ls ha hs =>
    obtain ⟨e, hl, hmore⟩ := passes_append.1 h
    obtain ⟨hmore, hfollow⟩ :=
      MoreStand.of_passes hsep hs (fun b hb => hitem b (by simp [hb])) hmore hd
    exact ⟨e, hitem a (by simp) l c e ha hl hfollow, hmore⟩

end Lists

theorem ItemsStand.passes {α : Type} {stands : α → Cursor → Cursor → Prop} {f : α → List Lexeme}
    {as : List α} (hitem : ∀ a ∈ as, ∀ c d, stands a c d → c.Passes (f a) d)
    (h : ItemsStand stands as c d) : c.Passes (separated (symbol ',') (as.map f)) d := by
  cases as with
  | nil => exact h
  | cons a as =>
    obtain ⟨-, ls, hls, hp⟩ := SequenceStands.passes (S := fun a l => l = f a)
      (K := fun _ => True) (fun _ _ => passes_symbol.2) (fun _ _ _ _ _ => trivial)
      (fun a ha c d h _ => ⟨f a, rfl, hitem a ha c d h⟩) h trivial
    rwa [← forall₂_eq_map.1 hls]

theorem ItemsStand.of_passes {α : Type} {stands : α → Cursor → Cursor → Prop}
    {f : α → List Lexeme} {as : List α} {F : Cursor → Prop}
    (hcomma : ∀ c d, c.symbol? ',' = some d → F c)
    (hitem : ∀ a ∈ as, ∀ c d, c.Passes (f a) d → F d → stands a c d)
    (h : c.Passes (separated (symbol ',') (as.map f)) d) (hd : F d) :
    ItemsStand stands as c d := by
  cases as with
  | nil => exact h
  | cons a as =>
    exact SequenceStands.of_passes (fun c d h => ⟨passes_symbol.1 h, hcomma c d (passes_symbol.1 h)⟩)
      (forall₂_eq_map.2 rfl) (fun a ha l c d e => e ▸ hitem a ha c d) h hd (by simp)

end Cursor

/-! ## Terms and calls -/

theorem Term.stands_iff_passes {t : Term} : ∀ {c d : Cursor},
    t.Stands c d ↔ c.Passes t.lexemes d := by
  induction t using Term.induction with
  | number t => exact passes_token.symm
  | string t => exact passes_token.symm
  | positional => exact passes_symbol.symm
  | bind t => exact passes_token.symm
  | constant k => exact passes_keyword.symm
  | list ts ih =>
    intro c d
    rw [lexemes, lexemesAll_eq_map, List.cons_append, passes_cons]
    constructor
    · rintro ⟨e, f, he, hts, hf⟩
      have hts := ItemsStand.passes (fun t ht c d => (ih t ht).1) (allStand_iff.1 hts)
      exact ⟨e, passes_symbol.2 he, passes_append.2 ⟨f, hts, passes_symbol.2 hf⟩⟩
    · rintro ⟨e, he, h⟩
      obtain ⟨f, hts, hf⟩ := passes_append.1 h
      have hts := ItemsStand.of_passes (F := fun _ => True) (fun _ _ _ => trivial)
        (fun t ht c d h _ => (ih t ht).2 h) hts trivial
      exact ⟨e, f, passes_symbol.1 he, allStand_iff.2 hts, passes_symbol.1 hf⟩

theorem Call.stands_passes : (∀ (x : Call) {c d : Cursor}, x.Stands c d → c.Passes x.lexemes d) ∧
    ∀ (a : Argument) {c d : Cursor}, a.Stands c d → c.Passes a.lexemes d := by
  apply Call.induction
  case star =>
    rintro f c d ⟨e, g, i, he, hg, hi, hd⟩
    exact passes_cons.2 ⟨e, passes_token.2 he, passes_cons.2 ⟨g, passes_symbol.2 hg,
      passes_cons.2 ⟨i, passes_symbol.2 hi, passes_symbol.2 hd⟩⟩⟩
  case apply =>
    rintro f as ih c d ⟨e, g, i, he, hg, has, hd⟩
    have has := ItemsStand.passes (fun a ha _ _ h => ih a ha h) (Argument.allStand_iff.1 has)
    rw [Call.lexemes, Argument.lexemesAll_eq_map]
    exact passes_cons.2 ⟨e, passes_token.2 he, passes_cons.2 ⟨g, passes_symbol.2 hg,
      passes_append.2 ⟨i, has, passes_symbol.2 hd⟩⟩⟩
  case call => exact fun _ ih _ _ h => ih h
  case term => exact fun _ _ _ h => Term.stands_iff_passes.1 h
  case name => exact fun _ _ _ h => passes_name.2 h.1

theorem Call.stands_of_passes :
    (∀ x : Call, x.Canonical → ∀ {c d : Cursor}, c.Passes x.lexemes d → x.Stands c d) ∧
    ∀ a : Argument, a.Canonical → ∀ {c d : Cursor}, c.Passes a.lexemes d → Argument.Ends d →
      a.Stands c d := by
  apply Call.induction
  case star =>
    intro f _ c d h
    obtain ⟨e, he, h⟩ := passes_cons.1 h
    obtain ⟨g, hg, h⟩ := passes_cons.1 h
    obtain ⟨i, hi, hd⟩ := passes_cons.1 h
    exact ⟨e, g, i, passes_token.1 he, passes_symbol.1 hg, passes_symbol.1 hi, passes_symbol.1 hd⟩
  case apply =>
    rintro f as ih (_ | ⟨-, hcanon⟩) c d h
    rw [Call.lexemes, Argument.lexemesAll_eq_map] at h
    obtain ⟨e, he, h⟩ := passes_cons.1 h
    obtain ⟨g, hg, h⟩ := passes_cons.1 h
    obtain ⟨i, has, hd⟩ := passes_append.1 h
    have hd := passes_symbol.1 hd
    have has := ItemsStand.of_passes (F := Argument.Ends) (fun _ _ h => .inl (next_of_symbol? h))
      (fun a ha _ _ h => ih a ha (hcanon a ha) h) has (.inr (next_of_symbol? hd))
    exact ⟨e, g, i, passes_token.1 he, passes_symbol.1 hg, Argument.allStand_iff.2 has, hd⟩
  case call =>
    rintro x ih ⟨hx⟩ c d h _
    exact ih hx h
  case term => exact fun _ _ _ _ h _ => Term.stands_iff_passes.2 h
  case name =>
    rintro t (_ | _ | ht) c d h hd
    have hn := passes_name.1 h
    refine ⟨hn, fun k e hk => ?_⟩
    rcases hn with hn | hn
    · obtain ⟨x, hx, rfl⟩ := next_of_token? hn (by simp)
      exact next_ne_of_keyword? hk (by cases k <;> decide) (by cases k <;> decide) hx
    · exact ht.not_constant k (upper_eq_of_keyword?_of_word hk (by cases k <;> decide)
        (word_of_plainName hn) hd.not_stuck)

end CqlCanon
