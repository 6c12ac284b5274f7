import CqlCanon.Proofs.Grammar.Statement
import CqlCanon.Proofs.Written.Inert

/-!
# A rough scan

A scan passes over layout, quoted texts and single characters. It knows no
grammar: it fails only at a quote that is not closed on its line, or where a
comma and a star meet. Where a part of a statement stands in a text, the text
scans from the start of the part exactly if it scans from the end of it.
-/

namespace CqlCanon

open Cursor

namespace Text

/-- The character and the next one in the text are not a comma and a star, in any order. -/
def apart (x : Char) (t : Text) : Bool :=
  (x ≠ ',' || (t.drop (layoutLength t)).head? ≠ some '*') &&
    (x ≠ '*' || (t.drop (layoutLength t)).head? ≠ some ',')

def scans : Text → Bool
  | [] => true
  | x :: t =>
    if _h : 0 < layoutLength (x :: t) then scans ((x :: t).drop (layoutLength (x :: t)))
    else if x = '"' ∨ x = '\'' then
      match closingLength? x t with
      | some n => scans (t.drop n)
      | none => false
    else apart x t && scans t
termination_by t => t.length
decreasing_by
  · simp only [List.length_drop, List.length_cons]
    omega
  · simp only [List.length_drop, List.length_cons]
    omega
  · simp

@[simp] theorem scans_nil : scans [] = true := by rw [scans]

theorem scans_drop_layout (t : Text) : scans (t.drop (layoutLength t)) = scans t := by
  cases t with
  | nil => rfl
  | cons x t =>
    by_cases h : 0 < layoutLength (x :: t)
    · rw [scans.eq_def (x :: t)]
      simp only [dif_pos h]
    · rw [Nat.eq_zero_of_not_pos h, List.drop_zero]

theorem scans_quote {q : Char} (hq : q = '"' ∨ q = '\'') (t : Text) :
    scans (q :: t) = true ↔ ∃ n, closingLength? q t = some n ∧ scans (t.drop n) = true := by
  have hl : ¬ 0 < layoutLength (q :: t) := by
    rcases hq with rfl | rfl <;> simp [layoutLength, isBlank, startsComment]
  rw [scans, dif_neg hl, if_pos hq]
  cases closingLength? q t <;> simp

theorem scans_cons {x : Char} {t : Text} (hl : layoutLength (x :: t) = 0)
    (hx : x ≠ '"' ∧ x ≠ '\'') : scans (x :: t) = (apart x t && scans t) := by
  have h : ¬ 0 < layoutLength (x :: t) := by omega
  have hq : ¬ (x = '"' ∨ x = '\'') := not_or.2 hx
  rw [scans, dif_neg h, if_neg hq]

theorem scans_append_of_inert {t r : Text} (h : inert t = true) : scans (t ++ r) = scans r := by
  induction t with
  | nil => rfl
  | cons x t ih =>
    obtain ⟨-, h1, h2, h3, h4, -, ht⟩ := inert_cons.1 h
    have hl : layoutLength (x :: (t ++ r)) = 0 := layoutLength_of_inert h (List.cons_ne_nil x t) r
    rw [List.cons_append, scans_cons hl ⟨h1, h2⟩, ih ht]
    simp [apart, h3, h4]

end Text

/-! ## Tokens -/

namespace Cursor

variable {c d : Cursor} {t : Text}

theorem scans_skip (c : Cursor) : c.skip.rest.scans = c.rest.scans := Text.scans_drop_layout c.rest

theorem token?_scans {k : Token} (h : c.token? k = some (t, d)) (hk : k.Inert) :
    c.rest.scans = d.rest.scans := by
  obtain ⟨n, hn, rfl, rfl⟩ := token?_eq_some_iff.1 h
  rw [← scans_skip, ← List.take_append_drop n c.skip.rest,
    Text.scans_append_of_inert (hk.text hn)]
  rfl

theorem quoted_scans {q : Char} (hq : q = '"' ∨ q = '\'')
    (h : c.token? (.quoted q) = some (t, d)) : c.rest.scans = d.rest.scans := by
  obtain ⟨n, hn, -, rfl⟩ := token?_eq_some_iff.1 h
  obtain ⟨hx, m, hm, rfl⟩ := Token.quotedLength?_eq_some_iff.1 hn
  rw [← scans_skip]
  simp only [advance]
  cases hr : c.skip.rest with
  | nil => simp [hr] at hx
  | cons x u =>
    obtain rfl : x = q := by simpa [hr] using hx
    rw [hr, List.tail_cons] at hm
    rw [Bool.eq_iff_iff, Text.scans_quote hq]
    simp [hm]

theorem keyword?_scans {w : String} (h : c.keyword? w = some d)
    (hw : w.toList.all Char.isUpper = true) : c.rest.scans = d.rest.scans := by
  obtain ⟨u, hu⟩ := token?_of_pass? h
  exact token?_scans hu hw

theorem symbol?_scans {s : Char} (h : c.symbol? s = some d) (hs : Text.inert [s] = true) :
    c.rest.scans = d.rest.scans := by
  obtain ⟨u, hu⟩ := token?_of_pass? h
  exact token?_scans hu hs

theorem apart_scans {s : Char} (h : c.symbol? s = some d)
    (hs : isBlank s = false ∧ s ≠ '-') (hq : s ≠ '"' ∧ s ≠ '\'') (hd : Text.apart s d.rest = true) :
    c.rest.scans = d.rest.scans := by
  obtain ⟨u, hu, rfl⟩ := exists_of_symbol? h
  rw [← scans_skip]
  simp only [advance, hu, List.drop_one, List.tail_cons] at hd ⊢
  rw [Text.scans_cons (layoutLength_of_head hs) hq, hd]
  rfl

theorem comma_scans (h : c.symbol? ',' = some d) (hd : d.next ≠ some '*') :
    c.rest.scans = d.rest.scans := by
  have hd' : (d.rest.drop (layoutLength d.rest)).head? ≠ some '*' := hd
  exact apart_scans h (by decide) (by decide) (by rw [Text.apart, decide_eq_true hd']; rfl)

theorem star_scans (h : c.symbol? '*' = some d) (hd : d.next ≠ some ',') :
    c.rest.scans = d.rest.scans := by
  have hd' : (d.rest.drop (layoutLength d.rest)).head? ≠ some ',' := hd
  exact apart_scans h (by decide) (by decide) (by rw [Text.apart, decide_eq_true hd']; rfl)

/-! ## Lists -/

section Lists

variable {α : Type} {separator : Cursor → Option Cursor} {stands : α → Cursor → Cursor → Prop}

theorem MoreStand.scans
    (hsep : ∀ c d, separator c = some d → d.next ≠ some '*' → c.rest.scans = d.rest.scans)
    {as : List α}
    (hitem : ∀ a ∈ as, ∀ c d, stands a c d → c.next ≠ some '*' ∧ c.rest.scans = d.rest.scans)
    (h : MoreStand separator stands as c d) : c.rest.scans = d.rest.scans := by
  induction as generalizing c with
  | nil =>
    cases h
    rfl
  | cons a as ih =>
    obtain ⟨e, f, he, ha, hf⟩ := h
    obtain ⟨hne, hscans⟩ := hitem a (by simp) e f ha
    rw [hsep c e he hne, hscans]
    exact ih (fun b hb => hitem b (by simp [hb])) hf

theorem SequenceStands.scans
    (hsep : ∀ c d, separator c = some d → d.next ≠ some '*' → c.rest.scans = d.rest.scans)
    {as : List α}
    (hitem : ∀ a ∈ as, ∀ c d, stands a c d → c.next ≠ some '*' ∧ c.rest.scans = d.rest.scans)
    (h : SequenceStands separator stands as c d) : c.rest.scans = d.rest.scans := by
  cases as with
  | nil => cases h
  | cons a as =>
    obtain ⟨e, ha, hmore⟩ := h
    rw [(hitem a (by simp) c e ha).2]
    exact MoreStand.scans hsep (fun b hb => hitem b (by simp [hb])) hmore

theorem ItemsStand.scans {as : List α}
    (hitem : ∀ a ∈ as, ∀ c d, stands a c d → c.next ≠ some '*' ∧ c.rest.scans = d.rest.scans)
    (h : ItemsStand stands as c d) : c.rest.scans = d.rest.scans := by
  cases as with
  | nil =>
    cases h
    rfl
  | cons a as => exact SequenceStands.scans (fun _ _ => comma_scans) hitem h

theorem OptionStands.scans {o : Option α}
    (hitem : ∀ a c d, stands a c d → c.rest.scans = d.rest.scans) (h : OptionStands stands o c d) :
    c.rest.scans = d.rest.scans := by
  cases o with
  | none =>
    cases h
    rfl
  | some a => exact hitem a c d h

theorem FlagStands.scans {part : Cursor → Option Cursor} {b : Bool}
    (hpart : ∀ c d, part c = some d → c.rest.scans = d.rest.scans) (h : FlagStands part b c d) :
    c.rest.scans = d.rest.scans := by
  cases b with
  | false =>
    cases h
    rfl
  | true => exact hpart c d h

end Lists

end Cursor

/-! ## Terms and calls -/

theorem Text.StandsAsName.scans {t : Text} {c d : Cursor} (h : t.StandsAsName c d) :
    c.rest.scans = d.rest.scans := by
  rcases h with h | h
  · exact quoted_scans (.inl rfl) h
  · exact token?_scans h trivial

theorem Term.Stands.next_ne_star {t : Term} {c d : Cursor} (h : t.Stands c d) :
    c.next ≠ some '*' :=
  Argument.Stands.next_ne_star (a := .term t) h

theorem Term.Stands.scans {t : Term} : ∀ {c d : Cursor}, t.Stands c d →
    c.rest.scans = d.rest.scans := by
  induction t using Term.induction with
  | number t => exact fun h => token?_scans h trivial
  | string t => exact fun h => quoted_scans (.inr rfl) h
  | positional => exact fun h => symbol?_scans h (by decide)
  | bind t => exact fun h => token?_scans h trivial
  | constant k => exact fun h => keyword?_scans h (by cases k <;> decide)
  | list ts ih =>
    rintro c d ⟨e, f, he, hts, hf⟩
    have hitems := ItemsStand.scans
      (fun t ht _ _ h => ⟨Term.Stands.next_ne_star h, ih t ht h⟩) (Term.allStand_iff.1 hts)
    rw [symbol?_scans he (by decide), hitems, symbol?_scans hf (by decide)]

theorem Call.stands_scans :
    (∀ (x : Call) {c d : Cursor}, x.Stands c d → c.rest.scans = d.rest.scans) ∧
    ∀ (a : Argument) {c d : Cursor}, a.Stands c d → c.rest.scans = d.rest.scans := by
  apply Call.induction
  case star =>
    rintro f c d ⟨e, g, i, he, hg, hi, hd⟩
    have hne : i.next ≠ some ',' := by simp [(next_of_symbol? hd)]
    rw [token?_scans he trivial, symbol?_scans hg (by decide), star_scans hi hne,
      symbol?_scans hd (by decide)]
  case apply =>
    rintro f as ih c d ⟨e, g, i, he, hg, has, hd⟩
    have hitems := ItemsStand.scans
      (fun a ha _ _ h => ⟨Argument.Stands.next_ne_star h, ih a ha h⟩) (Argument.allStand_iff.1 has)
    rw [token?_scans he trivial, symbol?_scans hg (by decide), hitems,
      symbol?_scans hd (by decide)]
  case call => exact fun _ ih _ _ h => ih h
  case term => exact fun _ _ _ h => Term.Stands.scans h
  case name => exact fun _ _ _ h => h.1.scans

/-! ## The parts of a statement -/

theorem Named.AliasStands.scans {t : Text} {c d : Cursor} (h : AliasStands t c d) :
    c.rest.scans = d.rest.scans := by
  obtain ⟨e, he, hd⟩ := h
  rw [keyword?_scans he (by decide), hd.scans]

theorem Selector.Stands.scans {s : Selector Text} {c d : Cursor} (h : s.Stands c d) :
    c.rest.scans = d.rest.scans := by
  cases s with
  | star => cases h
  | column n =>
    obtain ⟨e, he, ho⟩ := h
    rw [he.scans, OptionStands.scans (fun _ _ _ => Named.AliasStands.scans) ho]
  | function n =>
    obtain ⟨x, e, -, he, ho⟩ := h
    rw [Call.stands_scans.1 x he, OptionStands.scans (fun _ _ _ => Named.AliasStands.scans) ho]

theorem Selector.AllStand.scans {ss : List (Selector Text)} {c d : Cursor} (h : AllStand ss c d)
    (hd : d.next ≠ some ',') : c.rest.scans = d.rest.scans := by
  rcases h with ⟨-, h⟩ | h
  · exact star_scans h hd
  · exact SequenceStands.scans (fun _ _ => comma_scans)
      (fun _ _ _ _ hs => ⟨Stands.next_ne_star hs, hs.scans⟩) h

theorem TableName.Stands.scans {t : TableName Text} {c d : Cursor} (h : t.Stands c d) :
    c.rest.scans = d.rest.scans := by
  obtain ⟨e, hk, hn⟩ := h
  refine (OptionStands.scans (fun k i j hij => ?_) hk).trans hn.scans
  obtain ⟨f, hf, hj⟩ := hij
  rw [hf.scans, symbol?_scans hj (by decide)]

theorem Relation.OperatorStands.scans {o : Text} {c d : Cursor} (h : OperatorStands o c d) :
    c.rest.scans = d.rest.scans := by
  rcases h with h | ⟨-, h⟩ | ⟨-, e, h, h'⟩ | ⟨-, h⟩ | ⟨-, h⟩
  · exact token?_scans h trivial
  · exact keyword?_scans h (by decide)
  · rw [keyword?_scans h (by decide), keyword?_scans h' (by decide)]
  · exact keyword?_scans h (by decide)
  · exact keyword?_scans h (by decide)

theorem Relation.Stands.scans {r : Relation Text} {c d : Cursor} (h : r.Stands c d) :
    c.rest.scans = d.rest.scans := by
  obtain ⟨e, f, he, hf, v, -, hv⟩ := h
  rw [he.scans, hf.scans, hv.scans]

theorem Relation.AllStand.scans {rs : List (Relation Text)} {c d : Cursor} (h : AllStand rs c d) :
    c.rest.scans = d.rest.scans := by
  cases rs with
  | nil =>
    cases h
    rfl
  | cons r rs =>
    obtain ⟨e, he, hseq⟩ := h
    rw [keyword?_scans he (by decide)]
    refine SequenceStands.scans (fun _ _ hi _ => keyword?_scans hi (by decide))
      (fun r _ i j hr => ⟨?_, Stands.scans hr⟩) hseq
    obtain ⟨f, g, hf, -⟩ := hr
    exact hf.next_ne (by decide)

theorem OrderKey.Stands.scans {k : OrderKey Text} {c d : Cursor} (h : k.Stands c d) :
    c.rest.scans = d.rest.scans := by
  obtain ⟨e, he, hd⟩ := h
  rw [he.scans]
  cases hk : k.descending with
  | true =>
    rw [hk] at hd
    exact keyword?_scans hd (by decide)
  | false =>
    rw [hk] at hd
    rcases hd with hd | rfl
    · exact keyword?_scans hd (by decide)
    · rfl

theorem OrderKey.AllStand.scans {ks : List (OrderKey Text)} {c d : Cursor} (h : AllStand ks c d) :
    c.rest.scans = d.rest.scans := by
  obtain ⟨e, f, he, hf, hseq⟩ := h
  rw [keyword?_scans he (by decide), keyword?_scans hf (by decide)]
  refine SequenceStands.scans (fun _ _ => comma_scans) (fun k _ i j hk => ⟨?_, Stands.scans hk⟩) hseq
  obtain ⟨g, hg, -⟩ := hk
  exact hg.next_ne (by decide)

/-! ## Statements -/

namespace Statement

theorem HeadStands.scans {s : Statement Text} {c d : Cursor} (h : s.HeadStands c d) :
    c.rest.scans = d.rest.scans := by
  obtain ⟨c₁, c₂, c₃, c₄, c₅, h₁, h₂, h₃, h₄, h₅, h₆⟩ := h
  have hne : c₄.next ≠ some ',' := next_ne_of_keyword? h₅ (by decide) (by decide)
  rw [keyword?_scans h₁ (by decide),
    FlagStands.scans (fun _ _ hi => keyword?_scans hi (by decide)) h₂,
    FlagStands.scans (fun _ _ hi => keyword?_scans hi (by decide)) h₃,
    h₄.scans hne, keyword?_scans h₅ (by decide), h₆.scans]

theorem EndStands.scans {s : Statement Text} {c : Cursor} (h : s.EndStands c) :
    c.rest.scans = true := by
  obtain ⟨d, e, f, semicolon, hlimit, hfilt, hsemi, hend⟩ := h
  have limit : ∀ (z : Int) (i j : Cursor), LimitStands z i j → i.rest.scans = j.rest.scans := by
    rintro z i j ⟨digits, -, k, hk, hj⟩
    rw [keyword?_scans hk (by decide), token?_scans hj trivial]
  have filtering : ∀ i j : Cursor, (i.keyword? "ALLOW").bind (Cursor.keyword? "FILTERING") = some j →
      i.rest.scans = j.rest.scans := by
    intro i j hij
    obtain ⟨k, hk, hj⟩ := Option.bind_eq_some_iff.1 hij
    rw [keyword?_scans hk (by decide), keyword?_scans hj (by decide)]
  rw [OptionStands.scans limit hlimit, FlagStands.scans filtering hfilt,
    FlagStands.scans (fun _ _ hi => symbol?_scans hi (by decide)) hsemi, ← scans_skip, hend,
    Text.scans_nil]

theorem Stands.scans {s : Statement Text} {t : Text} (h : s.Stands t) :
    (Text.expandTabs t).scans = true := by
  obtain ⟨c, d, hhead, ⟨e, hr, ho⟩, hend⟩ := h
  have hstart : (start (Text.expandTabs t)).rest = Text.expandTabs t := rfl
  rw [← hstart, hhead.scans, hr.scans,
    OptionStands.scans (fun _ _ _ => OrderKey.AllStand.scans) ho, hend.scans]

end Statement

end CqlCanon
