import CqlCanon.Proofs.Grammar.Basic

/-!
# Readers of sequences and the grammar

A reader is sound where all that it reads stands in the text, and complete
where it reads all that stands there. For sequences both follow from the same
facts about their items. Completeness needs to know what comes after an item:
`follow` holds of the cursors where an item may end.
-/

namespace CqlCanon.Cursor

variable {α β : Type} {separator : Cursor → Option Cursor} {item : Cursor → Option (β × Cursor)}
  {stands : α → Cursor → Cursor → Prop} {f : β → α} {follow : Cursor → Prop}

/-- What holds before every separator holds at the start, if there is an item. -/
theorem MoreStand.start_of_ne {as : List α} {c d : Cursor} (h : MoreStand separator stands as c d)
    (hsep : ∀ c d, separator c = some d → follow c) (hne : as ≠ []) : follow c := by
  cases as with
  | nil => exact absurd rfl hne
  | cons a as =>
    obtain ⟨e, _, he, _⟩ := h
    exact hsep c e he

theorem MoreStand.start {as : List α} {c d : Cursor} (h : MoreStand separator stands as c d)
    (hsep : ∀ c d, separator c = some d → follow c) (hd : follow d) : follow c := by
  cases as with
  | nil =>
    cases h
    exact hd
  | cons a as => exact h.start_of_ne hsep (List.cons_ne_nil a as)

/-! ## Soundness -/

theorem more_sound (hs : ∀ c d, separator c = some d → d.size < c.size) (c : Cursor)
    (hi : ∀ d b e, d.size < c.size → item d = some (b, e) → stands (f b) d e) :
    MoreStand separator stands ((more separator item c).1.map f) c (more separator item c).2 := by
  fun_induction more separator item c with
  | case1 => exact rfl
  | case2 => exact rfl
  | case3 c d hd a e he hlt as g hg ih =>
    simp only [hg] at ih
    exact ⟨d, e, hd, hi d a e (hs c d hd) he, ih fun i b j h => hi i b j (Nat.lt_trans h hlt)⟩
  | case4 c d hd a e he => exact ⟨d, e, hd, hi d a e (hs c d hd) he, rfl⟩

theorem sequence?_sound (hs : ∀ c d, separator c = some d → d.size < c.size) {c d : Cursor}
    (hi : ∀ d b e, d.size ≤ c.size → item d = some (b, e) → e.size < d.size ∧ stands (f b) d e)
    {bs : List β} (h : sequence? separator item c = some (bs, d)) :
    SequenceStands separator stands (bs.map f) c d := by
  obtain ⟨⟨b, e⟩, hb, heq⟩ := Option.map_eq_some_iff.1 h
  cases heq
  obtain ⟨hlt, hc⟩ := hi c b e (Nat.le_refl _) hb
  exact ⟨e, hc, more_sound hs e fun d b g hd hg => (hi d b g (by omega) hg).2⟩

theorem items_sound {c : Cursor}
    (hi : ∀ d b e, d.size ≤ c.size → item d = some (b, e) → e.size < d.size ∧ stands (f b) d e) :
    ItemsStand stands ((items item c).1.map f) c (items item c).2 := by
  unfold items
  cases h : sequence? (symbol? ',') item c with
  | none => exact rfl
  | some r =>
    obtain ⟨as, d⟩ := r
    have := sequence?_sound comma_size_lt hi h
    simp only [Option.getD_some]
    cases hr : as with
    | nil => simp [hr, SequenceStands] at this
    | cons b bs => simpa [hr, ItemsStand] using this

theorem optional_sound {c : Cursor} (hi : ∀ b d, item c = some (b, d) → stands (f b) c d) :
    OptionStands stands ((c.optional item).1.map f) c (c.optional item).2 := by
  unfold optional
  cases h : item c with
  | none => exact rfl
  | some r => exact hi r.1 r.2 h

theorem flag_sound (part : Cursor → Option Cursor) (c : Cursor) :
    FlagStands part (c.flag part).1 c (c.flag part).2 := by
  unfold flag
  cases h : part c with
  | none => exact rfl
  | some d => exact h

/-! ## Completeness -/

theorem more_complete (hs : ∀ c d, separator c = some d → d.size < c.size)
    (hadv : ∀ d, Advances item d) {as : List α} {c d : Cursor}
    (hi : ∀ a ∈ as, ∀ d e, stands a d e → follow e → ∃ b, item d = some (b, e) ∧ f b = a)
    (hsep : ∀ d e, separator d = some e → follow d) (hd : follow d)
    (hstop : ∀ e, separator d = some e → item e = none) (h : MoreStand separator stands as c d) :
    ∃ bs, more separator item c = (bs, d) ∧ bs.map f = as := by
  induction as generalizing c with
  | nil =>
    cases h
    refine ⟨[], ?_, rfl⟩
    rw [more_eq hs hadv]
    cases hd : separator d with
    | none => rfl
    | some e => simp [hstop e hd]
  | cons a as ih =>
    obtain ⟨e, g, he, ha, hg⟩ := h
    obtain ⟨bs, hbs, hmap⟩ := ih (fun b hb => hi b (by simp [hb])) hg
    obtain ⟨b, hb, rfl⟩ := hi a (by simp) e g ha (hg.start hsep hd)
    exact ⟨b :: bs, by rw [more_eq hs hadv, he]; simp [hb, hbs], by simp [hmap]⟩

theorem sequence?_complete (hs : ∀ c d, separator c = some d → d.size < c.size)
    (hadv : ∀ d, Advances item d) {as : List α} {c d : Cursor}
    (hi : ∀ a ∈ as, ∀ d e, stands a d e → follow e → ∃ b, item d = some (b, e) ∧ f b = a)
    (hsep : ∀ d e, separator d = some e → follow d) (hd : follow d)
    (hstop : ∀ e, separator d = some e → item e = none)
    (h : SequenceStands separator stands as c d) :
    ∃ bs, sequence? separator item c = some (bs, d) ∧ bs.map f = as := by
  cases as with
  | nil => cases h
  | cons a as =>
    obtain ⟨e, ha, he⟩ := h
    obtain ⟨bs, hbs, hmap⟩ := more_complete hs hadv (fun b hb => hi b (by simp [hb])) hsep hd hstop he
    obtain ⟨b, hb, rfl⟩ := hi a (by simp) c e ha (he.start hsep hd)
    exact ⟨b :: bs, by simp [sequence?, hb, hbs], by simp [hmap]⟩

theorem items_complete (hadv : ∀ d, Advances item d) {as : List α} {c d : Cursor}
    (hi : ∀ a ∈ as, ∀ d e, stands a d e → follow e → ∃ b, item d = some (b, e) ∧ f b = a)
    (hsep : ∀ d e, d.symbol? ',' = some e → follow d) (hd : follow d)
    (hstop : d.symbol? ',' = none) (hnone : item d = none) (h : ItemsStand stands as c d) :
    ∃ bs, items item c = (bs, d) ∧ bs.map f = as := by
  cases as with
  | nil =>
    cases h
    exact ⟨[], by simp [items, sequence?, hnone], rfl⟩
  | cons a as =>
    obtain ⟨bs, hbs, hmap⟩ := sequence?_complete comma_size_lt hadv hi hsep hd
      (fun e he => by rw [hstop] at he; cases he) h
    exact ⟨bs, by simp [items, hbs], hmap⟩

theorem optional_complete {a : Option α} {c d : Cursor}
    (hi : ∀ b, a = some b → stands b c d → ∃ b', item c = some (b', d) ∧ f b' = b)
    (hnone : a = none → item c = none) (h : OptionStands stands a c d) :
    ∃ b, c.optional item = (b, d) ∧ b.map f = a := by
  cases a with
  | none =>
    cases h
    exact ⟨none, by simp [optional, hnone rfl], rfl⟩
  | some a =>
    obtain ⟨b, hb, rfl⟩ := hi a rfl h
    exact ⟨some b, by simp [optional, hb], rfl⟩

theorem flag_complete {part : Cursor → Option Cursor} {b : Bool} {c d : Cursor}
    (hnone : b = false → part c = none) (h : FlagStands part b c d) : c.flag part = (b, d) := by
  cases b with
  | false =>
    cases h
    simp [flag, hnone rfl]
  | true => simp [flag, show part c = some d from h]

end CqlCanon.Cursor
