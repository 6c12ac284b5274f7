import CqlCanon.Proofs.Lexeme.Statement

/-!
# How far a text is read

The reader passes over what it cannot read, but not over what stands in the
text. Where something comes after a part, the part is read up to its end; after
the last part the reader goes on from there, or further. So a fault is never
before the end of a statement that the text starts with.
-/

namespace CqlCanon

open Cursor Lexeme

namespace Cursor

variable {α β : Type} {c d e : Cursor}

/-- Tokens lead from one cursor to the other. -/
def Reaches (c d : Cursor) : Prop := ∃ l, c.Passes l d

/-- The reader only goes on. -/
def Onward (read : Cursor → Cursor) : Prop := ∀ c : Cursor, c.Clean → c.Reaches (read c)

namespace Reaches

theorem refl (c : Cursor) : c.Reaches c := ⟨[], rfl⟩

theorem trans (h : c.Reaches d) (h' : d.Reaches e) : c.Reaches e := by
  obtain ⟨l, hl⟩ := h
  obtain ⟨m, hm⟩ := h'
  exact ⟨l ++ m, passes_append.2 ⟨d, hl, hm⟩⟩

theorem clean (h : c.Reaches d) (hc : c.Clean) : d.Clean := by
  obtain ⟨l, hl⟩ := h
  exact hc.passes hl

theorem position_le (h : c.Reaches d) : c.skip.position ≤ d.skip.position := by
  obtain ⟨l, hl⟩ := h
  induction l generalizing c with
  | nil => exact (show c = d from hl) ▸ Nat.le_refl _
  | cons x l ih =>
    obtain ⟨t, e, he, -, hl⟩ := hl
    obtain ⟨n, -, -, rfl⟩ := token?_eq_some_iff.1 he
    have hafter : c.skip.position ≤ (c.skip.advance n).skip.position := by
      simp only [skip, advance]
      omega
    exact Nat.le_trans hafter (ih hl)

theorem symbol {s : Char} (h : c.symbol? s = some d) : c.Reaches d := ⟨_, passes_symbol.2 h⟩

theorem keyword {w : String} (h : c.keyword? w = some d) : c.Reaches d := ⟨_, passes_keyword.2 h⟩

theorem name {t : Text} (h : t.StandsAsName c d) : c.Reaches d := ⟨_, passes_name.2 h⟩

end Reaches

namespace Onward

variable {read : Cursor → Cursor} {item : Cursor → Option (β × Cursor)}
  {separator : Cursor → Option Cursor}

theorem comp {first : Cursor → Cursor} (h : Onward read) (h' : Onward first) :
    Onward (read ∘ first) := fun c hc => (h' c hc).trans (h _ ((h' c hc).clean hc))

theorem optional (h : ∀ c b d, item c = some (b, d) → c.Clean → c.Reaches d) :
    Onward fun c => (c.optional item).2 := by
  intro c hc
  show c.Reaches (c.optional item).2
  unfold Cursor.optional
  cases hi : item c with
  | none => exact .refl c
  | some r => exact h c r.1 r.2 hi hc

theorem flag {part : Cursor → Option Cursor} (h : ∀ c d, part c = some d → c.Reaches d) :
    Onward fun c => (c.flag part).2 := by
  intro c _
  show c.Reaches (c.flag part).2
  unfold Cursor.flag
  cases hp : part c with
  | none => exact .refl c
  | some d => exact h c d hp

theorem more (hsep : ∀ c d, separator c = some d → c.Reaches d)
    (hitem : ∀ c b d, item c = some (b, d) → c.Clean → c.Reaches d) :
    Onward fun c => (more separator item c).2 := by
  intro c hc
  show c.Reaches (Cursor.more separator item c).2
  fun_induction Cursor.more separator item c with
  | case1 c => exact .refl c
  | case2 c => exact .refl c
  | case3 c d hd a e he _ as f hf ih =>
    have hd := hsep c d hd
    have he := hitem d a e he (hd.clean hc)
    have hrest := ih (he.clean (hd.clean hc))
    rw [hf] at hrest
    exact hd.trans (he.trans hrest)
  | case4 c d hd a e he =>
    have hd := hsep c d hd
    exact hd.trans (hitem d a e he (hd.clean hc))

end Onward

/-! ## Sequences -/

section Sequence

variable {separator : Cursor → Option Cursor} {item : Cursor → Option (β × Cursor)}
  {stands : α → Cursor → Cursor → Prop} {as : List α}

/-- The place is the given one, or is further on and no separator comes between. -/
def Past (separator : Cursor → Option Cursor) (c d : Cursor) : Prop :=
  d = c ∨ (∀ e, separator c ≠ some e) ∧ c.skip.position ≤ d.skip.position

theorem Past.position_le (h : Past separator c d) : c.skip.position ≤ d.skip.position := by
  rcases h with rfl | ⟨-, h⟩
  · exact Nat.le_refl _
  · exact h

variable (hs : ∀ c d, separator c = some d → d.size < c.size) (hadv : ∀ d, Advances item d)
  (hsep : ∀ c d, separator c = some d → c.Reaches d)
  (hitem : ∀ c b d, item c = some (b, d) → c.Clean → c.Reaches d)
  (hstands : ∀ a c d, stands a c d → ∃ b e, item c = some (b, e) ∧ Past separator d e)

include hs hadv hsep hitem hstands

theorem more_reach (h : MoreStand separator stands as c d) (hc : Past separator c e)
    (hclean : e.Clean) : d.skip.position ≤ (more separator item e).2.skip.position := by
  induction as generalizing c e with
  | nil =>
    obtain rfl : c = d := h
    exact Nat.le_trans hc.position_le (Onward.more hsep hitem e hclean).position_le
  | cons a as ih =>
    obtain ⟨f, g, hf, ha, hg⟩ := h
    obtain rfl := hc.resolve_right fun hnone => hnone.1 f hf
    obtain ⟨b, i, hi, hpast⟩ := hstands a f g ha
    have hfclean := (hsep e f hf).clean hclean
    rw [more_eq hs hadv, hf]
    simp only [hi]
    exact ih hg hpast ((hitem f b i hi hfclean).clean hfclean)

/-- Items that stand are all read, and perhaps others after them. -/
theorem sequence?_reach (h : SequenceStands separator stands as c d) (hc : c.Clean) :
    ∃ bs e, sequence? separator item c = some (bs, e) ∧ d.skip.position ≤ e.skip.position := by
  cases as with
  | nil => cases h
  | cons a as =>
    obtain ⟨f, ha, hf⟩ := h
    obtain ⟨b, g, hg, hpast⟩ := hstands a c f ha
    refine ⟨_, _, by rw [sequence?, hg]; rfl, ?_⟩
    exact more_reach hs hadv hsep hitem hstands hf hpast ((hitem c b g hg hc).clean hc)

end Sequence

end Cursor

/-! ## The parts after the table -/

theorem Relation.AllStand.reaches {rs : List (Relation Text)} {c d : Cursor} (h : AllStand rs c d)
    (hc : c.Clean) : c.Reaches d := by
  obtain ⟨l, -, hl⟩ := h.passes hc
  exact ⟨l, hl⟩

theorem OrderKey.AllStand.reaches {o : Option (List (OrderKey Text))} {c d : Cursor}
    (h : OptionStands AllStand o c d) : c.Reaches d := by
  obtain ⟨l, -, hl⟩ := OrderKey.AllStand.passes h
  exact ⟨l, hl⟩

theorem Relation.read?_reaches {c d : Cursor} {r : Relation Located} (h : read? c = some (r, d))
    (hc : c.Clean) : c.Reaches d := by
  obtain ⟨l, -, hl⟩ := (read?_sound h).passes hc
  exact ⟨l, hl⟩

theorem Relation.readAll?_reach {r : Relation Text} {rs : List (Relation Text)} {c d : Cursor}
    (h : AllStand (r :: rs) c d) (hc : c.Clean) :
    ∃ ls e, readAll? c = some (ls, e) ∧ d.skip.position ≤ e.skip.position := by
  obtain ⟨f, hf, hs⟩ := h
  obtain ⟨ls, e, he, hle⟩ := sequence?_reach and_size_lt read?_advances (fun _ _ => .keyword)
    (fun _ _ _ h hc => read?_reaches h hc) (fun r i j hr => by
      obtain ⟨l, hl, -⟩ := read?_complete hr
      exact ⟨l, j, hl, .inl rfl⟩) hs (hc.keyword? hf)
  exact ⟨ls, e, by rw [readAll?, hf]; exact he, hle⟩

theorem OrderKey.read?_reaches {c d : Cursor} {k : OrderKey Located} (h : read? c = some (k, d)) :
    c.Reaches d := by
  obtain ⟨l, -, hl⟩ := (read?_sound h).passes
  exact ⟨l, hl⟩

theorem OrderKey.readDescending_reaches (c : Cursor) : c.Reaches (readDescending c).2 := by
  have h := readDescending_sound c
  cases hb : (readDescending c).1 with
  | true =>
    rw [hb] at h
    exact .keyword h
  | false =>
    rw [hb] at h
    rcases h with h | h
    · exact .keyword h
    · exact h ▸ .refl _

theorem OrderKey.read?_past {k : OrderKey Text} {c d : Cursor} (h : k.Stands c d) :
    ∃ l e, read? c = some (l, e) ∧ Past (symbol? ',') d e := by
  obtain ⟨column, descending⟩ := k
  obtain ⟨e, he, hdir⟩ := h
  refine ⟨⟨⟨column, c.commentsEnd⟩, (readDescending e).1⟩, (readDescending e).2,
    by simp [read?, Located.read?_complete commentsEnd he], ?_⟩
  rcases readDescending_of_stands hdir with hread | ⟨-, rfl⟩
  · exact .inl (by rw [hread])
  · by_cases hcomma : e.next = some ','
    · have hends : Ends e := ⟨keyword?_eq_none_of_next hcomma (by decide) (by decide),
        keyword?_eq_none_of_next hcomma (by decide) (by decide)⟩
      exact .inl (by rw [readDescending_complete hdir hends])
    · refine .inr ⟨fun f hf => ?_, (readDescending_reaches e).position_le⟩
      rw [symbol?_eq_none hcomma] at hf
      cases hf

theorem OrderKey.readAll?_reach {ks : List (OrderKey Text)} {c d : Cursor} (h : AllStand ks c d)
    (hc : c.Clean) : ∃ ls e, readAll? c = some (ls, e) ∧ d.skip.position ≤ e.skip.position := by
  obtain ⟨e, f, he, hf, hs⟩ := h
  obtain ⟨ls, g, hg, hle⟩ := sequence?_reach comma_size_lt read?_advances (fun _ _ => .symbol)
    (fun _ _ _ h _ => read?_reaches h) (fun k i j hk => read?_past hk) hs
    ((hc.keyword? he).keyword? hf)
  exact ⟨ls, g, by rw [readAll?, he, Option.bind_eq_bind, Option.bind_some, hf]; exact hg, hle⟩

/-! ## One part after another -/

namespace Draft

variable {c d e : Cursor} {R T : Cursor → Cursor} {words : List String}

def passRelations (c : Cursor) : Cursor := (c.optional Relation.readAll?).2

def passOrder (c : Cursor) : Cursor := (c.optional OrderKey.readAll?).2

def passLimit (c : Cursor) : Cursor := (c.optional readLimitDigits?).2

def passFiltering (c : Cursor) : Cursor := (c.flag readFiltering?).2

def passSemicolon (c : Cursor) : Cursor := (c.flag (symbol? ';')).2

theorem passRelations_onward : Onward passRelations :=
  .optional fun _ _ _ h hc => (Relation.readAll?_sound h).reaches hc

theorem passOrder_onward : Onward passOrder := .optional fun _ _ _ h _ =>
  OrderKey.AllStand.reaches (o := some _) (OrderKey.readAll?_sound h)

theorem limitDigits_reaches {digits : Text} (h : Statement.LimitDigitsStand digits c d) :
    c.Reaches d := by
  obtain ⟨e, he, hd⟩ := h
  exact (Reaches.keyword he).trans ⟨_, passes_token.2 hd⟩

theorem limit_reaches {limit : Option Int} (h : OptionStands Statement.LimitStands limit c d) :
    c.Reaches d := by
  cases limit with
  | none => exact (show c = d from h) ▸ .refl c
  | some z =>
    obtain ⟨digits, -, hd⟩ := h
    exact limitDigits_reaches hd

theorem passLimit_onward : Onward passLimit := .optional fun _ _ _ h _ =>
  limitDigits_reaches (readLimitDigits?_eq_some_iff.1 h)

theorem filtering_reaches {b : Bool} (h : FlagStands readFiltering? b c d) : c.Reaches d := by
  cases b with
  | false => exact (show c = d from h) ▸ .refl c
  | true =>
    obtain ⟨e, he, hd⟩ := Option.bind_eq_some_iff.1 h
    exact (Reaches.keyword he).trans (.keyword hd)

theorem passFiltering_onward : Onward passFiltering := .flag fun _ _ h =>
  filtering_reaches (b := true) h

theorem passSemicolon_onward : Onward passSemicolon := .flag fun _ _ => .symbol

/-- A part that stands is read up to its end where one of the words may come next, and otherwise up
to there at least. -/
structure Covers (R : Cursor → Cursor) (words : List String) (c d : Cursor) : Prop where
  exact : d.Opens words → R c = d
  reach : d.skip.position ≤ (R c).skip.position

theorem Covers.of_eq (h : R c = d) : Covers R words c d := ⟨fun _ => h, Nat.le_of_eq (by rw [h])⟩

/-- Reading goes on from the end of a part, or there is nothing after it. -/
theorem Covers.step (h : Covers R words c d) (hR : Onward R) (hT : Onward T) (hc : c.Clean)
    (hd : d.Opens words ∨ d = e) (hrest : e.skip.position ≤ (T d).skip.position) :
    e.skip.position ≤ (T (R c)).skip.position := by
  rcases hd with hd | rfl
  · rwa [h.exact hd]
  · exact Nat.le_trans h.reach (hT _ ((hR c hc).clean hc)).position_le

theorem relations_covers {rs : List (Relation Text)} (h : Relation.AllStand rs c d) (hc : c.Clean) :
    Covers passRelations ["ORDER", "LIMIT", "ALLOW"] c d where
  exact hd := by
    obtain ⟨o, ho, -⟩ := Relation.optional_complete h (hd.keyword?_eq_none (by decide))
      (hd.keyword?_eq_none (by decide))
    rw [passRelations, ho]
  reach := by
    cases rs with
    | nil => exact (show c = d from h) ▸ (passRelations_onward c hc).position_le
    | cons r rs =>
      obtain ⟨ls, e, he, hle⟩ := Relation.readAll?_reach h hc
      rwa [passRelations, Cursor.optional, he]

theorem order_covers {order : Option (List (OrderKey Text))}
    (h : OptionStands OrderKey.AllStand order c d) (hc : c.Clean) :
    Covers passOrder ["LIMIT", "ALLOW"] c d where
  exact hd := by
    obtain ⟨o, ho, -⟩ := orderKey_optional_complete h hd
    rw [passOrder, ho]
  reach := by
    cases order with
    | none => exact (show c = d from h) ▸ (passOrder_onward c hc).position_le
    | some ks =>
      obtain ⟨ls, e, he, hle⟩ := OrderKey.readAll?_reach h hc
      rwa [passOrder, Cursor.optional, he]

theorem limit_covers {limit : Option Int} (h : OptionStands Statement.LimitStands limit c d)
    (hc : c.Clean) : Covers passLimit ["ALLOW"] c d := by
  cases limit with
  | some z =>
    obtain ⟨digits, -, hdigits⟩ := h
    exact .of_eq (by rw [passLimit, Cursor.optional, readLimitDigits?_eq_some_iff.2 hdigits])
  | none =>
    obtain rfl : c = d := h
    refine ⟨fun hd => ?_, (passLimit_onward c hc).position_le⟩
    have hnone : c.keyword? "LIMIT" = none := hd.keyword?_eq_none (by decide)
    simp [passLimit, Cursor.optional, readLimitDigits?, hnone]

theorem filtering_covers {b : Bool} (h : FlagStands readFiltering? b c d) (hc : c.Clean) :
    Covers passFiltering [] c d := by
  cases b with
  | true => exact .of_eq (by rw [passFiltering, Cursor.flag, show readFiltering? c = some d from h])
  | false =>
    obtain rfl : c = d := h
    refine ⟨fun hd => ?_, (passFiltering_onward c hc).position_le⟩
    have hnone : c.keyword? "ALLOW" = none := hd.keyword?_eq_none (by decide)
    simp [passFiltering, Cursor.flag, readFiltering?, hnone]

theorem semicolon_reach {b : Bool} (h : FlagStands (symbol? ';') b c d) (hc : c.Clean) :
    (c.Opens [] ∨ c = d) ∧ d.skip.position ≤ (passSemicolon c).skip.position := by
  cases b with
  | true =>
    replace h : c.symbol? ';' = some d := h
    exact ⟨.inl (.inr (.inl (next_of_symbol? h))),
      Nat.le_of_eq (by rw [passSemicolon, Cursor.flag, h])⟩
  | false =>
    obtain rfl : c = d := h
    exact ⟨.inr rfl, (passSemicolon_onward c hc).position_le⟩

/-! ## After the table -/

/-- Where the reading of the clauses ends. -/
def passTail (c : Cursor) : Cursor :=
  passSemicolon (passFiltering (passLimit (passOrder (passRelations c))))

theorem passTail_onward : Onward passTail :=
  (((passSemicolon_onward.comp passFiltering_onward).comp passLimit_onward).comp
    passOrder_onward).comp passRelations_onward

theorem passLimit_of_readLimit {r : Option Int × Cursor} (h : readLimit c = .ok r) :
    passLimit c = r.2 := by
  unfold readLimit at h
  unfold passLimit Cursor.optional
  cases hd : readLimitDigits? c with
  | none =>
    rw [hd] at h
    cases h
    rfl
  | some q =>
    rw [hd] at h
    simp only at h
    split at h
    · cases h
      rfl
    · cases h

theorem readTail_unexpected {head : Draft} {p : Nat} (h : readTail head c = .error (.unexpected p)) :
    p = (passTail c).skip.position := by
  rcases Except.bind_eq_error_iff.1 h with h | ⟨⟨limit, d⟩, hlimit, h⟩
  · cases (readLimit_error h).1
  rcases Except.bind_eq_error_iff.1 h with h | ⟨⟨⟩, -, h⟩
  · have hp := (expectEnd_error h).2
    have hd : passLimit (passOrder (passRelations c)) = d := passLimit_of_readLimit hlimit
    rw [passTail, hd]
    exact ReadError.unexpected.inj hp
  · cases h

theorem passTail_reach {s : Statement Text} {l : List Lexeme} (hclauses : s.ClausesStand c e)
    (hend : s.EndSpelled l) (hp : e.Passes l d) (hc : c.Clean) :
    (c.Opens ["WHERE", "ORDER", "LIMIT", "ALLOW"] ∨ c = d) ∧
      d.skip.position ≤ (passTail c).skip.position := by
  obtain ⟨b, hr, ho⟩ := hclauses
  obtain ⟨f, g, semicolon, hlimit, -, hfilt, hsemi⟩ := hend.parts hp
  have hb := (hr.reaches hc).clean hc
  have he := (OrderKey.AllStand.reaches ho).clean hb
  have hf := (limit_reaches hlimit).clean he
  have hg := (filtering_reaches hfilt).clean hf
  obtain ⟨hopens, hreach⟩ := semicolon_reach hsemi hg
  have hT := passSemicolon_onward
  have hreach := (filtering_covers hfilt hf).step passFiltering_onward hT hf hopens hreach
  have hopens := Opens.before_or hopens (filtering_starts hfilt)
  have hT := hT.comp passFiltering_onward
  have hreach := (limit_covers hlimit he).step passLimit_onward hT he hopens hreach
  have hopens := Opens.before_or hopens (limit_starts hlimit)
  have hT := hT.comp passLimit_onward
  have hreach := (order_covers ho hb).step passOrder_onward hT hb hopens hreach
  have hopens := Opens.before_or hopens (order_starts ho)
  have hT := hT.comp passOrder_onward
  have hreach := (relations_covers hr hc).step passRelations_onward hT hc hopens hreach
  exact ⟨Opens.before_or hopens (relations_starts hr), hreach⟩

/-! ## Up to the table -/

/-- A table that stands is read up to its end. Where a point follows it, it may be a keyspace. -/
theorem expectTable_reach {t : TableName Text} (h : t.Stands c d) :
    (∃ l, expectTable c = .ok (l, d)) ∨ d.next = some '.' ∧
      ((∃ l e, expectTable c = .ok (l, e) ∧ d.Reaches e) ∨
        ∃ p, expectTable c = .error (.unexpected p) ∧ d.skip.position ≤ p) := by
  by_cases hd : d.next = some '.'
  · refine .inr ⟨hd, ?_⟩
    obtain ⟨name, keyspace⟩ := t
    obtain ⟨e, hk, hn⟩ := h
    obtain ⟨k, i, hread, hreach⟩ : ∃ k i, TableName.readKeyspace? c = some (k, i) ∧
        (i = e ∨ d.Reaches i) := by
      cases keyspace with
      | none =>
        obtain rfl : c = e := hk
        have hpoint := symbol?_eq_some_iff.2 ⟨hd, rfl⟩
        exact ⟨_, _, TableName.readKeyspace?_complete ⟨d, hn, hpoint⟩, .inr (.symbol hpoint)⟩
      | some k => exact ⟨_, e, TableName.readKeyspace?_complete hk, .inl rfl⟩
    rcases hreach with rfl | hreach
    · refine .inl ⟨⟨⟨name, i.position⟩, some k⟩, d, ?_, .refl d⟩
      exact expectTable_eq_ok_iff.2 (by simp [TableName.read?, hread, Located.read?_complete position hn])
    · cases hname : Located.read? position i with
      | some r =>
        refine .inl ⟨⟨r.1, some k⟩, r.2, ?_, ?_⟩
        · exact expectTable_eq_ok_iff.2 (by simp [TableName.read?, hread, hname])
        · exact hreach.trans (.name (Located.read?_eq_some_iff.1 hname).1)
      | none =>
        have hnone : TableName.read? c = none := by simp [TableName.read?, hread, hname]
        refine .inr ⟨TableName.faultAt c, by rw [expectTable, hnone], ?_⟩
        rw [TableName.faultAt, Cursor.optional, hread]
        exact hreach.position_le
  · obtain ⟨l, hl, -⟩ := TableName.read?_complete h hd
    exact .inl ⟨l, expectTable_eq_ok_iff.2 hl⟩

/-- No fault is before the end of a statement that the text starts with. -/
theorem skip_le_of_unexpected {s : Statement Text} {l : List Lexeme} {x : Text} {p : Nat}
    (hs : s.Spelled l) (hp : (start x).Passes l d) (hx : '\t' ∉ x)
    (h : read x = .error (.unexpected p)) : d.skip.position ≤ p := by
  obtain ⟨head, clauses, rest, hhead, hclauses, hend, rfl⟩ := hs
  obtain ⟨c, hc, hp⟩ := passes_append.1 hp
  obtain ⟨e, he, hp⟩ := passes_append.1 hp
  have hclean : c.Clean := Clean.passes (c := start x) hx hc
  obtain ⟨hopens, hreach⟩ := passTail_reach (hclauses.stands he) hend hp hclean
  obtain ⟨c₁, c₂, c₃, c₄, c₅, h₁, h₂, h₃, h₄, h₅, htable⟩ := hhead.stands hc
  obtain ⟨u, f, hu⟩ := htable.name
  obtain ⟨ls, -, hread⟩ := readHead_of_stands h₁ h₂ h₃ h₄ h₅ hu
  rw [read, Text.expandTabs_eq_self hx, hread] at h
  rcases expectTable_reach htable with ⟨t, ht⟩ | ⟨hpoint, hafter⟩
  · simp only [ht, Except.map, bind, Except.bind] at h
    rwa [readTail_unexpected h]
  obtain rfl : c = d := hopens.resolve_left fun ho => ho.next_ne (by decide) (by decide) hpoint
  rcases hafter with ⟨t, i, ht, hi⟩ | ⟨q, hq, hle⟩
  · simp only [ht, Except.map, bind, Except.bind] at h
    rw [readTail_unexpected h]
    exact (hi.trans (passTail_onward i (hi.clean hclean))).position_le
  · simp only [hq, Except.map, bind, Except.bind] at h
    cases h
    exact hle

end Draft

end CqlCanon
