import CqlCanon.Proofs.Boundary
import CqlCanon.Proofs.Grammar.Sequence

/-!
# Terms and calls and the grammar

The readers of terms and calls read exactly what stands in the text. For a term
or a call that is all: it ends where it ends, whatever comes after it. An
argument has to be followed by a comma or a closing parenthesis, or else a name
could be the start of a call.
-/

namespace CqlCanon

open Cursor

/-! ## Names -/

theorem Text.StandsAsName.next {t : Text} {c d : Cursor} (h : t.StandsAsName c d) :
    ∃ x, c.next = some x ∧ (x = '"' ∨ Text.isLetter x = true) := by
  rcases h with h | h
  · obtain ⟨x, hx, hs⟩ := next_of_token? h (by simp)
    exact ⟨x, hx, .inl hs⟩
  · obtain ⟨x, hx, hs⟩ := next_of_token? h (by simp)
    exact ⟨x, hx, .inr hs⟩

theorem Cursor.next_ne_of_name {c : Cursor} {x : Char}
    (h : ∃ y, c.next = some y ∧ (y = '"' ∨ Text.isLetter y = true))
    (hx : x ≠ '"' ∧ Text.isLetter x = false) : c.next ≠ some x := by
  intro hn
  obtain ⟨y, hy, hs⟩ := h
  rw [hn] at hy
  cases hy
  rcases hs with hs | hs
  · exact hx.1 hs
  · rw [hx.2] at hs
    cases hs

theorem Text.StandsAsName.next_ne {t : Text} {c d : Cursor} (h : t.StandsAsName c d) {x : Char}
    (hx : x ≠ '"' ∧ Text.isLetter x = false) : c.next ≠ some x :=
  next_ne_of_name h.next hx

theorem Cursor.name?_eq_some_iff {c d : Cursor} {t : Text} :
    c.name? = some (t, d) ↔ t.StandsAsName c d := by
  unfold Text.StandsAsName name?
  rw [Option.orElse_eq_orElse, Option.orElse_eq_or, Option.or_eq_some_iff]
  constructor
  · rintro (h | ⟨-, h⟩)
    · exact .inl h
    · exact .inr h
  · rintro (h | h)
    · exact .inl h
    · obtain ⟨x, hx, hs⟩ := next_of_token? h (by simp)
      refine .inr ⟨token?_eq_none hx ?_ (by simp), h⟩
      rintro rfl
      exact absurd hs (by decide)

/-! ## Terms -/

theorem Constant.Stands.next {k : Constant} {c d : Cursor} (h : k.Stands c d) :
    ∃ x, c.next = some x ∧ Text.startsWord x := by
  obtain ⟨x, hx, hu⟩ := next_of_keyword? h (by cases k <;> decide)
  refine ⟨x, hx, ?_⟩
  rw [Text.startsWord, hu]
  cases k <;> decide

namespace Term

theorem othersStand_iff {ts : List Term} {c d : Cursor} :
    OthersStand ts c d ↔ MoreStand (symbol? ',') Stands ts c d := by
  induction ts generalizing c with
  | nil => simp [OthersStand, MoreStand]
  | cons t ts ih => simp [OthersStand, MoreStand, ih]

theorem allStand_iff {ts : List Term} {c d : Cursor} :
    AllStand ts c d ↔ ItemsStand Stands ts c d := by
  cases ts with
  | nil => simp [AllStand, ItemsStand]
  | cons t ts => simp [AllStand, ItemsStand, SequenceStands, othersStand_iff]

theorem readConstant?_sound {c d : Cursor} {k : Constant} (h : readConstant? c = some (k, d)) :
    k.Stands c d := by
  simp only [readConstant?, Option.orElse_eq_orElse, Option.orElse_eq_or, Option.or_eq_some_iff,
    Option.map_eq_some_iff, Prod.mk.injEq] at h
  rcases h with ⟨e, h, rfl, rfl⟩ | ⟨-, ⟨e, h, rfl, rfl⟩ | ⟨-, e, h, rfl, rfl⟩⟩ <;> exact h

theorem readAtom?_sound {c d : Cursor} {t : Term} (h : readAtom? c = some (t, d)) :
    t.Stands c d := by
  simp only [readAtom?, Option.orElse_eq_orElse, Option.orElse_eq_or, Option.or_eq_some_iff,
    Option.map_eq_some_iff, Prod.map, Prod.mk.injEq, id] at h
  rcases h with ⟨⟨t, e⟩, h, rfl, rfl⟩ | ⟨-, ⟨⟨t, e⟩, h, rfl, rfl⟩ | ⟨-, ⟨e, h, rfl, rfl⟩ |
    ⟨-, ⟨⟨t, e⟩, h, rfl, rfl⟩ | ⟨-, ⟨k, e⟩, h, rfl, rfl⟩⟩⟩⟩
  · exact h
  · exact h
  · exact h
  · exact h
  · exact readConstant?_sound h

theorem read?_sound (c : Cursor) {d : Cursor} {t : Term} (h : read? c = some (t, d)) :
    t.Stands c d := by
  rw [read?_eq, Option.orElse_eq_orElse, Option.orElse_eq_or, Option.or_eq_some_iff] at h
  rcases h with h | ⟨-, h⟩
  · exact readAtom?_sound h
  · simp only [readList?, Option.bind_eq_bind, Option.bind_eq_some_iff] at h
    obtain ⟨e, he, g, hg, h⟩ := h
    cases h
    refine ⟨e, _, he, allStand_iff.2 ?_, hg⟩
    have : ItemsStand Stands ((e.items read?).1.map id) e (e.items read?).2 :=
      items_sound fun i u j hi hj => ⟨read?_advances i u j hj, read?_sound i hj⟩
    simpa using this
termination_by c.size
decreasing_by
  have := symbol?_size_lt he
  omega

theorem readConstant?_complete {c d : Cursor} {k : Constant} (h : k.Stands c d) :
    readConstant? c = some (k, d) := by
  have h' : c.keyword? k.word = some d := h
  cases k with
  | true => simp only [Constant.word] at h'; simp [readConstant?, h']
  | false =>
    simp only [Constant.word] at h'
    simp [readConstant?, h', keyword?_eq_none h' (w := "TRUE") (by decide)]
  | null =>
    simp only [Constant.word] at h'
    simp [readConstant?, h', keyword?_eq_none h' (w := "TRUE") (by decide),
      keyword?_eq_none h' (w := "FALSE") (by decide)]

theorem readAtom?_complete {t : Term} {c d : Cursor} (h : t.Stands c d)
    (ht : ∀ ts, t ≠ list ts) : readAtom? c = some (t, d) := by
  unfold readAtom?
  cases t with
  | number u => simp [show c.token? .number = some (u, d) from h]
  | string u =>
    replace h : c.token? (.quoted '\'') = some (u, d) := h
    obtain ⟨x, hx, hs⟩ := next_of_token? h (by simp)
    obtain rfl : x = '\'' := hs
    simp [token?_eq_none hx (k := .number) (by decide), h]
  | positional =>
    replace h : c.symbol? '?' = some d := h
    have hx := (next_of_symbol? h)
    simp [token?_eq_none hx (k := .number) (by decide),
      token?_eq_none hx (k := .quoted '\'') (by decide), h]
  | bind u =>
    replace h : c.token? .bindMarker = some (u, d) := h
    obtain ⟨x, hx, hs⟩ := next_of_token? h (by simp)
    obtain rfl : x = ':' := hs
    simp [token?_eq_none hx (k := .number) (by decide),
      token?_eq_none hx (k := .quoted '\'') (by decide), symbol?,
      pass?_eq_none hx (k := .symbol '?') (by decide), h]
  | constant k =>
    obtain ⟨x, hx, hw⟩ := Constant.Stands.next h
    have hd : ¬ Text.isDigit x = true := fun hd => by
      rw [Text.not_startsWord_of_isDigit hd] at hw
      cases hw
    have ne : ∀ {z : Char}, Text.startsWord z = false → x ≠ z := by
      rintro z hz rfl
      rw [hz] at hw
      cases hw
    simp [token?_eq_none hx (k := .number)
        (by simp [Token.StartsWith, hd, ne (z := '+') (by decide), ne (z := '-') (by decide)]),
      token?_eq_none hx (k := .quoted '\'') (ne (by decide)), symbol?,
      pass?_eq_none hx (k := .symbol '?') (ne (by decide)),
      token?_eq_none hx (k := .bindMarker) (ne (by decide)), readConstant?_complete h]
  | list ts => exact absurd rfl (ht ts)

/-- A term other than a constant does not start like a name or a key word. -/
theorem Stands.next {t : Term} {c d : Cursor} (h : t.Stands c d) :
    (∃ k, t = constant k) ∨ ∃ x, c.next = some x ∧ x ≠ '"' ∧ Text.startsWord x = false := by
  cases t with
  | constant k => exact .inl ⟨k, rfl⟩
  | number u =>
    obtain ⟨x, hx, hs⟩ := next_of_token? (show c.token? .number = some (u, d) from h) (by simp)
    refine .inr ⟨x, hx, ?_, ?_⟩
    · rintro rfl
      exact absurd hs (by decide)
    · rcases hs with hs | rfl | rfl
      · exact Text.not_startsWord_of_isDigit hs
      · decide
      · decide
  | string u =>
    obtain ⟨x, hx, hs⟩ := next_of_token? (show c.token? (.quoted '\'') = some (u, d) from h) (by simp)
    obtain rfl : x = '\'' := hs
    exact .inr ⟨_, hx, by decide, by decide⟩
  | positional =>
    exact .inr ⟨'?', (next_of_symbol? h), by decide, by decide⟩
  | bind u =>
    obtain ⟨x, hx, hs⟩ := next_of_token? (show c.token? .bindMarker = some (u, d) from h) (by simp)
    obtain rfl : x = ':' := hs
    exact .inr ⟨_, hx, by decide, by decide⟩
  | list ts =>
    obtain ⟨e, g, he, -⟩ := h
    exact .inr ⟨'(', (next_of_symbol? he), by decide, by decide⟩

theorem readAtom?_eq_none {c : Cursor} {x : Char} (hx : c.next = some x)
    (h : x = '(' ∨ x = ')' ∨ x = '*') : readAtom? c = none := by
  have hk : ∀ k ∈ [Token.number, .quoted '\'', .symbol '?', .bindMarker, .keyword "TRUE".toList,
      .keyword "FALSE".toList, .keyword "NULL".toList],
      k ≠ .keyword [] ∧ ¬ k.StartsWith '(' ∧ ¬ k.StartsWith ')' ∧ ¬ k.StartsWith '*' := by
    decide
  have none : ∀ k ∈ _, c.token? k = none := fun k hm => by
    obtain ⟨h1, h2, h3, h4⟩ := hk k hm
    rcases h with rfl | rfl | rfl
    · exact token?_eq_none hx h2 h1
    · exact token?_eq_none hx h3 h1
    · exact token?_eq_none hx h4 h1
  simp [readAtom?, readConstant?, keyword?, symbol?, pass?, none]

theorem read?_eq_none {c : Cursor} {x : Char} (hx : c.next = some x) (h : x = ')' ∨ x = '*') :
    read? c = none := by
  have hp : c.pass? (.symbol '(') = none := by
    rcases h with rfl | rfl
    · exact pass?_eq_none hx (by decide) (by simp)
    · exact pass?_eq_none hx (by decide) (by simp)
  rw [read?_eq, readAtom?_eq_none hx (.inr h)]
  simp [readList?, symbol?, hp]

/-- A term that stands in the text is read, whatever comes after it. -/
theorem read?_complete {t : Term} : ∀ {c d : Cursor}, t.Stands c d → read? c = some (t, d) := by
  induction t using Term.induction with
  | list ts ih =>
    intro c d h
    obtain ⟨e, g, he, hts, hg⟩ := h
    have hx : g.next = some ')' := (next_of_symbol? hg)
    obtain ⟨us, hus, hmap⟩ := items_complete (f := id) read?_advances
      (fun t ht i j hi (_ : True) => ⟨t, ih t ht hi, rfl⟩) (fun _ _ _ => trivial) trivial
      (pass?_eq_none hx (by decide) (by simp)) (read?_eq_none hx (.inl rfl)) (allStand_iff.1 hts)
    rw [read?_eq, readAtom?_eq_none (next_of_symbol? he) (.inl rfl)]
    rw [List.map_id] at hmap
    simp [readList?, he, hus, hg, hmap]
  | _ =>
    intro c d h
    rw [read?_eq, readAtom?_complete h (by simp)]
    rfl

end Term

/-! ## Calls -/

namespace Argument

theorem othersStand_iff {as : List Argument} {c d : Cursor} :
    OthersStand as c d ↔ MoreStand (symbol? ',') Stands as c d := by
  induction as generalizing c with
  | nil => simp [OthersStand, MoreStand]
  | cons a as ih => simp [OthersStand, MoreStand, ih]

theorem allStand_iff {as : List Argument} {c d : Cursor} :
    AllStand as c d ↔ ItemsStand Stands as c d := by
  cases as with
  | nil => simp [AllStand, ItemsStand]
  | cons a as => simp [AllStand, ItemsStand, SequenceStands, othersStand_iff]

theorem read?_sound {call : Cursor → Option (Call × Cursor)} {c d : Cursor} {a : Argument}
    (hc : ∀ x e, call c = some (x, e) → x.Stands c e) (h : read? call c = some (a, d)) :
    a.Stands c d := by
  simp only [read?, Option.orElse_eq_orElse, Option.orElse_eq_or, Option.or_eq_some_iff,
    Option.map_eq_some_iff, Option.map_eq_none_iff, Prod.map, Prod.mk.injEq, id] at h
  rcases h with ⟨⟨x, e⟩, h, rfl, rfl⟩ | ⟨-, ⟨⟨t, e⟩, h, rfl, rfl⟩ | ⟨hn, ⟨t, e⟩, h, rfl, rfl⟩⟩
  · exact hc x e h
  · exact Term.read?_sound c h
  · refine ⟨name?_eq_some_iff.1 h, fun k e hk => ?_⟩
    have := Term.read?_complete (t := .constant k) hk
    rw [hn] at this
    cases this

end Argument

namespace Call

theorem read?_sound (c : Cursor) {d : Cursor} {x : Call} (h : read? c = some (x, d)) :
    x.Stands c d := by
  rw [read?_eq] at h
  simp only [Option.bind_eq_bind, Option.bind_eq_some_iff] at h
  obtain ⟨⟨f, b⟩, hb, e, he, g, hg, h⟩ := h
  cases h
  simp only at he hg
  unfold readBody at hg ⊢
  cases hs : e.symbol? '*' with
  | some i =>
    simp only [hs] at hg ⊢
    exact ⟨b, e, i, hb, he, hs, hg⟩
  | none =>
    simp only [hs] at hg ⊢
    refine ⟨b, e, _, hb, he, Argument.allStand_iff.2 ?_, hg⟩
    have : ItemsStand Argument.Stands ((e.items (Argument.read? read?)).1.map id) e
        (e.items (Argument.read? read?)).2 :=
      items_sound fun i u j hi hj => ⟨Argument.read?_advances (read?_advances i) u j hj,
        Argument.read?_sound (fun x k hk => read?_sound i hk) hj⟩
    simpa using this
termination_by c.size
decreasing_by
  have h1 := token?_size_lt hb (by simp)
  have h2 := symbol?_size_lt he
  simp only at h2
  omega

theorem Stands.opening {x : Call} {c d : Cursor} (h : x.Stands c d) :
    ∃ f e, c.token? .word = some (f, e) ∧ e.next = some '(' := by
  cases x with
  | star f =>
    obtain ⟨e, g, i, he, hg, -⟩ := h
    exact ⟨f, e, he, (next_of_symbol? hg)⟩
  | apply f as =>
    obtain ⟨e, g, i, he, hg, -⟩ := h
    exact ⟨f, e, he, (next_of_symbol? hg)⟩

theorem read?_eq_none_of_name {t : Text} {c d : Cursor} (h : t.StandsAsName c d)
    (hd : d.next ≠ some '(') : read? c = none := by
  cases hc : read? c with
  | none => rfl
  | some r =>
    obtain ⟨f, e, he, hx⟩ := (read?_sound c (d := r.2) (x := r.1) hc).opening
    rcases h with h | h
    · obtain ⟨x, hx, hs⟩ := next_of_token? h (by simp)
      obtain rfl : x = '"' := hs
      rw [token?_eq_none hx (k := .word) (by decide) (by simp)] at he
      cases he
    · rw [word_of_plainName h] at he
      cases he
      exact absurd hx hd

theorem read?_eq_none_of_term {t : Term} {c d : Cursor} (h : t.Stands c d)
    (hd : d.next ≠ some '(') : read? c = none := by
  cases hc : read? c with
  | none => rfl
  | some r =>
    obtain ⟨f, e, he, hx⟩ := (read?_sound c (d := r.2) (x := r.1) hc).opening
    obtain ⟨x, hx', hs⟩ := next_of_token? he (by simp)
    replace hs := Text.startsWord_of_isLetter hs
    rcases h.next with ⟨k, rfl⟩ | ⟨y, hy, -, hl⟩
    · rcases end_eq_of_keyword?_of_word (show c.keyword? k.word = some d from h)
        (by cases k <;> decide) he with rfl | hstuck
      · exact absurd hx hd
      · have := symbol?_eq_some_iff.2 ⟨hx, rfl⟩
        rw [hstuck.symbol? (by decide)] at this
        cases this
    · rw [hx'] at hy
      cases hy
      rw [hl] at hs
      cases hs

end Call

/-- An argument ends before a comma or a closing parenthesis. -/
def Argument.Ends (d : Cursor) : Prop := d.next = some ',' ∨ d.next = some ')'

theorem Argument.Ends.next {d : Cursor} (h : Argument.Ends d) : d.next ≠ some '(' := by
  rcases h with h | h <;> simp [h]

theorem Argument.read?_eq_none {call : Cursor → Option (Call × Cursor)} {c : Cursor}
    (hx : c.next = some ')') (hc : call c = none) : read? call c = none := by
  simp [read?, hc, Term.read?_eq_none hx (.inl rfl), name?,
    token?_eq_none hx (k := .quoted '"') (by decide), token?_eq_none hx (k := .plainName) (by decide)]

theorem Argument.Stands.next_ne_star {a : Argument} {c d : Cursor} (h : a.Stands c d) :
    c.next ≠ some '*' := by
  intro hx
  cases a with
  | call x =>
    obtain ⟨f, e, he, -⟩ := Call.Stands.opening h
    rw [token?_eq_none hx (k := .word) (by decide) (by simp)] at he
    cases he
  | term t =>
    have := Term.read?_complete h
    rw [Term.read?_eq_none hx (.inr rfl)] at this
    cases this
  | name t =>
    exact h.1.next_ne (by decide) hx

theorem Argument.AllStand.next_ne_star {as : List Argument} {c d : Cursor} (h : AllStand as c d)
    (hd : d.next = some ')') : c.next ≠ some '*' := by
  cases as with
  | nil =>
    cases h
    simp [hd]
  | cons a as =>
    obtain ⟨_, ha, -⟩ := h
    exact ha.next_ne_star

/-- A name that is no constant is not read as a term. -/
theorem Argument.Stands.read?_eq_none {t : Text} {c d : Cursor} (h : (name t).Stands c d) :
    Term.read? c = none := by
  cases ht : Term.read? c with
  | none => rfl
  | some r =>
    have hr := Term.read?_sound c (d := r.2) (t := r.1) ht
    obtain ⟨x, hx, hs⟩ := h.1.next
    rcases hr.next with ⟨k, hk⟩ | ⟨y, hy, hq, hl⟩
    · rw [hk] at hr
      exact absurd hr (h.2 k r.2)
    · rw [hx] at hy
      cases hy
      rcases hs with rfl | hs
      · exact absurd rfl hq
      · rw [Text.startsWord_of_isLetter hs] at hl
        cases hl

/-- A call that stands in the text is read, whatever comes after it, and an argument is where it
may end. -/
theorem Call.readers_complete :
    (∀ (x : Call) {c d : Cursor}, x.Stands c d → Call.read? c = some (x, d)) ∧
    ∀ (a : Argument) {c d : Cursor}, a.Stands c d → Argument.Ends d →
      Argument.read? Call.read? c = some (a, d) := by
  apply Call.induction
  case star =>
    intro f c d h
    obtain ⟨e, g, i, he, hg, hi, hd⟩ := h
    simp [Call.read?_eq, he, hg, Call.readBody, hi, hd]
  case apply =>
    intro f as ih c d h
    obtain ⟨e, g, i, he, hg, hi, hd⟩ := h
    have hx : i.next = some ')' := (next_of_symbol? hd)
    have hcall : Call.read? i = none := by
      simp [Call.read?_eq, token?_eq_none hx (k := .word) (by decide)]
    obtain ⟨bs, hbs, hmap⟩ := items_complete (f := id)
      (fun d => Argument.read?_advances (Call.read?_advances d))
      (fun a ha _ _ hj hk => ⟨a, ih a ha hj hk, rfl⟩)
      (fun _ _ h => .inl (next_of_symbol? h)) (.inr hx)
      (pass?_eq_none hx (by decide) (by simp)) (Argument.read?_eq_none hx hcall)
      (Argument.allStand_iff.1 hi)
    rw [List.map_id] at hmap
    have hstar : g.symbol? '*' = none := symbol?_eq_none (Argument.AllStand.next_ne_star hi hx)
    simp [Call.read?_eq, he, hg, Call.readBody, hstar, hbs, hmap, hd]
  case call =>
    intro x ih c d h _
    simp [Argument.read?, ih h]
  case term =>
    intro t c d h hd
    simp [Argument.read?, Call.read?_eq_none_of_term h hd.next, Term.read?_complete h]
  case name =>
    intro t c d h hd
    have hterm := h.read?_eq_none
    simp [Argument.read?, Call.read?_eq_none_of_name h.1 hd.next, hterm, name?_eq_some_iff.2 h.1]

end CqlCanon
