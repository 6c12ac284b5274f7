import CqlCanon.Proofs.Position

/-!
# Progress

Whatever is read from a position ends after it. Reading a term tries terms
again, and reading a call tries calls again, but only further on. So trying them
comes to an end, and so does every list, whatever the text is.
-/

namespace CqlCanon

open Cursor Lexeme

/-! ## The parts of a statement -/

namespace Text

variable {α : Type} {x : Text} {p : Nat}

theorem progress_of_passes {read : Cursor → Option (α × Cursor)} (hadv : Advances read (x.cursorAt p))
    (h : ∀ a d, read (x.cursorAt p) = some (a, d) →
      ∃ l, (∀ y ∈ l, y.Measured) ∧ (x.cursorAt p).Passes l d) : x.Progress p read := by
  intro a d hread
  obtain ⟨l, hl, hp⟩ := h a d hread
  refine passes_ahead hl ?_ hp
  rintro rfl
  exact absurd (hadv a d hread) (by rw [show x.cursorAt p = d from hp]; exact Nat.lt_irrefl _)

theorem progress_term : x.Progress p Term.read? :=
  progress_of_passes (Term.read?_advances _) fun t _ h =>
    ⟨_, t.over Constant.measured, Term.stands_iff_passes.1 (Term.read?_sound _ h)⟩

theorem progress_call : x.Progress p Call.read? :=
  progress_of_passes (Call.read?_advances _) fun y _ h =>
    ⟨_, (Call.over Constant.measured).1 y, Call.stands_passes.1 y (Call.read?_sound _ h)⟩

theorem progress_argument : x.Progress p (Argument.read? Call.read?) :=
  progress_of_passes (Argument.read?_advances (Call.read?_advances _)) fun a _ h =>
    ⟨_, (Call.over Constant.measured).2 a,
      Call.stands_passes.2 a (Argument.read?_sound (fun _ _ => Call.read?_sound _) h)⟩

theorem clean_cursorAt (hx : '\t' ∉ x) (p : Nat) : (x.cursorAt p).Clean :=
  fun h => hx (List.mem_of_mem_drop h)

theorem progress_selector (hx : '\t' ∉ x) (place : Cursor → Nat) :
    x.Progress p (Selector.read? place) :=
  progress_of_passes (Selector.read?_advances place _) fun _ _ h =>
    have ⟨l, hl, hp⟩ := (Selector.read?_sound h).passes (clean_cursorAt hx p)
    ⟨l, hl.over (by decide +kernel) Constant.measured, hp⟩

theorem progress_relation (hx : '\t' ∉ x) : x.Progress p Relation.read? :=
  progress_of_passes (Relation.read?_advances _) fun _ _ h =>
    have ⟨l, hl, hp⟩ := (Relation.read?_sound h).passes (clean_cursorAt hx p)
    ⟨l, hl.over (by decide +kernel) Constant.measured, hp⟩

theorem progress_orderKey : x.Progress p OrderKey.read? :=
  progress_of_passes (OrderKey.read?_advances _) fun _ _ h =>
    have ⟨l, hl, hp⟩ := (OrderKey.read?_sound h).passes
    ⟨l, hl.over (by decide +kernel), hp⟩

end Text

/-! ## Attempts -/

namespace Cursor

/-- What a reader reads depends, of what it reads elsewhere, on its attempts alone; and attempts inside
attempts come to an end. -/
structure Recurs {α : Type} (attempts : Cursor → Cursor → Prop)
    (readWith : (Cursor → Option (α × Cursor)) → Cursor → Option (α × Cursor))
    (read : Cursor → Option (α × Cursor)) : Prop where
  asks : ∀ c inner, (∀ d, attempts c d → inner d = read d) → readWith inner c = read c
  ends : WellFounded fun d c => attempts c d

theorem wellFounded_of_size_lt {r : Cursor → Cursor → Prop}
    (h : ∀ c d, r c d → d.size < c.size) : WellFounded fun d c => r c d :=
  Subrelation.wf (fun {d c} hd => h c d hd) (measure size).wf

variable {α : Type} {separator : Cursor → Option Cursor} {item : Cursor → Option (α × Cursor)}
  {c d : Cursor}

/-- The item of a list is tried at the start of the list, and after each separator that follows an
item. -/
inductive Tries (separator : Cursor → Option Cursor) (item : Cursor → Option (α × Cursor))
    (c : Cursor) : Cursor → Prop where
  | first : Tries separator item c c
  | next {d e f : Cursor} {a : α} : Tries separator item c d → item d = some (a, e) →
      separator e = some f → Tries separator item c f

theorem Tries.size_le (hs : ∀ c d, separator c = some d → d.size < c.size)
    (hi : ∀ d, Advances item d) (h : Tries separator item c d) : d.size ≤ c.size := by
  induction h with
  | first => exact Nat.le_refl _
  | next _ ha hf ih =>
    have := hi _ _ _ ha
    have := hs _ _ hf
    omega

/-- Items that make progress are tried no sooner than the first one. -/
theorem Tries.ahead {x : Text} {p : Nat} (hp : p ≤ x.length)
    (hs : ∀ p d, separator (x.cursorAt p) = some d → x.Ahead p d) (hi : ∀ p, x.Progress p item)
    (h : Tries separator item (x.cursorAt p) d) : ∃ q, d = x.cursorAt q ∧ p ≤ q ∧ q ≤ x.length := by
  induction h with
  | first => exact ⟨p, rfl, Nat.le_refl p, hp⟩
  | next _ ha hf ih =>
    obtain ⟨q, rfl, hq, -⟩ := ih
    obtain ⟨r, rfl, hr, -⟩ := hi q _ _ ha
    obtain ⟨s, rfl, hs, hle⟩ := hs r _ hf
    exact ⟨s, rfl, by omega, hle⟩

/-- The items after the first are read alike by readers that agree where the item is tried. -/
theorem more_eq_of_tries {f g : Cursor → Option (α × Cursor)}
    (h : ∀ d, Tries separator g c d → f d = g d) (e : Cursor)
    (he : ∀ d, separator e = some d → Tries separator g c d) :
    more separator f e = more separator g e := by
  fun_induction more separator f e with
  | case1 e hd => rw [more, hd]
  | case2 e d hd hf =>
    rw [more, hd]
    simp [← h d (he d hd), hf]
  | case3 e d hd a i hf hlt as j hj ih =>
    have hg : g d = some (a, i) := (h d (he d hd)).symm.trans hf
    have hmore := ih fun k hk => .next (he d hd) hg hk
    rw [more.eq_def separator g, hd]
    simp only [hg, dif_pos hlt, ← hmore, hj]
  | case4 e d hd a i hf hge =>
    have hg : g d = some (a, i) := (h d (he d hd)).symm.trans hf
    rw [more, hd]
    simp only [hg, dif_neg hge]

theorem items_eq_of_tries {f g : Cursor → Option (α × Cursor)}
    (h : ∀ d, Tries (symbol? ',') g c d → f d = g d) : items f c = items g c := by
  unfold items sequence?
  rw [h c .first]
  cases hc : g c with
  | none => rfl
  | some r =>
    simp only [Option.map_some, Option.getD_some]
    rw [more_eq_of_tries h r.2 fun d hd => .next .first hc hd]

end Cursor

namespace Term

/-- Reads a term, given how to read a term inside it. -/
def readWith (term : Cursor → Option (Term × Cursor)) (c : Cursor) : Option (Term × Cursor) :=
  readAtom? c <|> readList? term c

/-- Reading a term at the first cursor tries one at the second, as an item of a list. -/
def Attempts (c d : Cursor) : Prop :=
  readAtom? c = none ∧ ∃ e, c.symbol? '(' = some e ∧ Tries (symbol? ',') read? e d

theorem readWith_eq {c : Cursor} {term : Cursor → Option (Term × Cursor)}
    (h : ∀ d, Attempts c d → term d = read? d) : readWith term c = read? c := by
  rw [read?_eq, readWith]
  cases ha : readAtom? c with
  | some r => rfl
  | none =>
    unfold readList?
    cases he : c.symbol? '(' with
    | none => rfl
    | some e =>
      simp only [Option.bind_eq_bind, Option.bind_some]
      rw [items_eq_of_tries fun d hd => h d ⟨ha, e, he, hd⟩]

theorem Attempts.size_lt {c d : Cursor} (h : Attempts c d) : d.size < c.size := by
  obtain ⟨-, e, he, hd⟩ := h
  exact Nat.lt_of_le_of_lt (hd.size_le comma_size_lt read?_advances) (symbol?_size_lt he)

theorem Attempts.ahead {x : Text} {p : Nat} {d : Cursor} (h : Attempts (x.cursorAt p) d) :
    x.Ahead p d := by
  obtain ⟨-, e, he, hd⟩ := h
  obtain ⟨q, rfl, hq, hle⟩ := Text.symbol?_ahead he
  obtain ⟨r, rfl, hr, hle⟩ := hd.ahead hle (fun _ _ => Text.symbol?_ahead) fun _ => Text.progress_term
  exact ⟨r, rfl, by omega, hle⟩

theorem recurs : Recurs Attempts readWith read? where
  asks _ _ := readWith_eq
  ends := wellFounded_of_size_lt fun _ _ => Attempts.size_lt

end Term

namespace Call

/-- Reads a call, given how to read a call inside it. -/
def readWith (call : Cursor → Option (Call × Cursor)) (c : Cursor) : Option (Call × Cursor) := do
  let (function, d) ← c.token? .word
  let d ← d.symbol? '('
  let (call, e) := readBody call function d
  let f ← e.symbol? ')'
  return (call, f)

/-- Reading a call at the first cursor tries one at the second, as an argument. -/
def Attempts (c d : Cursor) : Prop :=
  ∃ f e g, c.token? .word = some (f, e) ∧ e.symbol? '(' = some g ∧ g.symbol? '*' = none ∧
    Tries (symbol? ',') (Argument.read? read?) g d

theorem readWith_eq {c : Cursor} {call : Cursor → Option (Call × Cursor)}
    (h : ∀ d, Attempts c d → call d = read? d) : readWith call c = read? c := by
  rw [read?_eq, readWith]
  cases he : c.token? .word with
  | none => rfl
  | some r =>
    obtain ⟨f, e⟩ := r
    simp only [Option.bind_eq_bind, Option.bind_some]
    cases hg : e.symbol? '(' with
    | none => rfl
    | some g =>
      have hbody : readBody call f g = readBody read? f g := by
        unfold readBody
        cases hs : g.symbol? '*' with
        | some i => rfl
        | none =>
          have hargument : ∀ d, Tries (symbol? ',') (Argument.read? read?) g d →
              Argument.read? call d = Argument.read? read? d := fun d hd => by
            rw [Argument.read?, Argument.read?, h d ⟨f, e, g, he, hg, hs, hd⟩]
          simp only [items_eq_of_tries hargument]
      simp only [Option.bind_some, hbody]

theorem Attempts.size_lt {c d : Cursor} (h : Attempts c d) : d.size < c.size := by
  obtain ⟨f, e, g, he, hg, -, hd⟩ := h
  have hargument := hd.size_le comma_size_lt fun d => Argument.read?_advances (read?_advances d)
  have := token?_size_lt he (by simp)
  have := symbol?_size_lt hg
  omega

theorem Attempts.ahead {x : Text} {p : Nat} {d : Cursor} (h : Attempts (x.cursorAt p) d) :
    x.Ahead p d := by
  obtain ⟨f, e, g, he, hg, -, hd⟩ := h
  obtain ⟨q, rfl, hq, -⟩ := Text.progress_token (by simp) f e he
  obtain ⟨r, rfl, hr, hle⟩ := Text.symbol?_ahead hg
  obtain ⟨s, rfl, hs, hle⟩ := hd.ahead hle (fun _ _ => Text.symbol?_ahead)
    fun _ => Text.progress_argument
  exact ⟨s, rfl, by omega, hle⟩

theorem recurs : Recurs Attempts readWith read? where
  asks _ _ := readWith_eq
  ends := wellFounded_of_size_lt fun _ _ => Attempts.size_lt

end Call

/-- What is tried inside an attempt is tried further on, at every depth. -/
theorem Text.ahead_of_transGen {x : Text} {p : Nat} {d : Cursor} {attempts : Cursor → Cursor → Prop}
    (hstep : ∀ p d, attempts (x.cursorAt p) d → x.Ahead p d)
    (h : Relation.TransGen attempts (x.cursorAt p) d) : x.Ahead p d := by
  induction h with
  | single h => exact hstep p _ h
  | tail _ h ih =>
    obtain ⟨q, rfl, hq, -⟩ := ih
    exact (hstep q _ h).trans (Nat.le_of_lt hq)

/-! ## Lists -/

namespace Cursor

variable {α : Type} {separator : Cursor → Option Cursor} {item : Cursor → Option (α × Cursor)}

/-- A round of a repetition: a separator and an item are read. -/
def Round (separator : Cursor → Option Cursor) (item : Cursor → Option (α × Cursor)) (c d : Cursor) :
    Prop :=
  ∃ e a, separator c = some e ∧ item e = some (a, d)

/-- Rounds do not go on forever, and what a repetition reads are all rounds there are. -/
structure Repeats (separator : Cursor → Option Cursor) (item : Cursor → Option (α × Cursor)) :
    Prop where
  ends : WellFounded fun d c => Round separator item c d
  rounds : ∀ c, MoreStand separator (fun a d e => item d = some (a, e)) (more separator item c).1 c
    (more separator item c).2
  last : ∀ c d, ¬ Round separator item (more separator item c).2 d

theorem repeats (hs : ∀ c d, separator c = some d → d.size < c.size) (hi : ∀ d, Advances item d) :
    Repeats separator item where
  ends := wellFounded_of_size_lt fun c d ⟨e, a, he, ha⟩ => Nat.lt_trans (hi e a d ha) (hs c e he)
  rounds c := by
    simpa using more_sound (f := id) hs c fun _ _ _ _ h => h
  last c := by
    fun_induction more separator item c with
    | case1 c hc =>
      rintro d ⟨e, a, he, -⟩
      rw [hc] at he
      cases he
    | case2 c d hd hnone =>
      rintro f ⟨e, a, he, ha⟩
      rw [hd] at he
      cases he
      rw [hnone] at ha
      cases ha
    | case3 c d hd a e he hlt as f hf ih => simpa only [hf] using ih
    | case4 c d hd a e he hge => exact absurd (Nat.lt_trans (hi d a e he) (hs c d hd)) hge

end Cursor

/-! ## Everything that is read -/

/-- From a position of a text every reader ends after it and inside the text, and tries terms and
calls inside terms and calls after it. Only a key word may end past the end of the text. Layout ends
where none is. Attempts inside attempts and the rounds of lists come to an end everywhere. -/
theorem Text.readers_progress {x : Text} {p : Nat} (hx : '\t' ∉ x) (hp : p ≤ x.length) :
    ((∀ k, (∀ w, k ≠ .keyword w) → x.Progress p (token? k)) ∧ x.Progress p name? ∧
      x.Progress p Term.read? ∧ x.Progress p Call.read? ∧
      (∀ place, x.Progress p (Selector.read? place)) ∧ x.Progress p Relation.read? ∧
      x.Progress p OrderKey.read?) ∧
    (∀ w t d, w ≠ [] → (x.cursorAt p).token? (.keyword w) = some (t, d) → ∃ q, d = x.cursorAt q ∧
      p < q ∧ (x.length < q ↔ t <:+ x ∧ ∃ c ∈ t, 1 < (upperChar c).length)) ∧
    ((∀ d, Relation.TransGen Term.Attempts (x.cursorAt p) d → x.Ahead p d) ∧
      ∀ d, Relation.TransGen Call.Attempts (x.cursorAt p) d → x.Ahead p d) ∧
    (∃ q, (x.cursorAt p).skip = x.cursorAt q ∧ p ≤ q ∧ q ≤ x.length ∧
      (x.drop q).head?.any isBlank = false ∧ ¬ ['-', '-'] <+: x.drop q ∧
      (x.cursorAt q).skip = x.cursorAt q) ∧
    (Recurs Term.Attempts Term.readWith Term.read? ∧ Recurs Call.Attempts Call.readWith Call.read?) ∧
    Repeats (symbol? ',') Term.read? ∧ Repeats (symbol? ',') (Argument.read? Call.read?) ∧
      Repeats (symbol? ',') (Selector.read? commentsEnd) ∧
      Repeats (keyword? "AND") Relation.read? ∧ Repeats (symbol? ',') OrderKey.read? := by
  have hattempts : (∀ d, Relation.TransGen Term.Attempts (x.cursorAt p) d → x.Ahead p d) ∧
      ∀ d, Relation.TransGen Call.Attempts (x.cursorAt p) d → x.Ahead p d :=
    ⟨fun _ => ahead_of_transGen fun _ _ => Term.Attempts.ahead,
      fun _ => ahead_of_transGen fun _ _ => Call.Attempts.ahead⟩
  exact ⟨⟨fun _ => progress_token, progress_name, progress_term, progress_call,
      progress_selector hx, progress_relation hx, progress_orderKey⟩,
    fun _ _ _ => keyword_cursorAt, hattempts, exists_skip_cursorAt hp, ⟨Term.recurs, Call.recurs⟩,
    repeats comma_size_lt Term.read?_advances,
    repeats comma_size_lt fun d => Argument.read?_advances (Call.read?_advances d),
    repeats comma_size_lt (Selector.read?_advances _),
    repeats Relation.and_size_lt Relation.read?_advances,
    repeats comma_size_lt OrderKey.read?_advances⟩

/-- Calls inside calls: the whole text is read, and the inner calls are tried at 2 and at 5. -/
theorem Text.readers_progress_of_call : ∃ x : Text, x = "f( g(h(?)), (1, null) )".toList ∧
    '\t' ∉ x ∧ 0 ≤ x.length ∧ (Call.read? (x.cursorAt 0)).map Prod.snd = some (x.cursorAt 23) ∧
    Relation.TransGen Call.Attempts (x.cursorAt 0) (x.cursorAt 5) ∧
    x.Ahead 0 (x.cursorAt 23) ∧ x.Ahead 0 (x.cursorAt 5) := by
  obtain ⟨x, hx⟩ : ∃ x : Text, x = "f( g(h(?)), (1, null) )".toList := ⟨_, rfl⟩
  obtain ⟨htab, hread, hfirst, hsecond⟩ : '\t' ∉ x ∧
      (Call.read? (x.cursorAt 0)).map Prod.snd = some (x.cursorAt 23) ∧
      ((x.cursorAt 0).token? .word = some (['f'], x.cursorAt 1) ∧
        (x.cursorAt 1).symbol? '(' = some (x.cursorAt 2) ∧ (x.cursorAt 2).symbol? '*' = none) ∧
      (x.cursorAt 2).token? .word = some (['g'], x.cursorAt 4) ∧
        (x.cursorAt 4).symbol? '(' = some (x.cursorAt 5) ∧ (x.cursorAt 5).symbol? '*' = none := by
    subst hx
    decide +kernel
  have hattempts : Relation.TransGen Call.Attempts (x.cursorAt 0) (x.cursorAt 5) :=
    .tail (.single ⟨_, _, _, hfirst.1, hfirst.2.1, hfirst.2.2, .first⟩)
      ⟨_, _, _, hsecond.1, hsecond.2.1, hsecond.2.2, .first⟩
  obtain ⟨⟨-, -, -, hcall, -⟩, -, ⟨-, hinner⟩, -⟩ := readers_progress htab (Nat.zero_le x.length)
  obtain ⟨⟨call, d⟩, hd, rfl⟩ := Option.map_eq_some_iff.1 hread
  exact ⟨x, hx, htab, Nat.zero_le _, hread, hattempts, hcall call _ hd, hinner _ hattempts⟩

end CqlCanon
