import CqlCanon.Cursor.Basic

/-!
# Sequences and optional parts

A reader takes a cursor to an item and the cursor after it. Sequences end at
the first separator that no item follows; that separator is left unread.
-/

namespace CqlCanon.Cursor

variable {α : Type}

/-- The items that follow an item of a sequence, each after a separator. -/
def more (separator : Cursor → Option Cursor) (item : Cursor → Option (α × Cursor)) (c : Cursor) :
    List α × Cursor :=
  match separator c with
  | none => ([], c)
  | some d =>
    match item d with
    | none => ([], c)
    | some (a, e) =>
      if _h : e.size < c.size then
        let (as, f) := more separator item e
        (a :: as, f)
      else ([a], e)
termination_by c.size

/-- A sequence of one item or more. -/
def sequence? (separator : Cursor → Option Cursor) (item : Cursor → Option (α × Cursor))
    (c : Cursor) : Option (List α × Cursor) :=
  (item c).map fun (a, d) =>
    let (as, e) := more separator item d
    (a :: as, e)

/-- Items between commas; there may be none. -/
def items (item : Cursor → Option (α × Cursor)) (c : Cursor) : List α × Cursor :=
  (sequence? (symbol? ',') item c).getD ([], c)

/-- An item that may be missing; then nothing is read. -/
def optional (item : Cursor → Option (α × Cursor)) (c : Cursor) : Option α × Cursor :=
  match item c with
  | some (a, d) => (some a, d)
  | none => (none, c)

/-- Whether a part without content is there; if it is not, nothing is read. -/
def flag (part : Cursor → Option Cursor) (c : Cursor) : Bool × Cursor :=
  match part c with
  | some d => (true, d)
  | none => (false, c)

/-! ## Progress -/

/-- The reader leaves less text than it was given, if it reads anything at this cursor. -/
def Advances (item : Cursor → Option (α × Cursor)) (c : Cursor) : Prop :=
  ∀ a d, item c = some (a, d) → d.size < c.size

theorem name?_advances (c : Cursor) : Advances name? c := by
  intro a d h
  rcases (by simpa [name?] using h : _ ∨ _) with h | ⟨-, h⟩
  · exact token?_size_lt h (by simp)
  · exact token?_size_lt h (by simp)

theorem more_size_le {separator : Cursor → Option Cursor} {item : Cursor → Option (α × Cursor)}
    (hs : ∀ c d, separator c = some d → d.size < c.size) (c : Cursor)
    (hi : ∀ d, d.size < c.size → Advances item d) : (more separator item c).2.size ≤ c.size := by
  fun_induction more separator item c with
  | case1 => exact Nat.le_refl _
  | case2 => exact Nat.le_refl _
  | case3 c d hd a e he hlt as f hf ih =>
    simp only [hf] at ih
    have := ih (fun g hg => hi g (Nat.lt_trans hg hlt))
    exact Nat.le_of_lt (Nat.lt_of_le_of_lt this hlt)
  | case4 c d hd a e he hge =>
    have h1 := hs c d hd
    have h2 := hi d h1 a e he
    exact absurd (Nat.lt_trans h2 h1) hge

theorem more_congr {separator : Cursor → Option Cursor} {f g : Cursor → Option (α × Cursor)}
    (hs : ∀ c d, separator c = some d → d.size < c.size) (c : Cursor)
    (h : ∀ d, d.size < c.size → f d = g d) : more separator f c = more separator g c := by
  fun_induction more separator f c with
  | case1 c hc => rw [more, hc]
  | case2 c d hc hd => rw [more, hc]; simp [← h d (hs c d hc), hd]
  | case3 c d hd a e he hlt as r hr ih =>
    rw [more.eq_def separator g, hd]
    simp only [← h d (hs c d hd), he, dif_pos hlt]
    rw [← ih (fun i hi => h i (Nat.lt_trans hi hlt)), hr]
  | case4 c d hd a e he hge =>
    rw [more, hd]
    simp only [← h d (hs c d hd), he, dif_neg hge]

/-- Without the test that ends the recursion, which never fails for items that advance. -/
theorem more_eq {separator : Cursor → Option Cursor} {item : Cursor → Option (α × Cursor)}
    (hs : ∀ c d, separator c = some d → d.size < c.size) (hi : ∀ d, Advances item d) (c : Cursor) :
    more separator item c = match separator c with
      | none => ([], c)
      | some d => match item d with
        | none => ([], c)
        | some (a, e) => (a :: (more separator item e).1, (more separator item e).2) := by
  rw [more]
  cases hc : separator c with
  | none => rfl
  | some d =>
    cases hd : item d with
    | none => simp [hd]
    | some r =>
      obtain ⟨a, e⟩ := r
      have : e.size < c.size := Nat.lt_trans (hi d a e hd) (hs c d hc)
      simp [hd, this]

theorem comma_size_lt (c d : Cursor) (h : c.symbol? ',' = some d) : d.size < c.size :=
  symbol?_size_lt h

theorem sequence?_advances {separator : Cursor → Option Cursor}
    {item : Cursor → Option (α × Cursor)} {c : Cursor}
    (hs : ∀ c d, separator c = some d → d.size < c.size)
    (hi : ∀ d, d.size ≤ c.size → Advances item d) : Advances (sequence? separator item) c := by
  intro as d h
  obtain ⟨⟨a, e⟩, he, heq⟩ := Option.map_eq_some_iff.1 h
  cases heq
  have h1 := hi c (Nat.le_refl _) a e he
  have h2 : (more separator item e).2.size ≤ e.size :=
    more_size_le hs e (fun f hf => hi f (by omega))
  omega

theorem items_size_le {item : Cursor → Option (α × Cursor)} (c : Cursor)
    (hi : ∀ d, d.size ≤ c.size → Advances item d) : (items item c).2.size ≤ c.size := by
  unfold items
  cases h : sequence? (symbol? ',') item c with
  | none => exact Nat.le_refl _
  | some r => exact Nat.le_of_lt (sequence?_advances comma_size_lt hi r.1 r.2 h)

theorem items_congr {f g : Cursor → Option (α × Cursor)} {c : Cursor}
    (hf : ∀ d, d.size ≤ c.size → Advances f d) (h : ∀ d, d.size ≤ c.size → f d = g d) :
    items f c = items g c := by
  unfold items sequence?
  rw [← h c (Nat.le_refl _)]
  cases hc : f c with
  | none => rfl
  | some r =>
    obtain ⟨a, d⟩ := r
    have := hf c (Nat.le_refl _) a d hc
    simp only [Option.map_some, Option.getD_some]
    rw [more_congr comma_size_lt d (fun e he => h e (by omega))]

end CqlCanon.Cursor
