import CqlCanon.Cursor.Sequence
import CqlCanon.Term.Basic

/-!
# Reading terms

Kinds of terms are tried in a fixed order: numbers, strings, markers,
constants, and last lists, whose items are terms again.
-/

namespace CqlCanon.Term

/-- Reads a constant, in any letter case. -/
def readConstant? (c : Cursor) : Option (Constant × Cursor) :=
  (c.keyword? "TRUE").map (Constant.true, ·) <|>
  (c.keyword? "FALSE").map (Constant.false, ·) <|>
  (c.keyword? "NULL").map (Constant.null, ·)

/-- Reads a term that is not a list. -/
def readAtom? (c : Cursor) : Option (Term × Cursor) :=
  (c.token? .number).map (Prod.map number id) <|>
  (c.token? (.quoted '\'')).map (Prod.map string id) <|>
  (c.symbol? '?').map (positional, ·) <|>
  (c.token? .bindMarker).map (Prod.map bind id) <|>
  (readConstant? c).map (Prod.map constant id)

/-- Reads a list in parentheses, given how to read its items. -/
def readList? (item : Cursor → Option (Term × Cursor)) (c : Cursor) : Option (Term × Cursor) := do
  let d ← c.symbol? '('
  let (ts, e) := d.items item
  let f ← e.symbol? ')'
  return (list ts, f)

/-- Reads a term. The items of a list are further on in the text, so reading them ends. -/
def read? (c : Cursor) : Option (Term × Cursor) :=
  readAtom? c <|> readList? (fun d => if _h : d.size < c.size then read? d else none) c
termination_by c.size

/-! ## Progress -/

theorem readConstant?_size_lt {c d : Cursor} {k : Constant} (h : readConstant? c = some (k, d)) :
    d.size < c.size := by
  simp only [readConstant?, Option.orElse_eq_orElse, Option.orElse_eq_or, Option.or_eq_some_iff,
    Option.map_eq_some_iff, Prod.mk.injEq] at h
  rcases h with ⟨e, h, -, rfl⟩ | ⟨-, ⟨e, h, -, rfl⟩ | ⟨-, e, h, -, rfl⟩⟩ <;>
    exact Cursor.keyword?_size_lt h (by decide)

theorem readAtom?_advances (c : Cursor) : Cursor.Advances readAtom? c := by
  intro a d h
  simp only [readAtom?, Option.orElse_eq_orElse, Option.orElse_eq_or, Option.or_eq_some_iff,
    Option.map_eq_some_iff, Prod.map, Prod.mk.injEq, id] at h
  rcases h with ⟨⟨t, e⟩, h, -, rfl⟩ | ⟨-, ⟨⟨t, e⟩, h, -, rfl⟩ | ⟨-, ⟨e, h, -, rfl⟩ |
    ⟨-, ⟨⟨t, e⟩, h, -, rfl⟩ | ⟨-, ⟨k, e⟩, h, -, rfl⟩⟩⟩⟩
  · exact Cursor.token?_size_lt h (by simp)
  · exact Cursor.token?_size_lt h (by simp)
  · exact Cursor.symbol?_size_lt h
  · exact Cursor.token?_size_lt h (by simp)
  · exact readConstant?_size_lt h

theorem readList?_advances {item : Cursor → Option (Term × Cursor)} {c : Cursor}
    (hi : ∀ d, d.size < c.size → Cursor.Advances item d) : Cursor.Advances (readList? item) c := by
  intro a g h
  simp only [readList?, Option.bind_eq_bind, Option.bind_eq_some_iff] at h
  obtain ⟨d, hd, f, hf, e⟩ := h
  cases e
  have h1 := Cursor.symbol?_size_lt hd
  have h2 : (d.items item).2.size ≤ d.size :=
    Cursor.items_size_le d (fun e he => hi e (by omega))
  have h3 := Cursor.symbol?_size_lt hf
  omega

theorem read?_advances (c : Cursor) : Cursor.Advances read? c := by
  intro a d h
  rw [read?] at h
  simp only [Option.orElse_eq_orElse, Option.orElse_eq_or, Option.or_eq_some_iff] at h
  rcases h with h | ⟨-, h⟩
  · exact readAtom?_advances c a d h
  · refine readList?_advances (fun e he => ?_) a d h
    intro b f hf
    simp only [dif_pos he] at hf
    exact read?_advances e b f hf
termination_by c.size

theorem readList?_congr {f g : Cursor → Option (Term × Cursor)} {c : Cursor}
    (hf : ∀ d, d.size < c.size → Cursor.Advances f d) (h : ∀ d, d.size < c.size → f d = g d) :
    readList? f c = readList? g c := by
  unfold readList?
  cases hd : c.symbol? '(' with
  | none => rfl
  | some d =>
    have := Cursor.symbol?_size_lt hd
    simp only [Option.bind_eq_bind, Option.bind_some]
    rw [Cursor.items_congr (fun e he => hf e (by omega)) (fun e he => h e (by omega))]

/-- Without the test that ends the recursion, which never fails. -/
theorem read?_eq (c : Cursor) : read? c = (readAtom? c <|> readList? read? c) := by
  rw [read?, readList?_congr (g := read?)]
  · intro d hd a e h
    simp only [dif_pos hd] at h
    exact read?_advances d a e h
  · intro d hd
    simp only [dif_pos hd]

end CqlCanon.Term
