import CqlCanon.Call.Basic
import CqlCanon.Term.Read

/-!
# Reading calls

An argument is read as a call if it can be, else as a term, else as a name.
`Call.faultAt` is where the reading of a call breaks off.
-/

namespace CqlCanon

/-- Reads an argument, given how to read a call. -/
def Argument.read? (call : Cursor → Option (Call × Cursor)) (c : Cursor) :
    Option (Argument × Cursor) :=
  (call c).map (Prod.map .call id) <|>
  (Term.read? c).map (Prod.map .term id) <|>
  c.name?.map (Prod.map .name id)

namespace Call

/-- Reads what stands between the parentheses of a call, given how to read a call inside it. -/
def readBody (call : Cursor → Option (Call × Cursor)) (function : Text) (c : Cursor) :
    Call × Cursor :=
  match c.symbol? '*' with
  | some d => (star function, d)
  | none =>
    let (arguments, d) := c.items (Argument.read? call)
    (apply function arguments, d)

/-- Reads a call. Calls among its arguments are further on in the text, so reading them ends. -/
def read? (c : Cursor) : Option (Call × Cursor) := do
  let (function, d) ← c.token? .word
  let d ← d.symbol? '('
  let (call, e) := readBody (fun e => if _h : e.size < c.size then read? e else none) function d
  let f ← e.symbol? ')'
  return (call, f)
termination_by c.size

/-- The position where no call can be read on: at its name, its opening or its closing
parenthesis. -/
def faultAt (c : Cursor) : Nat :=
  match c.token? .word with
  | none => c.skip.position
  | some (function, d) =>
    match d.symbol? '(' with
    | none => d.skip.position
    | some e => (readBody read? function e).2.skip.position

end Call

/-! ## Progress -/

theorem Argument.read?_advances {call : Cursor → Option (Call × Cursor)} {c : Cursor}
    (hc : Cursor.Advances call c) : Cursor.Advances (Argument.read? call) c := by
  intro a d h
  simp only [Argument.read?, Option.orElse_eq_orElse, Option.orElse_eq_or, Option.or_eq_some_iff,
    Option.map_eq_some_iff, Prod.map, Prod.mk.injEq, id] at h
  rcases h with ⟨⟨b, e⟩, h, -, rfl⟩ | ⟨-, ⟨⟨b, e⟩, h, -, rfl⟩ | ⟨-, ⟨b, e⟩, h, -, rfl⟩⟩
  · exact hc b e h
  · exact Term.read?_advances c b e h
  · exact Cursor.name?_advances c b e h

namespace Call

theorem readBody_size_le {call : Cursor → Option (Call × Cursor)} (function : Text) {c : Cursor}
    (hc : ∀ d, d.size ≤ c.size → Cursor.Advances call d) :
    (readBody call function c).2.size ≤ c.size := by
  unfold readBody
  cases h : c.symbol? '*' with
  | some d => exact Nat.le_of_lt (Cursor.symbol?_size_lt h)
  | none => exact Cursor.items_size_le c (fun d hd => Argument.read?_advances (hc d hd))

theorem readBody_congr {f g : Cursor → Option (Call × Cursor)} (function : Text) {c : Cursor}
    (hf : ∀ d, d.size ≤ c.size → Cursor.Advances f d) (h : ∀ d, d.size ≤ c.size → f d = g d) :
    readBody f function c = readBody g function c := by
  unfold readBody
  rw [Cursor.items_congr (g := Argument.read? g)
    (fun d hd => Argument.read?_advances (hf d hd))
    (fun d hd => by simp only [Argument.read?, h d hd])]

theorem read?_advances (c : Cursor) : Cursor.Advances read? c := by
  intro a g h
  rw [read?] at h
  simp only [Option.bind_eq_bind, Option.bind_eq_some_iff] at h
  obtain ⟨⟨function, b⟩, hb, d, hd, f, hf, e⟩ := h
  cases e
  simp only at hd hf
  have h1 := Cursor.token?_size_lt hb (by simp)
  have h2 := Cursor.symbol?_size_lt hd
  have h3 := Cursor.symbol?_size_lt hf
  refine Nat.lt_of_lt_of_le h3 (Nat.le_trans (readBody_size_le function fun e he => ?_) (by omega))
  intro b f hf
  have he : e.size < c.size := by omega
  simp only [dif_pos he] at hf
  exact read?_advances e b f hf
termination_by c.size

/-- Without the test that ends the recursion, which never fails. -/
theorem read?_eq (c : Cursor) : read? c = do
    let (function, d) ← c.token? .word
    let d ← d.symbol? '('
    let (call, e) := readBody read? function d
    let f ← e.symbol? ')'
    return (call, f) := by
  rw [read?]
  cases hb : c.token? .word with
  | none => rfl
  | some r =>
    obtain ⟨function, b⟩ := r
    simp only [Option.bind_eq_bind, Option.bind_some]
    cases hd : b.symbol? '(' with
    | none => rfl
    | some d =>
      have h1 := Cursor.token?_size_lt hb (by simp)
      have h2 := Cursor.symbol?_size_lt hd
      simp only [Option.bind_some]
      rw [readBody_congr (g := read?)]
      · intro e he a f h
        have : e.size < c.size := by omega
        simp only [dif_pos this] at h
        exact read?_advances e a f h
      · intro e he
        have : e.size < c.size := by omega
        simp only [dif_pos this]

end Call

end CqlCanon
