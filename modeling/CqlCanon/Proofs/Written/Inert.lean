import CqlCanon.Proofs.Written.Token

/-!
# Inert texts

An inert text has no layout in it and nothing that a rough scan stops at:
quotes, commas, stars. All tokens are inert but the quoted ones and those two
symbols.
-/

namespace CqlCanon.Text

/-- The text has no blanks, quotes, commas or stars, and each `-` in it is followed by something
else. -/
def inert : Text → Bool
  | [] => true
  | x :: t => !isBlank x && x ≠ '"' && x ≠ '\'' && x ≠ ',' && x ≠ '*' &&
      (x ≠ '-' || t.head?.any (· ≠ '-')) && inert t

theorem inert_cons {x : Char} {t : Text} : inert (x :: t) = true ↔ isBlank x = false ∧ x ≠ '"' ∧
    x ≠ '\'' ∧ x ≠ ',' ∧ x ≠ '*' ∧ (x ≠ '-' ∨ t.head?.any (· ≠ '-') = true) ∧ inert t = true := by
  simp [inert, and_assoc]

theorem inert_append {t u : Text} (ht : inert t = true) (hu : inert u = true) :
    inert (t ++ u) = true := by
  induction t with
  | nil => exact hu
  | cons x t ih =>
    obtain ⟨h1, h2, h3, h4, h5, h6, h7⟩ := inert_cons.1 ht
    refine inert_cons.2 ⟨h1, h2, h3, h4, h5, h6.imp_right fun h => ?_, ih h7⟩
    cases t with
    | nil => cases h
    | cons y t => exact h

/-- A class of characters without the special ones. -/
theorem inert_of_forall {p : Char → Bool} (hp : p ' ' = false ∧ p '\n' = false ∧ p '\t' = false ∧
      p '\r' = false ∧ p '"' = false ∧ p '\'' = false ∧ p ',' = false ∧ p '*' = false ∧
      p '-' = false) {t : Text} (h : ∀ x ∈ t, p x = true) : inert t = true := by
  obtain ⟨h1, h2, h3, h4, h5, h6, h7, h8, h9⟩ := hp
  have ne : ∀ {x y : Char}, p x = true → p y = false → x ≠ y := by
    rintro x y hx hy rfl
    rw [hx] at hy
    cases hy
  induction t with
  | nil => rfl
  | cons x t ih =>
    have hx := h x (by simp)
    refine inert_cons.2 ⟨?_, ne hx h5, ne hx h6, ne hx h7, ne hx h8, .inl (ne hx h9),
      ih fun y hy => h y (by simp [hy])⟩
    simp [isBlank, ne hx h1, ne hx h2, ne hx h3, ne hx h4]

theorem tab_of_inert {t : Text} (h : inert t = true) : '\t' ∉ t := by
  induction t with
  | nil => simp
  | cons x t ih =>
    obtain ⟨hx, -, -, -, -, -, ht⟩ := inert_cons.1 h
    have : x ≠ '\t' := by
      rintro rfl
      exact absurd hx (by decide)
    simp [this.symm, ih ht]

theorem layoutLength_of_inert {t : Text} (h : inert t = true) (hne : t ≠ []) (r : Text) :
    layoutLength (t ++ r) = 0 := by
  obtain ⟨x, t, rfl⟩ := List.exists_cons_of_ne_nil hne
  obtain ⟨hb, -, -, -, -, hm, -⟩ := inert_cons.1 h
  have : startsComment x (t ++ r) = false := by
    rcases hm with hm | hm
    · simp [startsComment, hm]
    · cases t with
      | nil => cases hm
      | cons y t =>
        have : y ≠ '-' := by simpa using hm
        simp [startsComment, this]
  simp [layoutLength, hb, this]

/-! ## Words -/

theorem inert_of_isNameChar {t : Text} (h : ∀ x ∈ t, isNameChar x = true) : inert t = true :=
  inert_of_forall (by decide) h

theorem inert_of_nameLength? {t : Text} {n : Nat} (h : nameLength? t = some n) :
    inert (t.take n) = true := by
  obtain ⟨name, rest, rfl, rfl, -, hname, -⟩ := nameLength?_split h
  rw [List.take_left]
  exact inert_of_isNameChar hname

/-! ## Numbers -/

theorem isDigit_of_mem_take {t : Text} {x : Char} (h : x ∈ t.take (digitsLength t)) :
    isDigit x = true := by
  rw [digitsLength, ← List.prefix_iff_eq_take.1 (List.takeWhile_prefix isDigit)] at h
  exact List.all_eq_true.1 List.all_takeWhile x h

theorem inert_digits (t : Text) : inert (t.take (digitsLength t)) = true :=
  inert_of_forall (by decide +kernel) fun _ => isDigit_of_mem_take

theorem mem_of_integerLength? {t : Text} {n : Nat} (h : integerLength? t = some n) :
    ∀ x ∈ t.take n, x = '+' ∨ x = '-' ∨ isDigit x = true := by
  obtain ⟨-, rfl⟩ := integerLength?_eq_some_iff.1 h
  intro x hx
  rw [List.take_add, List.mem_append] at hx
  rcases hx with hx | hx
  · unfold signLength at hx
    split at hx
    · exact .inl (by simpa using hx)
    · exact .inr (.inl (by simpa using hx))
    · simp at hx
  · exact .inr (.inr (isDigit_of_mem_take hx))

theorem inert_of_integerLength? {t : Text} {n : Nat} (h : integerLength? t = some n) :
    inert (t.take n) = true := by
  obtain ⟨hpos, rfl⟩ := integerLength?_eq_some_iff.1 h
  unfold signLength at hpos ⊢
  split at hpos
  · rename_i u
    rw [Nat.add_comm, List.take_succ_cons]
    exact inert_cons.2 ⟨rfl, by decide, by decide, by decide, by decide, .inl (by decide),
      inert_digits u⟩
  · rename_i u
    obtain ⟨y, v, hv, hy⟩ := digit_of_digitsLength_pos hpos
    have hu : ((u.take (digitsLength u)).head?.any (· ≠ '-')) = true := by
      have hne : y ≠ '-' := by
        rintro rfl
        exact absurd hy (by decide)
      have hn : digitsLength u ≠ 0 := Nat.ne_of_gt hpos
      have hx : u.head? = some y := by rw [show u = y :: v from hv, List.head?_cons]
      simp [List.head?_take, hn, hx, hne]
    rw [Nat.add_comm, List.take_succ_cons]
    exact inert_cons.2 ⟨rfl, by decide, by decide, by decide, by decide, .inr hu, inert_digits u⟩
  · simpa using inert_digits t

theorem inert_places (t : Text) : inert (t.take (placesLength t)) = true := by
  unfold placesLength
  split
  · rename_i u
    rw [List.take_succ_cons]
    exact inert_cons.2 ⟨rfl, by decide, by decide, by decide, by decide, .inl (by decide),
      inert_digits u⟩
  · rfl

theorem inert_exponent (t : Text) : inert (t.take (exponentLength t)) = true := by
  unfold exponentLength
  split
  · rename_i x u
    split
    · rename_i he
      cases hi : integerLength? u with
      | none => rfl
      | some n =>
        rw [Option.map_some, Option.getD_some, List.take_succ_cons]
        have := inert_of_integerLength? hi
        rcases he with rfl | rfl <;>
          exact inert_cons.2 ⟨rfl, by decide, by decide, by decide, by decide, .inl (by decide), this⟩
    · rfl
  · rfl

theorem inert_of_numberLength? {t : Text} {n : Nat} (h : numberLength? t = some n) :
    inert (t.take n) = true := by
  obtain ⟨m, hm, rfl⟩ := numberLength?_eq_some_iff.1 h
  rw [List.take_add, List.take_add]
  exact inert_append (inert_append (inert_of_integerLength? hm) (inert_places _)) (inert_exponent _)

end CqlCanon.Text

namespace CqlCanon.Token

/-! ## Tokens -/

/-- The kinds of tokens whose texts are inert. -/
def Inert : Token → Prop
  | keyword w => w.all Char.isUpper = true
  | symbol c => Text.inert [c] = true
  | quoted _ => False
  | _ => True

theorem Inert.text {k : Token} {b : Option Char} {t : Text} {n : Nat} (hk : k.Inert)
    (h : k.length? b t = some n) : Text.inert (t.take n) = true := by
  cases k with
  | keyword w =>
    obtain ⟨hu, -, -, rfl⟩ := keywordLength?_eq_some_iff.1 h
    refine Text.inert_of_forall (p := Text.isWordLike) (by decide) (Text.isWordLike_of_mem_upper ?_)
    rwa [hu]
  | symbol c =>
    obtain ⟨hx, rfl⟩ : t.head? = some c ∧ 1 = n := by simpa [length?] using h
    obtain ⟨t, rfl⟩ := List.head?_eq_some_iff.1 hx
    exact hk
  | comparison =>
    simp only [length?] at h
    unfold comparisonLength? at h
    split at h <;> cases h <;> rfl
  | word => exact Text.inert_of_nameLength? h
  | plainName =>
    simp only [length?] at h
    split at h
    · cases h
    · exact Text.inert_of_nameLength? h
  | quoted q => cases hk
  | number => exact Text.inert_of_numberLength? h
  | integer => exact Text.inert_of_integerLength? h
  | bindMarker =>
    obtain ⟨hx, m, hm, rfl⟩ := bindLength?_eq_some_iff.1 h
    obtain ⟨t, rfl⟩ := List.head?_eq_some_iff.1 hx
    exact Text.inert_cons.2 ⟨rfl, by decide, by decide, by decide, by decide, .inl (by decide),
      Text.inert_of_nameLength? hm⟩

theorem Whole.inert {k : Token} {t : Text} (h : k.Whole t) (hk : k.Inert) :
    Text.inert t = true := by
  simpa using hk.text h

theorem Whole.solid {k : Token} {t : Text} (h : k.Whole t) (hp : k.Plain) (hk : k.Inert) (r : Text) :
    layoutLength (t ++ r) = 0 := by
  refine Text.layoutLength_of_inert (h.inert hk) ?_ r
  rintro rfl
  exact absurd (length?_bounds h (by rintro w rfl; exact hp)) (by simp)

end CqlCanon.Token
