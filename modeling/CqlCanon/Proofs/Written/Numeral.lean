import CqlCanon.Proofs.Written.Decimal
import Mathlib.Data.Nat.Digits.Defs

/-!
# The value of an integer and how it is written

The value of an integer token is the value of its digits at their places, with
its sign. Written back, it has ASCII digits only, and no sign, zero or plus that
could be left out.
-/

namespace CqlCanon.Text

variable {sign digits after : Text}

/-- A sign or none, and one digit or more, each of any script. -/
structure IsInteger (sign digits : Text) : Prop where
  sign : sign = [] ∨ sign = ['+'] ∨ sign = ['-']
  ne_nil : digits ≠ []
  digits : ∀ x ∈ digits, isDigit x = true

/-- The value of digits at their places, the last one counting single, negative after a `-`. -/
def positional (sign digits : Text) : Int :=
  let n : Nat := Nat.ofDigits 10 (digits.map fun x => (digitValue? x).getD 0).reverse
  if sign = ['-'] then -(n : Int) else n

/-- The text is `z` in ASCII digits, with no sign but a `-` and no zero that could be left out. -/
def IsNumeral (t : Text) (z : Int) : Prop :=
  ∃ sign digits, t = sign ++ digits ∧ (sign = [] ∨ sign = ['-']) ∧ digits ≠ [] ∧
    (∀ x ∈ digits, x.isDigit = true) ∧ positional sign digits = z ∧
    (digits.head? = some '0' → t = ['0'])

/-! ## Values -/

theorem natValue_eq_ofDigits (t : Text) :
    natValue t = Nat.ofDigits 10 (t.map fun x => (digitValue? x).getD 0).reverse := by
  rw [Nat.ofDigits_eq_foldr, List.foldr_reverse, List.foldl_map, natValue]
  congr
  funext n x
  exact Nat.add_comm _ _

namespace IsInteger

variable (h : IsInteger sign digits)

include h

theorem head : ∃ x u, digits = x :: u ∧ x ≠ '+' ∧ x ≠ '-' := by
  obtain ⟨x, u, rfl⟩ := List.exists_cons_of_ne_nil h.ne_nil
  have hx := h.digits x List.mem_cons_self
  refine ⟨x, u, rfl, ?_, ?_⟩
  · rintro rfl
    exact absurd hx (by decide)
  · rintro rfl
    exact absurd hx (by decide)

theorem signLength_append (after : Text) :
    signLength (sign ++ (digits ++ after)) = sign.length := by
  rcases h.sign with rfl | rfl | rfl
  · obtain ⟨x, u, rfl, hplus, hminus⟩ := h.head
    simp [signLength, hplus, hminus]
  · rfl
  · rfl

theorem intValue_append : intValue (sign ++ digits) = positional sign digits := by
  rcases h.sign with rfl | rfl | rfl
  · obtain ⟨x, u, rfl, hplus, hminus⟩ := h.head
    simp [intValue, positional, hplus, hminus, natValue_eq_ofDigits]
  · simp [intValue, positional, natValue_eq_ofDigits]
  · simp [intValue, positional, natValue_eq_ofDigits]

/-- The integer ends before the first character that is no digit. -/
theorem integerLength?_append (hafter : after.head?.any isDigit = false) :
    integerLength? (sign ++ (digits ++ after)) = some (sign ++ digits).length := by
  have hdigits : digitsLength (digits ++ after) = digits.length := by
    rw [digitsLength, List.takeWhile_append_of_pos h.digits]
    cases after with
    | nil => simp
    | cons x after => simp_all
  rw [integerLength?_eq_some_iff, h.signLength_append, List.drop_left, hdigits, List.length_append]
  exact ⟨List.length_pos_iff.2 h.ne_nil, rfl⟩

end IsInteger

/-- An integer at the start of a text is a sign or none and all the digits after it. -/
theorem exists_of_integerLength? {t : Text} {n : Nat} (h : integerLength? t = some n) :
    ∃ sign digits after, IsInteger sign digits ∧ t = sign ++ (digits ++ after) ∧
      n = (sign ++ digits).length := by
  obtain ⟨hpos, rfl⟩ := integerLength?_eq_some_iff.1 h
  refine ⟨t.take (signLength t), (t.drop (signLength t)).takeWhile isDigit,
    (t.drop (signLength t)).dropWhile isDigit, ⟨?_, List.length_pos_iff.1 hpos, ?_⟩, ?_, ?_⟩
  · unfold signLength
    split <;> simp
  · exact fun x hx => List.all_eq_true.1 List.all_takeWhile x hx
  · rw [List.takeWhile_append_dropWhile, List.take_append_drop]
  · rw [List.length_append, List.length_take_of_le (signLength_le t), digitsLength]

/-! ## Numerals -/

theorem ofNat_eq_zero_of_head {n : Nat} (h : (ofNat n).head? = some '0') : n = 0 := by
  obtain ⟨u, hu⟩ := List.head?_eq_some_iff.1 h
  have hvalue : n = natValue u := by
    conv_lhs => rw [← natValue_ofNat n, hu]
    rfl
  cases u with
  | nil => exact hvalue
  | cons x u =>
    have hlt : n < 10 ^ (x :: u).length := hvalue ▸ natValue_lt (x :: u)
    have hlen := (Nat.length_toDigits_le_iff (by decide) (by simp)).2 hlt
    rw [show Nat.toDigits 10 n = _ from hu] at hlen
    simp only [List.length_cons] at hlen
    omega

theorem isNumeral_ofInt (z : Int) : IsNumeral (ofInt z) z := by
  have value : ∀ n, Nat.ofDigits 10 ((ofNat n).map fun x => (digitValue? x).getD 0).reverse = n :=
    fun n => (natValue_eq_ofDigits _).symm.trans (natValue_ofNat n)
  cases z with
  | ofNat n =>
    refine ⟨[], ofNat n, rfl, .inl rfl, ofNat_ne_nil n, fun _ => isDigit_of_mem_ofNat, ?_, ?_⟩
    · simp [positional, value]
    · intro hzero
      rw [ofNat_eq_zero_of_head hzero]
      rfl
  | negSucc n =>
    refine ⟨['-'], ofNat (n + 1), rfl, .inr rfl, ofNat_ne_nil _, fun _ => isDigit_of_mem_ofNat,
      ?_, ?_⟩
    · simp only [positional, if_true, value]
      rfl
    · intro hzero
      exact absurd (ofNat_eq_zero_of_head hzero) (Nat.succ_ne_zero n)

end CqlCanon.Text
