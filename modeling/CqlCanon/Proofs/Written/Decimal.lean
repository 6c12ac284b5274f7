import CqlCanon.Proofs.Written.Token
import Mathlib.Algebra.Group.Nat.Defs

/-!
# Written integers

An integer is read back from its digits. How many digits it has depends on its
size alone, and digits of any script stand for no more than that many ASCII
ones could.
-/

namespace CqlCanon.Text

/-! ## Digits -/

theorem digitValue?_of_isDigit {c : Char} (h : c.isDigit = true) :
    digitValue? c = some (c.toNat - '0'.toNat) := by
  have hc := toNat_lt_of_isAlphanum (c := c) (by simp [Char.isAlphanum, h])
  simp [digitValue?, hc, h]

theorem isDigit_of_mem_ofNat {n : Nat} {c : Char} (h : c ∈ ofNat n) : c.isDigit = true :=
  Nat.isDigit_of_mem_toDigits (by decide) (by decide) h

theorem all_isDigit_ofNat (n : Nat) : ∀ c ∈ ofNat n, isDigit c = true := by
  intro c hc
  simp [isDigit, digitValue?_of_isDigit (isDigit_of_mem_ofNat hc)]

theorem natValue_ofNat (n : Nat) : natValue (ofNat n) = n := by
  have key : ∀ (t : Text) (m : Nat), (∀ c ∈ t, c.isDigit = true) →
      t.foldl (fun n c => 10 * n + (digitValue? c).getD 0) m = Nat.ofDigitChars 10 t m := by
    intro t
    induction t with
    | nil => simp
    | cons c t ih =>
      intro m h
      rw [List.foldl_cons, Nat.ofDigitChars_cons, ih _ fun d hd => h d (by simp [hd]),
        digitValue?_of_isDigit (h c (by simp)), Option.getD_some]
  rw [natValue, key _ _ fun c hc => isDigit_of_mem_ofNat hc]
  exact Nat.ofDigitChars_ten_toDigits

theorem digitValue?_lt {c : Char} {v : Nat} (h : digitValue? c = some v) : v < 10 := by
  unfold digitValue? at h
  split at h
  · split at h
    · cases h
      rename_i hd
      simp only [Char.isDigit, Bool.and_eq_true, decide_eq_true_eq, UInt32.le_iff_toNat_le] at hd
      have : c.val.toNat = c.toNat := rfl
      have h0 : '0'.toNat = 48 := rfl
      have h9 : '9'.val.toNat = 57 := rfl
      omega
    · cases h
  · obtain ⟨z, hz, rfl⟩ := Option.map_eq_some_iff.1 h
    have := List.find?_some hz
    simp only [Bool.and_eq_true, decide_eq_true_eq] at this
    omega

theorem natValue_lt (t : Text) : natValue t < 10 ^ t.length := by
  have key : ∀ (t : Text) (m : Nat),
      t.foldl (fun n c => 10 * n + (digitValue? c).getD 0) m < (m + 1) * 10 ^ t.length := by
    intro t
    induction t with
    | nil => simp
    | cons c t ih =>
      intro m
      have hv : (digitValue? c).getD 0 < 10 := by
        cases h : digitValue? c with
        | none => simp
        | some v => exact digitValue?_lt h
      have hle : 10 * m + (digitValue? c).getD 0 + 1 ≤ 10 * (m + 1) := by omega
      calc (c :: t).foldl (fun n c => 10 * n + (digitValue? c).getD 0) m
          < (10 * m + (digitValue? c).getD 0 + 1) * 10 ^ t.length := ih _
        _ ≤ 10 * (m + 1) * 10 ^ t.length := Nat.mul_le_mul_right _ hle
        _ = (m + 1) * 10 ^ (c :: t).length := by
          rw [List.length_cons, Nat.pow_succ, Nat.mul_comm 10, Nat.mul_assoc, Nat.mul_comm 10]
  have := key t 0
  rwa [Nat.zero_add, Nat.one_mul] at this

/-! ## Integers -/

theorem ofNat_ne_nil (n : Nat) : ofNat n ≠ [] := Nat.toDigits_ne_nil

theorem ofNat_head (n : Nat) : ∃ c t, ofNat n = c :: t ∧ c.isDigit = true := by
  obtain ⟨c, t, h⟩ := List.exists_cons_of_ne_nil (ofNat_ne_nil n)
  exact ⟨c, t, h, isDigit_of_mem_ofNat (h ▸ List.mem_cons_self)⟩

theorem signLength_ofNat (n : Nat) : signLength (ofNat n) = 0 := by
  obtain ⟨c, t, h, hc⟩ := ofNat_head n
  rw [h]
  unfold signLength
  split
  · exact absurd hc (by simp_all)
  · exact absurd hc (by simp_all)
  · rfl

theorem intValue_ofInt (z : Int) : intValue (ofInt z) = z := by
  cases z with
  | ofNat n =>
    obtain ⟨c, t, h, hc⟩ := ofNat_head n
    have : intValue (ofNat n) = natValue (ofNat n) := by
      rw [h]
      unfold intValue
      split
      · exact absurd hc (by simp_all)
      · exact absurd hc (by simp_all)
      · rfl
    rw [ofInt, this, natValue_ofNat]
    rfl
  | negSucc n =>
    rw [ofInt, intValue, natValue_ofNat]
    rfl

theorem digitsLength_ofNat (n : Nat) : digitsLength (ofNat n) = (ofNat n).length := by
  have : (ofNat n ++ []).takeWhile isDigit = ofNat n ++ [] :=
    List.takeWhile_append_of_pos (all_isDigit_ofNat n)
  rw [List.append_nil] at this
  rw [digitsLength, this]

theorem whole_ofInt (z : Int) : Token.integer.Whole (ofInt z) := by
  refine integerLength?_eq_some_iff.2 ?_
  cases z with
  | ofNat n =>
    have := List.length_pos_iff.2 (ofNat_ne_nil n)
    rw [ofInt, signLength_ofNat, List.drop_zero, digitsLength_ofNat]
    omega
  | negSucc n =>
    have := List.length_pos_iff.2 (ofNat_ne_nil (n + 1))
    simp only [ofInt, signLength, List.drop_one, List.tail_cons, digitsLength_ofNat,
      List.length_cons]
    omega

theorem length_ofNat_le_iff {n k : Nat} (hk : 0 < k) : (ofNat n).length ≤ k ↔ n < 10 ^ k :=
  Nat.length_toDigits_le_iff (by decide) hk

theorem length_ofInt {z : Int} : (ofInt z).length - signLength (ofInt z) = (ofNat z.natAbs).length := by
  cases z with
  | ofNat n => rw [ofInt, signLength_ofNat, Nat.sub_zero, Int.natAbs_ofNat']
  | negSucc n => rw [ofInt, signLength, List.length_cons, Nat.add_sub_cancel, Int.natAbs_negSucc]

theorem natAbs_intValue_lt {t : Text} : (intValue t).natAbs < 10 ^ (t.length - signLength t) := by
  unfold intValue signLength
  split
  · rename_i digits
    simpa using natValue_lt digits
  · rename_i digits
    simpa using natValue_lt digits
  · rw [Nat.sub_zero, Int.natAbs_natCast]
    exact natValue_lt t

theorem tab_not_mem_ofInt (z : Int) : '\t' ∉ ofInt z := by
  have h : ∀ n, '\t' ∉ ofNat n := fun n hn => absurd (isDigit_of_mem_ofNat hn) (by decide)
  cases z with
  | ofNat n => exact h n
  | negSucc n => simp [ofInt, h]

end CqlCanon.Text
