import CqlCanon.Text.Basic

/-!
# Decimal numbers

Digits of every script count, each with the value zero to nine; a number is
written in ASCII digits, with `-` when it is negative and no leading zeros.
-/

namespace CqlCanon.Text

/-- The code points of the digits zero; the other nine digits of a script follow its zero. -/
def zeros : List Nat :=
  [0x30, 0x660, 0x6f0, 0x7c0, 0x966, 0x9e6, 0xa66, 0xae6, 0xb66, 0xbe6, 0xc66, 0xce6, 0xd66,
   0xde6, 0xe50, 0xed0, 0xf20, 0x1040, 0x1090, 0x17e0, 0x1810, 0x1946, 0x19d0, 0x1a80, 0x1a90,
   0x1b50, 0x1bb0, 0x1c40, 0x1c50, 0xa620, 0xa8d0, 0xa900, 0xa9d0, 0xa9f0, 0xaa50, 0xabf0,
   0xff10, 0x104a0, 0x10d30, 0x11066, 0x110f0, 0x11136, 0x111d0, 0x112f0, 0x11450, 0x114d0,
   0x11650, 0x116c0, 0x11730, 0x118e0, 0x11950, 0x11c50, 0x11d50, 0x11da0, 0x16a60, 0x16ac0,
   0x16b50, 0x1d7ce, 0x1d7d8, 0x1d7e2, 0x1d7ec, 0x1d7f6, 0x1e140, 0x1e2f0, 0x1e950, 0x1fbf0]

/-- The value of a decimal digit. -/
def digitValue? (c : Char) : Option Nat :=
  if c.toNat < 128 then (if c.isDigit then some (c.toNat - '0'.toNat) else none)
  else (zeros.find? fun z => z ≤ c.toNat && c.toNat < z + 10).map (c.toNat - ·)

/-- Whether the character is a decimal digit. -/
def isDigit (c : Char) : Bool := (digitValue? c).isSome

/-- The number that digits stand for. -/
def natValue (digits : Text) : Nat :=
  digits.foldl (fun n c => 10 * n + (digitValue? c).getD 0) 0

/-- The length of the sign at the start of a text. -/
def signLength : Text → Nat
  | '+' :: _ => 1
  | '-' :: _ => 1
  | _ => 0

theorem signLength_le (t : Text) : signLength t ≤ t.length := by
  unfold signLength
  split <;> simp

/-- The length of the digits at the start of a text. -/
def digitsLength (t : Text) : Nat := (t.takeWhile isDigit).length

theorem digitsLength_le (t : Text) : digitsLength t ≤ t.length := length_takeWhile_le _ _

/-- The length of the integer at the start of a text: a sign or none, and one digit or more. -/
def integerLength? (t : Text) : Option Nat :=
  let sign := signLength t
  match digitsLength (t.drop sign) with
  | 0 => none
  | digits + 1 => some (sign + digits + 1)

theorem integerLength?_bounds {t : Text} {n : Nat} (h : integerLength? t = some n) :
    0 < n ∧ n ≤ t.length := by
  have hs := signLength_le t
  have hd := digitsLength_le (t.drop (signLength t))
  simp only [integerLength?] at h
  split at h
  · cases h
  · rename_i digits hdigits
    cases h
    rw [hdigits, List.length_drop] at hd
    omega

/-- The length of the decimal places at the start of a text. -/
def placesLength : Text → Nat
  | '.' :: t => digitsLength t + 1
  | _ => 0

theorem placesLength_le (t : Text) : placesLength t ≤ t.length := by
  unfold placesLength
  split
  · rename_i u
    have := digitsLength_le u
    simp only [List.length_cons]
    omega
  · omega

/-- The length of the exponent at the start of a text. -/
def exponentLength : Text → Nat
  | c :: t => if c = 'e' ∨ c = 'E' then ((integerLength? t).map (· + 1)).getD 0 else 0
  | [] => 0

theorem exponentLength_le (t : Text) : exponentLength t ≤ t.length := by
  unfold exponentLength
  split
  · rename_i c u
    split
    · cases h : integerLength? u with
      | none => simp
      | some n =>
        have := (integerLength?_bounds h).2
        simp only [Option.map_some, Option.getD_some, List.length_cons]
        omega
    · omega
  · omega

/-- The length of the number at the start of a text. -/
def numberLength? (t : Text) : Option Nat :=
  (integerLength? t).map fun integer =>
    let places := placesLength (t.drop integer)
    integer + places + exponentLength (t.drop (integer + places))

theorem numberLength?_bounds {t : Text} {n : Nat} (h : numberLength? t = some n) :
    0 < n ∧ n ≤ t.length := by
  obtain ⟨m, hm, rfl⟩ := Option.map_eq_some_iff.1 h
  have h1 := integerLength?_bounds hm
  have h2 := placesLength_le (t.drop m)
  have h3 := exponentLength_le (t.drop (m + placesLength (t.drop m)))
  simp only [List.length_drop] at h2 h3
  simp only
  omega

/-- The integer that a text stands for. -/
def intValue : Text → Int
  | '+' :: digits => natValue digits
  | '-' :: digits => -(natValue digits : Int)
  | digits => natValue digits

/-- A natural number in ASCII digits. -/
def ofNat (n : Nat) : Text := Nat.toDigits 10 n

/-- An integer in ASCII digits, with a sign only if it is negative. -/
def ofInt : Int → Text
  | .ofNat n => ofNat n
  | .negSucc n => '-' :: ofNat (n + 1)

end CqlCanon.Text
