import CqlCanon.Proofs.Fault.Position
import CqlCanon.Proofs.Fault.Prefix
import CqlCanon.Proofs.Fault.Reach

/-!
# The position of a fault

Where a text cannot be read, the fault has a position. The text up to there can
still be made a statement, and the fault is not before the end of a statement
that the text starts with.
-/

namespace CqlCanon

open Cursor Lexeme

namespace Draft

/-- Tabs that are expanded before the text is read make no difference. -/
theorem read_expandTabs (t : Text) : read (Text.expandTabs t) = read t := by
  rw [read, read, Text.expandTabs_eq_self (Text.tab_not_mem_expandTabs t)]

section Longer

variable {y v : Text} {p : Nat} (h : read (y ++ v) = .error (.unexpected p)) (hy : '\t' ∉ y ++ v)
  (hascii : ∀ x ∈ y, x.toNat < 128) (hv : v.Severs)

include h hy hascii hv

/-- No start of the text that goes beyond its fault is read, unless it stops inside a word. -/
theorem unexpected_of_longer (hp : p < y.length) : ∃ q, read y = .error (.unexpected q) := by
  cases hread : read y with
  | ok draft =>
    obtain ⟨s, l, d, hl, hpasses, hle⟩ := exists_passes_append hy hascii hv hread
    have := skip_le_of_unexpected hl hpasses hy h
    omega
  | error e =>
    rcases read_error hread with ⟨q, rfl⟩ | ⟨-, hlimit⟩
    · exact ⟨q, rfl⟩
    · rw [read_eq_limitTooLong_iff.2 (hlimit.append hy hascii hv)] at h
      cases h

end Longer

end Draft

namespace Select

/-- The fault of a text has a position in the text with its tabs expanded. A statement starts with
the text up to there. If the text is in ASCII and goes on to a later character that is no letter, no
digit, no `_` and no `$`, then it is no statement up to that character either. -/
theorem parse_fault_position {t : Text} {p : Nat} (h : parse t = .error (.unexpected p)) :
    p ≤ (Text.expandTabs t).length ∧ Text.Viable ((Text.expandTabs t).take p) ∧
      ((∀ x ∈ Text.expandTabs t, x.toNat < 128) →
        ∀ (m : Nat) (c : Char), p < m → (Text.expandTabs t)[m]? = some c →
          c.isAlphanum = false → c ≠ '_' → c ≠ '$' →
          ∃ q, Draft.read ((Text.expandTabs t).take m) = .error (.unexpected q)) := by
  have hread := (parse_eq_error_iff (by simp)).1 h
  rw [← Draft.read_expandTabs] at hread
  have htab := Text.tab_not_mem_expandTabs t
  generalize Text.expandTabs t = x at hread htab ⊢
  obtain ⟨hle, hviable⟩ := Draft.viable_of_unexpected hread htab
  refine ⟨hle, hviable, fun hascii m c hp hc halnum hunder hdollar => ?_⟩
  have hv : Text.Severs (x.drop m) := by
    refine Text.severs_of_ascii fun z hz => ?_
    rw [List.head?_drop, hc] at hz
    cases hz
    exact ⟨hascii c (List.mem_of_getElem? hc), halnum, hunder, hdollar⟩
  obtain ⟨hm, -⟩ := List.getElem?_eq_some_iff.1 hc
  have hlen : (x.take m).length = m := List.length_take_of_le (Nat.le_of_lt hm)
  rw [← List.take_append_drop m x] at hread htab
  exact Draft.unexpected_of_longer hread htab (fun z hz => hascii z (List.mem_of_mem_take hz)) hv
    (hlen.symm ▸ hp)

/-- A condition that cannot be read is reported where the clause starts. -/
theorem parse_fault_position_where :
    parse "SELECT\ta FROM t WHERE = 1".toList = .error (.unexpected 17) ∧
    Text.Viable "SELECT  a FROM t ".toList ∧
    ∃ q, Draft.read "SELECT  a FROM t WHERE".toList = .error (.unexpected q) := by
  have h : parse "SELECT\ta FROM t WHERE = 1".toList = .error (.unexpected 17) := by decide +kernel
  have hascii : (Text.expandTabs "SELECT\ta FROM t WHERE = 1".toList).all (·.toNat < 128) = true := by
    decide
  obtain ⟨-, hviable, hlonger⟩ := parse_fault_position h
  exact ⟨h, hviable, hlonger (by simpa using hascii) 22 ' ' (by decide) rfl (by decide) (by decide)
    (by decide)⟩

end Select

end CqlCanon
