import CqlCanon.Text.Basic

/-!
# Tab stops

A tab fills the line with spaces up to the next multiple of eight columns.
Columns count from zero and start again after a line feed or a carriage return.
-/

namespace CqlCanon.Text

/-- The number of columns between tab stops. -/
def tabWidth : Nat := 8

/-- `expandTabsFrom column t` is `t` without tabs, when `t` starts at `column`. -/
def expandTabsFrom (column : Nat) : Text → Text
  | [] => []
  | c :: t =>
    if c = '\t' then
      List.replicate (tabWidth - column % tabWidth) ' ' ++
        expandTabsFrom (column + (tabWidth - column % tabWidth)) t
    else if c = '\n' ∨ c = '\r' then c :: expandTabsFrom 0 t
    else c :: expandTabsFrom (column + 1) t

/-- The text with its tabs replaced by spaces. -/
def expandTabs (t : Text) : Text := expandTabsFrom 0 t

theorem expandTabsFrom_eq_self {t : Text} (h : '\t' ∉ t) (column : Nat) :
    expandTabsFrom column t = t := by
  induction t generalizing column with
  | nil => rfl
  | cons c t ih =>
    simp only [List.mem_cons, not_or] at h
    simp [expandTabsFrom, Ne.symm h.1, ih h.2]

theorem expandTabs_eq_self {t : Text} (h : '\t' ∉ t) : expandTabs t = t :=
  expandTabsFrom_eq_self h 0

theorem tab_not_mem_expandTabsFrom (column : Nat) (t : Text) :
    '\t' ∉ expandTabsFrom column t := by
  induction t generalizing column with
  | nil => simp [expandTabsFrom]
  | cons c t ih =>
    rw [expandTabsFrom]
    split
    · simp [ih]
    · rename_i hc
      split <;> simp [ih, Ne.symm hc]

theorem tab_not_mem_expandTabs (t : Text) : '\t' ∉ expandTabs t :=
  tab_not_mem_expandTabsFrom 0 t

end CqlCanon.Text
