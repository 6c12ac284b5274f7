import CqlCanon.Proofs.Identifier.Forms

/-!
# Quoting and the value of a quoted identifier

The texts in which quotes stand in pairs are those in which each quote of some
other text was doubled, and reading the pairs from the left gives that other
text back. So a value and the quoted identifier that stands for it determine
each other.
-/

namespace CqlCanon

namespace Text

variable {c : Char} {t : Text}

theorem doubled_double (c : Char) (t : Text) : Doubled c (double c t) := by
  induction t with
  | nil => exact .nil
  | cons d t ih =>
    rw [double]
    split
    · rename_i hd
      subst hd
      exact .pair ih
    · rename_i hd
      exact .other hd ih

theorem undouble_pair (c : Char) (t : Text) : undouble c (c :: c :: t) = c :: undouble c t := by
  simp [undouble]

theorem undouble_other {d : Char} (hd : d ≠ c) (t : Text) :
    undouble c (d :: t) = d :: undouble c t := by
  cases t with
  | nil => rfl
  | cons e t => simp [undouble, hd]

theorem undouble_double (c : Char) (t : Text) : undouble c (double c t) = t := by
  induction t with
  | nil => rfl
  | cons d t ih =>
    rw [double]
    split
    · rename_i hd
      rw [hd, undouble_pair, ih]
    · rename_i hd
      rw [undouble_other hd, ih]

theorem Doubled.double_undouble (h : Doubled c t) : double c (undouble c t) = t := by
  induction h with
  | nil => rfl
  | pair _ ih => rw [undouble_pair, double, if_pos rfl, ih]
  | other hd _ ih => rw [undouble_other hd, double, if_neg hd, ih]

theorem double_ne_nil (ht : t ≠ []) : double c t ≠ [] := by
  cases t with
  | nil => exact absurd rfl ht
  | cons d t =>
    rw [double]
    split <;> simp

end Text

namespace Identifier

theorem isQuoted_quote {v : Text} (hv : v ≠ []) : (quote v).text.IsQuoted :=
  ⟨_, Text.double_ne_nil hv, Text.doubled_double '"' v, rfl⟩

@[simp] theorem value_quote (v : Text) : (quote v).value = v := by
  have hinner : (quote v).text.tail.dropLast = Text.double '"' v := by simp [quote]
  rw [value, quoted_quote, if_pos rfl, hinner, Text.undouble_double]

theorem quote_value {i : Identifier} (h : i.text.IsQuoted) : quote i.value = i := by
  obtain ⟨t⟩ := i
  obtain ⟨u, -, hu, rfl⟩ := h
  have hvalue : (mk ('"' :: u ++ ['"'])).value = Text.undouble '"' u := by simp [value, quoted]
  rw [hvalue, quote, hu.double_undouble]

theorem parseName_of_isQuoted {t : Text} (h : t.IsQuoted) (span : Span) :
    parseName t span = .ok ⟨t⟩ := by
  have hf := fault?_of_isQuoted h
  have hquoted := (quoted_iff hf).2 h
  exact parseName_eq_ok_iff.2 ⟨nameFault?_eq_none_iff.2 ⟨hf, by simp [functionCall, hquoted]⟩, rfl⟩

theorem value_ne_nil {i : Identifier} (h : nameFault? i.text = none) : i.value ≠ [] := by
  rcases form_of_nameFault? h with hq | ⟨hn, -⟩
  · intro hempty
    have htext := quote_value (isQuotedForm_iff.1 hq)
    rw [hempty] at htext
    rw [← htext] at hq
    exact absurd hq (by decide)
  · have hw := Text.isWord_iff.1 hn
    have hquoted : i.quoted = false := by simpa [quoted] using Text.nameForm_head_ne hn
    obtain ⟨c, u, ht, -⟩ := hw.head
    rw [value, hquoted, if_neg (by decide), Text.lower_of_ascii hw.ascii, ht]
    exact List.cons_ne_nil _ _

/-- Quotes around a text, with the quotes inside doubled, make a name that has the text as its
value. A quoted identifier is the one that its value makes, so it is determined by its value. Every
name may be written as a quoted one with the same value. -/
theorem quote_inverse :
    (∀ v, v ≠ [] → ∀ span, parseName (quote v).text span = .ok (quote v) ∧ (quote v).value = v) ∧
    (∀ t span i, parse t span = .ok i → i.quoted = true → quote i.value = i) ∧
    (∀ t u span span' i j, parse t span = .ok i → parse u span' = .ok j → i.quoted = true →
      j.quoted = true → i.value = j.value → i = j) ∧
    ∀ t span i, parseName t span = .ok i → ∀ span',
      parseName (quote i.value).text span' = .ok (quote i.value) ∧
        (quote i.value).value = i.value := by
  have restored : ∀ t span i, parse t span = .ok i → i.quoted = true → quote i.value = i := by
    intro t span i h hq
    obtain ⟨hf, rfl⟩ := parse_eq_ok_iff.1 h
    exact quote_value ((quoted_iff hf).1 hq)
  refine ⟨fun v hv span => ⟨parseName_of_isQuoted (isQuoted_quote hv) span, value_quote v⟩,
    restored, ?_, ?_⟩
  · intro t u span span' i j hi hj hqi hqj hvalue
    calc i = quote i.value := (restored t span i hi hqi).symm
      _ = quote j.value := by rw [hvalue]
      _ = j := restored u span' j hj hqj
  · intro t span i h span'
    obtain ⟨hf, rfl⟩ := parseName_eq_ok_iff.1 h
    exact ⟨parseName_of_isQuoted (isQuoted_quote (value_ne_nil hf)) span', value_quote _⟩

/-- A value with a run of quotes at its end, and a name in mixed case. -/
theorem quote_inverse_of_run : ∃ i j : Identifier,
    parseName i.text ⟨0, 10⟩ = .ok i ∧ i.text = "\"a\"\"b\"\"\"\"\"".toList ∧
    i.value = "a\"b\"\"".toList ∧ quote i.value = i ∧
    parseName "Ab".toList ⟨0, 2⟩ = .ok j ∧ parseName "\"ab\"".toList ⟨0, 4⟩ = .ok (quote j.value) := by
  obtain ⟨accepted, restored, -, rewritten⟩ := quote_inverse
  have hname : parseName "Ab".toList ⟨0, 2⟩ = .ok (mk "Ab".toList) := by decide +kernel
  have hlower : (mk "Ab".toList).value = "ab".toList := by decide +kernel
  obtain ⟨hparse, hvalue⟩ := accepted "a\"b\"\"".toList (by decide) ⟨0, 10⟩
  have hquoted : parse "\"a\"\"b\"\"\"\"\"".toList ⟨0, 10⟩ = .ok (quote "a\"b\"\"".toList) := by
    decide +kernel
  refine ⟨quote "a\"b\"\"".toList, mk "Ab".toList, hparse, by decide, hvalue,
    restored _ _ _ hquoted rfl, hname, ?_⟩
  have := (rewritten _ _ _ hname ⟨0, 4⟩).1
  rw [hlower] at this ⊢
  exact this

end Identifier

end CqlCanon
