import CqlCanon.Proofs.Accepted
import CqlCanon.Proofs.RoundTrip

/-!
# Names do not reach beyond their place

Whatever is read from the canonical text of a statement has the same clauses,
if all names were accepted and the text of each call is one call. The check of
a call looks at its function and its last character only, so a text that is
accepted as a call can hold more than that.
-/

namespace CqlCanon.Select

/-- The statements differ at most in what they select, and select as many items. -/
structure Agrees (s r : Select) : Prop where
  distinct : r.distinct = s.distinct
  json : r.json = s.json
  columns : r.columns.length = s.columns.length
  table : r.table = s.table
  relations : r.relations = s.relations
  order : r.order = s.order
  limit : r.limit = s.limit
  filtering : r.filtering = s.filtering

/-- What an accepted call has after its first closing parenthesis can take the place of the table
and comment out the rest. -/
theorem not_agrees_of_accepted :
    ¬ ∀ s r : Select, s.Accepted → parse (render s) = .ok r → s.Agrees r := by
  intro h
  let s : Select :=
    { columns := [.function ⟨⟨"f(a) FROM u --)".toList⟩, none⟩]
      table := ⟨⟨"t".toList⟩, none⟩
      relations := [⟨⟨"x".toList⟩, "=".toList, "1".toList⟩] }
  have hs : s.Accepted := by
    refine ⟨by simp [s], ?_, ⟨by decide +kernel, ?_, by simp [s], by decide +kernel⟩⟩
    · simp only [s, List.mem_singleton]
      rintro x rfl
      exact ⟨by decide +kernel, List.forall_mem_nil _⟩
    · simp only [s, List.mem_singleton]
      rintro r rfl
      exact ⟨by decide +kernel, by decide +kernel, .number "1".toList,
        .number (by decide +kernel), rfl⟩
  have hr : parse (render s) = .ok
      { columns := [.function ⟨⟨"f(a)".toList⟩, none⟩], table := ⟨⟨"u".toList⟩, none⟩ } := by
    decide +kernel
  exact absurd (h _ _ hs hr).relations (by simp [s])

/-- What is read from the canonical text is what each of its parts was written for. -/
theorem contents_of_parse_render {s r : Select} (h : s.Accepted)
    (hcalls : ∀ x ∈ s.columns, x.HoldsCall) (hr : parse (render s) = .ok r) :
    r.map Identifier.text = s.spelled Selector.written := by
  have hstands := stands_of_parse hr
  have hscans := hstands.scans
  rw [Text.expandTabs_eq_self h.tab] at hscans
  obtain ⟨hcolumns, hclauses⟩ := h.spells_of_scans hcalls hscans
  obtain ⟨c, d, hhead, hreading⟩ := render_stands hcolumns hclauses h.tab
  have hspelled : (s.spelled Selector.written).Stands (render s) :=
    ⟨c, d, hhead, hreading.clauses, hreading.rest⟩
  exact hstands.unique hspelled (not_limitTooLong_of_parse hr)

/-- No name of a statement changes what is read outside its place, if its calls are calls. -/
theorem agrees_of_parse_render {s r : Select} (h : s.Accepted)
    (hcalls : ∀ x ∈ s.columns, x.HoldsCall) (hr : parse (render s) = .ok r) : s.Agrees r := by
  have hcontents := contents_of_parse_render h hcalls hr
  -- texts are put back into identifiers, and those of the clauses are the same again
  have hmap : r = (s.spelled Selector.written).map Identifier.mk := by
    rw [← hcontents, map_text_map_mk]
  have hclauses : (s.map Identifier.text).map Identifier.mk = s := map_text_map_mk s
  have htable := congrArg Statement.table hclauses
  have hrelations := congrArg Statement.relations hclauses
  have horder := congrArg Statement.order hclauses
  rw [hmap]
  exact {
    distinct := rfl
    json := rfl
    columns := by simp [spelled, Statement.map]
    table := htable
    relations := hrelations
    order := horder
    limit := rfl
    filtering := rfl }

/-- A call need not be canonical, and a quoted name may hold all of a clause. -/
theorem agrees_of_quoted_clause : ∃ s r : Select, s.Accepted ∧ (∀ x ∈ s.columns, x.HoldsCall) ∧
    parse (render s) = .ok r ∧ r ≠ s ∧ s.Agrees r := by
  let s : Select :=
    { columns := [.function ⟨⟨"f( a,TRUE --)\n)".toList⟩, some ⟨"\"n\"\" FROM u --\"".toList⟩⟩]
      table := ⟨⟨"t".toList⟩, some ⟨"k".toList⟩⟩
      relations := [⟨⟨"\"x\"\" = 1 OR\"".toList⟩, "=".toList, "1".toList⟩]
      limit := some 5 }
  have hs : s.Accepted := by
    refine ⟨by simp [s], ?_, ⟨by decide +kernel, ?_, by simp [s], by decide +kernel⟩⟩
    · simp only [s, List.mem_singleton]
      rintro x rfl
      exact ⟨by decide +kernel, by decide +kernel⟩
    · simp only [s, List.mem_singleton]
      rintro r rfl
      exact ⟨by decide +kernel, by decide +kernel, .number "1".toList,
        .number (by decide +kernel), rfl⟩
  have hcalls : ∀ x ∈ s.columns, x.HoldsCall := by
    simp only [s, List.mem_singleton]
    rintro x rfl
    show (Call.ofText? _).isSome = true
    decide +kernel
  have hr : parse (render s) = .ok { s with
      columns := [.function ⟨⟨"f(a, true)".toList⟩, some ⟨"\"n\"\" FROM u --\"".toList⟩⟩] } := by
    decide +kernel
  exact ⟨s, _, hs, hcalls, hr, by simp [s], agrees_of_parse_render hs hcalls hr⟩

end CqlCanon.Select
