import CqlCanon.Proofs.Refusal
import CqlCanon.Proofs.RoundTrip
import CqlCanon.Proofs.Spacing

/-!
# Canonical texts are tidy

A canonical text is on one line and has no tabs. Outside its quotes no comment
starts in it and no semicolon stands in it, and blanks stand singly between
words, not at the ends of the text and not inside parentheses. Terms and calls
are shown to be neat from the inside out, and a statement is composed of neat
texts.
-/

namespace CqlCanon

open Cursor Lexeme

/-! ## Terms and calls -/

theorem Token.Whole.ne_nil {k : Token} {t : Text} (h : k.Whole t) (hk : k ≠ .keyword []) : t ≠ [] := by
  rintro rfl
  obtain ⟨x, u, hnil, -⟩ := Token.startsWith_of_length? h hk
  cases hnil

theorem Term.Canonical.neat {t : Term} (h : t.Canonical) : t.render.Neat := by
  induction t using Term.induction with
  | number t =>
    obtain ⟨h⟩ := h
    refine .of_number (h.inert trivial) (h.ne_nil (by simp)) fun x hx => ?_
    have hx' : x ∈ t.take t.length := by rwa [List.take_length]
    exact Text.isNumberChar_of_numberLength? h x hx'
  | string t =>
    obtain _ | ⟨h, -⟩ := h
    exact .of_whole (.inr rfl) h
  | positional => exact .of_unquoted (by decide) (by decide) (by decide)
  | bind t =>
    obtain _ | _ | _ | h := h
    obtain ⟨hhead, m, hm, hlen⟩ := Token.bindLength?_eq_some_iff.1 h
    obtain ⟨t, rfl⟩ := List.head?_eq_some_iff.1 hhead
    refine .of_inert (h.inert trivial) (h.ne_nil (by simp)) fun x hx => ?_
    rcases List.mem_cons.1 hx with rfl | hx
    · decide
    · have hform : Identifier.isNameForm t = true := by
        rw [List.length_cons] at hlen
        simpa [Identifier.isNameForm, show m = t.length by omega] using hm
      exact Text.sign_of_isNameChar (Text.isNameChar_of_nameForm hform x hx)
  | constant k => cases k <;> exact .of_unquoted (by decide) (by decide) (by decide)
  | list ts ih =>
    obtain _ | _ | _ | _ | _ | h := h
    rw [render, renderAll_eq_map]
    exact .parens (List.forall_mem_map.2 fun t ht => ih t ht (h t ht))

theorem Call.canonical_neat : (∀ x : Call, x.Canonical → x.render.Neat) ∧
    ∀ a : Argument, a.Canonical → a.render.Neat := by
  apply Call.induction
  case star =>
    rintro f ⟨hf⟩
    have star : ∀ t ∈ [['*']], Text.Neat t := fun t ht => by
      obtain rfl := List.mem_singleton.1 ht
      exact .of_unquoted (by decide) (by decide) (by decide)
    exact .append_parens hf star
  case apply =>
    rintro f as ih (_ | ⟨hf, has⟩)
    rw [Call.render, Argument.renderAll_eq_map, List.append_assoc]
    exact .append_parens hf (List.forall_mem_map.2 fun a ha => ih a ha (has a ha))
  case call =>
    rintro x ih ⟨hx⟩
    exact ih hx
  case term =>
    rintro t (_ | ht)
    exact ht.neat
  case name =>
    rintro t (_ | _ | ht)
    exact .name ht.name

/-! ## Whole statements -/

theorem Text.ofInt_ne_nil (z : Int) : ofInt z ≠ [] :=
  Token.Whole.ne_nil (whole_ofInt z) (by simp)

theorem Text.isNumberChar_ofInt (z : Int) : ∀ x ∈ ofInt z, isNumberChar x = true := by
  intro x hx
  have hwhole : integerLength? (ofInt z) = some (ofInt z).length := whole_ofInt z
  exact isNumberChar_of_integerLength? hwhole x (by rwa [List.take_length])

theorem Text.neat_ofInt (z : Int) : (ofInt z).Neat :=
  .of_number ((whole_ofInt z).inert trivial) (ofInt_ne_nil z) (isNumberChar_ofInt z)

theorem Text.neat_of_mem {ws : List Text}
    (h : ∀ w ∈ ws, w.Unquoted ∧ w.Solid ∧ '\n' ∉ w ∧ '\r' ∉ w) : ∀ w ∈ ws, w.Neat :=
  fun w hw => .of_unquoted (h w hw).1 (h w hw).2.1 (h w hw).2.2

theorem Text.composes_neat : Composes Neat where
  word := neat_of_mem (by decide)
  numeral := neat_ofInt
  between ht sep hsep hu := by
    have all : ∀ sep ∈ separators, sep.Separator ∧ sep.Unquoted ∧ '\n' ∉ sep ∧ '\r' ∉ sep := by decide
    obtain ⟨hseparator, hunquoted, hline⟩ := all sep hsep
    exact ht.between ⟨hseparator, hunquoted, hline⟩ hu

namespace Select

variable {s : Select}

theorem WellFormed.neat (h : s.WellFormed) : (render s).Neat :=
  Text.composes_neat.render h.columns_ne_nil h.clauses.order
    (h.forall_identifiers (fun _ ht => .name ht.token) fun c _ hcall =>
      hcall.text ▸ Call.canonical_neat.1 c hcall.canonical)
    (h.clauses.forall_relations (Text.neat_of_mem (by decide)) fun _ hv => hv.neat)

theorem WellFormed.star_not_mem (h : s.WellFormed) :
    s.columns = [.star] ∨ s.columns ≠ [] ∧ .star ∉ s.columns :=
  h.columns.imp id fun ⟨hne, hcolumns⟩ => ⟨hne, fun hstar => hcolumns _ hstar⟩

theorem WellFormed.nameFault? (h : s.WellFormed) :
    ∀ i ∈ s.plainNames, Identifier.nameFault? i.text = none := by
  intro i hi
  simp only [Statement.plainNames, List.mem_append, List.mem_flatMap, List.mem_map] at hi
  rcases hi with ((⟨x, hx, hi⟩ | hi) | ⟨r, hr, rfl⟩) | ⟨k, hk, rfl⟩
  · have hcolumns := h.columns.resolve_left (by rintro hs; simp [hs] at hx; simp [hx, Selector.plainNames] at hi)
    have hxwf := hcolumns.2 x hx
    cases x with
    | star => exact hxwf.elim
    | column n => exact (hxwf i hi).accepted
    | function n => exact (hxwf.2 i hi).accepted
  · exact (h.clauses.table i hi).accepted
  · exact (h.clauses.relations r hr).column.accepted
  · exact (h.clauses.keys k hk).accepted

theorem WellFormed.call (h : s.WellFormed) :
    ∀ i ∈ s.calls, i.functionCall = true ∧ Identifier.fault? i.text = none := by
  intro i hi
  obtain ⟨x, hx, hcall⟩ := List.mem_filterMap.1 hi
  have hcolumns := h.columns.resolve_left (by rintro hs; simp [hs] at hx; simp [hx, Selector.call?] at hcall)
  cases x with
  | star => cases hcall
  | column n => cases hcall
  | function n =>
    cases hcall
    obtain ⟨⟨call, hcall⟩, -⟩ := hcolumns.2 _ hx
    refine ⟨?_, ?_⟩
    · obtain ⟨u, hu⟩ := call.render_eq_append
      obtain ⟨y, v, hv, hy⟩ := Text.nameForm_head hcall.canonical.function
      have hquote : y ≠ '"' := by rintro rfl; cases hy
      have hlast : (y :: (v ++ '(' :: (u ++ [')']))).getLast? = some ')' := by
        rw [← List.cons_append, ← List.cons_append, ← List.append_assoc, List.getLast?_concat]
      simp [Identifier.functionCall, Identifier.quoted, ← hcall.text, hu, hv, hquote, hlast]
    · rw [← hcall.text, hcall.canonical.fault?, hcall.function]
      rfl

/-- What is parsed selects `*` alone or columns and calls. Its names are accepted as names and its
calls as calls, its operators are written in one way, and an order has keys. Its canonical text is on
one line without tabs, and tidy outside quotes. -/
theorem shape_of_parse {t : Text} {s : Select} (h : parse t = .ok s) :
    (s.columns = [.star] ∨ s.columns ≠ [] ∧ .star ∉ s.columns) ∧
    (∀ i ∈ s.plainNames, ∀ span, Identifier.parseName i.text span = .ok i) ∧
    (∀ i ∈ s.calls, i.functionCall = true ∧ ∀ span, Identifier.parse i.text span = .ok i) ∧
    (∀ r ∈ s.relations, r.operator ∈ Relation.operators) ∧
    s.order ≠ some [] ∧
    ('\t' ∉ render s ∧ '\n' ∉ render s ∧ '\r' ∉ render s) ∧
    (Text.hollow (render s)).Tidy := by
  have hs := wellFormed_of_parse h
  refine ⟨hs.star_not_mem, fun i hi span => ?_, fun i hi => ⟨(hs.call i hi).1, fun span => ?_⟩,
    fun r hr => (hs.clauses.relations r hr).operator, hs.clauses.order, ⟨hs.tab, hs.neat.line⟩,
    hs.neat.solid.tidy⟩
  · exact Identifier.parseName_eq_ok_iff.2 ⟨hs.nameFault? i hi, rfl⟩
  · exact Identifier.parse_eq_ok_iff.2 ⟨(hs.call i hi).2, rfl⟩

/-- Quotes hold what would not be tidy outside them. -/
theorem shape_of_quoted : ∃ s : Select,
    parse "select f( 'a;  --( ' ,( -1 ) )as \"b ;\"from t order by x;".toList = .ok s ∧
    render s = "SELECT f('a;  --( ', (-1)) AS \"b ;\" FROM t ORDER BY x ASC".toList ∧
    Text.hollow (render s) = "SELECT f('', (-1)) AS \"\" FROM t ORDER BY x ASC".toList ∧
    (Text.hollow (render s)).Tidy := by
  have h : parse "select f( 'a;  --( ' ,( -1 ) )as \"b ;\"from t order by x;".toList = .ok
      { columns := [.function ⟨⟨"f('a;  --( ', (-1))".toList⟩, some ⟨"\"b ;\"".toList⟩⟩]
        table := ⟨⟨"t".toList⟩, none⟩
        order := some [⟨⟨"x".toList⟩, false⟩] } := by decide +kernel
  refine ⟨_, h, by decide +kernel, ?_, (shape_of_parse h).2.2.2.2.2.2⟩
  decide +kernel

end Select

end CqlCanon
