import CqlCanon.Proofs.Written.Inert
import CqlCanon.Proofs.Written.Place

/-!
# Canonical terms and calls

A term or call is canonical if its tokens are whole, have no tabs, and its
arguments are names only where they could not be constants. Its canonical text
spells it.
-/

namespace CqlCanon

open Cursor

/-! ## Tokens that start no layout -/

theorem Text.nameForm_head {t : Text} (h : Identifier.isNameForm t = true) :
    ∃ x u, t = x :: u ∧ isLetter x = true := by
  obtain ⟨x, u, rfl, hx, -⟩ := nameLength?_eq_some_iff.1 (Token.whole_word_iff.2 h)
  exact ⟨x, u, rfl, hx⟩

theorem Text.nameForm_head_ne {t : Text} (h : Identifier.isNameForm t = true) :
    t.head? ≠ some '"' := by
  obtain ⟨x, u, rfl, hx⟩ := nameForm_head h
  rintro hq
  obtain rfl : x = '"' := by simpa using hq
  exact absurd hx (by decide)

theorem Text.nameForm_solid {t : Text} (h : Identifier.isNameForm t = true) (r : Text) :
    layoutLength (t ++ r) = 0 :=
  (Token.whole_word_iff.2 h).solid trivial trivial r

theorem Token.Whole.quoted_solid {q : Char} {t : Text} (h : (quoted q).Whole t)
    (hq : isBlank q = false ∧ q ≠ '-') (r : Text) : layoutLength (t ++ r) = 0 := by
  obtain ⟨u, rfl, -⟩ := h.quoted_cons
  exact layoutLength_of_head hq

theorem Text.IsNameToken.spells {t : Text} (h : t.IsNameToken) : Spells t.StandsAsName t where
  solid r := by
    rcases h with h | ⟨h, -⟩
    · exact h.quoted_solid (by decide) r
    · exact nameForm_solid h r
  stands_at hc hr := hc.name h (.inl hr)

/-! ## Terms -/

theorem Constant.render_spells (k : Constant) : Spells k.Stands k.render where
  solid r := by cases k <;> exact layoutLength_of_head (by decide)
  stands_at hc hr :=
    hc.keyword? (by cases k <;> decide) (by cases k <;> decide) (hr.any_eq_false (by decide))

inductive Term.Canonical : Term → Prop where
  | number {t : Text} : Token.number.Whole t → Canonical (number t)
  | string {t : Text} : (Token.quoted '\'').Whole t → '\t' ∉ t → Canonical (string t)
  | positional : Canonical positional
  | bind {t : Text} : Token.bindMarker.Whole t → Canonical (bind t)
  | constant (k : Constant) : Canonical (constant k)
  | list {ts : List Term} : (∀ t ∈ ts, t.Canonical) → Canonical (list ts)

theorem Term.list_stands_at {ts : List Term} (h : ∀ t ∈ ts, Spells t.Stands t.render) {c : Cursor}
    {r : Text} (hc : c.At ((list ts).render ++ r)) : ∃ d, (list ts).Stands c d ∧ d.rest = r := by
  simp only [render, List.cons_append, List.append_assoc, List.nil_append, renderAll_eq_map] at hc
  obtain ⟨d, hd, hrest, hb⟩ := hc.symbol?
  obtain ⟨e, k, he, hk, hkrest⟩ := items_spells (g := id) h hrest hb
  exact ⟨k, ⟨d, e, hd, allStand_iff.2 (by simpa using he), hk⟩, hkrest⟩

theorem Term.Canonical.spells {t : Term} (h : t.Canonical) : Spells t.Stands t.render := by
  induction t using Term.induction with
  | number t =>
    obtain ⟨h⟩ := h
    exact ⟨h.solid trivial trivial, fun hc hr => hc.token? trivial h hr⟩
  | string t =>
    obtain _ | ⟨h, -⟩ := h
    exact ⟨h.quoted_solid (by decide), fun hc hr => hc.token? (.inr rfl) h hr⟩
  | positional =>
    refine ⟨fun r => layoutLength_of_head (by decide), fun hc _ => ?_⟩
    obtain ⟨d, hd, hrest, -⟩ := hc.symbol?
    exact ⟨d, hd, hrest⟩
  | bind t =>
    obtain _ | _ | _ | h := h
    exact ⟨h.solid trivial trivial, fun hc hr => hc.token? trivial h hr⟩
  | constant k => exact k.render_spells
  | list ts ih =>
    obtain _ | _ | _ | _ | _ | h := h
    exact ⟨fun r => layoutLength_of_head (by decide),
      fun hc _ => list_stands_at (fun t ht => ih t ht (h t ht)) hc⟩

/-! ## Calls -/

/-- A name that may be an argument: a constant is not one, though it may be named like one in
quotes. -/
structure Text.IsArgumentName (t : Text) : Prop where
  name : t.IsNameToken
  tab : '\t' ∉ t
  not_constant : ∀ k : Constant, Text.upper t ≠ k.word.toList

mutual

inductive Call.Canonical : Call → Prop where
  | star {f : Text} : Identifier.isNameForm f = true → Call.Canonical (.star f)
  | apply {f : Text} {as : List Argument} : Identifier.isNameForm f = true →
      (∀ a ∈ as, a.Canonical) → Call.Canonical (.apply f as)

inductive Argument.Canonical : Argument → Prop where
  | call {x : Call} : x.Canonical → Argument.Canonical (.call x)
  | term {t : Term} : t.Canonical → Argument.Canonical (.term t)
  | name {t : Text} : t.IsArgumentName → Argument.Canonical (.name t)

end

/-- No constant stands where another name does. -/
theorem Cursor.At.not_constant {t r : Text} {c : Cursor} (hc : c.At (t ++ r)) (hr : r.Breaks)
    (ht : t.IsNameToken) (hk : ∀ k : Constant, Text.upper t ≠ k.word.toList) (k : Constant)
    (e : Cursor) : ¬ k.Stands c e := by
  intro h
  have h' : c.keyword? k.word = some e := h
  rcases ht with ht | ⟨ht, -⟩
  · obtain ⟨hx, -⟩ := Token.quotedLength?_eq_some_iff.1 ht
    have hx : c.next = some '"' := by simp [next, hc.1, List.head?_append, hx]
    exact next_ne_of_keyword? h' (by cases k <;> decide) (by cases k <;> decide) hx
  · obtain ⟨d, hd, hrest⟩ := hc.word ht (.inl hr)
    exact hk k (upper_eq_of_keyword?_of_word h' (by cases k <;> decide) hd
      (not_stuck_of_rest hrest (.inl hr)))

theorem Cursor.At.opening {f r : Text} {c : Cursor} (hf : Identifier.isNameForm f = true)
    (hc : c.At (f ++ '(' :: r)) : ∃ d e, c.token? .word = some (f, d) ∧ d.symbol? '(' = some e ∧
      e.rest = r ∧ e.before = some '(' := by
  obtain ⟨d, hd, hrest⟩ := hc.word hf (.inl (.cons (by simp)))
  obtain ⟨e, he, herest, hb⟩ := symbol?_of_rest hrest (by decide)
  exact ⟨d, e, hd, he, herest, hb⟩

theorem Call.canonical_spells : (∀ x : Call, x.Canonical → Spells x.Stands x.render) ∧
    ∀ a : Argument, a.Canonical → Spells a.Stands a.render := by
  apply Call.induction
  case star =>
    rintro f ⟨hf⟩
    refine ⟨fun r => by rw [Call.render, List.append_assoc]; exact Text.nameForm_solid hf _,
      fun {c r} hc _ => ?_⟩
    rw [Call.render, List.append_assoc] at hc
    obtain ⟨d, e, hd, he, hrest, -⟩ := At.opening (r := '*' :: ')' :: r) hf hc
    obtain ⟨g, hg, hgrest, -⟩ := symbol?_of_rest hrest (by decide)
    obtain ⟨k, hk, hkrest, -⟩ := symbol?_of_rest hgrest (by decide)
    exact ⟨k, ⟨d, e, g, hd, he, hg, hk⟩, hkrest⟩
  case apply =>
    rintro f as ih (_ | ⟨hf, has⟩)
    refine ⟨fun r => by simpa [Call.render] using Text.nameForm_solid hf _, fun {c r} hc _ => ?_⟩
    simp only [Call.render, List.cons_append, List.append_assoc, List.nil_append,
      Argument.renderAll_eq_map] at hc
    obtain ⟨d, e, hd, he, hrest, hb⟩ := At.opening hf hc
    obtain ⟨g, k, hg, hk, hkrest⟩ := items_spells (g := id) (fun a ha => ih a ha (has a ha)) hrest hb
    exact ⟨k, ⟨d, e, g, hd, he, Argument.allStand_iff.2 (by simpa using hg), hk⟩, hkrest⟩
  case call =>
    rintro x ih ⟨hx⟩
    exact ih hx
  case term =>
    rintro t (_ | ht)
    exact ht.spells
  case name =>
    rintro t (_ | _ | ht)
    refine ⟨ht.name.spells.solid, fun {c r} hc hr => ?_⟩
    obtain ⟨d, hd, hrest⟩ := ht.name.spells.stands_at hc hr
    exact ⟨d, ⟨hd, hc.not_constant hr ht.name ht.not_constant⟩, hrest⟩

end CqlCanon
