import CqlCanon.Canonicalizer
import CqlCanon.Proofs.RoundTrip

/-!
# Statements with a configured keyspace

A keyspace is checked when it is configured, and then written into statements
as it is. The check lets tabs and ends of lines pass inside quotes, but a text
with such a keyspace is not read as it was written. With all other keyspaces,
and where a statement names its own, canonical texts are read again.
-/

namespace CqlCanon

theorem Statement.qualify_of_keyspace {ν : Type} {s : Statement ν} {i : ν}
    (h : s.table.keyspace = some i) (o : Option ν) : s.qualify o = s := by
  have htable : ({ s.table with keyspace := s.table.keyspace.or o } : TableName ν) = s.table := by
    rw [h, Option.some_or, ← h]
  rw [qualify, htable]

theorem Statement.qualify_none {ν : Type} (s : Statement ν) : s.qualify none = s := by
  rw [qualify, Option.or_none]

theorem Statement.qualify_qualify {ν : Type} (s : Statement ν) (o : Option ν) :
    (s.qualify o).qualify o = s.qualify o := by
  simp only [qualify, Option.or_assoc, Option.or_self]

namespace Canonicalizer

variable {k : Canonicalizer} {s r : Select} {t u : Text}

theorem configure_text_eq_ok_iff : configure (.text u) = .ok k ↔
    Identifier.nameFault? u = none ∧ k = ⟨some ⟨u⟩⟩ := by
  cases h : Identifier.nameFault? u <;> simp [configure, Identifier.parseName, h, eq_comm]

theorem checkKeyspace_of_configure {setting : Setting} (hk : configure setting = .ok k)
    {i : Identifier} (hi : k.keyspace = some i) : checkKeyspace i = .ok i := by
  cases setting with
  | unset =>
    cases hk
    cases hi
  | text u =>
    obtain ⟨hfault, rfl⟩ := configure_text_eq_ok_iff.1 hk
    cases hi
    rw [checkKeyspace, Identifier.parseName_eq_ok_iff.2 ⟨hfault, rfl⟩]
  | other => cases hk

/-- Against a configured keyspace nothing else than reading the text can fail. -/
theorem parse_eq_map {setting : Setting} (hk : configure setting = .ok k) (t : Text) :
    k.parse t = (Select.parse t).map fun s => s.qualify k.keyspace := by
  unfold parse
  cases Select.parse t with
  | error e => rfl
  | ok s =>
    simp only [bind, Except.bind, pure, Except.pure, Except.map]
    cases hi : k.keyspace with
    | none => rw [Statement.qualify_none]
    | some i =>
      cases hs : s.table.keyspace with
      | none => simp only [checkKeyspace_of_configure hk hi]
      | some j => simp only [Statement.qualify_of_keyspace hs]

theorem parse_eq_ok_iff {setting : Setting} (hk : configure setting = .ok k) : k.parse t = .ok s ↔
    ∃ r, Select.parse t = .ok r ∧ s = r.qualify k.keyspace := by
  rw [parse_eq_map hk, Except.map_eq_ok_iff]
  exact ⟨fun ⟨r, hr, hs⟩ => ⟨r, hr, hs.symm⟩, fun ⟨r, hr, hs⟩ => ⟨r, hr, hs.symm⟩⟩

theorem canonicalize_of_parse {setting : Setting} (hk : configure setting = .ok k)
    (h : k.parse t = .ok s) : k.canonicalize t = .ok (Select.render s) := by
  obtain ⟨r, hr, rfl⟩ := (parse_eq_ok_iff hk).1 h
  have hlimit := (Select.wellFormed_of_parse hr).limit
  exact Except.bind_eq_ok_iff.2 ⟨_, h, Select.write_eq_ok_iff.2 ⟨hlimit, rfl⟩⟩

/-- A statement that is read again is in the keyspace already. -/
theorem canonicalize_of_parse_render {setting : Setting} (hk : configure setting = .ok k)
    (h : k.parse t = .ok s) (hread : Select.parse (Select.render s) = .ok s) :
    (k.canonicalize t >>= k.canonicalize) = k.canonicalize t := by
  obtain ⟨r, -, rfl⟩ := (parse_eq_ok_iff hk).1 h
  have hagain : k.parse (Select.render (r.qualify k.keyspace)) = .ok (r.qualify k.keyspace) :=
    (parse_eq_ok_iff hk).2 ⟨_, hread, (r.qualify_qualify k.keyspace).symm⟩
  rw [canonicalize_of_parse hk h]
  exact Except.bind_eq_ok_iff.2 ⟨_, rfl, canonicalize_of_parse hk hagain⟩

theorem qualify_wellFormed (h : r.WellFormed) {i : Identifier} (hi : i.text.IsName) :
    Select.WellFormed (r.qualify (some i)) := by
  obtain ⟨hkeyspace, hname⟩ := TableName.forall_identifiers.1 h.clauses.table
  refine ⟨h.columns, ⟨TableName.forall_identifiers.2 ⟨?_, hname⟩, h.clauses.relations,
    h.clauses.order, h.clauses.keys⟩, h.limit⟩
  intro j hj
  cases hr : r.table.keyspace with
  | none =>
    obtain rfl : j = i := by simpa [Statement.qualify, hr] using hj
    exact hi
  | some l => exact hkeyspace j (by simpa [Statement.qualify, hr] using hj)

/-- The text has no tabs and no ends of lines. -/
def Inline (u : Text) : Prop := '\t' ∉ u ∧ '\n' ∉ u ∧ '\r' ∉ u

/-- A statement in a configured keyspace is read again from its canonical text exactly if the
keyspace has no tabs and no ends of lines, or was not needed. The canonical text is then canonical
against the keyspace too. -/
theorem parse_render_iff_of_parse (hk : configure (.text u) = .ok k) (h : k.parse t = .ok s) :
    (Select.parse (Select.render s) = .ok s ↔
      Inline u ∨ ∃ r i, Select.parse t = .ok r ∧ r.table.keyspace = some i) ∧
    (Inline u ∨ (∃ r i, Select.parse t = .ok r ∧ r.table.keyspace = some i) →
      (k.canonicalize t >>= k.canonicalize) = k.canonicalize t) := by
  obtain ⟨hfault, rfl⟩ := configure_text_eq_ok_iff.1 hk
  obtain ⟨r, hr, rfl⟩ := (parse_eq_ok_iff hk).1 h
  have hwf := Select.wellFormed_of_parse hr
  have reread : Inline u ∨ (∃ r i, Select.parse t = .ok r ∧ r.table.keyspace = some i) →
      Select.parse (Select.render (r.qualify (some ⟨u⟩))) = .ok (r.qualify (some ⟨u⟩)) := by
    rintro (hu | ⟨r', i, hr', hi⟩)
    · exact (qualify_wellFormed hwf ⟨hfault, hu.1, hu.2⟩).parse_eq
    · obtain rfl : r' = r := Except.ok.inj (hr'.symm.trans hr)
      rw [Statement.qualify_of_keyspace hi]
      exact hwf.parse_eq
  refine ⟨⟨fun hread => ?_, reread⟩, fun hu => canonicalize_of_parse_render hk h (reread hu)⟩
  have htable := (Select.wellFormed_of_parse hread).clauses.table
  cases hkeyspace : r.table.keyspace with
  | some i => exact .inr ⟨r, i, hr, hkeyspace⟩
  | none =>
    have hu := htable ⟨u⟩ (by simp [Statement.qualify, TableName.identifiers, hkeyspace])
    exact .inl ⟨hu.tab, hu.line⟩

theorem parse_render_iff_of_quoted : ∃ (k : Canonicalizer) (s : Select),
    configure (.text "\"a\"\"; --\"".toList) = .ok k ∧
    k.parse "select f( x ) from t".toList = .ok s ∧ Inline "\"a\"\"; --\"".toList ∧
    Select.parse (Select.render s) = .ok s := by
  have hk : configure (.text "\"a\"\"; --\"".toList) = .ok ⟨some ⟨"\"a\"\"; --\"".toList⟩⟩ := by
    decide +kernel
  have h : parse ⟨some ⟨"\"a\"\"; --\"".toList⟩⟩ "select f( x ) from t".toList = .ok
      { columns := [.function ⟨⟨"f(x)".toList⟩, none⟩]
        table := ⟨⟨"t".toList⟩, some ⟨"\"a\"\"; --\"".toList⟩⟩ } := by decide +kernel
  have hu : Inline "\"a\"\"; --\"".toList := by unfold Inline; decide +kernel
  exact ⟨_, _, hk, h, hu, (parse_render_iff_of_parse hk h).1.2 (.inl hu)⟩

/-- A keyspace with the end of a line in it is accepted, and its canonical texts are refused. -/
theorem not_parse_render_of_line : ∃ (k : Canonicalizer) (s : Select),
    configure (.text "\"a\nb\"".toList) = .ok k ∧ k.parse "SELECT * FROM t".toList = .ok s ∧
    Select.parse (Select.render s) = .error (.unexpected 14) ∧
    (k.canonicalize "SELECT * FROM t".toList >>= k.canonicalize) = .error (.unexpected 14) := by
  refine ⟨⟨some ⟨"\"a\nb\"".toList⟩⟩,
    { columns := [.star], table := ⟨⟨"t".toList⟩, some ⟨"\"a\nb\"".toList⟩⟩ }, ?_⟩
  decide +kernel

end Canonicalizer

end CqlCanon
