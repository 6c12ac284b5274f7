import CqlCanon.Proofs.RoundTrip
import CqlCanon.Proofs.Written.Numeral

/-!
# Limits

A limit has the value of its digits, of whatever script, and is written back as
a numeral of the same value. Too many digits are a fault as soon as they are
read: nothing that comes after them matters, and no name is looked at.
-/

namespace CqlCanon

open Cursor Text

/-- The text, with its tabs expanded, spells the statement up to its order, and `LIMIT` after that.
The cursor is where the layout after `LIMIT` ends. -/
def Statement.LimitAt (s : Statement Text) (t : Text) (c : Cursor) : Prop :=
  ∃ d e f, s.HeadStands (start (expandTabs t)) d ∧ s.ClausesStand d e ∧
    e.keyword? "LIMIT" = some f ∧ c = f.skip

/-- `ALLOW FILTERING` or not, a semicolon or not, and then nothing but layout. -/
def Cursor.Closes (filtering : Bool) (c : Cursor) : Prop :=
  ∃ d e semicolon, FlagStands Draft.readFiltering? filtering c d ∧
    FlagStands (symbol? ';') semicolon d e ∧ e.skip.rest = []

theorem Cursor.Closes.not_digit {filtering : Bool} {c : Cursor} (h : c.Closes filtering) :
    c.rest.head?.any isDigit = false := by
  obtain ⟨d, e, semicolon, hfilt, hsemi, hend⟩ := h
  have hopens := Draft.opens_filtering hfilt (Draft.opens_end hsemi hend)
  cases hrest : c.rest with
  | nil => rfl
  | cons x u =>
    rw [List.head?_cons, Option.any_some, Bool.eq_false_iff]
    intro hdigit
    have hplain : isBlank x = false ∧ x ≠ '-' := by
      refine ⟨Bool.eq_false_iff.2 fun hb => ?_, ?_⟩
      · rcases eq_of_isBlank hb with rfl | rfl | rfl | rfl <;> exact absurd hdigit (by decide)
      · rintro rfl
        exact absurd hdigit (by decide)
    have hskip : c.skip = c := skip_of_layoutLength (hrest ▸ layoutLength_of_head hplain)
    have hnext : c.next = some x := by rw [next, hskip, hrest, List.head?_cons]
    refine hopens.next_ne (x := x) ?_ (fun w hw => ⟨fun hupper => ?_, ?_⟩) hnext
    · rintro rfl
      exact absurd hdigit (by decide)
    · obtain rfl := List.mem_singleton.1 hw
      have := not_startsWord_of_isDigit hdigit
      rw [startsWord, hupper] at this
      exact absurd this (by decide)
    · obtain rfl := List.mem_singleton.1 hw
      decide

namespace Text.IsInteger

variable {f : Cursor} {sign digits after : Text} (h : IsInteger sign digits)

include h

/-- The integer is read where the text goes on with no other digit. -/
theorem token? (hrest : f.skip.rest = sign ++ (digits ++ after))
    (hafter : after.head?.any isDigit = false) :
    f.token? .integer = some (sign ++ digits, f.skip.advance (sign ++ digits).length) := by
  refine token?_eq_some_iff.2 ⟨_, ?_, ?_, rfl⟩
  · rw [hrest]
    exact h.integerLength?_append hafter
  · rw [hrest, ← List.append_assoc, List.take_left]

theorem length_sub_signLength :
    (sign ++ digits).length - signLength (sign ++ digits) = digits.length := by
  have := h.signLength_append []
  rw [List.append_nil] at this
  rw [this, List.length_append, Nat.add_sub_cancel_left]

theorem longest (after : Text) : ∃ more rest, after = more ++ rest ∧
    IsInteger sign (digits ++ more) ∧ rest.head?.any isDigit = false := by
  refine ⟨after.takeWhile isDigit, after.dropWhile isDigit,
    List.takeWhile_append_dropWhile.symm, ⟨h.sign, by simp [h.ne_nil], fun x hx => ?_⟩, ?_⟩
  · rcases List.mem_append.1 hx with hx | hx
    · exact h.digits x hx
    · exact List.all_eq_true.1 List.all_takeWhile x hx
  · have hstop := List.head?_dropWhile_not isDigit after
    cases hx : (after.dropWhile isDigit).head? with
    | none => rfl
    | some x =>
      rw [hx] at hstop
      rw [Option.any_some, hstop]

end Text.IsInteger

/-! ## Too many digits -/

theorem limitTooLong_iff {t : Text} : LimitTooLong t ↔
    ∃ (s : Statement Text) (c : Cursor) (sign digits after : Text), s.LimitAt t c ∧
      IsInteger sign digits ∧ c.rest = sign ++ (digits ++ after) ∧
      maxLimitDigits < digits.length := by
  constructor
  · rintro ⟨s, d, e, g, token, hhead, hclauses, ⟨f, hf, htoken⟩, hlen⟩
    obtain ⟨n, hn, rfl, -⟩ := token?_eq_some_iff.1 htoken
    obtain ⟨sign, digits, after, hint, hrest, rfl⟩ := exists_of_integerLength? hn
    refine ⟨s, f.skip, sign, digits, after, ⟨d, e, f, hhead, hclauses, hf, rfl⟩, hint, hrest, ?_⟩
    rwa [hrest, ← List.append_assoc, List.take_left, hint.length_sub_signLength] at hlen
  · rintro ⟨s, c, sign, digits, after, ⟨d, e, f, hhead, hclauses, hf, rfl⟩, hint, hrest, hlen⟩
    obtain ⟨more, rest, rfl, hlongest, hstop⟩ := hint.longest after
    rw [← List.append_assoc digits] at hrest
    refine ⟨s, d, e, _, _, hhead, hclauses, ⟨f, hf, hlongest.token? hrest hstop⟩, ?_⟩
    rw [hlongest.length_sub_signLength, List.length_append]
    omega

theorem Select.parse_eq_limitTooLong_iff {t : Text} :
    parse t = .error .limitTooLong ↔ LimitTooLong t :=
  (parse_eq_error_iff (by simp)).trans Draft.read_eq_limitTooLong_iff

/-! ## Limits that are read -/

theorem Statement.LimitAt.read {s : Statement Text} {t sign digits after : Text} {c : Cursor}
    {filtering : Bool} (h : s.LimitAt t c) (hint : IsInteger sign digits)
    (hrest : c.rest = sign ++ (digits ++ after)) (hlen : digits.length ≤ maxLimitDigits)
    (hclose : (c.advance (sign ++ digits).length).Closes filtering) :
    ∃ draft, Draft.read t = .ok draft ∧
      draft.contents = { s with limit := some (positional sign digits), filtering } := by
  obtain ⟨d, e, f, hhead, hclauses, hf, rfl⟩ := h
  have hafter : after.head?.any isDigit = false := by
    have hdrop : (f.skip.advance (sign ++ digits).length).rest = after := by
      rw [advance, hrest, ← List.append_assoc, List.drop_left]
    exact hdrop ▸ hclose.not_digit
  have hdigits : LimitDigitsStand (sign ++ digits) e (f.skip.advance (sign ++ digits).length) :=
    ⟨f, hf, hint.token? hrest hafter⟩
  obtain ⟨g, i, semicolon, hfilt, hsemi, hend⟩ := hclose
  refine Draft.read_of_stands (s := { s with limit := some (positional sign digits), filtering })
    hhead hclauses ⟨_, g, i, semicolon, ⟨_, hint.intValue_append, hdigits⟩, hfilt, hsemi, hend⟩ ?_
  intro other j hother
  have hsame := (Draft.readLimitDigits?_eq_some_iff.2 hother).symm.trans
    (Draft.readLimitDigits?_eq_some_iff.2 hdigits)
  cases hsame
  rwa [hint.length_sub_signLength]

namespace Select

theorem render_limit {s : Select} {z : Int} (h : s.limit = some z) :
    render s = render { s with limit := none, filtering := false } ++ " LIMIT ".toList ++
      ofInt z ++ filteringClause s := by
  have hlimit : limitClause s = " LIMIT ".toList ++ ofInt z := by rw [limitClause, h]
  have hfront : render { s with limit := none, filtering := false } =
      "SELECT ".toList ++ flags s ++ renderColumns s.columns ++ " FROM ".toList ++ s.table.render ++
        whereClause s ++ orderClause s ++ [] ++ [] := rfl
  have hrender : render s = "SELECT ".toList ++ flags s ++ renderColumns s.columns ++
      " FROM ".toList ++ s.table.render ++ whereClause s ++ orderClause s ++ limitClause s ++
      filteringClause s := rfl
  rw [hrender, hfront, hlimit]
  simp only [List.append_nil, List.append_assoc]

/-- A text is refused for its limit exactly if a statement in it reaches a limit with more than 4300
digits, whatever comes after them and whatever its names are. With at most 4300 digits and the end
of the statement after them, and names that are identifiers, the text is parsed; the limit has the
value of the digits, and is written as a numeral that is read as the same value again. -/
theorem parse_limit (t : Text) :
    (parse t = .error .limitTooLong ↔
      ∃ (s : Statement Text) (c : Cursor) (sign digits after : Text), s.LimitAt t c ∧
        IsInteger sign digits ∧ c.rest = sign ++ (digits ++ after) ∧ 4300 < digits.length) ∧
    ∀ (s : Statement Text) (c : Cursor) (sign digits after : Text) (filtering : Bool),
      s.LimitAt t c → IsInteger sign digits → c.rest = sign ++ (digits ++ after) →
      digits.length ≤ 4300 → (c.advance (sign ++ digits).length).Closes filtering →
      (∀ n ∈ s.identifiers, Identifier.fault? n = none) →
      ∃ (r : Select) (numeral : Text), parse t = .ok r ∧
        r.map Identifier.text = { s with limit := some (positional sign digits), filtering } ∧
        render r = render { r with limit := none, filtering := false } ++ " LIMIT ".toList ++
          numeral ++ filteringClause r ∧
        IsNumeral numeral (positional sign digits) ∧
        ∃ r' : Select, parse (render r) = .ok r' ∧ r'.limit = some (positional sign digits) := by
  refine ⟨parse_eq_limitTooLong_iff.trans limitTooLong_iff, ?_⟩
  intro s c sign digits after filtering hlimit hint hrest hlen hclose hnames
  obtain ⟨draft, hread, hcontents⟩ := hlimit.read hint hrest hlen hclose
  let written : Statement Text := { s with limit := some (positional sign digits), filtering }
  let r : Select := written.map Identifier.mk
  have hr : r.map Identifier.text =
      { s with limit := some (positional sign digits), filtering } :=
    (Statement.map_map _ _ _).trans (Statement.map_id _)
  have hparse : parse t = .ok r :=
    parse_eq_ok_iff.2 ⟨draft, hread,
      Draft.check_eq_ok_iff.2 ⟨by rw [hcontents], hcontents ▸ hnames⟩⟩
  have hagain : parse (render r) = .ok r := (wellFormed_of_parse hparse).parse_eq
  exact ⟨r, ofInt (positional sign digits), hparse, hr, render_limit rfl, isNumeral_ofInt _, r,
    hagain, rfl⟩

/-- Digits of two scripts, a zero before them and a sign. -/
theorem parse_limit_of_scripts : ∃ (r : Select) (numeral : Text),
    parse "select * from t limit -0٧7 allow filtering;".toList = .ok r ∧ r.limit = some (-77) ∧
      IsNumeral numeral (-77) ∧ render r = "SELECT * FROM t LIMIT ".toList ++ numeral ++
        " ALLOW FILTERING".toList := by
  let limit : Cursor := ⟨22, some ' ', "-0٧7 allow filtering;".toList⟩
  have hlimit : Statement.LimitAt { columns := [.star], table := ⟨"t".toList, none⟩ }
      "select * from t limit -0٧7 allow filtering;".toList limit := by
    let flags : Cursor := ⟨6, some 't', " * from t limit -0٧7 allow filtering;".toList⟩
    let table : Cursor := ⟨15, some 't', " limit -0٧7 allow filtering;".toList⟩
    refine ⟨table, table, ⟨21, some 't', " -0٧7 allow filtering;".toList⟩, ?_, ⟨table, rfl, rfl⟩,
      by decide +kernel, by decide +kernel⟩
    exact ⟨flags, flags, flags, ⟨8, some '*', " from t limit -0٧7 allow filtering;".toList⟩,
      ⟨13, some 'm', " t limit -0٧7 allow filtering;".toList⟩, by decide +kernel, rfl, rfl,
      .inl ⟨rfl, by decide +kernel⟩, by decide +kernel, _, rfl, .inr (by decide +kernel)⟩
  have hint : IsInteger ['-'] "0٧7".toList :=
    ⟨.inr (.inr rfl), by decide, List.all_eq_true.1 (by decide +kernel)⟩
  have hclose : (limit.advance (['-'] ++ "0٧7".toList).length).Closes true :=
    ⟨⟨42, some 'g', ";".toList⟩, ⟨43, some ';', []⟩, true, by unfold FlagStands; decide +kernel,
      by unfold FlagStands; decide +kernel, by decide +kernel⟩
  have hread := (parse_limit "select * from t limit -0٧7 allow filtering;".toList).2 _ limit ['-']
    "0٧7".toList " allow filtering;".toList true hlimit hint
  have hvalue : positional ['-'] "0٧7".toList = -77 := by decide +kernel
  rw [hvalue] at hread
  obtain ⟨r, numeral, hparse, -, hrender, hnumeral, -⟩ :=
    hread (by decide +kernel) (by decide +kernel) hclose (by decide +kernel)
  have hstatement : parse "select * from t limit -0٧7 allow filtering;".toList = .ok
      { columns := [.star], table := ⟨⟨"t".toList⟩, none⟩, limit := some (-77),
        filtering := true } := by
    decide +kernel
  cases hparse.symm.trans hstatement
  exact ⟨_, numeral, hstatement, rfl, hnumeral, hrender⟩

end Select

end CqlCanon
