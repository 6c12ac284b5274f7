import CqlCanon.Proofs.Fault.Call

/-!
# Where a text breaks off

A text that is no statement has a fault at a position up to which it can be gone
on with. Of the optional clauses one that cannot be read is passed over, so the
fault is where it starts, and the text before it is a statement.
-/

namespace CqlCanon

open Cursor Lexeme

/-! ## Key words after other tokens -/

namespace Text

theorem exists_of_upper_take {t w : Text} {n : Nat} (h : upper (t.take n) = w) (hw : w ≠ []) :
    ∃ z u v, t = z :: u ∧ upperChar z ++ v = w := by
  cases t with
  | nil => exact absurd (by simpa using h.symm) hw
  | cons z u =>
    cases n with
    | zero => exact absurd (by simpa using h.symm) hw
    | succ n => exact ⟨z, u, _, rfl, by rw [← h, List.take_succ_cons, upper_cons]⟩

theorem isNameChar_of_from {z : Char} {v : Text} (h : upperChar z ++ v = "FROM".toList) :
    isNameChar z = true := by
  rcases upperChar_cases z with hz | hz
  · rw [hz] at h
    have hup : z.toUpper = 'F' := (List.cons.inj h).1
    by_cases hwide : z.toNat < 128
    · have := ascii_forall (p := fun z => z.toUpper ≠ 'F' || isNameChar z) (by decide +kernel) hwide
      simpa [hup] using this
    · rw [toUpper_of_wide (Nat.le_of_not_lt hwide)] at hup
      rw [hup]
      decide
  · simp only [List.mem_cons, List.not_mem_nil, or_false] at hz
    rcases hz with rfl | rfl | rfl | rfl | rfl | rfl | rfl | rfl | rfl | rfl <;>
      simp [upperChar] at h

end Text

namespace Cursor

variable {c d : Cursor} {k : Token} {t : Text}

theorem fresh_before_from (h : c.token? k = some (t, d)) (hk : k ∈ Selector.lastKinds)
    (hw : Text.upper (d.skip.rest.take "FROM".toList.length) = "FROM".toList) : d.skip.Fresh := by
  obtain ⟨z, u, v, hz, hzv⟩ := Text.exists_of_upper_take hw (by decide)
  refine fresh_skip (fun hzero => ?_) (by simp [next, hz])
  simp only [Selector.lastKinds, List.mem_cons, List.not_mem_nil, or_false] at hk
  rcases hk with rfl | rfl | rfl | rfl
  · exact fresh_of_symbol? (symbol?_of_token? h) (by decide)
  · exact fresh_of_symbol? (symbol?_of_token? h) (by decide)
  · have hhead := (token?_word (word_of_plainName h)).2.2.2.2
    rw [skip_of_layoutLength hzero] at hz
    rw [hz, List.head?_cons, Option.any_some, Text.isNameChar_of_from hzv] at hhead
    cases hhead
  · rw [Fresh, before_of_quoted (.inl rfl) h]
    decide

end Cursor

theorem Selector.exact_of_mem_lastKinds {k : Token} (h : k ∈ lastKinds) : k.Exact := by
  simp only [lastKinds, List.mem_cons, List.not_mem_nil, or_false] at h
  rcases h with rfl | rfl | rfl | rfl <;> exact Token.exact_of_ne (by simp)

namespace Draft

variable {x : Text} {p : Nat} {c d : Cursor}

/-! ## Up to the table -/

theorem viable_without_select (h : (start x).keyword? "SELECT" = none) (hx : '\t' ∉ x) :
    x.ViableTo ((start x).keywordFault "SELECT") := by
  have hs := Statement.spelled_head (.inl ⟨rfl, rfl⟩) false false ⟨"t".toList, none⟩
  refine Text.viable_keywordFault .columns .statement (l := []) hs rfl hx (.inr nofun) h fun hw => ?_
  obtain ⟨z, u, -, hz, -⟩ := Text.exists_of_upper_take hw (by decide)
  exact Fresh.skip (c := start x) rfl (by simp [next, hz])

theorem flags_eq_of_missing {place : Cursor → Nat}
    (h : Selector.readAll? place ((c.flag readDistinct?).2.flag readJson?).2 = none) :
    ((c.flag readDistinct?).2.flag readJson?).2 = c := by
  have missing : ∀ {d : Cursor}, Selector.readAll? place d = none → selectorsFollow d ≠ true := by
    intro d hd hfollow
    obtain ⟨ss, e, f, hs, hf⟩ := selectorsFollow_iff.1 hfollow
    obtain ⟨ls, hls, -⟩ := Selector.readAll?_complete place hs hf
    rw [hd] at hls
    cases hls
  cases hj : readJson? (c.flag readDistinct?).2 with
  | some e =>
    rw [Cursor.flag, hj] at h
    exact absurd (readJson?_eq_some_iff.1 hj).2 (missing h)
  | none =>
    rw [Cursor.flag, hj] at h ⊢
    cases hd : readDistinct? c with
    | none => rw [Cursor.flag, hd]
    | some d =>
      rw [Cursor.flag, hd] at hj h
      rcases (readDistinct?_eq_some_iff.1 hd).2 with hjson | hfollow
      · rw [hj] at hjson
        cases hjson
      · exact absurd hfollow (missing h)

theorem viable_without_selectors {json : Bool} (h : (start x).keyword? "SELECT" = some c)
    (hs : expectSelectors json ((c.flag readDistinct?).2.flag readJson?).2 = .error (.unexpected p))
    (hx : '\t' ∉ x) : x.ViableTo p := by
  obtain ⟨hnone, hp⟩ := expectSelectors_error hs
  rw [flags_eq_of_missing hnone] at hp
  cases hp
  exact Text.viable_call h hx

section Missing

variable {columns : List (Selector Text)} {l : List Lexeme} {distinct json : Bool}

theorem viable_without_from (hl : Selector.AllSpelled columns l)
    (h : (start x).Passes (Statement.lead distinct json ++ l) d)
    (hfrom : expectKeyword "FROM" d = .error (.unexpected p)) (hx : '\t' ∉ x) : x.ViableTo p := by
  obtain ⟨hnone, ⟨⟩⟩ := expectKeyword_error hfrom
  have hs := Statement.spelled_head hl distinct json ⟨"t".toList, none⟩
  rw [← List.append_assoc] at hs
  have hends := hl.endsIn
  refine Text.viable_keywordFault .table .source hs h hx (.inr ?_) hnone ?_
  · exact ((hends.append _).mono fun _ => Selector.exact_of_mem_lastKinds).getLast?
  · obtain ⟨m, y, rfl, hy⟩ := hends
    rw [← List.append_assoc] at h
    obtain ⟨e, -, t, f, ht, -, rfl⟩ := passes_append.1 h
    exact fresh_before_from ht hy

theorem viable_without_table (hl : Selector.AllSpelled columns l)
    (h : (start x).Passes (Statement.lead distinct json ++ (l ++ [keyword "FROM"])) d)
    (htable : expectTable d = .error (.unexpected p)) (hx : '\t' ∉ x) : x.ViableTo p := by
  obtain ⟨-, ⟨⟩⟩ := expectTable_error htable
  unfold TableName.faultAt Cursor.optional
  have hs := fun keyspace => Statement.spelled_head hl distinct json ⟨"t".toList, keyspace⟩
  split
  · rename_i k e hk
    obtain ⟨f, hf, he⟩ := TableName.readKeyspace?_sound hk
    have hall := passes_append.2 ⟨d, h, passes_cons.2 ⟨f, passes_name.2 hf, passes_symbol.2 he⟩⟩
    have hs := hs (some k.text)
    rw [TableName.lexemes] at hs
    refine Text.Completes.table.viable (.of_spelled (by simpa using hs)) hall hx (.inr ?_)
    exact (EndsIn.append _ (.cons _ (.single (Token.exact_of_ne (k := .symbol '.') nofun)))).getLast?
  · have hs := hs none
    rw [TableName.lexemes] at hs
    refine Text.Completes.table.viable (.of_spelled (by simpa using hs)) h hx (.inr ?_)
    exact (EndsIn.append _ (.append _ (.single (Token.exact_keyword (by decide +kernel))))).getLast?

end Missing

theorem viable_of_readHead (h : readHead (start x) = .error (.unexpected p)) (hx : '\t' ∉ x) :
    x.ViableTo p := by
  rcases Except.bind_eq_error_iff.1 h with h | ⟨c₁, h₁, h⟩
  · obtain ⟨hnone, ⟨⟩⟩ := expectKeyword_error h
    exact viable_without_select hnone hx
  have h₁ := expectKeyword_eq_ok_iff.1 h₁
  rcases Except.bind_eq_error_iff.1 h with h | ⟨⟨ss, c₄⟩, h₄, h⟩
  · exact viable_without_selectors h₁ h hx
  have h₄ := Selector.readAll?_sound (expectSelectors_eq_ok_iff.1 h₄)
  have h₂ := passes_flag.2 (flagStands_of_flag c₁ fun _ h => (readDistinct?_eq_some_iff.1 h).1)
  have h₃ := passes_flag.2 (flagStands_of_flag (c₁.flag readDistinct?).2
    fun _ h => (readJson?_eq_some_iff.1 h).1)
  have hlead := passes_cons.2 ⟨c₁, passes_keyword.2 h₁, passes_append.2 ⟨_, h₂, h₃⟩⟩
  obtain ⟨l, hl, h₄⟩ := h₄.passes (Clean.passes (c := start x) hx hlead)
  rcases Except.bind_eq_error_iff.1 h with h | ⟨c₅, h₅, h⟩
  · exact viable_without_from hl (passes_append.2 ⟨_, hlead, h₄⟩) h hx
  have h₅ := passes_keyword.2 (expectKeyword_eq_ok_iff.1 h₅)
  rcases Except.bind_eq_error_iff.1 h with h | ⟨⟨t, d⟩, -, h⟩
  · exact viable_without_table hl (passes_append.2 ⟨_, hlead, passes_append.2 ⟨c₄, h₄, h₅⟩⟩) h hx
  · cases h

/-! ## After the table -/

/-- What is left after a statement can be taken away. -/
theorem viable_of_readTail {head : Draft} (hhead : readHead (start x) = .ok (head, c))
    (h : readTail head c = .error (.unexpected p)) (hx : '\t' ∉ x) : x.ViableTo p := by
  rcases Except.bind_eq_error_iff.1 h with h | ⟨⟨limit, d⟩, hlimit, h⟩
  · cases (readLimit_error h).1
  rcases Except.bind_eq_error_iff.1 h with h | ⟨⟨⟩, -, h⟩
  · obtain ⟨hend, ⟨⟩⟩ := expectEnd_error h
    let s : Statement Text := { head.contents with
      relations := ((c.optional Relation.readAll?).1.getD []).map (Relation.map Located.text)
      order := ((c.optional Relation.readAll?).2.optional OrderKey.readAll?).1.map
        (List.map (OrderKey.map Located.text))
      limit := limit
      filtering := (d.flag readFiltering?).1 }
    have hstands : s.HeadStands (start x) c := readHead_sound hhead
    obtain ⟨l, hl, hp⟩ := hstands.passes hx
    have hc := hx |> Clean.passes (c := start x) (h := hp)
    obtain ⟨m, hm, hq⟩ := (clauses_sound (s := s) c rfl rfl).passes hc
    obtain ⟨n, hn, hr⟩ := Statement.rest_passes (s := s) (readLimit_sound hlimit)
      (flag_sound readFiltering? d) (flag_sound (symbol? ';') _) (readLimit_bound hlimit)
    have hs : s.Spelled ((l ++ (m ++ n)) ++ []) := ⟨l, m, n, hl, hm, hn, List.append_nil _⟩
    have hall := passes_append.2 ⟨c, hp, passes_append.2 ⟨_, hq, hr⟩⟩
    refine Text.Completes.nil.viable (.of_spelled hs) hall hx (.inl fun hnil => hend ?_)
    simp [skip, advance, hnil]
  · cases h

/-- A text without tabs that is no statement can be gone on with up to its fault. -/
theorem viable_of_unexpected (h : read x = .error (.unexpected p)) (hx : '\t' ∉ x) :
    x.ViableTo p := by
  rw [read, Text.expandTabs_eq_self hx] at h
  rcases Except.bind_eq_error_iff.1 h with h | ⟨⟨head, c⟩, hhead, h⟩
  · exact viable_of_readHead h hx
  · exact viable_of_readTail hhead h hx

end Draft

end CqlCanon
