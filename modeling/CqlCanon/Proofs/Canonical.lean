import CqlCanon.Proofs.Grammar.Statement
import CqlCanon.Proofs.Written.WellFormed
import Mathlib.Data.List.Basic

/-!
# What is read is canonical

The tokens of what stands in a text are whole, and a text without tabs has none
in its tokens. A plain name could only be reserved where a word touches it, and
that is not so right after a parenthesis, a comma or layout.
-/

namespace CqlCanon

open Cursor

/-! ## The end of layout -/

mutual

theorem isBlank_of_layout : (t : Text) → t.drop (layoutLength t) ≠ [] →
    ∀ x, (t.take (layoutLength t)).getLast? = some x → isBlank x = true
  | [], h, _, _ => absurd rfl h
  | c :: t, h, x, hx => by
    rw [layoutLength] at h hx
    split at h
    · rename_i hc
      simp only [hc, if_true, List.drop_succ_cons, List.take_succ_cons, List.getLast?_cons,
        Option.some.injEq] at h hx
      cases hl : (t.take (layoutLength t)).getLast? with
      | none =>
        rw [hl] at hx
        exact hx ▸ hc
      | some y =>
        rw [hl] at hx
        exact hx ▸ isBlank_of_layout t h y hl
    · split at h
      · rename_i hb hc
        simp only [hb, hc, Bool.false_eq_true, if_false, if_true, List.drop_succ_cons,
          List.take_succ_cons, List.getLast?_cons, Option.some.injEq] at h hx
        obtain ⟨y, hy, hblank⟩ := isBlank_of_comment t h
        rw [hy] at hx
        exact hx ▸ hblank
      · rename_i hb hc
        simp [hb, hc] at hx

theorem isBlank_of_comment : (t : Text) → t.drop (commentLength t) ≠ [] →
    ∃ x, (t.take (commentLength t)).getLast? = some x ∧ isBlank x = true
  | [], h => absurd rfl h
  | c :: t, h => by
    rw [commentLength] at h ⊢
    split at h
    · rename_i hc
      simp only [hc, if_true, List.take_succ_cons, List.getLast?_cons]
      refine ⟨_, rfl, ?_⟩
      cases hl : (t.take (layoutLength t)).getLast? with
      | none => decide
      | some y => exact isBlank_of_layout t h y hl
    · rename_i hc
      obtain ⟨y, hy, hblank⟩ := isBlank_of_comment t h
      simp only [hc, if_false, List.take_succ_cons, List.getLast?_cons, hy]
      exact ⟨y, rfl, hblank⟩

end

namespace Cursor

/-- No word ends right before the cursor. -/
def Fresh (c : Cursor) : Prop := c.before.any Text.isKeywordChar = false

/-- No word goes on across the cursor. -/
def Parted (c : Cursor) : Prop :=
  c.before.any Text.isKeywordChar = false ∨ c.rest.head?.any Text.isKeywordChar = false

/-- No tab is left. -/
def Clean (c : Cursor) : Prop := '\t' ∉ c.rest

variable {c d : Cursor} {t : Text}

/-- No word ends where layout does, nor where there is none and no word ends before it. -/
theorem fresh_skip (h : layoutLength c.rest = 0 → c.Fresh) (hn : c.next ≠ none) :
    c.skip.Fresh := by
  have hdrop : c.rest.drop (layoutLength c.rest) ≠ [] := by
    intro e
    exact hn (by simp [next, Cursor.skip, advance, e])
  cases hl : (c.rest.take (layoutLength c.rest)).getLast? with
  | none =>
    rw [List.getLast?_eq_none_iff, List.take_eq_nil_iff] at hl
    have hzero : layoutLength c.rest = 0 := by
      rcases hl with hl | hl
      · exact hl
      · rw [hl, layoutLength]
    rw [skip_of_layoutLength hzero]
    exact h hzero
  | some x =>
    have hkey : Text.isKeywordChar x = false := by
      rcases eq_of_isBlank (isBlank_of_layout c.rest hdrop x hl) with rfl | rfl | rfl | rfl <;> decide
    rw [Fresh, Cursor.skip, advance, hl]
    exact hkey

theorem Fresh.skip (h : c.Fresh) (hn : c.next ≠ none) : c.skip.Fresh := fresh_skip (fun _ => h) hn

theorem fresh_of_symbol? {s : Char} (h : c.symbol? s = some d)
    (hs : Text.isKeywordChar s = false) : d.Fresh := by
  obtain ⟨u, hu, rfl⟩ := exists_of_symbol? h
  simpa [Fresh, advance, hu] using hs

theorem parted_of_not_stuck (h : ¬ c.Stuck) : c.Parted := by
  cases hb : c.before.any Text.isKeywordChar with
  | false => exact .inl hb
  | true =>
    right
    cases hr : c.rest.head? with
    | none => rfl
    | some x =>
      cases hx : Text.isKeywordChar x with
      | false => exact hx
      | true => exact absurd ⟨hb, by simp [hr, Text.isWordLike_of_isKeywordChar hx]⟩ h

theorem Parted.head (h : c.Parted) (hb : c.before.any Text.isKeywordChar = true) :
    c.rest.head?.any Text.isKeywordChar = false :=
  h.resolve_left fun hb' => by
    rw [hb] at hb'
    cases hb'

theorem Clean.token? {k : Token} (h : c.Clean) (ht : c.token? k = some (t, d)) :
    d.Clean ∧ '\t' ∉ t := by
  obtain ⟨n, -, rfl, rfl⟩ := token?_eq_some_iff.1 ht
  have hskip : '\t' ∉ c.skip.rest := fun hm => h (List.mem_of_mem_drop hm)
  exact ⟨fun hm => hskip (List.mem_of_mem_drop hm), fun hm => hskip (List.mem_of_mem_take hm)⟩

theorem Clean.keyword? {w : String} (h : c.Clean) (hd : c.keyword? w = some d) : d.Clean := by
  obtain ⟨u, hu⟩ := token?_of_pass? hd
  exact (h.token? hu).1

theorem Clean.symbol? {s : Char} (h : c.Clean) (hd : c.symbol? s = some d) : d.Clean := by
  obtain ⟨u, hu⟩ := token?_of_pass? hd
  exact (h.token? hu).1

theorem whole_of_token? {k : Token} (hk : k.Plain) (h : c.token? k = some (t, d)) :
    k.Whole t := by
  obtain ⟨n, hn, rfl, -⟩ := token?_eq_some_iff.1 h
  exact .of_length? hk hn

end Cursor

/-! ## Names -/

theorem Text.StandsAsName.form {t : Text} {c d : Cursor} (h : t.StandsAsName c d) :
    (Token.quoted '"').Whole t ∨ Identifier.isNameForm t = true := by
  rcases h with h | h
  · exact .inl (whole_of_token? (.inl rfl) h)
  · exact .inr (Token.whole_word_iff.1 (whole_of_token? trivial (word_of_plainName h)))

theorem Text.StandsAsName.next_ne_none {t : Text} {c d : Cursor} (h : t.StandsAsName c d) :
    c.next ≠ none := by
  obtain ⟨x, hx, -⟩ := h.next
  simp [hx]

theorem Text.StandsAsName.clean {t : Text} {c d : Cursor} (h : t.StandsAsName c d) (hc : c.Clean) :
    d.Clean ∧ '\t' ∉ t := by
  rcases h with h | h
  · exact hc.token? h
  · exact hc.token? h

theorem Text.StandsAsName.isNameToken {t : Text} {c d : Cursor} (h : t.StandsAsName c d)
    (hc : c.skip.Fresh) (hd : d.Parted) : t.IsNameToken := by
  rcases h with h | h
  · exact .inl (whole_of_token? (.inl rfl) h)
  have hform := Token.whole_word_iff.1 (whole_of_token? trivial (word_of_plainName h))
  obtain ⟨hrest, -, hname, hbefore, -⟩ := token?_word (word_of_plainName h)
  refine .inr ⟨hform, ?_⟩
  cases hres : isReserved t with
  | false => rfl
  | true =>
    have hlen := length_upper hname
    have hk : c.keyword? (String.ofList (upper t)) = some (c.skip.advance (upper t).length) := by
      refine keyword?_eq_some_iff.2 ⟨?_, hc, ?_, ?_⟩
      · rw [String.toList_ofList, hlen, hrest, List.take_left]
      · rw [String.toList_ofList, hlen, hrest, List.drop_left]
        exact hd.head hbefore
      · rw [String.toList_ofList]
    have hw : (String.ofList (upper t)).toList ∈ reservedWords := by
      rw [String.toList_ofList]
      simpa [isReserved] using hres
    rw [plainName_of_keyword? hk hw] at h
    cases h

theorem Text.StandsAsName.isName {t : Text} {c d : Cursor} (h : t.StandsAsName c d) (hc : c.Clean)
    (hf : Identifier.fault? t = none) : t.IsName := by
  have hcall : (Identifier.mk t).functionCall = false := by
    rcases h.form with h | h
    · obtain ⟨hx, -⟩ := Token.quotedLength?_eq_some_iff.1 h
      simp [Identifier.functionCall, Identifier.quoted, hx]
    · cases hl : t.getLast? with
      | none => simp [Identifier.functionCall, hl]
      | some y =>
        have hy := isNameChar_of_nameForm h y (List.mem_of_getLast? hl)
        have : y ≠ ')' := by
          rintro rfl
          exact absurd hy (by decide)
        simp [Identifier.functionCall, hl, this]
  refine ⟨Identifier.nameFault?_eq_none_iff.2 ⟨hf, hcall⟩, (h.clean hc).2, ?_⟩
  rcases h.form with h | h
  · obtain ⟨u, rfl, hu⟩ := h.quoted_cons
    have := line_not_mem_of_closingLength? hu (by decide)
    rw [List.take_length] at this
    simpa using this
  · constructor
    · exact fun hn => absurd (isNameChar_of_nameForm h _ hn) (by decide)
    · exact fun hn => absurd (isNameChar_of_nameForm h _ hn) (by decide)

/-! ## Lists -/

namespace Cursor

section Lists

variable {α : Type} {separator : Cursor → Option Cursor} {stands : α → Cursor → Cursor → Prop}
  {P : α → Prop} {A B F : Cursor → Prop}

/-- What holds of each item holds of all but the last one, whatever follows that. Before each item
`B` holds, after it `A`, and `F` of what may follow it. -/
theorem MoreStand.forall_init (hsep : ∀ c d, separator c = some d → F c ∧ (A c → B d))
    {as : List α} {b : α} (hitem : ∀ a ∈ as, ∀ c d, stands a c d → B c → F d → P a ∧ A d)
    {c d : Cursor} (h : MoreStand separator stands (as ++ [b]) c d) (hc : A c) :
    (∀ a ∈ as, P a) ∧ ∃ e, B e ∧ stands b e d := by
  induction as generalizing c with
  | nil =>
    obtain ⟨e, f, he, hb, rfl⟩ := h
    exact ⟨List.forall_mem_nil _, e, (hsep c e he).2 hc, hb⟩
  | cons a as ih =>
    obtain ⟨e, f, he, ha, hf⟩ := h
    have hfollow : F f := hf.start_of_ne (fun i j hj => (hsep i j hj).1) (by simp)
    obtain ⟨hp, hafter⟩ := hitem a (by simp) e f ha ((hsep c e he).2 hc) hfollow
    obtain ⟨hps, hlast⟩ := ih (fun b hb => hitem b (by simp [hb])) hf hafter
    exact ⟨List.forall_mem_cons.2 ⟨hp, hps⟩, hlast⟩

theorem SequenceStands.forall_init (hsep : ∀ c d, separator c = some d → F c ∧ (A c → B d))
    {as : List α} {b : α} (hitem : ∀ a ∈ as, ∀ c d, stands a c d → B c → F d → P a ∧ A d)
    {c d : Cursor} (h : SequenceStands separator stands (as ++ [b]) c d) (hc : B c) :
    (∀ a ∈ as, P a) ∧ ∃ e, B e ∧ stands b e d := by
  cases as with
  | nil =>
    obtain ⟨e, hb, rfl⟩ := h
    exact ⟨List.forall_mem_nil _, c, hc, hb⟩
  | cons a as =>
    obtain ⟨e, ha, hmore⟩ := h
    have hfollow : F e := hmore.start_of_ne (fun i j hj => (hsep i j hj).1) (by simp)
    obtain ⟨hp, hafter⟩ := hitem a (by simp) c e ha hc hfollow
    obtain ⟨hps, hlast⟩ := MoreStand.forall_init hsep (fun b hb => hitem b (by simp [hb])) hmore hafter
    exact ⟨List.forall_mem_cons.2 ⟨hp, hps⟩, hlast⟩

theorem SequenceStands.forall (hsep : ∀ c d, separator c = some d → F c ∧ (A c → B d))
    {as : List α} (hitem : ∀ a ∈ as, ∀ c d, stands a c d → B c → F d → P a ∧ A d)
    {c d : Cursor} (h : SequenceStands separator stands as c d) (hc : B c) (hd : F d) :
    (∀ a ∈ as, P a) ∧ A d := by
  rcases List.eq_nil_or_concat' as with rfl | ⟨as, b, rfl⟩
  · cases h
  · obtain ⟨hinit, e, he, hb⟩ := h.forall_init hsep (fun a ha => hitem a (by simp [ha])) hc
    obtain ⟨hp, hafter⟩ := hitem b (by simp) e d hb he hd
    exact ⟨List.forall_mem_append.2 ⟨hinit, List.forall_mem_singleton.2 hp⟩, hafter⟩

end Lists

end Cursor

/-! ## Terms and calls -/

theorem Term.Stands.canonical {t : Term} : ∀ {c d : Cursor}, t.Stands c d → c.Clean →
    t.Canonical ∧ d.Clean := by
  induction t using Term.induction with
  | number t =>
    intro c d h hc
    exact ⟨.number (whole_of_token? trivial h), (hc.token? h).1⟩
  | string t =>
    intro c d h hc
    exact ⟨.string (whole_of_token? (.inr rfl) h) (hc.token? h).2, (hc.token? h).1⟩
  | positional =>
    intro c d h hc
    exact ⟨.positional, hc.symbol? h⟩
  | bind t =>
    intro c d h hc
    exact ⟨.bind (whole_of_token? trivial h), (hc.token? h).1⟩
  | constant k =>
    intro c d h hc
    exact ⟨.constant k, hc.keyword? h⟩
  | list ts ih =>
    rintro c d ⟨e, f, he, hts, hf⟩ hc
    replace hc := hc.symbol? he
    have hall : (∀ t ∈ ts, t.Canonical) ∧ f.Clean := by
      cases ts with
      | nil =>
        cases hts
        exact ⟨(fun _ ht => nomatch ht), hc⟩
      | cons t ts =>
        have hs : SequenceStands (symbol? ',') Stands (t :: ts) e f := allStand_iff.1 hts
        refine SequenceStands.forall (A := Clean) (B := Clean) (F := fun _ => True) ?_ ?_ hs hc trivial
        · exact fun i j hi => ⟨trivial, fun hc => hc.symbol? hi⟩
        · exact fun u hu i j hj hi _ => ih u hu hj hi
    exact ⟨.list hall.1, hall.2.symbol? hf⟩

theorem Argument.Ends.not_stuck {d : Cursor} (h : Argument.Ends d) : ¬ d.Stuck := by
  intro hs
  obtain ⟨x, hx, hw⟩ := hs.next
  rcases h with h | h <;>
  · rw [h] at hx
    cases hx
    exact absurd hw (by decide)

theorem Argument.Ends.parted {d : Cursor} (h : Argument.Ends d) : d.Parted :=
  parted_of_not_stuck h.not_stuck

theorem Text.StandsAsName.upper_ne {t : Text} {c d : Cursor} (h : t.StandsAsName c d)
    (hk : ∀ (k : Constant) (e : Cursor), ¬ k.Stands c e) (hfresh : c.Fresh)
    (hd : d.Parted) (k : Constant) : upper t ≠ k.word.toList := by
  intro hu
  obtain ⟨x, hx, -⟩ := h.next
  rcases h with h | h
  · have hq : (Token.quoted '"').Whole t := whole_of_token? (.inl rfl) h
    obtain ⟨u, rfl, -⟩ := hq.quoted_cons
    have hhead : (upper ('"' :: u)).head? = some '"' := by rw [upper_cons]; rfl
    rw [hu] at hhead
    cases k <;> exact absurd hhead (by decide)
  · obtain ⟨hrest, -, hname, hbefore, -⟩ := token?_word (word_of_plainName h)
    have hlen := length_upper hname
    rw [hu] at hlen
    refine hk k _ (keyword?_eq_some_iff.2 ⟨?_, hfresh.skip (by rw [hx]; simp), ?_, rfl⟩)
    · rw [hlen, hrest, List.take_left, hu]
    · rw [hlen, hrest, List.drop_left]
      exact hd.head hbefore

theorem Call.stands_canonical :
    (∀ (x : Call) {c d : Cursor}, x.Stands c d → c.Clean → x.Canonical ∧ d.Clean) ∧
    ∀ (a : Argument) {c d : Cursor}, a.Stands c d → c.Clean → c.Fresh → d.Parted →
      a.Canonical ∧ d.Clean := by
  apply Call.induction
  case star =>
    rintro f c d ⟨e, g, i, he, hg, hi, hd⟩ hc
    replace hc := (((hc.token? he).1.symbol? hg).symbol? hi).symbol? hd
    exact ⟨.star (Token.whole_word_iff.1 (whole_of_token? trivial he)), hc⟩
  case apply =>
    rintro f as ih c d ⟨e, g, i, he, hg, has, hd⟩ hc
    replace hc := (hc.token? he).1.symbol? hg
    have hfresh : g.Fresh := fresh_of_symbol? hg (by decide)
    have hends : Argument.Ends i := .inr (next_of_symbol? hd)
    have hall : (∀ a ∈ as, a.Canonical) ∧ i.Clean := by
      cases as with
      | nil =>
        cases has
        exact ⟨List.forall_mem_nil _, hc⟩
      | cons a as =>
        have hs : SequenceStands (symbol? ',') Argument.Stands (a :: as) g i :=
          Argument.allStand_iff.1 has
        refine SequenceStands.forall (A := Clean) (B := fun c => c.Clean ∧ c.Fresh)
          (F := Argument.Ends) ?_ ?_ hs ⟨hc, hfresh⟩ hends
        · exact fun i j hi => ⟨.inl (next_of_symbol? hi),
            fun hc => ⟨hc.symbol? hi, fresh_of_symbol? hi (by decide)⟩⟩
        · exact fun b hb i j hj hi hk => ih b hb hj hi.1 hi.2 hk.parted
    exact ⟨.apply (Token.whole_word_iff.1 (whole_of_token? trivial he)) hall.1, hall.2.symbol? hd⟩
  case call =>
    intro x ih c d h hc _ _
    obtain ⟨hx, hd⟩ := ih h hc
    exact ⟨.call hx, hd⟩
  case term =>
    intro t c d h hc _ _
    obtain ⟨ht, hd⟩ := Term.Stands.canonical h hc
    exact ⟨.term ht, hd⟩
  case name =>
    intro t c d h hc hfresh hd
    obtain ⟨hclean, htab⟩ := h.1.clean hc
    exact ⟨.name ⟨h.1.isNameToken (hfresh.skip h.1.next_ne_none) hd, htab, h.1.upper_ne h.2 hfresh hd⟩, hclean⟩

/-! ## The parts of a statement -/

theorem Named.optionAlias_clean {o : Option Text} {c d : Cursor}
    (h : OptionStands AliasStands o c d) (hc : c.Clean) : d.Clean := by
  cases o with
  | none => exact (show c = d from h) ▸ hc
  | some t =>
    obtain ⟨e, he, hd⟩ := h
    exact (hd.clean (hc.keyword? he)).1

theorem Named.optionAlias_isName {o : Option Identifier} {c d : Cursor}
    (h : OptionStands AliasStands (o.map Identifier.text) c d) (hc : c.Clean)
    (hf : ∀ i ∈ o.toList, Identifier.fault? i.text = none) : ∀ i ∈ o.toList, i.text.IsName := by
  cases o with
  | none => exact fun i hi => nomatch hi
  | some j =>
    obtain ⟨e, he, hd⟩ := h
    intro i hi
    obtain rfl := List.mem_singleton.1 hi
    exact hd.isName (hc.keyword? he) (hf i hi)

namespace Selector

theorem Stands.clean {s : Selector Text} {c d : Cursor} (h : s.Stands c d) (hc : c.Clean) :
    d.Clean := by
  cases s with
  | star => cases h
  | column n =>
    obtain ⟨e, he, ho⟩ := h
    exact Named.optionAlias_clean ho (he.clean hc).1
  | function n =>
    obtain ⟨x, e, -, he, ho⟩ := h
    exact Named.optionAlias_clean ho (Call.stands_canonical.1 x he hc).2

theorem Stands.wellFormed {x : Selector Identifier} {c d : Cursor}
    (h : (x.map Identifier.text).Stands c d) (hc : c.Clean)
    (hf : ∀ i ∈ x.identifiers, Identifier.fault? i.text = none) : x.WellFormed := by
  cases x with
  | star => cases h
  | column n =>
    obtain ⟨hlabel, hname⟩ := Named.forall_identifiers.1 hf
    obtain ⟨e, he, ho⟩ := h
    exact Named.forall_identifiers.2
      ⟨Named.optionAlias_isName ho (he.clean hc).1 hlabel, he.isName hc hname⟩
  | function n =>
    obtain ⟨hlabel, hfault⟩ := Named.forall_identifiers.1 hf
    obtain ⟨call, e, htext, he, ho⟩ := h
    obtain ⟨hcall, hclean⟩ := Call.stands_canonical.1 call he hc
    refine ⟨⟨call, hcall, ?_, htext⟩, Named.optionAlias_isName ho hclean hlabel⟩
    rw [← show call.render = n.name.text from htext, hcall.fault?] at hfault
    cases hres : isReservedFunction call.function with
    | false => rfl
    | true =>
      rw [hres] at hfault
      cases hfault

end Selector

theorem TableName.Stands.clean {t : TableName Text} {c d : Cursor} (h : t.Stands c d)
    (hc : c.Clean) : d.Clean := by
  obtain ⟨e, hk, hn⟩ := h
  refine (hn.clean ?_).1
  cases hks : t.keyspace with
  | none =>
    rw [hks] at hk
    exact (show c = e from hk) ▸ hc
  | some k =>
    rw [hks] at hk
    obtain ⟨f, hf, he⟩ := hk
    exact (hf.clean hc).1.symbol? he

theorem TableName.Stands.isName {t : TableName Identifier} {c d : Cursor}
    (h : (t.map Identifier.text).Stands c d) (hc : c.Clean)
    (hf : ∀ i ∈ t.identifiers, Identifier.fault? i.text = none) :
    ∀ i ∈ t.identifiers, i.text.IsName := by
  obtain ⟨name, keyspace⟩ := t
  obtain ⟨e, hk, hn⟩ := h
  obtain ⟨hkeyspace, hname⟩ := forall_identifiers.1 hf
  refine forall_identifiers.2 ?_
  cases keyspace with
  | none =>
    cases hk
    exact ⟨fun i hi => absurd hi List.not_mem_nil, hn.isName hc hname⟩
  | some k =>
    obtain ⟨f, hf', he⟩ := hk
    refine ⟨fun i hi => ?_, hn.isName ((hf'.clean hc).1.symbol? he) hname⟩
    obtain rfl := List.mem_singleton.1 hi
    exact hf'.isName hc (hkeyspace i hi)

namespace Relation

theorem operator_of_whole {t : Text} (h : Token.comparison.Whole t) : t ∈ operators := by
  simp only [Token.Whole, Token.length?] at h
  unfold comparisonLength? at h
  split at h <;> simp at h <;> subst h <;> decide

theorem OperatorStands.clean {t : Text} {c d : Cursor} (h : OperatorStands t c d)
    (hc : c.Clean) : t ∈ operators ∧ d.Clean := by
  rcases h with h | ⟨rfl, h⟩ | ⟨rfl, e, h, h'⟩ | ⟨rfl, h⟩ | ⟨rfl, h⟩
  · exact ⟨operator_of_whole (whole_of_token? trivial h), (hc.token? h).1⟩
  · exact ⟨by decide, hc.keyword? h⟩
  · exact ⟨by decide, (hc.keyword? h).keyword? h'⟩
  · exact ⟨by decide, hc.keyword? h⟩
  · exact ⟨by decide, hc.keyword? h⟩

theorem Stands.clean {r : Relation Text} {c d : Cursor} (h : r.Stands c d) (hc : c.Clean) :
    d.Clean := by
  obtain ⟨e, f, he, hf, v, -, hv⟩ := h
  exact (hv.canonical (hf.clean (he.clean hc).1).2).2

theorem Stands.wellFormed {r : Relation Identifier} {c d : Cursor}
    (h : (r.map Identifier.text).Stands c d) (hc : c.Clean)
    (hf : Identifier.fault? r.column.text = none) : r.WellFormed Text.IsName := by
  obtain ⟨e, f, he, hop, v, hvalue, hv⟩ := h
  obtain ⟨ho, hclean⟩ := hop.clean (he.clean hc).1
  exact ⟨he.isName hc hf, ho, v, (hv.canonical hclean).1, hvalue⟩

end Relation

namespace OrderKey

theorem Stands.clean {k : OrderKey Text} {c d : Cursor} (h : k.Stands c d) (hc : c.Clean) :
    d.Clean := by
  obtain ⟨e, he, hd⟩ := h
  replace hc := (he.clean hc).1
  cases hb : k.descending with
  | true =>
    rw [hb] at hd
    exact hc.keyword? (show e.keyword? "DESC" = some d from hd)
  | false =>
    rw [hb] at hd
    rcases hd with hd | rfl
    · exact hc.keyword? hd
    · exact hc

theorem Stands.isName {k : OrderKey Identifier} {c d : Cursor}
    (h : (k.map Identifier.text).Stands c d) (hc : c.Clean)
    (hf : Identifier.fault? k.column.text = none) : k.column.text.IsName := by
  obtain ⟨e, he, -⟩ := h
  exact he.isName hc hf

end OrderKey

/-! ## Lists of parts -/

section Lists

variable {α β : Type} {separator : Cursor → Option Cursor} {stands : β → Cursor → Cursor → Prop}
  {g : α → β} {P : α → Prop}

theorem Cursor.SequenceStands.forall_map
    (hsep : ∀ c d, separator c = some d → c.Clean → d.Clean)
    (hclean : ∀ b c d, stands b c d → c.Clean → d.Clean) {as : List α}
    (hitem : ∀ a ∈ as, ∀ c d, stands (g a) c d → c.Clean → P a) {c d : Cursor}
    (h : SequenceStands separator stands (as.map g) c d) (hc : c.Clean) :
    (∀ a ∈ as, P a) ∧ d.Clean := by
  have key := SequenceStands.forall (A := Clean) (B := Clean) (F := fun _ => True)
    (P := fun b => ∀ a ∈ as, g a = b → P a) (fun i j hi => ⟨trivial, hsep i j hi⟩)
    (fun b _ i j hj hi _ => ⟨fun a ha e => hitem a ha i j (e ▸ hj) hi, hclean b i j hj hi⟩)
    h hc trivial
  exact ⟨fun a ha => key.1 (g a) (List.mem_map_of_mem ha) a ha rfl, key.2⟩

end Lists

end CqlCanon
