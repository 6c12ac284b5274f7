import CqlCanon.Proofs.Embedded
import CqlCanon.Proofs.Scan

/-!
# Statements of accepted names

A check of names lets more pass than can be read: a quoted name with the end of
a line in it, for one. The canonical text of a statement with such a name does
not scan. Where it does scan, each name is read as one token and each part of
the text spells a part of the statement.
-/

namespace CqlCanon

open Cursor

/-! ## Accepted names -/

/-- A text that is accepted as a name and has no tabs. -/
structure Text.Accepted (t : Text) : Prop where
  accepted : Identifier.nameFault? t = none
  tab : '\t' ∉ t

/-- A text that is accepted as a call and has no tabs. -/
structure Text.AcceptedCall (t : Text) : Prop where
  accepted : Identifier.fault? t = none
  call : (Identifier.mk t).functionCall = true
  tab : '\t' ∉ t

instance (t : Text) : Decidable t.Accepted :=
  decidable_of_iff (Identifier.nameFault? t = none ∧ '\t' ∉ t)
    ⟨fun h => ⟨h.1, h.2⟩, fun h => ⟨h.accepted, h.tab⟩⟩

instance (t : Text) : Decidable t.AcceptedCall :=
  decidable_of_iff (Identifier.fault? t = none ∧ (Identifier.mk t).functionCall = true ∧ '\t' ∉ t)
    ⟨fun h => ⟨h.1, h.2.1, h.2.2⟩, fun h => ⟨h.accepted, h.call, h.tab⟩⟩

namespace Text

theorem head_of_function? {t f : Text} (h : Identifier.function? t = some f) :
    ∃ x u, t = x :: u ∧ isLetter x = true := by
  unfold Identifier.function? at h
  split at h
  · cases h
  · rename_i n hn
    obtain ⟨x, u, rfl, hx, -⟩ := nameLength?_eq_some_iff.1 hn
    exact ⟨x, u, rfl, hx⟩

theorem AcceptedCall.head {t : Text} (h : t.AcceptedCall) : ∃ x u, t = x :: u ∧ isLetter x = true := by
  have hf := h.accepted
  have hcall := h.call
  unfold Identifier.fault? at hf
  split at hf
  · rename_i hq
    cases t with
    | nil => cases hq
    | cons x u =>
      simp only [Identifier.isQuotedForm, Bool.and_eq_true, decide_eq_true_eq] at hq
      simp [Identifier.functionCall, Identifier.quoted, hq.1.1] at hcall
  · split at hf
    · rename_i hn
      exact nameForm_head hn
    · split at hf
      · rename_i f hfun
        exact head_of_function? hfun
      · split at hf <;> cases hf

theorem AcceptedCall.solid {t : Text} (h : t.AcceptedCall) (r : Text) :
    layoutLength (t ++ r) = 0 := by
  obtain ⟨x, u, rfl, hx⟩ := h.head
  exact layoutLength_of_inert (t := [x])
    (inert_of_isNameChar (by simpa using isNameChar_of_isLetter hx)) (by simp) (u ++ r)

/-! ## Names that scan -/

/-- A quoted name scans only as one token: where it could be closed earlier, the rest of it would
have to be quoted again. -/
theorem closes_of_scans {t r : Text} (h : Identifier.closesQuote t = true) (hr : r.head? ≠ some '"')
    {n : Nat} (hn : closingLength? '"' (t ++ r) = some n) (hs : scans ((t ++ r).drop n) = true) :
    ('\n' ∉ t ∧ '\r' ∉ t) ∧ scans r = true := by
  fun_induction Identifier.closesQuote t generalizing n with
  | case1 => cases h
  | case2 c =>
    obtain rfl : c = '"' := by simpa using h
    have : n = 1 := by
      cases r with
      | nil => simpa [closingLength?] using hn.symm
      | cons x r =>
        have hx : x ≠ '"' := fun e => hr (by rw [e]; rfl)
        simpa [closingLength?, hx] using hn.symm
    subst this
    exact ⟨by decide, hs⟩
  | case3 d t ih =>
    simp only [Bool.and_eq_true, decide_eq_true_eq] at h
    obtain ⟨rfl, ht⟩ := h
    simp only [List.cons_append, closingLength?, if_true] at hn
    cases hm : closingLength? '"' (t ++ r) with
    | none =>
      simp only [hm, Option.some.injEq] at hn
      subst hn
      obtain ⟨m, hm', -⟩ := (scans_quote (.inl rfl) (t ++ r)).1 hs
      rw [hm] at hm'
      cases hm'
    | some m =>
      simp only [hm, Option.some.injEq] at hn
      subst hn
      obtain ⟨hline, hrest⟩ := ih ht hm hs
      exact ⟨by simpa using hline, hrest⟩
  | case4 c d t hc ih =>
    simp only [List.cons_append, closingLength?, if_neg hc] at hn
    split at hn
    · cases hn
    · rename_i hline
      obtain ⟨m, hm, rfl⟩ := Option.map_eq_some_iff.1 hn
      obtain ⟨hd, hrest⟩ := ih h hm hs
      rw [not_or] at hline
      exact ⟨by simpa [Ne.symm hline.1, Ne.symm hline.2] using hd, hrest⟩

theorem Accepted.scans {t r : Text} (h : t.Accepted) (hr : r.head? ≠ some '"')
    (hs : Text.scans (t ++ r) = true) : t.IsNameToken ∧ Text.scans r = true := by
  rcases Identifier.form_of_nameFault? h.accepted with hq | hn
  · cases t with
    | nil => cases hq
    | cons c t =>
      have hform := hq
      simp only [Identifier.isQuotedForm, Bool.and_eq_true, decide_eq_true_eq] at hform
      obtain ⟨⟨rfl, hc⟩, -⟩ := hform
      obtain ⟨n, hn, hrest⟩ := (scans_quote (.inl rfl) (t ++ r)).1 hs
      obtain ⟨hline, hrest⟩ := closes_of_scans hc hr hn hrest
      exact ⟨nameToken_of_accepted h.accepted (by simpa using hline), hrest⟩
  · rw [scans_append_of_inert (inert_of_isNameChar (isNameChar_of_nameForm hn.1))] at hs
    exact ⟨.inr hn, hs⟩

/-! ## Parts that scan -/

/-- If the text scans together with what follows, the fact holds and what follows scans. -/
def Vouches (P : Prop) (t : Text) : Prop :=
  ∀ r : Text, r.Breaks → Text.scans (t ++ r) = true → P ∧ Text.scans r = true

theorem Accepted.vouches {t : Text} (h : t.Accepted) : Vouches t.IsNameToken t :=
  fun _ hr => h.scans (hr.head_ne (by decide))

theorem Vouches.imp {P Q : Prop} {t : Text} (h : Vouches P t) (hpq : P → Q) : Vouches Q t :=
  fun r hr hs => (h r hr hs).imp_left hpq

theorem vouches_nil : Vouches True [] := fun _ _ hs => ⟨trivial, hs⟩

/-- What spells a part scans as the part does. -/
theorem vouches_of_spells {stands : Cursor → Cursor → Prop} {t : Text} (h : Spells stands t)
    (hs : ∀ c d, stands c d → c.rest.scans = d.rest.scans) : Vouches True t := by
  intro r hr hscan
  have hat : (start (t ++ r)).At (t ++ r) := at_of_before rfl (h.solid r) rfl
  obtain ⟨d, hd, hrest⟩ := h.stands_at hat hr
  have := hs _ d hd
  rw [hrest] at this
  exact ⟨trivial, this.symm.trans hscan⟩

theorem scans_blank (t : Text) : scans (' ' :: t) = scans t := by
  rw [← scans_drop_layout (' ' :: t), ← scans_drop_layout t]
  simp [layoutLength, isBlank]

theorem scans_between {w : Text} (hw : inert w = true) (t : Text) :
    scans ((' ' :: w ++ [' ']) ++ t) = scans t := by
  have : (' ' :: w ++ [' ']) ++ t = ' ' :: (w ++ ' ' :: t) := by simp
  rw [this, scans_blank, scans_append_of_inert hw, scans_blank]

theorem Vouches.after {P : Prop} {t u : Text} (h : Vouches P t)
    (hu : ∀ r, scans (u ++ r) = true → scans r = true) : Vouches P (u ++ t) := by
  intro r hr hs
  rw [List.append_assoc] at hs
  exact h r hr (hu _ hs)

theorem Vouches.append {P Q : Prop} {t u : Text} (h : Vouches P t) (h' : Vouches Q u)
    (hu : ∀ r : Text, r.Breaks → Breaks (u ++ r)) : Vouches (P ∧ Q) (t ++ u) := by
  intro r hr hs
  rw [List.append_assoc] at hs
  obtain ⟨hp, hs⟩ := h _ (hu r hr) hs
  obtain ⟨hq, hs⟩ := h' r hr hs
  exact ⟨⟨hp, hq⟩, hs⟩

section Lists

variable {α : Type} {sep : Text} {f : α → Text} {P : α → Prop}

theorem vouches_flatMap (hsep : ∀ r, Breaks (sep ++ r)) {as : List α}
    (h : ∀ a ∈ as, Vouches (P a) (sep ++ f a)) :
    Vouches (∀ a ∈ as, P a) (as.flatMap fun a => sep ++ f a) := by
  induction as with
  | nil => exact vouches_nil.imp fun _ => List.forall_mem_nil _
  | cons a as ih =>
    exact ((h a (by simp)).append (ih fun b hb => h b (by simp [hb]))
      fun r hr => breaks_flatMap hsep f as hr).imp
      fun ⟨ha, has⟩ b hb => (List.mem_cons.1 hb).elim (fun e => e ▸ ha) (has b)

theorem vouches_intercalate (hsep : ∀ r, Breaks (sep ++ r)) {a : α} {as : List α} (ha : Vouches (P a) (f a))
    (h : ∀ b ∈ as, Vouches (P b) (sep ++ f b)) :
    Vouches (∀ b ∈ a :: as, P b) (List.intercalate sep ((a :: as).map f)) := by
  rw [intercalate_map_cons]
  exact (ha.append (vouches_flatMap hsep h) fun r hr => breaks_flatMap hsep f as hr).imp
    fun ⟨ha, has⟩ b hb => (List.mem_cons.1 hb).elim (fun e => e ▸ ha) (has b)

end Lists

end Text

open Text

/-! ## Selectors -/

/-- What a selector spells: a call is written as the canonical call that it reads as. -/
def Selector.written : Selector Identifier → Selector Text
  | star => star
  | column n => column (n.map Identifier.text)
  | function n => function
      ⟨((Call.ofText? n.name.text).map Call.render).getD n.name.text, n.alias?.map Identifier.text⟩

/-- A selector whose names are accepted. -/
def Selector.Accepted : Selector Identifier → Prop
  | star => True
  | column n => ∀ i ∈ n.identifiers, i.text.Accepted
  | function n => n.name.text.AcceptedCall ∧ ∀ i ∈ n.alias?.toList, i.text.Accepted

/-- A selector that is not a call, or whose text is one call and nothing else. -/
def Selector.HoldsCall : Selector Identifier → Prop
  | function n => (Call.ofText? n.name.text).isSome = true
  | _ => True

theorem Named.renderAlias_breaks (label : Option Identifier) {r : Text} (hr : r.Breaks) :
    Breaks (renderAlias label ++ r) := by
  cases label with
  | none => exact hr
  | some i => exact .cons (x := ' ') (by simp)

theorem Named.vouches_alias {label : Option Identifier}
    (h : ∀ i ∈ label.toList, i.text.Accepted) :
    Vouches (∀ i ∈ label.toList, i.text.IsNameToken) (renderAlias label) := by
  cases label with
  | none => exact vouches_nil.imp fun _ => List.forall_mem_nil _
  | some i =>
    have hi := (h i (by simp)).vouches
    have hsep : " AS ".toList = ' ' :: "AS".toList ++ [' '] := by simp
    have := hi.after (u := " AS ".toList) fun r hs => by
      rwa [hsep, scans_between (by decide)] at hs
    exact this.imp fun hi j hj => by
      obtain rfl := List.mem_singleton.1 hj
      exact hi

theorem Selector.vouches {x : Selector Identifier} (hstar : x ≠ .star) (h : x.Accepted)
    (hcall : x.HoldsCall) : Vouches (Spells x.written.Stands x.render) x.render := by
  cases x with
  | star => exact absurd rfl hstar
  | column n =>
    obtain ⟨hlabel, hname⟩ := Named.forall_identifiers.1 h
    have := hname.vouches.append (Named.vouches_alias hlabel) fun r hr => Named.renderAlias_breaks n.alias? hr
    rw [← Named.render_eq] at this
    exact this.imp fun hnames => column_spells (Named.forall_identifiers.2 hnames.symm)
  | function n =>
    obtain ⟨hname, hlabel⟩ := h
    obtain ⟨call, hread⟩ := Option.isSome_iff_exists.1 hcall
    have hspells := Call.spells_of_ofText? hread hname.solid
    have := (vouches_of_spells hspells fun _ _ => Call.stands_scans.1 call).append
      (Named.vouches_alias hlabel) fun r hr => Named.renderAlias_breaks n.alias? hr
    rw [← Named.render_eq] at this
    refine this.imp fun hnames => ?_
    have hwritten : written (function n) =
        function ⟨call.render, n.alias?.map Identifier.text⟩ := by simp [written, hread]
    rw [hwritten]
    exact function_spells hspells hnames.2

/-- A star next to a comma does not scan, so it is selected alone. -/
theorem Select.vouches_columns {columns : List (Selector Identifier)} (hne : columns ≠ [])
    (h : ∀ x ∈ columns, x.Accepted) (hcalls : ∀ x ∈ columns, x.HoldsCall) :
    Vouches (SelectorsSpell columns Selector.written) (renderColumns columns) := by
  obtain ⟨x, xs, rfl⟩ := List.exists_cons_of_ne_nil hne
  have hsep : ∀ r, Breaks (", ".toList ++ r) := fun r =>
    Breaks.cons (x := ',') (t := ' ' :: r) (by simp)
  have hcomma : ∀ r, scans (", ".toList ++ r) = true →
      apart ',' (' ' :: r) = true ∧ scans r = true := by
    intro r hs
    have hs' : scans (',' :: ' ' :: r) = true := hs
    rwa [scans_cons rfl (by decide), Bool.and_eq_true, scans_blank] at hs'
  have hitem : ∀ y ∈ xs, Vouches (Spells y.written.Stands y.render) (", ".toList ++ y.render) := by
    intro y hy
    by_cases hstar : y = .star
    · subst hstar
      intro r _ hs
      have := (hcomma ('*' :: r) (by simpa [Selector.render] using hs)).1
      simp [apart, layoutLength, isBlank, startsComment] at this
    · exact (Selector.vouches hstar (h y (by simp [hy])) (hcalls y (by simp [hy]))).after
        fun r hs => (hcomma r hs).2
  by_cases hstar : x = .star
  · subst hstar
    intro r hr hs
    cases xs with
    | nil =>
      have hs' : scans ('*' :: r) = true := hs
      rw [scans_cons rfl (by decide), Bool.and_eq_true] at hs'
      exact ⟨⟨.inl rfl, rfl⟩, hs'.2⟩
    | cons y ys =>
      have hs' : scans ('*' :: ',' :: (" ".toList ++ renderColumns (y :: ys) ++ r)) = true := by
        simpa [renderColumns, List.intercalate_cons_cons, Selector.render] using hs
      rw [scans_cons rfl (by decide), Bool.and_eq_true] at hs'
      simp [apart, layoutLength, isBlank, startsComment] at hs'
  · have hx := Selector.vouches hstar (h x (by simp)) (hcalls x (by simp))
    exact (vouches_intercalate hsep hx hitem).imp fun hall => ⟨.inr ⟨hne, hall⟩, rfl⟩

/-! ## The other parts -/

theorem TableName.vouches {t : TableName Identifier} (h : ∀ i ∈ t.identifiers, i.text.Accepted) :
    Vouches (∀ i ∈ t.identifiers, i.text.IsNameToken) t.render := by
  obtain ⟨hkeyspace, hname⟩ := forall_identifiers.1 h
  have hname := hname.vouches
  simp only [forall_identifiers]
  obtain ⟨name, keyspace⟩ := t
  cases keyspace with
  | none => exact hname.imp fun hn => ⟨List.forall_mem_nil _, hn⟩
  | some k =>
    intro r hr hs
    have hrender : TableName.render ⟨name, some k⟩ ++ r = k.text ++ '.' :: (name.text ++ r) := by
      simp [render]
    rw [hrender] at hs
    obtain ⟨hk, hs⟩ := (hkeyspace k (by simp)).scans (by simp) hs
    have hpoint : scans (".".toList ++ (name.text ++ r)) = true := hs
    rw [scans_append_of_inert (by decide)] at hpoint
    obtain ⟨hn, hs⟩ := hname r hr hpoint
    refine ⟨⟨fun i hi => ?_, hn⟩, hs⟩
    obtain rfl := List.mem_singleton.1 hi
    exact hk

theorem Relation.vouches {r : Relation Identifier} (h : r.WellFormed Text.Accepted) :
    Vouches (r.WellFormed Text.IsNameToken) r.render := by
  obtain ⟨v, hv, hvalue⟩ := h.value
  have hop := vouches_of_spells (operator_spells h.operator) fun _ _ => OperatorStands.scans
  have hval := vouches_of_spells hv.spells fun _ _ => Term.Stands.scans
  have hblank : ∀ u, scans (" ".toList ++ u) = true → scans u = true := fun u hu => by
    rwa [show " ".toList ++ u = ' ' :: u from rfl, scans_blank] at hu
  have hbreaks : ∀ t u : Text, u.Breaks → Breaks ((" ".toList ++ t) ++ u) := fun t u _ =>
    Breaks.cons (x := ' ') (by simp)
  rw [hvalue] at hval
  have := h.column.vouches.append ((hop.append (hval.after hblank) (hbreaks _)).after hblank)
    (by simpa using hbreaks (r.operator ++ (" ".toList ++ r.value)))
  have hrender : r.render = r.column.text ++
      (" ".toList ++ (r.operator ++ (" ".toList ++ r.value))) := by simp [render]
  rw [hrender]
  exact this.imp fun hc => ⟨hc.1, h.operator, h.value⟩

theorem OrderKey.vouches {k : OrderKey Identifier} (h : k.column.text.Accepted) :
    Vouches k.column.text.IsNameToken k.render := by
  have direction : ∀ {w : Text}, inert w = true → Vouches True (' ' :: w) := by
    intro w hw r _ hs
    rw [List.cons_append, scans_blank, scans_append_of_inert hw] at hs
    exact ⟨trivial, hs⟩
  have hbreaks : ∀ (w r : Text), r.Breaks → Breaks ((' ' :: w) ++ r) := fun _ _ _ => .cons (by simp)
  unfold render
  cases k.descending with
  | false =>
    exact (h.vouches.append (direction (w := "ASC".toList) (by decide)) (hbreaks _)).imp And.left
  | true =>
    exact (h.vouches.append (direction (w := "DESC".toList) (by decide)) (hbreaks _)).imp And.left

/-! ## Clauses -/

namespace Select

variable {s : Select}

theorem vouches_where (h : ∀ r ∈ s.relations, r.WellFormed Text.Accepted) :
    Vouches (∀ r ∈ s.relations, r.WellFormed Text.IsNameToken) (whereClause s) := by
  unfold whereClause
  cases hrs : s.relations with
  | nil => exact vouches_nil.imp fun _ => List.forall_mem_nil _
  | cons r rs =>
    rw [hrs] at h
    have hand : " AND ".toList = ' ' :: "AND".toList ++ [' '] := by simp
    have hwhere : " WHERE ".toList = ' ' :: "WHERE".toList ++ [' '] := by simp
    have hmore : ∀ q ∈ rs, Vouches (q.WellFormed Text.IsNameToken) (" AND ".toList ++ q.render) := by
      refine fun q hq => (Relation.vouches (h q (by simp [hq]))).after fun u hu => ?_
      rwa [hand, scans_between (by decide)] at hu
    have hbreaks : ∀ u, Breaks (" AND ".toList ++ u) := fun _ => Breaks.cons (x := ' ') (by simp)
    refine (vouches_intercalate hbreaks (Relation.vouches (h r (by simp))) hmore).after fun u hu => ?_
    rwa [hwhere, scans_between (by decide)] at hu

theorem vouches_order (hne : s.order ≠ some []) (h : ∀ k ∈ s.order.getD [], k.column.text.Accepted) :
    Vouches (∀ k ∈ s.order.getD [], k.column.text.IsNameToken) (orderClause s) := by
  unfold orderClause
  cases ho : s.order with
  | none => exact vouches_nil.imp fun _ => List.forall_mem_nil _
  | some ks =>
    cases ks with
    | nil => exact absurd ho hne
    | cons k ks =>
      rw [ho, Option.getD_some] at h
      have hcomma : ∀ u, scans (", ".toList ++ u) = true → scans u = true := by
        intro u hu
        have hu' : scans (',' :: ' ' :: u) = true := hu
        rw [scans_cons rfl (by decide), Bool.and_eq_true, scans_blank] at hu'
        exact hu'.2
      have horder : ∀ u, " ORDER BY ".toList ++ u =
          (' ' :: "ORDER".toList ++ [' ']) ++ ("BY".toList ++ " ".toList ++ u) := by simp
      have hmore : ∀ j ∈ ks, Vouches j.column.text.IsNameToken (", ".toList ++ j.render) :=
        fun j hj => (OrderKey.vouches (h j (by simp [hj]))).after hcomma
      have hbreaks : ∀ u, Breaks (", ".toList ++ u) := fun u =>
        Breaks.cons (x := ',') (t := ' ' :: u) (by simp)
      refine (vouches_intercalate hbreaks (OrderKey.vouches (h k (by simp))) hmore).after fun u hu => ?_
      rw [horder, scans_between (by decide), List.append_assoc, scans_append_of_inert (by decide),
        show " ".toList ++ u = ' ' :: u from rfl, scans_blank] at hu
      exact hu

/-! ## Statements -/

/-- A statement that selects something, with accepted names, canonical values, and no order without
keys. -/
structure Accepted (s : Select) : Prop where
  columns : s.columns ≠ []
  selectors : ∀ x ∈ s.columns, x.Accepted
  clauses : s.ClausesWellFormed Text.Accepted

theorem scans_flag {w : Text} {b : Bool} {t : Text} (hw : inert w = true) :
    scans ((if b then w ++ [' '] else []) ++ t) = scans t := by
  cases b with
  | false => rfl
  | true =>
    rw [if_pos rfl, List.append_assoc, scans_append_of_inert hw]
    exact scans_blank t

theorem Accepted.tab (h : s.Accepted) : '\t' ∉ render s := by
  have names := h.clauses.forall_identifiers (fun _ => Text.Accepted.tab)
  refine tab_not_mem_render h.clauses h.columns (names fun x hx => ?_)
  have hx := h.selectors x hx
  cases x with
  | star => exact List.forall_mem_nil _
  | column n => exact fun i hi => (hx i hi).tab
  | function n =>
    obtain ⟨hname, hlabel⟩ := hx
    exact Named.forall_identifiers.2 ⟨fun i hi => (hlabel i hi).tab, hname.tab⟩

/-- Where the canonical text of a statement scans, each part of it spells what it is written for. -/
theorem Accepted.spells_of_scans (h : s.Accepted) (hcalls : ∀ x ∈ s.columns, x.HoldsCall)
    (hs : scans (render s) = true) :
    SelectorsSpell s.columns Selector.written ∧ s.ClausesWellFormed Text.IsNameToken := by
  have hafter := limitClause_breaks s (filteringClause_breaks s)
  have hfrom : Breaks ((' ' :: "FROM".toList ++ [' ']) ++ (s.table.render ++ Select.clauses s)) :=
    Breaks.cons (by simp)
  rw [render_eq, scans_append_of_inert (by decide), scans_blank, scans_flag (by decide),
    scans_flag (by decide)] at hs
  obtain ⟨hcolumns, hs⟩ := vouches_columns h.columns h.selectors hcalls _ hfrom hs
  rw [scans_between (by decide)] at hs
  obtain ⟨htable, hs⟩ := TableName.vouches h.clauses.table _ (clauses_break s) hs
  obtain ⟨hrelations, hs⟩ := vouches_where h.clauses.relations _ (orderClause_breaks s hafter) hs
  obtain ⟨hkeys, -⟩ := vouches_order h.clauses.order h.clauses.keys _ hafter hs
  exact ⟨hcolumns, htable, hrelations, h.clauses.order, hkeys⟩

end Select

end CqlCanon
