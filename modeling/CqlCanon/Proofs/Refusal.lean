import CqlCanon.Proofs.Identifier.Forms
import CqlCanon.Proofs.Lexeme.Adjacent

/-!
# What the check of names refuses

The grammar keeps reserved words out of the names already. So the check that
comes after it refuses two things only: the empty name in quotes, and a call of
a function that may not be called. It reports the first one it comes to.
-/

namespace CqlCanon

open Cursor Lexeme

variable {ν μ ε α β : Type}

/-! ## The first refusal -/

/-- The refusal of a check. -/
def refusal? : Except ε α → Option ε
  | .ok _ => none
  | .error e => some e

theorem refusal?_eq_some_iff {x : Except ε α} {e : ε} : refusal? x = some e ↔ x = .error e := by
  cases x <;> simp [refusal?]

theorem refusal?_bind {x : Except ε α} {g : α → Except ε β} {r : Option ε}
    (h : ∀ a, refusal? (g a) = r) : refusal? (x >>= g) = (refusal? x).or r := by
  cases x with
  | ok a => exact h a
  | error e => rfl

theorem refusal?_map {x : Except ε α} {g : α → β} : refusal? (x.map g) = refusal? x := by
  cases x <;> rfl

theorem refusal?_mapM {g : α → Except ε β} (as : List α) :
    refusal? (as.mapM g) = as.findSome? fun a => refusal? (g a) := by
  induction as with
  | nil => rfl
  | cons a as ih =>
    rw [List.mapM_cons, refusal?_bind fun b => refusal?_bind (r := none) fun bs => rfl, ih,
      List.findSome?_cons]
    cases refusal? (g a) <;> simp

theorem findSome?_flatMap {f : β → Option ε} {g : α → List β} (as : List α) :
    (as.flatMap g).findSome? f = as.findSome? fun a => (g a).findSome? f := by
  induction as with
  | nil => rfl
  | cons a as ih =>
    rw [List.flatMap_cons, List.findSome?_append, ih, List.findSome?_cons]
    cases (g a).findSome? f <;> rfl

section Traverse

variable {check : ν → Except ε μ}

theorem refusal?_checkOption (o : Option ν) :
    refusal? (checkOption check o) = o.toList.findSome? fun n => refusal? (check n) := by
  cases o with
  | none => rfl
  | some n =>
    rw [checkOption, refusal?_map]
    cases h : refusal? (check n) <;> simp [h]

theorem Named.refusal?_traverse (n : Named ν) :
    refusal? (n.traverse check) = n.identifiers.findSome? fun n => refusal? (check n) := by
  rw [Named.traverse, refusal?_bind fun _ => refusal?_bind (r := none) fun _ => rfl,
    refusal?_checkOption, identifiers, List.findSome?_append]
  cases h : refusal? (check n.name) <;> simp [h]

theorem Selector.refusal?_traverse (s : Selector ν) :
    refusal? (s.traverse check) = s.identifiers.findSome? fun n => refusal? (check n) := by
  cases s with
  | star => rfl
  | column n => exact refusal?_map.trans n.refusal?_traverse
  | function n => exact refusal?_map.trans n.refusal?_traverse

theorem TableName.refusal?_traverse (t : TableName ν) :
    refusal? (t.traverse check) = t.identifiers.findSome? fun n => refusal? (check n) := by
  rw [TableName.traverse, refusal?_bind fun _ => refusal?_bind (r := none) fun _ => rfl,
    refusal?_checkOption, identifiers, List.findSome?_append]
  cases h : refusal? (check t.name) <;> simp [h]

/-- A check of all names refuses what it refuses first among the `identifiers`. -/
theorem Statement.refusal?_traverse (s : Statement ν) :
    refusal? (s.traverse check) = s.identifiers.findSome? fun n => refusal? (check n) := by
  have order : refusal? (checkOption (List.mapM (OrderKey.traverse check)) s.order) =
      ((s.order.getD []).map OrderKey.column).findSome? fun n => refusal? (check n) := by
    cases s.order with
    | none => rfl
    | some ks =>
      rw [checkOption, refusal?_map, refusal?_mapM, Option.getD_some, List.findSome?_map]
      exact congrArg (ks.findSome? ·) (funext fun k => refusal?_map)
  have relations : refusal? (s.relations.mapM (Relation.traverse check)) =
      (s.relations.map Relation.column).findSome? fun n => refusal? (check n) := by
    rw [refusal?_mapM, List.findSome?_map]
    exact congrArg (s.relations.findSome? ·) (funext fun r => refusal?_map)
  have columns : refusal? (s.columns.mapM (Selector.traverse check)) =
      (s.columns.flatMap Selector.identifiers).findSome? fun n => refusal? (check n) := by
    rw [refusal?_mapM, findSome?_flatMap]
    exact congrArg (s.columns.findSome? ·) (funext Selector.refusal?_traverse)
  rw [Statement.traverse, refusal?_bind fun _ => refusal?_bind fun _ => refusal?_bind fun _ =>
    refusal?_bind (r := none) fun _ => rfl, columns, s.table.refusal?_traverse, relations, order]
  simp only [identifiers, List.findSome?_append, Option.or_none, Option.or_assoc]

end Traverse

/-! ## Names and calls -/

/-- The names other than the call. -/
def Selector.plainNames : Selector ν → List ν
  | star => []
  | column n => n.identifiers
  | function n => n.alias?.toList

def Selector.call? : Selector ν → Option ν
  | function n => some n.name
  | _ => none

namespace Statement

/-- The calls that are selected. -/
def calls (s : Statement ν) : List ν := s.columns.filterMap Selector.call?

/-- All names other than calls. -/
def plainNames (s : Statement ν) : List ν :=
  s.columns.flatMap Selector.plainNames ++ s.table.identifiers ++
    s.relations.map Relation.column ++ (s.order.getD []).map OrderKey.column

theorem mem_identifiers {s : Statement ν} {n : ν} (h : n ∈ s.identifiers) :
    n ∈ s.plainNames ∨ n ∈ s.calls := by
  have column : ∀ x : Selector ν, n ∈ x.identifiers → n ∈ x.plainNames ∨ x.call? = some n := by
    intro x hx
    cases x with
    | star => exact .inl hx
    | column m => exact .inl hx
    | function m =>
      rcases List.mem_append.1 hx with hx | hx
      · exact .inl hx
      · exact .inr (congrArg some (List.mem_singleton.1 hx).symm)
  simp only [identifiers, plainNames, calls, List.mem_append, List.mem_flatMap,
    List.mem_filterMap] at h ⊢
  rcases h with ((⟨x, hx, h⟩ | h) | h) | h
  · rcases column x h with h | h
    · exact .inl (.inl (.inl (.inl ⟨x, hx, h⟩)))
    · exact .inr ⟨x, hx, h⟩
  · exact .inl (.inl (.inl (.inr h)))
  · exact .inl (.inl (.inr h))
  · exact .inl (.inr h)

end Statement

namespace Lexeme

theorem exists_of_forall₂ {S : α → List Lexeme → Prop} {as : List α} {ls : List (List Lexeme)}
    (h : List.Forall₂ S as ls) {a : α} (ha : a ∈ as) : ∃ l ∈ ls, S a l := by
  induction h with
  | nil => cases ha
  | cons hb _ ih =>
    rcases List.mem_cons.1 ha with rfl | ha
    · exact ⟨_, List.mem_cons_self, hb⟩
    · obtain ⟨l, hl, hs⟩ := ih ha
      exact ⟨l, List.mem_cons_of_mem _ hl, hs⟩

end Lexeme

/-! ## Names among the tokens -/

theorem Named.name_mem_aliasLexemes {o : Option Text} {t : Text} (h : t ∈ o.toList) :
    Lexeme.name t ∈ aliasLexemes o := by
  cases o with
  | none => cases h
  | some u =>
    rw [List.mem_singleton.1 h]
    exact List.mem_cons_of_mem _ List.mem_cons_self

namespace Selector

theorem Spelled.name_mem {s : Selector Text} {l : List Lexeme} (h : s.Spelled l) {t : Text}
    (ht : t ∈ s.plainNames) : Lexeme.name t ∈ l := by
  cases s with
  | star => cases h
  | column n =>
    obtain rfl := h
    rcases List.mem_append.1 ht with ht | ht
    · exact List.mem_cons_of_mem _ (Named.name_mem_aliasLexemes ht)
    · rw [List.mem_singleton.1 ht]
      exact List.mem_cons_self
  | function n =>
    obtain ⟨x, -, -, rfl⟩ := h
    exact List.mem_append_right _ (Named.name_mem_aliasLexemes ht)

theorem AllSpelled.name_mem {ss : List (Selector Text)} {l : List Lexeme} (h : AllSpelled ss l)
    {s : Selector Text} (hs : s ∈ ss) {t : Text} (ht : t ∈ s.plainNames) : Lexeme.name t ∈ l := by
  rcases h with ⟨rfl, -⟩ | ⟨-, ls, hls, rfl⟩
  · rw [List.mem_singleton.1 hs] at ht
    cases ht
  · obtain ⟨m, hm, hspelled⟩ := exists_of_forall₂ hls hs
    exact mem_separated hm (hspelled.name_mem ht)

theorem AllSpelled.call {ss : List (Selector Text)} {l : List Lexeme} (h : AllSpelled ss l)
    {s : Selector Text} (hs : s ∈ ss) {t : Text} (ht : s.call? = some t) :
    ∃ x : Call, x.Canonical ∧ x.render = t := by
  rcases h with ⟨rfl, -⟩ | ⟨-, ls, hls, -⟩
  · rw [List.mem_singleton.1 hs] at ht
    cases ht
  · obtain ⟨m, -, hspelled⟩ := exists_of_forall₂ hls hs
    cases s with
    | star => cases ht
    | column n => cases ht
    | function n =>
      obtain ⟨x, hx, hn, -⟩ := hspelled
      cases ht
      exact ⟨x, hx, hn⟩

end Selector

theorem TableName.name_mem {t : TableName Text} {n : Text} (h : n ∈ t.identifiers) :
    Lexeme.name n ∈ t.lexemes := by
  obtain ⟨name, keyspace⟩ := t
  cases keyspace with
  | none =>
    rw [List.mem_singleton.1 h]
    exact List.mem_cons_self
  | some k =>
    rcases List.mem_cons.1 h with rfl | h
    · exact List.mem_cons_self
    · rw [List.mem_singleton.1 h]
      simp [lexemes]

theorem Relation.AllSpelled.name_mem {rs : List (Relation Text)} {l : List Lexeme}
    (h : AllSpelled rs l) {r : Relation Text} (hr : r ∈ rs) : Lexeme.name r.column ∈ l := by
  rcases h with ⟨rfl, -⟩ | ⟨-, ls, hls, rfl⟩
  · cases hr
  · obtain ⟨m, hm, v, -, -, rfl⟩ := exists_of_forall₂ hls hr
    exact List.mem_cons_of_mem _ (mem_separated hm List.mem_cons_self)

theorem OrderKey.AllSpelled.name_mem {o : Option (List (OrderKey Text))} {l : List Lexeme}
    (h : AllSpelled o l) {k : OrderKey Text} (hk : k ∈ o.getD []) : Lexeme.name k.column ∈ l := by
  cases o with
  | none => cases hk
  | some ks =>
    obtain ⟨-, ls, hls, rfl⟩ := h
    obtain ⟨m, hm, written, -, rfl⟩ := exists_of_forall₂ hls hk
    exact List.mem_cons_of_mem _ (List.mem_cons_of_mem _ (mem_separated hm List.mem_cons_self))

namespace Statement

variable {s : Statement Text} {l : List Lexeme}

theorem Spelled.name_mem (h : s.Spelled l) {t : Text} (ht : t ∈ s.plainNames) :
    Lexeme.name t ∈ l := by
  obtain ⟨_, _, rest, ⟨columns, hcolumns, rfl⟩, ⟨relations, order, hr, ho, rfl⟩, -, rfl⟩ := h
  simp only [plainNames, List.mem_append, List.mem_flatMap, List.mem_map] at ht
  rcases ht with ((⟨x, hx, ht⟩ | ht) | ⟨r, hmem, rfl⟩) | ⟨k, hmem, rfl⟩
  · have := hcolumns.name_mem hx ht
    simp [this]
  · have := TableName.name_mem ht
    simp [this]
  · have := hr.name_mem hmem
    simp [this]
  · have := ho.name_mem hmem
    simp [this]

theorem Spelled.call (h : s.Spelled l) {t : Text} (ht : t ∈ s.calls) :
    ∃ x : Call, x.Canonical ∧ x.render = t := by
  obtain ⟨_, _, rest, ⟨columns, hcolumns, rfl⟩, -⟩ := h
  obtain ⟨x, hx, ht⟩ := List.mem_filterMap.1 ht
  exact hcolumns.call hx ht

end Statement

/-- The names of a draft are names wherever they stand, and its calls are canonical. -/
theorem Draft.names_of_read {t : Text} {draft : Draft} (h : read t = .ok draft) :
    (∀ n ∈ draft.contents.plainNames, n.IsNameToken) ∧
      ∀ f ∈ draft.contents.calls, ∃ x : Call, x.Canonical ∧ x.render = f := by
  obtain ⟨l, d, hl, hp, hd⟩ := passes_of_read h
  exact ⟨fun n hn => hp.isNameToken hl.alternating (parted_start _) (not_stuck_of_end hd)
    (hl.name_mem hn), fun f hf => hl.call hf⟩

/-! ## What is refused -/

namespace Identifier

theorem closesQuote_of_closingLength? {t : Text} (h : closingLength? '"' t = some t.length) :
    closesQuote t = true := by
  fun_induction closesQuote t with
  | case1 => cases h
  | case2 c =>
    unfold closingLength? at h
    split at h
    · simpa using ‹c = '"'›
    · cases h
  | case3 d t ih =>
    rw [closingLength?, if_pos rfl] at h
    split at h
    · rename_i hd
      cases hm : closingLength? '"' t with
      | none => simp [hm] at h
      | some m =>
        obtain rfl : m = t.length := by simpa [hm] using h
        simp [hd, ih hm]
    · simp at h
  | case4 c d t hc ih =>
    rw [closingLength?, if_neg hc] at h
    split at h
    · cases h
    · obtain ⟨m, hm, hlen⟩ := Option.map_eq_some_iff.1 h
      obtain rfl : m = (d :: t).length := by simpa using hlen
      exact ih hm

/-- A name that can be read is refused only where it is empty. -/
theorem fault?_of_isNameToken {t : Text} (h : t.IsNameToken) :
    fault? t = if t = "\"\"".toList then some .malformed else none := by
  split
  · rename_i he
    rw [he]
    decide
  rename_i hne
  unfold fault?
  rcases h with h | ⟨h, hres⟩
  · obtain ⟨u, rfl, hu⟩ := h.quoted_cons
    have hclose := closesQuote_of_closingLength? hu
    have ht : u ≠ ['"'] := fun e => hne (by rw [e]; rfl)
    have hq : isQuotedForm ('"' :: u) = true := by simpa [isQuotedForm, ht] using hclose
    rw [if_pos hq]
  · by_cases hq : isQuotedForm t = true
    · rw [if_pos hq]
    · rw [if_neg hq, if_pos h, hres]
      rfl

end Identifier

/-- A name or call that is not an identifier, and the reason that is given: it is the empty name in
quotes, or a call of a reserved function other than `token`. -/
inductive Draft.Misnames (draft : Draft) (i : Located) : Text → Prop where
  | empty : i.text = "\"\"".toList → draft.Misnames i "not a valid identifier".toList
  | reserved {x : Call} : i.text ∈ draft.contents.calls → x.Canonical → x.render = i.text →
      isReserved x.function = true → Text.upper x.function ≠ "TOKEN".toList →
      draft.Misnames i "reserved keyword".toList

namespace Draft

theorem misnames_iff {t : Text} {draft : Draft} (h : read t = .ok draft) {i : Located}
    (hi : i ∈ draft.identifiers) {why : Text} : draft.Misnames i why ↔
      ∃ reason, Identifier.fault? i.text = some reason ∧ reason.render = why := by
  obtain ⟨hnames, hcalls⟩ := names_of_read h
  constructor
  · rintro (he | @⟨x, -, hx, hr, hres, hne⟩)
    · exact ⟨.malformed, by rw [he]; decide, rfl⟩
    · have hfunction : isReservedFunction x.function = true := by
        rw [isReservedFunction, hres, Bool.true_and]
        exact bne_iff_ne.2 hne
      exact ⟨.reserved, by rw [← hr, hx.fault?, if_pos hfunction], rfl⟩
  · rintro ⟨reason, hf, rfl⟩
    have hmem : i.text ∈ draft.contents.identifiers := by
      rw [contents, Statement.identifiers_map]
      exact List.mem_map_of_mem hi
    rcases Statement.mem_identifiers hmem with hn | hc
    · rw [Identifier.fault?_of_isNameToken (hnames _ hn)] at hf
      split at hf
      · cases hf
        exact .empty ‹_›
      · cases hf
    · obtain ⟨x, hx, hr⟩ := hcalls _ hc
      rw [← hr, hx.fault?] at hf
      split at hf
      · rename_i hres
        cases hf
        simp only [isReservedFunction, Bool.and_eq_true, bne_iff_ne] at hres
        exact .reserved hc hx hr hres.1 hres.2
      · cases hf

theorem refusal?_check (draft : Draft) : refusal? draft.check =
    draft.identifiers.findSome? fun i => refusal? i.check :=
  Statement.refusal?_traverse draft

theorem refusal?_located {i : Located} {e : InvalidIdentifier} : refusal? i.check = some e ↔
    ∃ reason, Identifier.fault? i.text = some reason ∧ e = ⟨i.text, i.span, reason⟩ := by
  rw [refusal?_eq_some_iff, Located.check, Identifier.parse_eq_error_iff]

section Read

variable {t : Text} {draft : Draft} (h : read t = .ok draft)

include h

theorem refusal?_eq_none_iff {i : Located} (hi : i ∈ draft.identifiers) :
    refusal? i.check = none ↔ ∀ why, ¬ draft.Misnames i why := by
  constructor
  · intro hnone why hm
    obtain ⟨reason, hf, -⟩ := (misnames_iff h hi).1 hm
    rw [refusal?_located.2 ⟨reason, hf, rfl⟩] at hnone
    cases hnone
  · intro hm
    cases hr : refusal? i.check with
    | none => rfl
    | some e =>
      obtain ⟨reason, hf, -⟩ := refusal?_located.1 hr
      exact absurd ((misnames_iff h hi).2 ⟨reason, hf, rfl⟩) (hm _)

theorem first_misnamed {e : InvalidIdentifier}
    (he : draft.identifiers.findSome? (fun i => refusal? i.check) = some e) :
    ∃ before i after, draft.identifiers = before ++ i :: after ∧
      (∀ j ∈ before, ∀ why, ¬ draft.Misnames j why) ∧
      draft.Misnames i e.reason.render ∧ e.text = i.text ∧ e.span = i.span := by
  obtain ⟨before, i, after, hl, hi, hbefore⟩ := List.findSome?_eq_some_iff.1 he
  obtain ⟨reason, hf, rfl⟩ := refusal?_located.1 hi
  refine ⟨before, i, after, hl, fun j hj => ?_, ?_, rfl, rfl⟩
  · exact (refusal?_eq_none_iff h (by rw [hl]; simp [hj])).1 (hbefore j hj)
  · exact (misnames_iff h (by rw [hl]; simp)).2 ⟨reason, hf, rfl⟩

end Read

end Draft

/-- Where the grammar phase succeeds, all names that are read are quoted or not reserved, and all
calls are canonical. The text is then refused exactly if one of these is the empty name in quotes or
a call of a reserved function other than `token`, and the first of them is reported. -/
theorem Select.parse_refuses_first {t : Text} (hgrammar : ∀ p, parse t ≠ .error (.unexpected p))
    (hlimit : parse t ≠ .error .limitTooLong) : ∃ draft, Draft.read t = .ok draft ∧
      (∀ n ∈ draft.contents.plainNames, n.IsNameToken) ∧
      (∀ f ∈ draft.contents.calls, ∃ x : Call, x.Canonical ∧ x.render = f) ∧
      ((∃ e, parse t = .error (.invalidIdentifier e)) ↔
        ∃ i ∈ draft.identifiers, ∃ why, draft.Misnames i why) ∧
      ∀ e, parse t = .error (.invalidIdentifier e) ↔
        ∃ before i after, draft.identifiers = before ++ i :: after ∧
          (∀ j ∈ before, ∀ why, ¬ draft.Misnames j why) ∧
          draft.Misnames i e.reason.render ∧ e.text = i.text ∧ e.span = i.span := by
  obtain ⟨draft, hread⟩ : ∃ draft, Draft.read t = .ok draft := by
    refine (parse_ne_unexpected_iff.1 hgrammar).resolve_right fun ht => hlimit ?_
    simp [parse, Draft.read_eq_limitTooLong_iff.2 ht]
  obtain ⟨hnames, hcalls⟩ := Draft.names_of_read hread
  have refused : ∀ e, parse t = .error (.invalidIdentifier e) ↔
      draft.identifiers.findSome? (fun i => refusal? i.check) = some e := by
    intro e
    rw [← Draft.refusal?_check, refusal?_eq_some_iff]
    simp only [parse, hread]
    cases draft.check <;> simp
  refine ⟨draft, hread, hnames, hcalls, ⟨?_, ?_⟩, fun e => ⟨fun he => ?_, ?_⟩⟩
  · rintro ⟨e, he⟩
    obtain ⟨before, i, after, hl, -, hm, -⟩ := Draft.first_misnamed hread ((refused e).1 he)
    exact ⟨i, by rw [hl]; simp, _, hm⟩
  · rintro ⟨i, hi, why, hm⟩
    cases hfirst : draft.identifiers.findSome? (fun i => refusal? i.check) with
    | some e => exact ⟨e, (refused e).2 hfirst⟩
    | none =>
      have hnone := List.findSome?_eq_none_iff.1 hfirst i hi
      exact absurd hm ((Draft.refusal?_eq_none_iff hread hi).1 hnone why)
  · exact Draft.first_misnamed hread ((refused e).1 he)
  · rintro ⟨before, i, after, hl, hbefore, hm, ht, hs⟩
    obtain ⟨reason, hf, hwhy⟩ := (Draft.misnames_iff hread (by rw [hl]; simp)).1 hm
    refine (refused e).2 (List.findSome?_eq_some_iff.2 ⟨before, i, after, hl, ?_, fun j hj => ?_⟩)
    · refine Draft.refusal?_located.2 ⟨reason, hf, ?_⟩
      rw [← ht, ← hs, Identifier.Reason.render_injective hwhy]
    · exact (Draft.refusal?_eq_none_iff hread (by rw [hl]; simp [hj])).2 (hbefore j hj)

/-- A call of a reserved function is read, and then refused. -/
theorem Select.parse_refuses_call :
    (∀ p, parse "SELECT a, From(x) FROM t".toList ≠ .error (.unexpected p)) ∧
    parse "SELECT a, From(x) FROM t".toList ≠ .error .limitTooLong ∧
    ∃ draft, Draft.read "SELECT a, From(x) FROM t".toList = .ok draft ∧
      ∃ i ∈ draft.identifiers, draft.Misnames i "reserved keyword".toList := by
  have hr : parse "SELECT a, From(x) FROM t".toList =
      .error (.invalidIdentifier ⟨"From(x)".toList, ⟨10, 17⟩, .reserved⟩) := by decide +kernel
  have hgrammar : ∀ p, parse "SELECT a, From(x) FROM t".toList ≠ .error (.unexpected p) := by
    intro p hp
    rw [hr] at hp
    cases hp
  have hlimit : parse "SELECT a, From(x) FROM t".toList ≠ .error .limitTooLong := by
    intro h
    rw [hr] at h
    cases h
  obtain ⟨draft, hread, -, -, -, hfirst⟩ := parse_refuses_first hgrammar hlimit
  obtain ⟨before, i, after, hl, -, hm, -⟩ := (hfirst _).1 hr
  exact ⟨hgrammar, hlimit, draft, hread, i, by rw [hl]; simp, hm⟩

end CqlCanon
