import CqlCanon.Proofs.Lexeme.Adjacent

/-!
# The last token

What a part of a statement may end with. Selectors end with a name or a symbol,
and no statement ends with an operator.
-/

namespace CqlCanon

open Lexeme

namespace Lexeme

/-- There is a last token, and its kind has the property. -/
def EndsIn (P : Token → Prop) (l : List Lexeme) : Prop := ∃ m x, l = m ++ [x] ∧ P x.kind

namespace EndsIn

variable {P Q : Token → Prop} {l m : List Lexeme} {x sep : Lexeme} {ls : List (List Lexeme)}

theorem single (h : P x.kind) : EndsIn P [x] := ⟨[], x, rfl, h⟩

theorem append (l : List Lexeme) (h : EndsIn P m) : EndsIn P (l ++ m) := by
  obtain ⟨m, x, rfl, hx⟩ := h
  exact ⟨l ++ m, x, (List.append_assoc l m [x]).symm, hx⟩

theorem cons (y : Lexeme) (h : EndsIn P l) : EndsIn P (y :: l) := append [y] h

theorem append_of_nil (hl : EndsIn P l) (hm : m = [] ∨ EndsIn P m) : EndsIn P (l ++ m) := by
  rcases hm with rfl | hm
  · rwa [List.append_nil]
  · exact hm.append l

/-- The end of two parts that may both be missing. -/
theorem nil_or_append (hl : l = [] ∨ EndsIn P l) (hm : m = [] ∨ EndsIn P m) :
    l ++ m = [] ∨ EndsIn P (l ++ m) := by
  rcases hl with rfl | hl
  · exact hm
  · exact .inr (hl.append_of_nil hm)

theorem mono (hPQ : ∀ k, P k → Q k) (h : EndsIn P l) : EndsIn Q l := by
  obtain ⟨m, x, rfl, hx⟩ := h
  exact ⟨m, x, rfl, hPQ _ hx⟩

theorem last (h : EndsIn P (l ++ [x])) : P x.kind := by
  obtain ⟨m, y, heq, hy⟩ := h
  obtain ⟨-, hxy⟩ := List.append_inj' heq rfl
  obtain rfl : x = y := List.singleton_inj.1 hxy
  exact hy

theorem getLast? (h : EndsIn P l) : ∀ y ∈ l.getLast?, P y.kind := by
  obtain ⟨m, x, rfl, hx⟩ := h
  rw [List.getLast?_concat]
  rintro y ⟨⟩
  exact hx

theorem separated (h : ∀ l ∈ ls, EndsIn P l) (hne : ls ≠ []) :
    EndsIn P (Lexeme.separated sep ls) := by
  have more : ∀ {ls : List (List Lexeme)}, (∀ l ∈ ls, EndsIn P l) →
      ls.flatMap (sep :: ·) = [] ∨ EndsIn P (ls.flatMap (sep :: ·)) := by
    intro ls h
    induction ls with
    | nil => exact .inl rfl
    | cons l ls ih =>
      obtain ⟨hl, hls⟩ := List.forall_mem_cons.1 h
      exact .inr ((hl.cons sep).append_of_nil (ih hls))
  cases ls with
  | nil => exact absurd rfl hne
  | cons l ls =>
    obtain ⟨hl, hls⟩ := List.forall_mem_cons.1 h
    exact hl.append_of_nil (more hls)

theorem of_forall₂ {α : Type} {S : α → List Lexeme → Prop} (hS : ∀ a l, S a l → EndsIn P l)
    {as : List α} (hne : as ≠ []) (h : List.Forall₂ S as ls) :
    EndsIn P (Lexeme.separated sep ls) := by
  have all : ∀ l ∈ ls, EndsIn P l := by
    clear hne
    induction h with
    | nil => exact List.forall_mem_nil _
    | cons ha _ ih => exact List.forall_mem_cons.2 ⟨hS _ _ ha, ih⟩
  refine separated all ?_
  rintro rfl
  exact hne (List.forall₂_nil_right_iff.1 h)

end EndsIn

end Lexeme

/-! ## Selectors -/

/-- The kinds of tokens that selectors may end with. -/
def Selector.lastKinds : List Token := [.symbol '*', .symbol ')', .plainName, .quoted '"']

theorem Lexeme.endsIn_name {P : Token → Prop} (h : P .plainName ∧ P (.quoted '"')) (t : Text) :
    EndsIn P [name t] := by
  unfold name
  split
  · exact .single h.2
  · exact .single h.1

theorem Named.endsIn_alias (o : Option Text) :
    aliasLexemes o = [] ∨ EndsIn (· ∈ Selector.lastKinds) (aliasLexemes o) := by
  cases o with
  | none => exact .inl rfl
  | some t => exact .inr (.cons _ (endsIn_name (by decide) t))

theorem Call.endsIn (x : Call) : EndsIn (· = .symbol ')') x.lexemes := by
  cases x with
  | star f => exact .append [_, _, _] (.single rfl)
  | apply f as => exact .append (⟨.word, some f⟩ :: symbol '(' :: _) (.single rfl)

theorem Selector.AllSpelled.endsIn {ss : List (Selector Text)} {l : List Lexeme}
    (h : AllSpelled ss l) : EndsIn (· ∈ lastKinds) l := by
  rcases h with ⟨-, rfl⟩ | ⟨hne, ls, hls, rfl⟩
  · exact .single (by decide)
  · refine .of_forall₂ (fun s l hs => ?_) hne hls
    cases s with
    | star => exact hs.elim
    | column n =>
      obtain rfl : l = _ := hs
      exact (endsIn_name (by decide) n.name).append_of_nil (Named.endsIn_alias n.alias?)
    | function n =>
      obtain ⟨x, -, -, rfl⟩ := hs
      exact (x.endsIn.mono (by rintro _ rfl; decide)).append_of_nil (Named.endsIn_alias n.alias?)

/-! ## Statements -/

theorem Term.endsIn (t : Term) :
    EndsIn (fun k => k ≠ .comparison ∧ k ≠ .plainName) t.lexemes := by
  cases t with
  | list ts => exact .append (symbol '(' :: _) (.single ⟨nofun, nofun⟩)
  | _ => exact .single ⟨nofun, nofun⟩

theorem TableName.endsIn (t : TableName Text) : EndsIn (· ≠ .comparison) t.lexemes := by
  unfold lexemes
  split
  · exact endsIn_name ⟨nofun, nofun⟩ _
  · exact .append [_, _] (endsIn_name ⟨nofun, nofun⟩ _)

theorem Relation.AllSpelled.endsIn {rs : List (Relation Text)} {l : List Lexeme}
    (h : AllSpelled rs l) : l = [] ∨ EndsIn (· ≠ .comparison) l := by
  rcases h with ⟨-, rfl⟩ | ⟨hne, ls, hls, rfl⟩
  · exact .inl rfl
  · refine .inr (.cons _ (.of_forall₂ (fun r l hr => ?_) hne hls))
    obtain ⟨v, -, -, rfl⟩ := hr
    exact ((v.endsIn.mono fun _ => And.left).append _).cons _

theorem OrderKey.AllSpelled.endsIn {o : Option (List (OrderKey Text))} {l : List Lexeme}
    (h : AllSpelled o l) : l = [] ∨ EndsIn (· ≠ .comparison) l := by
  cases o with
  | none => exact .inl h
  | some keys =>
    obtain ⟨hne, ls, hls, rfl⟩ := h
    refine .inr (.cons _ (.cons _ (.of_forall₂ (fun k l hk => ?_) hne hls)))
    obtain ⟨written, -, rfl⟩ := hk
    refine (endsIn_name ⟨nofun, nofun⟩ k.column).append_of_nil ?_
    cases written with
    | false => exact .inl rfl
    | true => exact .inr (.single nofun)

theorem Statement.EndSpelled.endsIn {s : Statement Text} {l : List Lexeme} (h : s.EndSpelled l) :
    l = [] ∨ EndsIn (· ≠ .comparison) l := by
  obtain ⟨limit, semicolon, hlimit, rfl⟩ := h
  have hlimit : limit = [] ∨ EndsIn (· ≠ .comparison) limit := by
    rcases hlimit.shape with hl | ⟨digits, rfl⟩
    · exact .inl hl
    · exact .inr (.cons _ (.single nofun))
  refine EndsIn.nil_or_append hlimit (EndsIn.nil_or_append ?_ ?_)
  · split
    · exact .inr (.cons _ (.single nofun))
    · exact .inl rfl
  · split
    · exact .inr (.single nofun)
    · exact .inl rfl

/-- No statement ends with an operator. -/
theorem Statement.Spelled.endsIn {s : Statement Text} {l : List Lexeme} (h : s.Spelled l) :
    EndsIn (· ≠ .comparison) l := by
  obtain ⟨_, _, rest, ⟨columns, -, rfl⟩, ⟨relations, order, hr, ho, rfl⟩, hend, rfl⟩ := h
  have hhead := s.table.endsIn
  refine EndsIn.append_of_nil ?_ (EndsIn.nil_or_append (EndsIn.nil_or_append hr.endsIn ho.endsIn)
    hend.endsIn)
  exact .cons _ (.append _ (.append _ (.append _ (.cons _ hhead))))

end CqlCanon
