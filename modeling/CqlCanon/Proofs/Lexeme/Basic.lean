import CqlCanon.Proofs.Written.Call
import Mathlib.Data.List.Forall2

/-!
# Statements as lists of tokens

A lexeme is a token as a statement asks for it: of names and values it asks for
the text, of key words and symbols only that they are there. `x.lexemes` are
the tokens of `x` from left to right; where a part may be written in several
ways, `x.Spelled l` says that `l` is one of them. What is skipped between the
tokens does not occur here.
-/

namespace CqlCanon

structure Lexeme where
  kind : Token
  text? : Option Text := none
  deriving DecidableEq, Repr

namespace Lexeme

def symbol (c : Char) : Lexeme := ⟨.symbol c, none⟩

def keyword (w : String) : Lexeme := ⟨.keyword w.toList, none⟩

/-- A name, quoted or not. -/
def name (t : Text) : Lexeme := ⟨if t.head? = some '"' then .quoted '"' else .plainName, some t⟩

/-- The lists one after another, with a separator between neighbours. -/
def separated (separator : Lexeme) : List (List Lexeme) → List Lexeme
  | [] => []
  | l :: ls => l ++ ls.flatMap (separator :: ·)

/-- A key word that may be left out. -/
def flag (w : String) (b : Bool) : List Lexeme := if b then [keyword w] else []

end Lexeme

open Lexeme

/-- Each list is the one of its item. -/
theorem Lexeme.forall₂_eq_map {α : Type} {f : α → List Lexeme} {as : List α}
    {ls : List (List Lexeme)} : List.Forall₂ (fun a l => l = f a) as ls ↔ ls = as.map f := by
  constructor
  · intro h
    induction h with
    | nil => rfl
    | cons h _ ih => rw [h, ih, List.map_cons]
  · rintro rfl
    exact List.forall₂_map_right_iff.2 (List.forall₂_same.2 fun _ _ => rfl)

theorem Lexeme.mem_separated {sep x : Lexeme} {l : List Lexeme} {ls : List (List Lexeme)} (hl : l ∈ ls)
    (hx : x ∈ l) : x ∈ separated sep ls := by
  cases ls with
  | nil => cases hl
  | cons m ls =>
    rcases List.mem_cons.1 hl with rfl | hl
    · exact List.mem_append_left _ hx
    · exact List.mem_append_right _ (List.mem_flatMap.2 ⟨l, hl, List.mem_cons_of_mem _ hx⟩)

/-! ## Terms and calls -/

namespace Term

mutual

def lexemes : Term → List Lexeme
  | number t => [⟨.number, some t⟩]
  | string t => [⟨.quoted '\'', some t⟩]
  | positional => [symbol '?']
  | bind t => [⟨.bindMarker, some t⟩]
  | constant k => [keyword k.word]
  | list ts => symbol '(' :: separated (symbol ',') (lexemesAll ts) ++ [symbol ')']

def lexemesAll : List Term → List (List Lexeme)
  | [] => []
  | t :: ts => t.lexemes :: lexemesAll ts

end

theorem lexemesAll_eq_map (ts : List Term) : lexemesAll ts = ts.map lexemes := by
  induction ts with
  | nil => rfl
  | cons t ts ih => simp [lexemesAll, ih]

end Term

mutual

def Call.lexemes : Call → List Lexeme
  | .star f => [⟨.word, some f⟩, symbol '(', symbol '*', symbol ')']
  | .apply f as =>
    ⟨.word, some f⟩ :: symbol '(' :: separated (symbol ',') (Argument.lexemesAll as) ++ [symbol ')']

def Argument.lexemes : Argument → List Lexeme
  | .call x => x.lexemes
  | .term t => t.lexemes
  | .name t => [Lexeme.name t]

def Argument.lexemesAll : List Argument → List (List Lexeme)
  | [] => []
  | a :: as => a.lexemes :: Argument.lexemesAll as

end

theorem Argument.lexemesAll_eq_map (as : List Argument) : lexemesAll as = as.map lexemes := by
  induction as with
  | nil => rfl
  | cons a as ih => simp [lexemesAll, ih]

/-! ## The parts of a statement -/

def Named.aliasLexemes : Option Text → List Lexeme
  | none => []
  | some label => [keyword "AS", Lexeme.name label]

namespace Selector

/-- A column is spelled by its name, a call by the tokens of a canonical call with its text. -/
def Spelled : Selector Text → List Lexeme → Prop
  | star, _ => False
  | column n, l => l = name n.name :: Named.aliasLexemes n.alias?
  | function n, l => ∃ x : Call, x.Canonical ∧ x.render = n.name ∧
      l = x.lexemes ++ Named.aliasLexemes n.alias?

def AllSpelled (columns : List (Selector Text)) (l : List Lexeme) : Prop :=
  (columns = [star] ∧ l = [symbol '*']) ∨
    columns ≠ [] ∧ ∃ ls, List.Forall₂ Spelled columns ls ∧ l = separated (symbol ',') ls

end Selector

def TableName.lexemes (t : TableName Text) : List Lexeme :=
  match t.keyspace with
  | none => [Lexeme.name t.name]
  | some k => [Lexeme.name k, symbol '.', Lexeme.name t.name]

namespace Relation

/-- The operators that are words; all others are comparisons. -/
def operatorWords (operator : Text) : List String :=
  if operator = "IN".toList then ["IN"]
  else if operator = "CONTAINS".toList then ["CONTAINS"]
  else if operator = "CONTAINS KEY".toList then ["CONTAINS", "KEY"]
  else if operator = "LIKE".toList then ["LIKE"]
  else []

def operatorLexemes (operator : Text) : List Lexeme :=
  match operatorWords operator with
  | [] => [⟨.comparison, some operator⟩]
  | words => words.map keyword

/-- A value is spelled by the tokens of a canonical term with its text. -/
def Spelled (r : Relation Text) (l : List Lexeme) : Prop :=
  ∃ v : Term, v.Canonical ∧ v.render = r.value ∧
    l = name r.column :: (operatorLexemes r.operator ++ v.lexemes)

/-- `WHERE` and the conditions after it, or nothing. -/
def AllSpelled (relations : List (Relation Text)) (l : List Lexeme) : Prop :=
  (relations = [] ∧ l = []) ∨ relations ≠ [] ∧ ∃ ls, List.Forall₂ Spelled relations ls ∧
    l = keyword "WHERE" :: separated (keyword "AND") ls

end Relation

namespace OrderKey

/-- An ascending order need not be written. -/
def Spelled (k : OrderKey Text) (l : List Lexeme) : Prop :=
  ∃ written : Bool, (k.descending = true → written = true) ∧
    l = name k.column :: flag (if k.descending then "DESC" else "ASC") written

def AllSpelled (order : Option (List (OrderKey Text))) (l : List Lexeme) : Prop :=
  match order with
  | none => l = []
  | some keys => keys ≠ [] ∧ ∃ ls, List.Forall₂ Spelled keys ls ∧
      l = keyword "ORDER" :: keyword "BY" :: separated (symbol ',') ls

end OrderKey

/-! ## Statements -/

namespace Statement

def HeadSpelled (s : Statement Text) (l : List Lexeme) : Prop :=
  ∃ columns, Selector.AllSpelled s.columns columns ∧
    l = keyword "SELECT" :: (flag "DISTINCT" s.distinct ++ (flag "JSON" s.json ++
      (columns ++ keyword "FROM" :: s.table.lexemes)))

def ClausesSpelled (s : Statement Text) (l : List Lexeme) : Prop :=
  ∃ relations order, Relation.AllSpelled s.relations relations ∧
    OrderKey.AllSpelled s.order order ∧ l = relations ++ order

/-- A limit is spelled by any digits with its value, as long as there are not too many. -/
def LimitSpelled (limit : Option Int) (l : List Lexeme) : Prop :=
  match limit with
  | none => l = []
  | some z => ∃ digits, Text.intValue digits = z ∧
      digits.length - Text.signLength digits ≤ maxLimitDigits ∧
      l = [keyword "LIMIT", ⟨.integer, some digits⟩]

theorem LimitSpelled.shape {limit : Option Int} {l : List Lexeme} (h : LimitSpelled limit l) :
    l = [] ∨ ∃ digits, l = [keyword "LIMIT", ⟨.integer, some digits⟩] := by
  cases limit with
  | none => exact .inl h
  | some z =>
    obtain ⟨digits, -, -, hl⟩ := h
    exact .inr ⟨digits, hl⟩

def EndSpelled (s : Statement Text) (l : List Lexeme) : Prop :=
  ∃ (limit : List Lexeme) (semicolon : Bool), LimitSpelled s.limit limit ∧
    l = limit ++ ((if s.filtering then [keyword "ALLOW", keyword "FILTERING"] else []) ++
      if semicolon then [symbol ';'] else [])

/-- The tokens spell the statement. -/
def Spelled (s : Statement Text) (l : List Lexeme) : Prop :=
  ∃ head clauses rest, s.HeadSpelled head ∧ s.ClausesSpelled clauses ∧ s.EndSpelled rest ∧
    l = head ++ (clauses ++ rest)

end Statement

/-! ## Reading tokens -/

/-- Tokens that are asked for are read one after another. -/
def Cursor.Passes : List Lexeme → Cursor → Cursor → Prop
  | [], c, d => c = d
  | x :: xs, c, d => ∃ t e, c.token? x.kind = some (t, e) ∧ (∀ u ∈ x.text?, t = u) ∧ e.Passes xs d

end CqlCanon
