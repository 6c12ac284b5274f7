import CqlCanon.Call.Read
import CqlCanon.Draft.Basic

/-!
# Reading the parts of a statement

The place a name is reported at depends on where it stands: the end of the
comments before it after a comma or a key word, and the end of the token before
it for an alias and after a point. The place of the first selector depends on
the flags before it, so it is given.
-/

namespace CqlCanon

open Cursor

/-- Reads a name and reports it at the given place. -/
def Located.read? (place : Cursor → Nat) (c : Cursor) : Option (Located × Cursor) :=
  c.name?.map fun (t, d) => (⟨t, place c⟩, d)

/-! ## Selectors -/

/-- Reads an alias. -/
def Named.readAlias? (c : Cursor) : Option (Located × Cursor) := do
  let d ← c.keyword? "AS"
  Located.read? position d

namespace Selector

/-- Reads a call without its alias. -/
def readFunction? (c : Cursor) : Option (Located × Cursor) :=
  (Call.read? c).map fun (call, d) => (⟨call.render, c.skip.position⟩, d)

/-- Reads a call or a column. -/
def read? (place : Cursor → Nat) (c : Cursor) : Option (Selector Located × Cursor) :=
  match readFunction? c with
  | some (name, d) =>
    let (label, e) := d.optional Named.readAlias?
    some (function ⟨name, label⟩, e)
  | none =>
    match Located.read? place c with
    | some (name, d) =>
      let (label, e) := d.optional Named.readAlias?
      some (column ⟨name, label⟩, e)
    | none => none

/-- Reads the selectors of a statement. The first one is reported at the given place. -/
def readAll? (place : Cursor → Nat) (c : Cursor) : Option (List (Selector Located) × Cursor) :=
  match c.symbol? '*' with
  | some d => some ([star], d)
  | none => do
    let (first, d) ← read? place c
    let (others, e) := d.more (symbol? ',') (read? commentsEnd)
    return (first :: others, e)

end Selector

/-! ## The table -/

namespace TableName

/-- Reads a keyspace and the point after it. -/
def readKeyspace? (c : Cursor) : Option (Located × Cursor) := do
  let (keyspace, d) ← Located.read? commentsEnd c
  let e ← d.symbol? '.'
  return (keyspace, e)

def read? (c : Cursor) : Option (TableName Located × Cursor) :=
  match readKeyspace? c with
  | some (keyspace, d) =>
    (Located.read? position d).map fun (name, e) => (⟨name, some keyspace⟩, e)
  | none => (Located.read? commentsEnd c).map fun (name, d) => (⟨name, none⟩, d)

/-- The position where a table is missing. -/
def faultAt (c : Cursor) : Nat := (c.optional readKeyspace?).2.skip.position

end TableName

/-! ## Conditions -/

namespace Relation

/-- The operators of conditions. -/
def operators : List Text :=
  ["=", "!=", "<", ">", "<=", ">=", "IN", "CONTAINS", "CONTAINS KEY", "LIKE"].map String.toList

/-- Reads an operator, and gives it in upper case with single spaces. -/
def readOperator? (c : Cursor) : Option (Text × Cursor) :=
  c.token? .comparison <|>
  (c.keyword? "IN").map ("IN".toList, ·) <|>
  ((c.keyword? "CONTAINS").bind (keyword? "KEY")).map ("CONTAINS KEY".toList, ·) <|>
  (c.keyword? "CONTAINS").map ("CONTAINS".toList, ·) <|>
  (c.keyword? "LIKE").map ("LIKE".toList, ·)

def read? (c : Cursor) : Option (Relation Located × Cursor) := do
  let (column, d) ← Located.read? commentsEnd c
  let (operator, e) ← readOperator? d
  let (value, f) ← Term.read? e
  return (⟨column, operator, value.render⟩, f)

/-- Reads `WHERE` and the conditions after it. -/
def readAll? (c : Cursor) : Option (List (Relation Located) × Cursor) := do
  let d ← c.keyword? "WHERE"
  d.sequence? (keyword? "AND") read?

end Relation

/-! ## The order -/

namespace OrderKey

/-- Reads a direction; without one, the order is ascending. -/
def readDescending (c : Cursor) : Bool × Cursor :=
  match c.keyword? "ASC" with
  | some d => (false, d)
  | none => c.flag (keyword? "DESC")

def read? (c : Cursor) : Option (OrderKey Located × Cursor) :=
  (Located.read? commentsEnd c).map fun (column, d) =>
    let (descending, e) := readDescending d
    (⟨column, descending⟩, e)

/-- Reads `ORDER BY` and the keys after it. -/
def readAll? (c : Cursor) : Option (List (OrderKey Located) × Cursor) := do
  let d ← c.keyword? "ORDER"
  let e ← d.keyword? "BY"
  e.sequence? (symbol? ',') read?

end OrderKey

end CqlCanon
