import CqlCanon.Identifier.Parse
import CqlCanon.Statement.Basic

/-!
# Checking the names of a statement

`traverse` applies a check to each name of a statement and stops at the first
refusal. The order is: each selector in turn, its alias before its name; the
keyspace, the table; the columns of the conditions, then those of the order.
-/

namespace CqlCanon

variable {ν μ ε : Type}

/-- A check of a name that may be missing. -/
def checkOption (check : ν → Except ε μ) : Option ν → Except ε (Option μ)
  | none => .ok none
  | some n => (check n).map some

def Named.traverse (check : ν → Except ε μ) (n : Named ν) : Except ε (Named μ) := do
  let label ← checkOption check n.alias?
  let name ← check n.name
  return ⟨name, label⟩

def Selector.traverse (check : ν → Except ε μ) : Selector ν → Except ε (Selector μ)
  | star => .ok .star
  | column named => (named.traverse check).map .column
  | function named => (named.traverse check).map .function

def TableName.traverse (check : ν → Except ε μ) (t : TableName ν) : Except ε (TableName μ) := do
  let keyspace ← checkOption check t.keyspace
  let name ← check t.name
  return ⟨name, keyspace⟩

def Relation.traverse (check : ν → Except ε μ) (r : Relation ν) : Except ε (Relation μ) :=
  (check r.column).map fun column => ⟨column, r.operator, r.value⟩

def OrderKey.traverse (check : ν → Except ε μ) (k : OrderKey ν) : Except ε (OrderKey μ) :=
  (check k.column).map fun column => ⟨column, k.descending⟩

def Statement.traverse (check : ν → Except ε μ) (s : Statement ν) :
    Except ε (Statement μ) := do
  let columns ← s.columns.mapM (Selector.traverse check)
  let table ← s.table.traverse check
  let relations ← s.relations.mapM (Relation.traverse check)
  let order ← checkOption (List.mapM (OrderKey.traverse check)) s.order
  return { distinct := s.distinct, json := s.json, columns, table, relations, order,
           limit := s.limit, filtering := s.filtering }

namespace Named

/-- A name with its alias, both checked. The name is checked first here: the two come as separate
texts. -/
def parse (name : Text × Span) (label : Option (Text × Span)) :
    Except InvalidIdentifier (Named Identifier) := do
  let name ← Identifier.parse name.1 name.2
  let label ← checkOption (fun l => Identifier.parse l.1 l.2) label
  return ⟨name, label⟩

end Named

end CqlCanon
