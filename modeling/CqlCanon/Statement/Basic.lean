import CqlCanon.Identifier.Basic

/-!
# Statements

A statement selects columns, calls or all of a table, with optional clauses.
The type is generic in its names: `Select` has checked identifiers, and what a
reader has only located in a text has the same shape.
-/

namespace CqlCanon

/-- A name with an optional alias. -/
structure Named (ν : Type) where
  name : ν
  alias? : Option ν := none
  deriving DecidableEq, Repr

/-- What is selected: everything, a column, or the result of a call. -/
inductive Selector (ν : Type) where
  | star
  | column (named : Named ν)
  | function (named : Named ν)
  deriving DecidableEq, Repr

/-- A table, with the keyspace that holds it if that is given. -/
structure TableName (ν : Type) where
  name : ν
  keyspace : Option ν := none
  deriving DecidableEq, Repr

/-- A condition on a column. Operator and value are kept as they are written. -/
structure Relation (ν : Type) where
  column : ν
  operator : Text
  value : Text
  deriving DecidableEq, Repr

/-- A column to order by. -/
structure OrderKey (ν : Type) where
  column : ν
  descending : Bool := false
  deriving DecidableEq, Repr

structure Statement (ν : Type) where
  distinct : Bool := false
  json : Bool := false
  columns : List (Selector ν)
  table : TableName ν
  relations : List (Relation ν) := []
  order : Option (List (OrderKey ν)) := none
  limit : Option Int := none
  filtering : Bool := false
  deriving DecidableEq, Repr

/-- A statement with checked identifiers. -/
abbrev Select := Statement Identifier

variable {ν : Type}

/-- The name that the item goes by in the result. -/
def Named.effectiveName (n : Named ν) : ν := n.alias?.getD n.name

/-- The column of a selector that selects one. -/
def Selector.column? : Selector ν → Option (Named ν)
  | column named => some named
  | _ => none

namespace Statement

/-- The selected columns; calls and `*` are passed over. -/
def namedColumns (s : Statement ν) : List (Named ν) := s.columns.filterMap Selector.column?

/-- The names of the selected columns. -/
def names (s : Statement ν) : List ν := s.namedColumns.map Named.name

/-- The names that the selected columns go by in the result. -/
def aliases (s : Statement ν) : List ν := s.namedColumns.map Named.effectiveName

/-- The statement with one more selector. -/
def addColumn (s : Statement ν) (selector : Selector ν) : Statement ν :=
  { s with columns := s.columns ++ [selector] }

/-- The statement with one more condition. -/
def addRelation (s : Statement ν) (relation : Relation ν) : Statement ν :=
  { s with relations := s.relations ++ [relation] }

/-- The statement with its table in the given keyspace, unless it names one itself. -/
def qualify (s : Statement ν) (keyspace : Option ν) : Statement ν :=
  { s with table := { s.table with keyspace := s.table.keyspace.or keyspace } }

end Statement

end CqlCanon
